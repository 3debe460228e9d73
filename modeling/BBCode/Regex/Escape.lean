import BBCode.Regex
import BBCode.Regex.Fault

/-!
# BBCode.Regex.Escape

What a backslash in a pattern makes of the characters after it: a character, a set of characters,
or a question about a place.
-/

namespace BBCode.Regex

/-- Which dialect a part of a pattern is written in. -/
structure Flags where
  ignoreCase : Bool := false
  /-- Lines have starts and ends. -/
  lines : Bool := false
  /-- A dot stands for line ends too. -/
  dotAll : Bool := false
  /-- Blanks and comments do not count. -/
  spaced : Bool := false
  unicode : Bool := true
  /-- A carriage return ends lines too. -/
  returns : Bool := false
  deriving DecidableEq, Repr

/-- A place in a pattern: the number of characters before it, and those after it. -/
structure Cursor where
  pos : Nat
  rest : Text
  deriving DecidableEq, Repr

namespace Cursor

def next? (c : Cursor) : Option Char := c.rest.head?

def bump (c : Cursor) : Cursor :=
  match c.rest with
  | [] => c
  | _ :: r => ⟨c.pos + 1, r⟩

/-- Moves past blanks and comments. -/
def skipSpace : Bool → Nat → Text → Cursor
  | _, n, [] => ⟨n, []⟩
  | true, n, a :: r => skipSpace (a ≠ '\n') (n + 1) r
  | false, n, a :: r =>
    if isBlank a then skipSpace false (n + 1) r
    else if a = '#' then skipSpace true (n + 1) r
    else ⟨n, a :: r⟩

/-- Moves past what does not count. -/
def skip (f : Flags) (c : Cursor) : Cursor := if f.spaced then skipSpace false c.pos c.rest else c

def bumpSkip (f : Flags) (c : Cursor) : Cursor := c.bump.skip f

/-- The character after the next one, and after what does not count. -/
def peek? (f : Flags) (c : Cursor) : Option Char := (c.bumpSkip f).next?

/-- Moves past a word that stands at a cursor. -/
def past? (word : String) (c : Cursor) : Option Cursor :=
  (readWord? id word.toList c.rest).map fun x => ⟨c.pos + x.1.length, x.2⟩

/-- The extent from a place up to a cursor. -/
def since (start : Nat) (c : Cursor) : Extent := ⟨start, c.pos⟩

/-- The extent of the next character. -/
def here (c : Cursor) : Extent := ⟨c.pos, c.bump.pos⟩

/-- The extent between the characters before and after a cursor. -/
def between (c : Cursor) : Extent := ⟨c.pos, c.pos⟩

/-- The characters from a cursor on that are as `p` says, at most `fuel` of them. -/
def collect (f : Flags) (p : Char → Bool) : Nat → Cursor → Text × Cursor
  | 0, c => ([], c)
  | fuel + 1, c =>
    match c.rest with
    | [] => ([], c)
    | a :: _ =>
      if p a then
        let (s, c') := collect f p fuel (c.bumpSkip f)
        (a :: s, c')
      else ([], c)

def takeWhile (f : Flags) (p : Char → Bool) (c : Cursor) : Text × Cursor :=
  collect f p c.rest.length c

end Cursor

/-- A pattern whose layout is good can still mean nothing. -/
abbrev Meaning (α : Type) := Except Fault α

/-- Reading a part of a pattern fails at a fault of its layout. -/
abbrev Reading (α : Type) := Except Fault (α × Cursor)

def fault {α : Type} (cause : FaultCause) (extent : Extent) : Except Fault α :=
  .error ⟨cause, extent⟩

/-- A part of a pattern that is not put together from others. -/
inductive Primitive where
  | char (c : Meaning Char)
  | set (s : Meaning CharSet)
  | look (l : Look)

/-! ## Characters by number -/

def hexValue? (c : Char) : Option Nat :=
  if c.isDigit then some (c.toNat - '0'.toNat)
  else if 'a' ≤ c && c ≤ 'f' then some (c.toNat - 'a'.toNat + 10)
  else if 'A' ≤ c && c ≤ 'F' then some (c.toNat - 'A'.toNat + 10)
  else none

/-- The character with a number, if there is one. -/
def charOfNumber? (n : Nat) : Option Char :=
  if h : n.isValidChar then some (Char.ofNatAux n h) else none

/-- Reads hexadecimal digits, a number of them. -/
def readHexDigits (f : Flags) : Nat → Nat → Cursor → Reading Nat
  | 0, n, c => .ok (n, c)
  | k + 1, n, c =>
    match c.next? with
    | none => fault .escapeCutOff c.between
    | some a =>
      match hexValue? a with
      | none => fault .hexDigit c.here
      | some d => readHexDigits f k (n * 16 + d) (c.bumpSkip f)

/-- Reads hexadecimal digits up to a brace, at most `fuel` characters. The result is `none` if
there are no digits. -/
def readHexBrace (f : Flags) (opened : Nat) : Nat → Option Nat → Cursor → Reading (Option Nat)
  | 0, _, c => fault .escapeCutOff (c.since opened)
  | fuel + 1, n, c =>
    match c.next? with
    | none => fault .escapeCutOff (c.since opened)
    | some '\x7d' => .ok (n, c)
    | some a =>
      match hexValue? a with
      | none => fault .hexDigit c.here
      | some d => readHexBrace f opened fuel (some (n.getD 0 * 16 + d)) (c.bumpSkip f)

/-- Reads the number of a character after the letter `x`, `u` or `U`. Without Unicode two digits
stand for a byte, and a byte that is not ASCII is no text. -/
def readHex (f : Flags) (start : Nat) (digits : Nat) (c : Cursor) : Reading Primitive :=
  let c := c.bumpSkip f
  match c.next? with
  | none => fault .escapeCutOff c.between
  | some '\x7b' =>
    match readHexBrace f c.pos (c.rest.length + 1) none (c.bumpSkip f) with
    | .error e => .error e
    | .ok (n, closing) =>
      let after := closing.bumpSkip f
      match n with
      | none => fault .hexEmpty (after.since c.pos)
      | some n =>
        match charOfNumber? n with
        | none => fault .hexNoCharacter (closing.since (c.pos + 1))
        | some a => .ok (.char (.ok a), after)
  | some _ =>
    match readHexDigits f digits 0 c with
    | .error e => .error e
    | .ok (n, after) =>
      match charOfNumber? n with
      | none => fault .hexNoCharacter (after.since c.pos)
      | some a =>
        if f.unicode || digits ≠ 2 || n < 128 then .ok (.char (.ok a), after)
        else .ok (.char (fault .noText (after.since start)), after)

/-! ## Sets with a name -/

def asciiWord : CharSet :=
  .unions [.range '0' '9', .range 'A' 'Z', .range 'a' 'z', .single '_']

def asciiBlank : CharSet := .union (.range '\t' '\x0d') (.single ' ')

/-- The set of a letter after a backslash. -/
def letterSet? (unicode : Bool) : Char → Option CharSet
  | 'd' => some (if unicode then .digit else .range '0' '9')
  | 's' => some (if unicode then .blank else asciiBlank)
  | 'w' => some (if unicode then .word else asciiWord)
  | _ => none

/-- The complement of a set. Without Unicode it holds bytes that are no text. -/
def outside (f : Flags) (e : Extent) (s : CharSet) : Meaning CharSet :=
  if f.unicode then .ok (.complement s) else fault .noText e

def wordSet (f : Flags) : CharSet := if f.unicode then .word else asciiWord

/-- The set of all characters with a property of Unicode. -/
def propertySet? (name : Text) : Option CharSet :=
  let plain := (name.filter fun c => !(c = ' ' || c = '_' || c = '-')).map Char.toLower
  if plain = "any".toList then some .any
  else if plain = "ascii".toList then some (.range '\x00' '\x7f')
  else if plain = "nd".toList || plain = "decimalnumber".toList || plain = "digit".toList then
    some .digit
  else if plain = "whitespace".toList || plain = "space".toList || plain = "wspace".toList then
    some .blank
  else none

/-- Reads the name of a property after the letter `p` or `P`. -/
def readProperty (f : Flags) (start : Nat) (c : Cursor) : Reading Primitive :=
  let negated := c.next? = some 'P'
  let c := c.bumpSkip f
  let result (name : Text) (after : Cursor) : Reading Primitive :=
    let e := after.since start
    .ok (.set <|
      if !f.unicode then fault .propertyWithoutUnicode e
      else
        match propertySet? name with
        | none => fault .propertyUnknown e
        | some s => .ok (if negated then .complement s else s), after)
  match c.next? with
  | none => fault .escapeCutOff c.between
  | some '\x7b' =>
    let (name, c) := (c.bumpSkip f).takeWhile f (· ≠ '\x7d')
    if c.rest.isEmpty then fault .escapeCutOff c.between else result name c.bump
  | some a => if a = '\\' then fault .propertySpelling c.here else result [a] (c.bumpSkip f)

/-! ## Edges of words -/

def wordEdge? (name : Text) : Option WordEdge :=
  if name = "start".toList then some .start
  else if name = "end".toList then some .stop
  else if name = "start-half".toList then some .halfStart
  else if name = "end-half".toList then some .halfStop
  else none

def isEdgeChar (c : Char) : Bool := c.isAlpha || c = '-'

/-- Reads the name of an edge of a word in braces, if there is one. What stands in the braces can
also be a number of repetitions, which is read later. -/
def readWordEdge (f : Flags) (start : Nat) (c : Cursor) : Reading WordEdge :=
  if c.next? ≠ some '\x7b' then .ok (.edge, c)
  else
    let inner := c.bumpSkip f
    match inner.next? with
    | none => fault .wordEdgeCutOff (inner.since start)
    | some a =>
      if !isEdgeChar a then .ok (.edge, c)
      else
        let (name, after) := inner.takeWhile f isEdgeChar
        if after.next? ≠ some '\x7d' then fault .wordEdgeUnclosed (after.since c.pos)
        else
          match wordEdge? name with
          | none => fault .wordEdgeUnknown (after.since inner.pos)
          | some kind => .ok (kind, after.bump)

/-! ## All escapes -/

/-- The control character that a letter after a backslash stands for. -/
def control? : Char → Option Char
  | 'a' => some '\x07'
  | 'f' => some '\x0c'
  | 't' => some '\t'
  | 'n' => some '\n'
  | 'r' => some '\r'
  | 'v' => some '\x0b'
  | _ => none

/-- Whether a backslash makes a character stand for itself. -/
def isEscapable (c : Char) : Bool :=
  c.toNat < 128 && !c.isAlphanum && c ≠ '<' && c ≠ '>'

/-- Reads an escape from its backslash on. -/
def readEscape (f : Flags) (backslash : Cursor) : Reading Primitive :=
  let start := backslash.pos
  let c := backslash.bump
  match c.next? with
  | none => fault .escapeCutOff (c.since start)
  | some a =>
    let after := c.bump
    let e := after.since start
    if a.isDigit then fault .backreference e
    else if a = 'x' then readHex f start 2 c
    else if a = 'u' then readHex f start 4 c
    else if a = 'U' then readHex f start 8 c
    else if a = 'p' || a = 'P' then readProperty f start c
    else
      match letterSet? f.unicode a, letterSet? f.unicode a.toLower with
      | some s, _ => .ok (.set (.ok s), after)
      | none, some s => .ok (.set (outside f e s), after)
      | none, none =>
        if isEscapable a then .ok (.char (.ok a), after)
        else
          match control? a with
          | some x => .ok (.char (.ok x), after)
          | none =>
            let edge (k : WordEdge) : Primitive := .look (.word (wordSet f) k)
            match a with
            | 'A' => .ok (.look .textStart, after)
            | 'z' => .ok (.look .textEnd, after)
            | 'b' => (readWordEdge f start after).map fun x => (edge x.1, x.2)
            | 'B' => .ok (edge .noEdge, after)
            | '<' => .ok (edge .start, after)
            | '>' => .ok (edge .stop, after)
            | _ => fault .escapeUnknown e

end BBCode.Regex

import BBCode.Regex.Escape

/-!
# BBCode.Regex.Bracket

Sets of characters in square brackets: characters, ranges, sets with a name and brackets inside
brackets, put together by union, intersection and differences.
-/

namespace BBCode.Regex

inductive Operation where
  | intersection
  | difference
  | exclusive
  deriving DecidableEq, Repr

def Operation.apply : Operation → CharSet → CharSet → CharSet
  | intersection => .inter
  | difference => .minus
  | exclusive => .exclusive

/-- What is open where a part of a set is read, the innermost first. -/
inductive Level where
  /-- A bracket, with its extent, and the set that it is a part of. -/
  | bracket (opened : Extent) (negated : Bool) (outer : Meaning CharSet)
  /-- An operation that waits for its second set. -/
  | operation (op : Operation) (first : Meaning CharSet)

def combine (op : Operation) (a b : Meaning CharSet) : Meaning CharSet := do
  return op.apply (← a) (← b)

def unite (a b : Meaning CharSet) : Meaning CharSet := do return .union (← a) (← b)

/-- A set in the dialect of the flags. -/
def withCase (f : Flags) (s : CharSet) : CharSet := if f.ignoreCase then .anyCase s else s

/-- The fault of a set that does not end. -/
def unclosed {α : Type} : List Level → Except Fault α
  | [] => fault .setUnclosed ⟨0, 0⟩
  | .bracket opened _ _ :: _ => fault .setUnclosed opened
  | .operation _ _ :: levels => unclosed levels

/-- Finishes a waiting operation. -/
def settle (s : Meaning CharSet) : List Level → Meaning CharSet × List Level
  | .operation op first :: levels => (combine op first s, levels)
  | levels => (s, levels)

/-! ## Names in colons -/

def asciiSet? (name : Text) : Option CharSet :=
  let digits := CharSet.range '0' '9'
  let upper := CharSet.range 'A' 'Z'
  let lower := CharSet.range 'a' 'z'
  match String.ofList name with
  | "alnum" => some (.unions [digits, upper, lower])
  | "alpha" => some (.union upper lower)
  | "ascii" => some (.range '\x00' '\x7f')
  | "blank" => some (.union (.single '\t') (.single ' '))
  | "cntrl" => some (.union (.range '\x00' '\x1f') (.single '\x7f'))
  | "digit" => some digits
  | "graph" => some (.range '!' '~')
  | "lower" => some lower
  | "print" => some (.range ' ' '~')
  | "punct" => some (.unions [.range '!' '/', .range ':' '@', .range '[' '\x60', .range '\x7b' '~'])
  | "space" => some asciiBlank
  | "upper" => some upper
  | "word" => some asciiWord
  | "xdigit" => some (.unions [digits, .range 'A' 'F', .range 'a' 'f'])
  | _ => none

/-- Reads a name in colons and brackets, if there is one. -/
def readAsciiSet? (f : Flags) (c : Cursor) : Option (CharSet × Cursor) :=
  match c.past? "[:" with
  | none => none
  | some inner =>
    let negated := inner.next? = some '^'
    let inner := if negated then inner.bump else inner
    let name := inner.rest.takeWhile (· ≠ ':')
    match asciiSet? name, readWord? id ":]".toList (inner.rest.drop name.length) with
    | some s, some (_, r) =>
      let s := withCase f s
      some (if negated then .complement s else s, ⟨inner.pos + name.length + 2, r⟩)
    | _, _ => none

/-! ## Brackets -/

/-- Reads the minus signs that a set starts with. They stand for themselves. -/
def readMinuses (f : Flags) (opened : Nat) : Nat → Nat → Cursor → Reading Nat
  | 0, n, c => .ok (n, c)
  | fuel + 1, n, c =>
    if c.next? = some '-' then
      let c := c.bumpSkip f
      if c.rest.isEmpty then fault .setUnclosed ⟨opened, opened⟩
      else readMinuses f opened fuel (n + 1) c
    else .ok (n, c)

/-- The start of a set: whether it is negated, and the characters that stand for themselves
there. -/
structure Opening where
  extent : Extent
  negated : Bool
  start : CharSet

/-- Reads the start of a set from its bracket on. -/
def readOpening (f : Flags) (bracket : Cursor) : Reading Opening :=
  let opened := bracket.pos
  let c := bracket.bumpSkip f
  if c.rest.isEmpty then fault .setUnclosed (c.since opened)
  else
    let negated := c.next? = some '^'
    let c := if negated then c.bumpSkip f else c
    if c.rest.isEmpty then fault .setUnclosed (c.since opened)
    else
      match readMinuses f opened c.rest.length 0 c with
      | .error e => .error e
      | .ok (n, c) =>
        if 0 < n then .ok (⟨c.since opened, negated, withCase f (.single '-')⟩, c)
        else if c.next? = some ']' then
          let c := c.bumpSkip f
          if c.rest.isEmpty then fault .setUnclosed (c.since opened)
          else .ok (⟨c.since opened, negated, withCase f (.single ']')⟩, c)
        else .ok (⟨c.since opened, negated, .none⟩, c)

/-- Reads a character or an escape inside a set. -/
def readSetPrimitive (f : Flags) (c : Cursor) (a : Char) : Reading Primitive :=
  if a = '\\' then readEscape f c else .ok (.char (.ok a), c.bump)

/-- The set that a primitive stands for in brackets. -/
def Primitive.toSet (f : Flags) (e : Extent) : Primitive → Except Fault (Meaning CharSet)
  | .char c => .ok (c.map fun a => withCase f (.single a))
  | .set s => .ok (s.map (withCase f))
  | .look _ => fault .setEscape e

/-- The character that a primitive stands for at an end of a range. -/
def Primitive.toBound (e : Extent) : Primitive → Except Fault (Meaning Char)
  | .char c => .ok c
  | _ => fault .setRangeBound e

/-- The set of a range. Its layout is faulty if its ends are in the wrong order. -/
def rangeSet (f : Flags) (e : Extent) :
    Meaning Char → Meaning Char → Except Fault (Meaning CharSet)
  | .ok a, .ok b => if a ≤ b then .ok (.ok (withCase f (.range a b))) else fault .setRange e
  | .error x, _ => .ok (.error x)
  | _, .error x => .ok (.error x)

/-- Reads a range, or a part of a set that is none. -/
def readRange (f : Flags) (levels : List Level) (c : Cursor) (a : Char) :
    Except Fault (Meaning CharSet × Cursor) := do
  let (first, after) ← readSetPrimitive f c a
  let firstExtent := after.since c.pos
  let c₂ := after.skip f
  if c₂.rest.isEmpty then unclosed levels
  else if c₂.next? ≠ some '-' || c₂.peek? f = some ']' || c₂.peek? f = some '-' then
    return (← first.toSet f firstExtent, c₂)
  else
    let c₃ := c₂.bumpSkip f
    match c₃.next? with
    | none => unclosed levels
    | some b =>
      let (last, after) ← readSetPrimitive f c₃ b
      let low ← first.toBound firstExtent
      let high ← last.toBound (after.since c₃.pos)
      return (← rangeSet f (after.since c.pos) low high, after)

/-- Reads a set inside brackets, over at most `fuel` steps. -/
def readItems (f : Flags) :
    Nat → List Level → Meaning CharSet → Cursor → Except Fault (Meaning CharSet × Cursor)
  | 0, levels, _, _ => unclosed levels
  | fuel + 1, levels, s, c => do
    let c := c.skip f
    match c.rest with
    | [] => unclosed levels
    | '[' :: _ =>
      match readAsciiSet? f c with
      | some (t, c) => readItems f fuel levels (unite s (.ok t)) c
      | none =>
        let (o, c) ← readOpening f c
        readItems f fuel (.bracket o.extent o.negated s :: levels) (.ok o.start) c
    | ']' :: _ =>
      match settle s levels with
      | (s, .bracket opened negated outer :: levels) =>
        let c := c.bump
        let s := if negated then s.bind (outside f (c.since opened.start)) else s
        if levels.isEmpty then return (s, c)
        else readItems f fuel levels (unite outer s) c
      | (_, levels) => unclosed levels
    | '&' :: '&' :: _ =>
      let (first, levels) := settle s levels
      readItems f fuel (.operation .intersection first :: levels) (.ok .none) c.bump.bump
    | '-' :: '-' :: _ =>
      let (first, levels) := settle s levels
      readItems f fuel (.operation .difference first :: levels) (.ok .none) c.bump.bump
    | '~' :: '~' :: _ =>
      let (first, levels) := settle s levels
      readItems f fuel (.operation .exclusive first :: levels) (.ok .none) c.bump.bump
    | a :: _ =>
      let (t, c) ← readRange f levels c a
      readItems f fuel levels (unite s t) c

/-- Reads a set from its bracket on. -/
def readSet (f : Flags) (bracket : Cursor) : Except Fault (Meaning CharSet × Cursor) := do
  let (o, c) ← readOpening f bracket
  readItems f (c.rest.length + 1) [.bracket o.extent o.negated (.ok .none)] (.ok o.start) c

end BBCode.Regex

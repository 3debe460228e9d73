import BBCode.Regex.Bracket

/-!
# BBCode.Regex.Reader

Reading regular expressions. A pattern is read character by character with a stack of the groups
that are open; then the parts that were read must all have a meaning.
-/

namespace BBCode.Regex

/-! ## Repetitions -/

/-- Reads a number of repetitions. Blanks around it do not count. The fault of a missing number is
reported later than others, so the place after it is known in any case. -/
def readCount (f : Flags) (c : Cursor) : Except Fault Nat × Cursor :=
  let (_, c) := c.takeWhile {} isBlank
  let (digits, after) := c.takeWhile f Char.isDigit
  let e := after.since c.pos
  let (_, rest) := after.takeWhile f isBlank
  let n := Nat.ofDigitChars 10 digits 0
  if digits.isEmpty then (fault .countEmpty e, rest)
  else if n ≤ 0xffffffff then (.ok n, rest)
  else (fault .numberTooLarge e, rest)

/-- Moves past a question mark, which makes a repetition take as little as it can; that makes no
difference to whether there is a match. -/
def skipLazy (c : Cursor) : Cursor := if c.next? = some '?' then c.bump else c

/-- Reads numbers of repetitions in braces, from the opening brace on. -/
def readCounts (f : Flags) (brace : Cursor) : Except Fault ((Nat × Option Nat) × Cursor) := do
  let start := brace.pos
  let c := brace.bumpSkip f
  if c.rest.isEmpty then fault .countUnclosed (c.since start)
  else
    let (least, c) := readCount f c
    if c.rest.isEmpty then fault .countUnclosed (c.since start)
    else
      let ((least, most), c) ← (if c.next? = some ',' then do
          let c := c.bumpSkip f
          if c.rest.isEmpty then fault .countUnclosed (c.since start)
          else if c.next? = some '\x7d' then return ((← least, none), c)
          else
            let least ← least
            let (most, c) := readCount f c
            return ((least, some (← most)), c)
        else do
          let least ← least
          return ((least, some least), c) : Except Fault ((Nat × Option Nat) × Cursor))
      if c.next? ≠ some '\x7d' then fault .countUnclosed (c.since start)
      else
        let c := skipLazy (c.bumpSkip f)
        if most.any (· < least) then fault .countRange (c.since start)
        else return ((least, most), c)

/-! ## Flags -/

/-- Sets a flag, or takes it away. -/
def Flags.set? (f : Flags) (on : Bool) : Char → Option Flags
  | 'i' => some { f with ignoreCase := on }
  | 'm' => some { f with lines := on }
  | 's' => some { f with dotAll := on }
  | 'x' => some { f with spaced := on }
  | 'u' => some { f with unicode := on }
  | 'R' => some { f with returns := on }
  | 'U' => some f
  | _ => none

/-- Flags that are being read. -/
structure FlagList where
  flags : Flags
  /-- The characters so far, with their places. -/
  items : List (Char × Extent) := []
  on : Bool := true

/-- Reads flags up to a colon or a closing parenthesis, at most `fuel` of them. -/
def readFlags : Nat → FlagList → Cursor → Reading FlagList
  | 0, _, c => fault .flagCutOff c.between
  | fuel + 1, l, c =>
    match c.next? with
    | none => fault .flagCutOff c.between
    | some a =>
      if a = ':' || a = ')' then
        match l.items with
        | ('-', e) :: _ => fault .flagDanglingMinus e
        | _ => .ok (l, c)
      else
        match if a = '-' then some l.flags else l.flags.set? l.on a, l.items.lookup a with
        | none, _ => fault .flagUnknown c.here
        | _, some e => fault (if a = '-' then .flagTwoMinus e else .flagTwice e) c.here
        | some flags, none =>
          readFlags fuel ⟨flags, (a, c.here) :: l.items, l.on && a ≠ '-'⟩ c.bump

/-! ## Groups -/

/-- The start of a group: names that it adds, and its flags. -/
inductive GroupStart where
  | group (flags : Flags) (name : Option (Text × Extent))
  /-- Flags for what follows, without a group. -/
  | setting (flags : Flags)

def isNameChar (first : Bool) (c : Char) : Bool :=
  c = '_' || if first then isLetter c else c = '.' || c = '[' || c = ']' || isAlphanumeric c

/-- Reads the name of a group up to its bracket. -/
def readName (names : List (Text × Extent)) (c : Cursor) : Reading (Text × Extent) :=
  let name := c.rest.takeWhile (· ≠ '>')
  let good := (name.take 1).takeWhile (isNameChar true)
    ++ (if (name.take 1).all (isNameChar true) then (name.drop 1).takeWhile (isNameChar false)
      else [])
  let stop : Cursor := ⟨c.pos + good.length, c.rest.drop good.length⟩
  if c.rest.isEmpty then fault .nameCutOff c.between
  else if good.length < name.length then fault .nameCharacter stop.here
  else if stop.rest.isEmpty then fault .nameCutOff stop.between
  else if name.isEmpty then fault .nameEmpty c.between
  else
    let e := stop.since c.pos
    match names.lookup name with
    | some earlier => fault (.nameTwice earlier) e
    | none => .ok ((name, e), stop.bump)

def lookArounds : List String := ["?=", "?!", "?<=", "?<!"]

/-- Reads the start of a group from its parenthesis on. -/
def readGroupStart (f : Flags) (names : List (Text × Extent)) (open_ : Cursor) :
    Reading GroupStart :=
  let c := open_.bumpSkip f
  match lookArounds.findSome? c.past? with
  | some after => fault .lookAround (after.since open_.pos)
  | none =>
    match (c.past? "?P<").or (c.past? "?<") with
    | some c => (readName names c).map fun x => (.group f (some x.1), x.2)
    | none =>
      match c.past? "?" with
      | none => .ok (.group f none, c)
      | some inner =>
        if inner.rest.isEmpty then fault .groupUnclosed open_.here
        else
          match readFlags (inner.rest.length + 1) { flags := f } inner with
          | .error e => .error e
          | .ok (l, after) =>
            if after.next? = some ':' then .ok (.group l.flags none, after.bump)
            else if l.items.isEmpty then fault .nothingToRepeat c.between
            else .ok (.setting l.flags, after.bump)

/-! ## Patterns -/

/-- What a pattern has in a row. -/
inductive Part where
  | regex (r : Meaning Regex)
  /-- A change of flags, which cannot be repeated. -/
  | setting

def Part.meaning : Part → Meaning Regex
  | regex r => r
  | setting => .ok .empty

/-- Parts in a row, the last one first. -/
def sequence (parts : List Part) : Meaning Regex :=
  parts.foldl (fun later p => do return .seq (← p.meaning) (← later)) (.ok .empty)

/-- Branches to choose from, the last one first. -/
def choice : List (Meaning Regex) → Meaning Regex
  | [] => .ok .empty
  | [b] => b
  | b :: bs => do
    let earlier ← choice bs
    return .either earlier (← b)

/-- What is being read: the branches before and the parts so far, the last ones first. -/
structure Draft where
  branches : List (Meaning Regex) := []
  parts : List Part := []

namespace Draft

def push (d : Draft) (p : Part) : Draft := { d with parts := p :: d.parts }

def finish (d : Draft) : Meaning Regex := choice (sequence d.parts :: d.branches)

def nextBranch (d : Draft) : Draft := ⟨sequence d.parts :: d.branches, []⟩

end Draft

/-- An open group: the extent of its parenthesis, and the flags and the draft outside it. -/
structure Frame where
  opened : Extent
  flags : Flags
  outer : Draft

structure State where
  frames : List Frame := []
  flags : Flags := {}
  draft : Draft := {}
  names : List (Text × Extent) := []

/-- The set that a dot stands for. -/
def dotSet (f : Flags) (e : Extent) : Meaning CharSet :=
  if !f.unicode then fault .noText e
  else if f.dotAll then .ok .any
  else if f.returns then .ok (.complement (.union (.single '\n') (.single '\r')))
  else .ok (.complement (.single '\n'))

def startLook (f : Flags) : Look :=
  if !f.lines then .textStart else if f.returns then .returnStart else .lineStart

def endLook (f : Flags) : Look :=
  if !f.lines then .textEnd else if f.returns then .returnEnd else .lineEnd

def Primitive.part (f : Flags) : Primitive → Part
  | .char c => .regex (c.map fun a => .one (withCase f (.single a)))
  | .set s => .regex (s.map fun s => .one (withCase f s))
  | .look l => .regex (.ok (.look l))

/-- Repeats the last part. -/
def Draft.repeatLast (d : Draft) (c : Cursor) (least : Nat) (most : Option Nat) :
    Except Fault Draft :=
  match d.parts with
  | .regex r :: parts =>
    .ok { d with parts := .regex (r.map fun r => .times r least most) :: parts }
  | _ => fault .nothingToRepeat c.between

/-- Reads one character of a pattern, or what it starts. -/
def step (st : State) (c : Cursor) (a : Char) : Except Fault (State × Cursor) := do
  let f := st.flags
  let pushed (p : Part) (c : Cursor) : Except Fault (State × Cursor) :=
    .ok ({ st with draft := st.draft.push p }, c)
  let repeated (least : Nat) (most : Option Nat) : Except Fault (State × Cursor) := do
    let d ← st.draft.repeatLast c least most
    return ({ st with draft := d }, skipLazy c.bump)
  match a with
  | '(' =>
    let (g, after) ← readGroupStart f st.names c
    match g with
    | .setting flags =>
      return ({ st with flags, draft := st.draft.push .setting }, after)
    | .group flags name =>
      let frames := ⟨c.here, f, st.draft⟩ :: st.frames
      return ({ frames, flags, names := name.toList ++ st.names }, after)
  | ')' =>
    match st.frames with
    | [] => fault .groupUnopened c.here
    | g :: frames =>
      let d := g.outer.push (.regex st.draft.finish)
      return ({ st with frames, flags := g.flags, draft := d }, c.bump)
  | '|' => return ({ st with draft := st.draft.nextBranch }, c.bump)
  | '[' =>
    let (s, after) ← readSet f c
    pushed (.regex (s.map .one)) after
  | '?' => repeated 0 (some 1)
  | '*' => repeated 0 none
  | '+' => repeated 1 none
  | '\x7b' =>
    let _ ← st.draft.repeatLast c 0 none
    let ((least, most), after) ← readCounts f c
    let d ← st.draft.repeatLast c least most
    return ({ st with draft := d }, after)
  | '.' => pushed (.regex ((dotSet f c.here).map .one)) c.bump
  | '^' => pushed (.regex (.ok (.look (startLook f)))) c.bump
  | '$' => pushed (.regex (.ok (.look (endLook f)))) c.bump
  | '\\' =>
    let (p, after) ← readEscape f c
    pushed (p.part f) after
  | a => pushed ((Primitive.char (.ok a)).part f) c.bump

/-- Reads a pattern from a place on, in at most `fuel` steps. -/
def readFrom : Nat → State → Cursor → Except Fault (Meaning Regex)
  | 0, st, _ => .ok st.draft.finish
  | fuel + 1, st, c => do
    let c := c.skip st.flags
    match c.rest with
    | [] =>
      match st.frames with
      | [] => return st.draft.finish
      | g :: _ => fault .groupUnclosed g.opened
    | a :: _ =>
      let (st, c) ← step st c a
      readFrom fuel st c

/-- The regular expression that a pattern stands for. -/
def read (pattern : Text) : Except Fault Regex :=
  (readFrom (pattern.length + 1) {} ⟨0, pattern⟩).bind id

end BBCode.Regex

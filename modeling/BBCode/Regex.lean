import BBCode.Text.Word

/-!
# BBCode.Regex

Regular expressions, and the question whether one matches anywhere in a text. An expression is
followed from a set of places of a text to the set of places where its matches end; as there are
only so many places, a repetition comes to an end.
-/

namespace BBCode

/-- A set of characters. -/
inductive CharSet where
  | none
  | any
  | range (first last : Char)
  | blank
  | digit
  | word
  | union (a b : CharSet)
  | inter (a b : CharSet)
  | complement (a : CharSet)
  /-- What a set holds in another letter case. -/
  | anyCase (a : CharSet)
  deriving DecidableEq, Repr

namespace CharSet

/-- The characters that are the same up to letter case. -/
def cases (c : Char) : List Char :=
  let low := foldCase c
  c :: low :: low.toUpper ::
    if low = 's' then ['\u017f'] else if low = 'k' then ['\u212a'] else []

def contains : CharSet → Char → Bool
  | none, _ => false
  | any, _ => true
  | range a b, c => a ≤ c && c ≤ b
  | blank, c => isBlank c
  | digit, c => isDecimalDigit c
  | word, c => isWord c
  | union a b, c => a.contains c || b.contains c
  | inter a b, c => a.contains c && b.contains c
  | complement a, c => !a.contains c
  | anyCase a, c => (cases c).any a.contains

def single (c : Char) : CharSet := range c c

def minus (a b : CharSet) : CharSet := inter a (complement b)

/-- What one of two sets holds, but not both. -/
def exclusive (a b : CharSet) : CharSet := union (minus a b) (minus b a)

def unions (as : List CharSet) : CharSet := as.foldl union none

end CharSet

/-- Where a word can be asked to begin or to end. -/
inductive WordEdge where
  /-- Between a character of a word and one that is none, in either order. -/
  | edge
  | noEdge
  | start
  | stop
  /-- No word reaches the place from before. -/
  | halfStart
  /-- No word reaches the place from after. -/
  | halfStop
  deriving DecidableEq, Repr

/-- What can be asked of a place in a text. -/
inductive Look where
  | textStart
  | textEnd
  | lineStart
  | lineEnd
  /-- The start of a line that a carriage return can end too. -/
  | returnStart
  | returnEnd
  /-- An edge of words that consist of some characters. -/
  | word (letters : CharSet) (kind : WordEdge)
  deriving DecidableEq, Repr

namespace Look

/-- Whether a place is as asked, from the characters before and after it. -/
def holds (before after : Option Char) : Look → Bool
  | textStart => before.isNone
  | textEnd => after.isNone
  | lineStart => before.isNone || before = some '\n'
  | lineEnd => after.isNone || after = some '\n'
  | returnStart =>
    before.isNone || before = some '\n' || (before = some '\r' && after ≠ some '\n')
  | returnEnd =>
    after.isNone || after = some '\r' || (after = some '\n' && before ≠ some '\r')
  | word letters kind =>
    let left := before.any letters.contains
    let right := after.any letters.contains
    match kind with
    | .edge => left ≠ right
    | .noEdge => left = right
    | .start => !left && right
    | .stop => left && !right
    | .halfStart => !left
    | .halfStop => !right

end Look

inductive Regex where
  | empty
  | one (s : CharSet)
  | look (l : Look)
  | seq (a b : Regex)
  | either (a b : Regex)
  /-- At least and at most so many times, or without end. -/
  | times (a : Regex) (least : Nat) (most : Option Nat)
  deriving DecidableEq, Repr

namespace Regex

/-- The places in either of two lists, without those of the second that the first has. -/
def join (ps qs : List Nat) : List Nat := ps ++ (qs.filter fun q => !ps.contains q)

/-- The places after a number of steps. -/
def iterate (step : List Nat → List Nat) : Nat → List Nat → List Nat
  | 0, ps => ps
  | n + 1, ps => if ps.isEmpty then [] else iterate step n (step ps)

/-- The places after at most so many steps. -/
def within (step : List Nat → List Nat) : Nat → List Nat → List Nat
  | 0, ps => ps
  | n + 1, ps =>
    let qs := join ps (step ps)
    if qs.length = ps.length then ps else within step n qs

/-- The places of a text where matches end that start at one of some places. After as many steps
as there are places a further one leads nowhere new. -/
def ends (s : Array Char) : Regex → List Nat → List Nat
  | empty, ps => ps
  | one set, ps => (ps.filter fun p => s[p]?.any set.contains).map (· + 1)
  | look l, ps =>
    ps.filter fun p => l.holds (if p = 0 then Option.none else s[p - 1]?) s[p]?
  | seq a b, ps => b.ends s (a.ends s ps)
  | either a b, ps => join (a.ends s ps) (b.ends s ps)
  | times a least most, ps =>
    let limit := s.size + 1
    let more := match most with
      | some n => min (n - least) limit
      | Option.none => limit
    within (a.ends s) more (iterate (a.ends s) (min least limit) ps)

/-- Whether an expression matches a part of a text. -/
def matchesIn (r : Regex) (s : Text) : Bool :=
  !(r.ends s.toArray (List.range (s.length + 1))).isEmpty

end Regex

end BBCode

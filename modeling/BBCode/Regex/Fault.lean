import BBCode.Text

/-!
# BBCode.Regex.Fault

What can be wrong with a pattern, and how that is shown: the pattern with marks under the faulty
part, and the reason below.
-/

namespace BBCode.Regex

/-- A part of a pattern, by the numbers of characters before its start and before its end. -/
structure Extent where
  start : Nat
  stop : Nat
  deriving DecidableEq, Repr

inductive FaultCause where
  | setEscape
  | setRange
  | setRangeBound
  | setUnclosed
  | numberTooLarge
  | hexEmpty
  | hexNoCharacter
  | hexDigit
  | escapeCutOff
  | escapeUnknown
  | flagDanglingMinus
  /-- The flag stands also at an earlier place. -/
  | flagTwice (earlier : Extent)
  | flagTwoMinus (earlier : Extent)
  | flagCutOff
  | flagUnknown
  | nameTwice (earlier : Extent)
  | nameEmpty
  | nameCharacter
  | nameCutOff
  | groupUnclosed
  | groupUnopened
  | countRange
  | countEmpty
  | countUnclosed
  | nothingToRepeat
  | wordEdgeUnclosed
  | wordEdgeUnknown
  | wordEdgeCutOff
  | propertySpelling
  | backreference
  | lookAround
  | propertyUnknown
  | propertyWithoutUnicode
  | noText
  deriving DecidableEq, Repr

namespace FaultCause

def message : FaultCause → String
  | setEscape => "invalid escape sequence found in character class"
  | setRange => "invalid character class range, the start must be <= the end"
  | setRangeBound => "invalid range boundary, must be a literal"
  | setUnclosed => "unclosed character class"
  | numberTooLarge => "decimal literal invalid"
  | hexEmpty => "hexadecimal literal empty"
  | hexNoCharacter => "hexadecimal literal is not a Unicode scalar value"
  | hexDigit => "invalid hexadecimal digit"
  | escapeCutOff => "incomplete escape sequence, reached end of pattern prematurely"
  | escapeUnknown => "unrecognized escape sequence"
  | flagDanglingMinus => "dangling flag negation operator"
  | flagTwice _ => "duplicate flag"
  | flagTwoMinus _ => "flag negation operator repeated"
  | flagCutOff => "expected flag but got end of regex"
  | flagUnknown => "unrecognized flag"
  | nameTwice _ => "duplicate capture group name"
  | nameEmpty => "empty capture group name"
  | nameCharacter => "invalid capture group character"
  | nameCutOff => "unclosed capture group name"
  | groupUnclosed => "unclosed group"
  | groupUnopened => "unopened group"
  | countRange => "invalid repetition count range, the start must be <= the end"
  | countEmpty => "repetition quantifier expects a valid decimal"
  | countUnclosed => "unclosed counted repetition"
  | nothingToRepeat => "repetition operator missing expression"
  | wordEdgeUnclosed =>
    "special word boundary assertion is either unclosed or contains an invalid character"
  | wordEdgeUnknown =>
    "unrecognized special word boundary assertion, "
      ++ "valid choices are: start, end, start-half or end-half"
  | wordEdgeCutOff =>
    "found either the beginning of a special word boundary or a bounded repetition on a \\b "
      ++ "with an opening brace, but no closing brace"
  | propertySpelling => "invalid Unicode character class"
  | backreference => "backreferences are not supported"
  | lookAround => "look-around, including look-ahead and look-behind, is not supported"
  | propertyUnknown => "Unicode property not found"
  | propertyWithoutUnicode => "Unicode not allowed here"
  | noText => "pattern can match invalid UTF-8"

/-- The other place that a fault concerns. -/
def earlier? : FaultCause → Option Extent
  | flagTwice e => some e
  | flagTwoMinus e => some e
  | nameTwice e => some e
  | _ => none

end FaultCause

structure Fault where
  cause : FaultCause
  extent : Extent
  deriving DecidableEq, Repr

namespace Fault

/-- A part of a line. -/
structure Mark where
  /-- The lines before that of the mark. -/
  line : Nat
  /-- The characters of the line before the mark. -/
  column : Nat
  width : Nat

/-- The lines before a place of a pattern, and the characters of its line before it. -/
def place (pattern : Text) (n : Nat) : Nat × Nat :=
  (pattern.take n).foldl (fun x c => if c = '\n' then (x.1 + 1, 0) else (x.1, x.2 + 1)) (0, 0)

/-- The extents that a fault concerns, in their order. -/
def extents (f : Fault) : List Extent := f.cause.earlier?.toList ++ [f.extent]

/-- A text with blanks before it, up to a width. -/
def pad (width : Nat) (s : Text) : Text := List.replicate (width - s.length) ' ' ++ s

/-- The marks under a line, from left to right. -/
def marksFrom (column : Nat) : List Mark → Text
  | [] => []
  | m :: ms =>
    let width := max 1 m.width
    List.replicate (m.column - column) ' ' ++ List.replicate width '^'
      ++ marksFrom (max column m.column + width) ms

/-- What stands before each line, given the width of the numbers of lines: none if there is one
line only. -/
def lineStart (width n : Nat) : Text :=
  if width = 0 then "    ".toList else pad width (decimal n) ++ ": ".toList

/-- The lines of a pattern. An end of line at its end starts no line, and a carriage return before
an end of line does not count. -/
def patternLines (pattern : Text) : List Text :=
  let ls := pattern.splitAt '\n'
  let ended := ls.dropLast.map fun l => if l.getLast? = some '\r' then l.dropLast else l
  ended ++ (ls.getLast?.toList.filter fun l => !l.isEmpty)

/-- The pattern line by line, each line with its marks below it. -/
def drawing (pattern : Text) (marks : List Mark) : Text :=
  let ls := patternLines pattern
  let count := ls.length + if pattern.getLast? = some '\n' then 1 else 0
  let width := if count ≤ 1 then 0 else (decimal count).length
  ls.zipIdx.flatMap fun x =>
    let here := marks.filter fun m => m.line = x.2
    lineStart width (x.2 + 1) ++ x.1 ++ ['\n']
      ++ if here.isEmpty then []
        else List.replicate (if width = 0 then 4 else width + 2) ' ' ++ marksFrom 0 here ++ ['\n']

/-- A remark on an extent over several lines. -/
def linesNote (pattern : Text) (e : Extent) : Text :=
  let a := place pattern e.start
  let b := place pattern e.stop
  "on line ".toList ++ decimal (a.1 + 1) ++ " (column ".toList ++ decimal (a.2 + 1)
    ++ ") through line ".toList ++ decimal (b.1 + 1) ++ " (column ".toList ++ decimal b.2 ++ [')']

/-- The mark for an extent on one line. -/
def mark? (pattern : Text) (e : Extent) : Option Mark :=
  let a := place pattern e.start
  let b := place pattern e.stop
  if a.1 = b.1 then some ⟨a.1, a.2, b.2 - a.2⟩ else none

def divider : Text := List.replicate 79 '~' ++ ['\n']

/-- A fault of a pattern as it is shown. -/
def message (pattern : Text) (f : Fault) : Text :=
  let picture := drawing pattern (f.extents.filterMap (mark? pattern))
  let wide := f.extents.filter fun e => (mark? pattern e).isNone
  "regex parse error:\n".toList
    ++ (if pattern.contains '\n' then
        divider ++ picture ++ divider
          ++ (if wide.isEmpty then []
            else Text.join ['\n'] (wide.map (linesNote pattern)) ++ ['\n'])
      else picture)
    ++ "error: ".toList ++ f.cause.message.toList

end Fault

end BBCode.Regex

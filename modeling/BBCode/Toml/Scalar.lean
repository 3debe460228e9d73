import BBCode.Toml.Quoted
import BBCode.Toml.Value

/-!
# BBCode.Toml.Scalar

The words of TOML that stand for numbers, truth values, dates and times.
-/

namespace BBCode.Toml

/-- The digits of a number, in which single underscores can stand between digits. -/
def digits? (valid : Char → Bool) (s : Text) : Option Text :=
  let parts := Text.splitAt '_' s
  if parts.all fun p => !p.isEmpty && p.all valid then some parts.flatten else none

def isBinaryDigit (c : Char) : Bool := c = '0' || c = '1'
def isOctalDigit (c : Char) : Bool := '0' ≤ c && c ≤ '7'
def isHexDigit (c : Char) : Bool := (hexDigit? c).isSome

/-- A natural number in decimal: one digit, or several of which the first is not zero. -/
def natural? (s : Text) : Option Nat :=
  match digits? Char.isDigit s with
  | none => none
  | some ds =>
    if ds.head? = some '0' && ds.length ≠ 1 then none else some (Nat.ofDigitChars 10 ds 0)

/-- A number after the letter that names its base. -/
def inBase? (base : Nat) (valid : Char → Bool) (s : Text) : Option Int :=
  (digits? valid s).map fun ds =>
    ((ds.filterMap hexDigit?).foldl (fun n d => n * base + d) 0 : Nat)

def integer? : Text → Option Int
  | '0' :: 'x' :: s => inBase? 16 isHexDigit s
  | '0' :: 'o' :: s => inBase? 8 isOctalDigit s
  | '0' :: 'b' :: s => inBase? 2 isBinaryDigit s
  | '-' :: s => (natural? s).map fun n => -(n : Int)
  | '+' :: s => (natural? s).map fun n => (n : Int)
  | s => (natural? s).map fun n => (n : Int)

/-- The integers that can be held. -/
def isInRange (n : Int) : Bool := -(Nat.pow 2 127 : Nat) ≤ n && n < (Nat.pow 2 128 : Nat)

def dropSign : Text → Text
  | '+' :: s => s
  | '-' :: s => s
  | s => s

def isDigitPart (c : Char) : Bool := c.isDigit || c = '_'

/-- Whether the text after the whole part of a float is an exponent. -/
def isExponent : Text → Bool
  | c :: s => (c = 'e' || c = 'E') && (digits? Char.isDigit (dropSign s)).isSome
  | [] => false

/-- Whether a word is a float: a whole part with a fraction or an exponent or both, or one of the
names for infinity and for no number. -/
def isFloat (s : Text) : Bool :=
  let t := dropSign s
  if t = "inf".toList || t = "nan".toList then true
  else
    let rest := t.dropWhile isDigitPart
    (natural? (t.takeWhile isDigitPart)).isSome &&
      match rest with
      | '.' :: r =>
        let after := r.dropWhile isDigitPart
        (digits? Char.isDigit (r.takeWhile isDigitPart)).isSome
          && (after.isEmpty || isExponent after)
      | r => isExponent r

/-- The smallest number that is too large for a float of double precision: the largest such float
and half the distance to the next power of two. -/
def floatLimit : Nat := Nat.pow 2 1024 - Nat.pow 2 970

/-- Whether `m * 10 ^ k` is too large for a float. Far from the limit the number of digits
decides. -/
def isTooLarge (m : Nat) (k : Int) : Bool :=
  let size := (decimal m).length + k
  m ≠ 0 && (310 < size || (300 < size &&
    if 0 ≤ k then floatLimit ≤ m * Nat.pow 10 k.toNat
    else floatLimit * Nat.pow 10 (-k).toNat ≤ m))

def exponent : Text → Int
  | '-' :: s => -(Nat.ofDigitChars 10 (s.filter (· ≠ '_')) 0 : Int)
  | s => Nat.ofDigitChars 10 ((dropSign s).filter (· ≠ '_')) 0

/-- Whether a word that is a float stands for a number that no float can hold. -/
def overflows (s : Text) : Bool :=
  let t := (dropSign s).filter (· ≠ '_')
  let whole := t.takeWhile Char.isDigit
  let rest := t.dropWhile Char.isDigit
  let fraction := if rest.head? = some '.' then rest.tail.takeWhile Char.isDigit else []
  let power := rest.dropWhile fun c => c.isDigit || c = '.'
  isTooLarge (Nat.ofDigitChars 10 (whole ++ fraction) 0) (exponent power.tail - fraction.length)

/-- Two digits as a number. -/
def twoDigits? (a b : Char) : Option Nat :=
  if a.isDigit && b.isDigit then some (Nat.ofDigitChars 10 [a, b] 0) else none

def isLeapYear (y : Nat) : Bool := y % 4 = 0 && (y % 100 ≠ 0 || y % 400 = 0)

def daysInMonth (year : Nat) : Nat → Nat
  | 2 => if isLeapYear year then 29 else 28
  | 4 | 6 | 9 | 11 => 30
  | _ => 31

/-- Reads a date off the front of a word; the result is what follows. -/
def readDate? : Text → Option Text
  | y1 :: y2 :: y3 :: y4 :: '-' :: m1 :: m2 :: '-' :: d1 :: d2 :: r =>
    match twoDigits? y1 y2, twoDigits? y3 y4, twoDigits? m1 m2, twoDigits? d1 d2 with
    | some century, some y, some m, some d =>
      if 1 ≤ m && m ≤ 12 && 1 ≤ d && d ≤ daysInMonth (100 * century + y) m then some r else none
    | _, _, _, _ => none
  | _ => none

/-- Reads a fraction of a second off the front of a word; it can be left out. -/
def dropFraction? : Text → Option Text
  | '.' :: r => if (r.takeWhile Char.isDigit).isEmpty then none else some (r.dropWhile Char.isDigit)
  | r => some r

/-- Reads the seconds of a time off the front of a word; they can be left out. -/
def dropSeconds? : Text → Option Text
  | ':' :: s1 :: s2 :: r =>
    match twoDigits? s1 s2 with
    | some s => if s ≤ 60 then dropFraction? r else none
    | none => none
  | r => some r

/-- Reads a time of day off the front of a word. -/
def readTime? : Text → Option Text
  | h1 :: h2 :: ':' :: m1 :: m2 :: r =>
    match twoDigits? h1 h2, twoDigits? m1 m2 with
    | some h, some m => if h ≤ 23 && m ≤ 59 then dropSeconds? r else none
    | _, _ => none
  | _ => none

/-- Whether a text is empty or the offset of a time from UTC. -/
def isOffset : Text → Bool
  | [] => true
  | ['Z'] => true
  | ['z'] => true
  | [sign, h1, h2, ':', m1, m2] =>
    (sign = '+' || sign = '-') &&
      match twoDigits? h1 h2, twoDigits? m1 m2 with
      | some h, some m => h ≤ 23 && m ≤ 59
      | _, _ => false
  | _ => false

/-- Whether a word is a date, a time, or a date with a time. -/
def isMoment (s : Text) : Bool :=
  match readDate? s with
  | some [] => true
  | some (c :: r) =>
    (c = 'T' || c = 't' || c = ' ') &&
      match readTime? r with
      | some rest => isOffset rest
      | none => false
  | none =>
    match readTime? s with
    | some [] => true
    | _ => false

/-- The value that a word stands for. -/
def ofWord? (s : Text) : Option Value :=
  if s = "true".toList then some (.boolean true)
  else if s = "false".toList then some (.boolean false)
  else
    match integer? s with
    | some n => if isInRange n then some (.integer n) else none
    | none =>
      if isFloat s then if overflows s then none else some .float
      else if isMoment s then some .moment
      else none

/-- Whether a word goes on with this character. -/
def isWordChar (c : Char) : Bool :=
  !(c = ' ' || c = '\t' || c = '\r' || c = '\n' || c = ',' || c = ']' || c = '\x7d' || c = '#')

/-- Reads a word. A date can be followed by a blank and a time. -/
def readWord (s : Text) : Text × Text :=
  let w := s.takeWhile isWordChar
  let r := s.dropWhile isWordChar
  match readDate? w, r with
  | some [], ' ' :: c :: q =>
    if c.isDigit then
      (w ++ ' ' :: (c :: q).takeWhile isWordChar, (c :: q).dropWhile isWordChar)
    else (w, r)
  | _, _ => (w, r)

end BBCode.Toml

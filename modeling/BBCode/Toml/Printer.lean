import BBCode.Text

/-!
# BBCode.Toml.Printer

Writing values of TOML. A string is written in the plainest of the notations that can hold it:
between double quotes, between single quotes, on several lines, and with escapes only where there
is no other way.
-/

namespace BBCode.Toml

/-- The length of the longest run of a character. -/
def longestRun (q : Char) (s : Text) : Nat :=
  (s.foldl (fun (x : Nat × Nat) c =>
    if c = q then (x.1 + 1, max x.2 (x.1 + 1)) else (0, x.2)) (0, 0)).2

/-- Whether a character can only be written as an escape. -/
def needsEscape (c : Char) : Bool :=
  (c.toNat < 32 && c ≠ '\t' && c ≠ '\n') || c.toNat = 127

def hexDigitUpper (n : Nat) : Char := if n < 10 then Nat.digitChar n else Char.ofNat (n + 55)

/-- The escape of a control character. -/
def escapeControl (c : Char) : Text :=
  if c = '\x08' then ['\\', 'b']
  else if c = '\t' then ['\\', 't']
  else if c = '\n' then ['\\', 'n']
  else if c = '\x0c' then ['\\', 'f']
  else if c = '\r' then ['\\', 'r']
  else "\\u00".toList ++ [hexDigitUpper (c.toNat / 16), hexDigitUpper (c.toNat % 16)]

/-- The inside of a basic string. `limit` quotes in a row can stand as they are, of which `run`
have just been written. On several lines a line feed stands as it is. -/
def basicBody (lines : Bool) (limit : Nat) : Nat → Text → Text
  | _, [] => []
  | run, c :: s =>
    if c = '"' then
      if run < limit then '"' :: basicBody lines limit (run + 1) s
      else '\\' :: '"' :: basicBody lines limit 0 s
    else if c = '\\' then '\\' :: '\\' :: basicBody lines limit 0 s
    else if c = '\n' && lines then '\n' :: basicBody lines limit 0 s
    else if c.toNat < 32 || c.toNat = 127 then escapeControl c ++ basicBody lines limit 0 s
    else c :: basicBody lines limit 0 s

def basic (s : Text) : Text := '"' :: basicBody false 0 0 s ++ ['"']

def literal (s : Text) : Text := '\'' :: s ++ ['\'']

/-- A text of several lines starts on a line of its own. -/
def opening (s : Text) : Text := if s.contains '\n' then ['\n'] else []

def basicLines (s : Text) : Text :=
  "\"\"\"".toList ++ opening s ++ basicBody true 2 0 s ++ "\"\"\"".toList

def literalLines (s : Text) : Text := "'''".toList ++ opening s ++ s ++ "'''".toList

/-- A string in the plainest notation that can hold it. -/
def quote (s : Text) : Text :=
  let doubles := longestRun '"' s
  let singles := longestRun '\'' s
  let controls := s.any needsEscape
  let backslash := s.contains '\\'
  let lines := s.contains '\n'
  if !controls && !backslash && doubles = 0 && !lines then basic s
  else if !controls && singles = 0 && !lines then literal s
  else if !controls && !backslash && doubles ≤ 2 then basicLines s
  else if !controls && singles ≤ 2 then literalLines s
  else if lines then basicLines s
  else basic s

/-- An array of numbers, one a line if there are several. -/
def numbers (ns : List Nat) : Text :=
  match ns with
  | [] => "[]".toList
  | [n] => '[' :: decimal n ++ [']']
  | ns => "[\n".toList ++ ns.flatMap (fun n => "    ".toList ++ decimal n ++ ",\n".toList) ++ [']']

def boolean : Bool → Text
  | true => "true".toList
  | false => "false".toList

/-- A line with a key and its value. -/
def field (key : String) (value : Text) : Text := key.toList ++ " = ".toList ++ value ++ ['\n']

end BBCode.Toml

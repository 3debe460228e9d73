import BBCode.Text

/-!
# BBCode.Token

The tokens of bracket markup. Only `[`, `[/`, `]` and `=` carry meaning; everything else is
grouped into runs. Whether a bracket starts a tag is not decided here.

Main statement: `flatMap_source_lex`, the tokens of a text spell that text.
-/

namespace BBCode

inductive Token where
  | openBracket
  | openSlash
  | closeBracket
  | equals
  | text (run : Text)
  deriving DecidableEq, Repr

namespace Token

/-- The spelling of a token. -/
def source : Token → Text
  | openBracket => ['[']
  | openSlash => ['[', '/']
  | closeBracket => [']']
  | equals => ['=']
  | text run => run

/-- Whether a tag can start with this token. -/
def startsTag : Token → Bool
  | openBracket | openSlash => true
  | _ => false

/-- Puts a character in front of a list of tokens, joining a text run that stands first. -/
def joinChar (c : Char) : List Token → List Token
  | text run :: ts => text (c :: run) :: ts
  | ts => text [c] :: ts

/-- The tokens of a text, each as long as possible. -/
def lex : Text → List Token
  | [] => []
  | '[' :: '/' :: s => openSlash :: lex s
  | '[' :: s => openBracket :: lex s
  | ']' :: s => closeBracket :: lex s
  | '=' :: s => equals :: lex s
  | c :: s => joinChar c (lex s)

theorem flatMap_source_joinChar (c : Char) (ts : List Token) :
    (joinChar c ts).flatMap source = c :: ts.flatMap source := by
  fun_cases joinChar c ts <;> simp [source]

theorem flatMap_source_lex (s : Text) : (lex s).flatMap source = s := by
  fun_induction lex s with
  | case1 => rfl
  | case2 s ih => simp [source, ih]
  | case3 s _ ih => simp [source, ih]
  | case4 s ih => simp [source, ih]
  | case5 s ih => simp [source, ih]
  | case6 c s _ _ _ _ ih => rw [flatMap_source_joinChar, ih]

end Token

/-- A stretch of UTF-8 bytes, from `start` to before `stop`. -/
structure Span where
  start : Nat
  stop : Nat
  deriving DecidableEq, Repr

/-- The items of a list with the bytes their sources take when written one after the other,
the first at byte `n`. -/
def withSpans {α : Type} (source : α → Text) : Nat → List α → List (α × Span)
  | _, [] => []
  | n, a :: as =>
    let stop := n + (source a).byteLength
    (a, ⟨n, stop⟩) :: withSpans source stop as

end BBCode

import BBCode.Toml.Reading

/-!
# BBCode.Toml.Quoted

Strings in the four notations of TOML: between double or single quotes, on one line or on several.
Where a string ends is found first; then what stands between its quotes is read.

Main statements: `spanLiteral_append` and `readString?_literal`, a literal string says what is
written.
-/

namespace BBCode.Toml

/-- Whether a character can stand for itself in a string on one line. -/
def isPrintable (c : Char) : Bool := c = '\t' || (32 ≤ c.toNat && c.toNat ≠ 127)

/-! ## Where a string ends -/

/-- What is between quotes, if they are closed, and the text after them. -/
abbrev Span := Option Text × Text

namespace Span

/-- Some more characters before the text of a span. -/
def after (cs : Text) (x : Span) : Span := (x.1.map (cs ++ ·), x.2)

end Span

/-- The rest of a basic string after its quote. It is closed on its line. -/
def spanBasic : Text → Span
  | [] => (none, [])
  | '"' :: r => (some [], r)
  | '\n' :: r => (none, '\n' :: r)
  | '\\' :: '"' :: r => (spanBasic r).after ['\\', '"']
  | '\\' :: '\\' :: r => (spanBasic r).after ['\\', '\\']
  | c :: r => (spanBasic r).after [c]

/-- The rest of a literal string after its quote. It is closed on its line. -/
def spanLiteral : Text → Span
  | [] => (none, [])
  | '\'' :: r => (some [], r)
  | '\n' :: r => (none, '\n' :: r)
  | c :: r => (spanLiteral r).after [c]

/-- The rest of a basic string of several lines after its quotes. One or two quotes before the
closing ones belong to the text. -/
def spanBasicLines : Text → Span
  | [] => (none, [])
  | '"' :: '"' :: '"' :: '"' :: '"' :: r => (some ['"', '"'], r)
  | '"' :: '"' :: '"' :: '"' :: r => (some ['"'], r)
  | '"' :: '"' :: '"' :: r => (some [], r)
  | '\\' :: '"' :: r => (spanBasicLines r).after ['\\', '"']
  | '\\' :: '\\' :: r => (spanBasicLines r).after ['\\', '\\']
  | c :: r => (spanBasicLines r).after [c]

/-- The rest of a literal string of several lines after its quotes. -/
def spanLiteralLines : Text → Span
  | [] => (none, [])
  | '\'' :: '\'' :: '\'' :: '\'' :: '\'' :: r => (some ['\'', '\''], r)
  | '\'' :: '\'' :: '\'' :: '\'' :: r => (some ['\''], r)
  | '\'' :: '\'' :: '\'' :: r => (some [], r)
  | c :: r => (spanLiteralLines r).after [c]

/-! ## What a string says -/

def hexDigit? (c : Char) : Option Nat :=
  if c.isDigit then some (c.toNat - '0'.toNat)
  else if 'a' ≤ c && c ≤ 'f' then some (c.toNat - 'a'.toNat + 10)
  else if 'A' ≤ c && c ≤ 'F' then some (c.toNat - 'A'.toNat + 10)
  else none

/-- The character with a code point in hexadecimal, if there is one. -/
def charOfHex? (digits : Text) : Option Char :=
  match digits.mapM hexDigit? with
  | none => none
  | some ds =>
    let n := ds.foldl (fun n d => n * 16 + d) 0
    if h : n.isValidChar then some (Char.ofNatAux n h) else none

/-- The character that a letter after a backslash stands for. -/
def escaped? : Char → Option Char
  | 'b' => some '\x08'
  | 't' => some '\t'
  | 'n' => some '\n'
  | 'f' => some '\x0c'
  | 'r' => some '\r'
  | 'e' => some '\x1b'
  | '"' => some '"'
  | '\\' => some '\\'
  | _ => none

/-- Puts a character in front of what was read. -/
def prepend (c : Option Char) (x : Option Text) : Option Text :=
  match c, x with
  | some c, some s => some (c :: s)
  | _, _ => none

/-- What a basic string says. -/
def unescape? : Text → Option Text
  | [] => some []
  | '\\' :: 'x' :: a :: b :: r => prepend (charOfHex? [a, b]) (unescape? r)
  | '\\' :: 'u' :: a :: b :: c :: d :: r => prepend (charOfHex? [a, b, c, d]) (unescape? r)
  | '\\' :: 'U' :: a :: b :: c :: d :: e :: f :: g :: h :: r =>
    prepend (charOfHex? [a, b, c, d, e, f, g, h]) (unescape? r)
  | '\\' :: c :: r => prepend (escaped? c) (unescape? r)
  | c :: r => if isPrintable c && c ≠ '\\' then prepend (some c) (unescape? r) else none

/-- Where a basic string of several lines is being read: in its text, between a backslash at the
end of a line and that end, or in the blanks after it, which do not count. -/
inductive LineState where
  | content
  | lineEnd
  | skipping
  deriving DecidableEq, Repr

/-- What a basic string of several lines says. -/
def unescapeLines? : LineState → Text → Option Text
  | .lineEnd, [] => none
  | _, [] => some []
  | .lineEnd, '\n' :: r => unescapeLines? .skipping r
  | .lineEnd, '\r' :: '\n' :: r => unescapeLines? .skipping r
  | .lineEnd, c :: r => if c = ' ' || c = '\t' then unescapeLines? .lineEnd r else none
  | .skipping, '\n' :: r => unescapeLines? .skipping r
  | .skipping, '\r' :: '\n' :: r => unescapeLines? .skipping r
  | .skipping, ' ' :: r => unescapeLines? .skipping r
  | .skipping, '\t' :: r => unescapeLines? .skipping r
  | _, '\\' :: 'x' :: a :: b :: r => prepend (charOfHex? [a, b]) (unescapeLines? .content r)
  | _, '\\' :: 'u' :: a :: b :: c :: d :: r =>
    prepend (charOfHex? [a, b, c, d]) (unescapeLines? .content r)
  | _, '\\' :: 'U' :: a :: b :: c :: d :: e :: f :: g :: h :: r =>
    prepend (charOfHex? [a, b, c, d, e, f, g, h]) (unescapeLines? .content r)
  | _, '\\' :: '\n' :: r => unescapeLines? .skipping r
  | _, '\\' :: '\r' :: '\n' :: r => unescapeLines? .skipping r
  | _, '\\' :: ' ' :: r => unescapeLines? .lineEnd r
  | _, '\\' :: '\t' :: r => unescapeLines? .lineEnd r
  | _, '\\' :: c :: r => prepend (escaped? c) (unescapeLines? .content r)
  | _, '\r' :: '\n' :: r => prepend (some '\r') (prepend (some '\n') (unescapeLines? .content r))
  | _, c :: r =>
    if (isPrintable c && c ≠ '\\') || c = '\n' then prepend (some c) (unescapeLines? .content r)
    else none

/-- What a literal string says. -/
def literal? (s : Text) : Option Text := if s.all isPrintable then some s else none

/-- Whether a text can be the content of a literal string of several lines. -/
def isLines : Text → Bool
  | [] => true
  | '\r' :: '\n' :: r => isLines r
  | c :: r => (isPrintable c || c = '\n') && isLines r

/-- What a literal string of several lines says. -/
def literalLines? (s : Text) : Option Text := if isLines s then some s else none

/-- A line end right after the opening quotes does not count. -/
def dropLineEnd : Text → Text
  | '\n' :: r => r
  | '\r' :: '\n' :: r => r
  | r => r

/-- The string of a span, read by `f`. -/
def Span.read (f : Text → Option Text) (x : Span) : Except Fault Text × Text :=
  (orMalformed (x.1.bind f), x.2)

/-- Reads a string on one line. -/
def readQuoted? : Text → Reading Text
  | '"' :: r => some ((spanBasic r).read unescape?)
  | '\'' :: r => some ((spanLiteral r).read literal?)
  | _ => none

/-- Reads a string of any kind. -/
def readString? : Text → Reading Text
  | '"' :: '"' :: '"' :: r =>
    some ((spanBasicLines r).read fun s => unescapeLines? .content (dropLineEnd s))
  | '\'' :: '\'' :: '\'' :: r =>
    some ((spanLiteralLines r).read fun s => literalLines? (dropLineEnd s))
  | s => readQuoted? s

theorem spanLiteral_append {s r : Text} (h : ∀ c ∈ s, c ≠ '\'' ∧ c ≠ '\n') :
    spanLiteral (s ++ '\'' :: r) = (some s, r) := by
  induction s with
  | nil => rfl
  | cons c s ih =>
    obtain ⟨hq, hn⟩ := h c List.mem_cons_self
    have ih := ih fun d hd => h d (List.mem_cons_of_mem _ hd)
    rw [List.cons_append, spanLiteral.eq_def]
    split
    · rename_i heq; cases heq
    · rename_i heq; cases heq; exact absurd rfl hq
    · rename_i heq; cases heq; exact absurd rfl hn
    · rename_i heq
      cases heq
      rw [ih]
      rfl

theorem readString?_literal {s r : Text} (h : ∀ c ∈ s, isPrintable c = true ∧ c ≠ '\'')
    (hs : s ≠ []) : readString? ('\'' :: s ++ '\'' :: r) = some (.ok s, r) := by
  have hline : ∀ c ∈ s, c ≠ '\'' ∧ c ≠ '\n' := fun c hc =>
    ⟨(h c hc).2, by rintro rfl; exact absurd (h _ hc).1 (by decide)⟩
  have hall : s.all isPrintable = true := List.all_eq_true.2 fun c hc => (h c hc).1
  have hread : readQuoted? ('\'' :: s ++ '\'' :: r) = some (.ok s, r) := by
    rw [List.cons_append, readQuoted?, spanLiteral_append hline]
    simp [Span.read, literal?, hall, orMalformed]
  cases s with
  | nil => exact absurd rfl hs
  | cons c s =>
    rw [← hread, List.cons_append, List.cons_append, readString?]
    · intro r' heq
      cases heq
    · intro r' heq
      simp only [List.cons.injEq, true_and] at heq
      exact (hline c List.mem_cons_self).1 heq.1

end BBCode.Toml

import BBCode.Text

/-!
# BBCode.Text.Escape

Writing text so that HTML reads it back as it was: `escape` for the content of an element,
`escapeQuoted` for an attribute value between double quotes.
-/

namespace BBCode.Text

def escapeChar : Char → Text
  | '&' => "&amp;".toList
  | '<' => "&lt;".toList
  | '>' => "&gt;".toList
  | c => [c]

def escape (s : Text) : Text := s.flatMap escapeChar

/-- Inside double quotes the quote is escaped too. -/
def escapeQuoted (s : Text) : Text :=
  s.flatMap fun c => if c = '"' then "&quot;".toList else escapeChar c

end BBCode.Text

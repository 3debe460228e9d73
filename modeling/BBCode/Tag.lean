import BBCode.Text.Pattern
import BBCode.Token

/-!
# BBCode.Tag

Tags of bracket markup: `[name]`, `[name=param]` with a parameter up to the first `]`, and
`[/name]`. Names are ASCII letters, digits, `*` and `-`. Whatever fits none of these shapes is
text. Tags are not paired here, because pairing rules differ from tag to tag.

Main statement: `flatMap_source_scan`, the tags of a text spell that text.
-/

namespace BBCode

inductive Tag where
  | opening (name : Text) (param : Option Text)
  | closing (name : Text)
  | text (run : Text)
  deriving DecidableEq, Repr

namespace Tag

/-- The spelling of a tag. -/
def source : Tag → Text
  | opening name none => '[' :: name ++ [']']
  | opening name (some param) => '[' :: name ++ '=' :: param ++ [']']
  | closing name => '[' :: '/' :: name ++ [']']
  | text run => run

def isNameChar (c : Char) : Bool := c.isAlphanum || c = '*' || c = '-'

def isName (s : Text) : Bool := !s.isEmpty && s.all isNameChar

/-- Whether this is an opening tag called `name`, up to ASCII case. -/
def opens (name : Text) : Tag → Bool
  | opening n _ => n.sameAscii name
  | _ => false

/-- Whether this is a closing tag called `name`, up to ASCII case. -/
def closes (name : Text) : Tag → Bool
  | closing n => n.sameAscii name
  | _ => false

/-- The text of the tokens before the first `]`, and the tokens after it. -/
def readParam? : List Token → Option (Text × List Token)
  | [] => none
  | .closeBracket :: ts => some ([], ts)
  | t :: ts => (readParam? ts).map fun x => (t.source ++ x.1, x.2)

/-- Reads a tag off the front of a list of tokens. -/
def read? : List Token → Option (Tag × List Token)
  | .openSlash :: .text n :: .closeBracket :: ts =>
    if isName n then some (closing n, ts) else none
  | .openBracket :: .text n :: .closeBracket :: ts =>
    if isName n then some (opening n none, ts) else none
  | .openBracket :: .text n :: .equals :: ts =>
    if isName n then (readParam? ts).map fun x => (opening n (some x.1), x.2) else none
  | _ => none

theorem readParam?_length {ts rest : List Token} {p : Text}
    (h : readParam? ts = some (p, rest)) : rest.length < ts.length := by
  induction ts generalizing p with
  | nil => simp [readParam?] at h
  | cons t ts ih =>
    unfold readParam? at h
    split at h
    · cases ‹t :: ts = []›
    · rename_i us heq
      cases heq
      cases h
      simp
    · rename_i u us _ heq
      cases heq
      simp only [Option.map_eq_some_iff, Prod.mk.injEq] at h
      obtain ⟨x, hx, _, rfl⟩ := h
      have := ih hx
      simp only [List.length_cons]
      omega

theorem read?_length {ts rest : List Token} {t : Tag}
    (h : read? ts = some (t, rest)) : rest.length < ts.length := by
  unfold read? at h
  split at h
  · split at h
    · cases h; simp only [List.length_cons]; omega
    · cases h
  · split at h
    · cases h; simp only [List.length_cons]; omega
    · cases h
  · split at h
    · simp only [Option.map_eq_some_iff, Prod.mk.injEq] at h
      obtain ⟨x, hx, _, rfl⟩ := h
      have := readParam?_length hx
      simp only [List.length_cons]
      omega
    · cases h
  · cases h

/-- Reading a tag, as a pattern on tokens. -/
def pattern : Pattern Token Tag where
  read? := read?
  shorter := read?_length

/-- Puts text in front of a list of tags, joining text that stands first. -/
def joinText (s : Text) : List Tag → List Tag
  | text run :: ts => text (s ++ run) :: ts
  | ts => text s :: ts

/-- The tags among the pieces, the tokens between them joined to text. -/
def ofPieces : List (Piece Token Tag) → List Tag
  | [] => []
  | .plain t :: ps => joinText t.source (ofPieces ps)
  | .found t :: ps => t :: ofPieces ps

def scan (s : Text) : List Tag := ofPieces (pattern.pieces (Token.lex s))

theorem flatMap_source_joinText (s : Text) (ts : List Tag) :
    (joinText s ts).flatMap source = s ++ ts.flatMap source := by
  fun_cases joinText s ts <;> simp [source]

theorem readParam?_source {ts rest : List Token} {p : Text} (h : readParam? ts = some (p, rest)) :
    ts.flatMap Token.source = p ++ ']' :: rest.flatMap Token.source := by
  induction ts generalizing p with
  | nil => simp [readParam?] at h
  | cons t ts ih =>
    unfold readParam? at h
    split at h
    · cases ‹t :: ts = []›
    · rename_i us heq
      cases heq
      cases h
      simp [Token.source]
    · rename_i u us _ heq
      cases heq
      simp only [Option.map_eq_some_iff, Prod.mk.injEq] at h
      obtain ⟨x, hx, rfl, rfl⟩ := h
      simp [ih hx]

theorem read?_source {ts rest : List Token} {t : Tag} (h : read? ts = some (t, rest)) :
    ts.flatMap Token.source = t.source ++ rest.flatMap Token.source := by
  unfold read? at h
  split at h
  · split at h
    · cases h; simp [Token.source, source]
    · cases h
  · split at h
    · cases h; simp [Token.source, source]
    · cases h
  · split at h
    · simp only [Option.map_eq_some_iff, Prod.mk.injEq] at h
      obtain ⟨x, hx, rfl, rfl⟩ := h
      simp [Token.source, source, readParam?_source hx]
    · cases h
  · cases h

theorem flatMap_source_ofPieces (ts : List Token) :
    (ofPieces (pattern.pieces ts)).flatMap source = ts.flatMap Token.source := by
  fun_induction Pattern.pieces pattern ts with
  | case1 => simp [ofPieces]
  | case2 t ts tag rest h ih =>
    rw [ofPieces, List.flatMap_cons, ih]
    exact (read?_source h).symm
  | case3 t ts h ih => simp [ofPieces, flatMap_source_joinText, ih]

theorem flatMap_source_scan (s : Text) : (scan s).flatMap source = s := by
  rw [scan, flatMap_source_ofPieces, Token.flatMap_source_lex]

end Tag

end BBCode

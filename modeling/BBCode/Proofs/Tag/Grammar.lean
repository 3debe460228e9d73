import BBCode.Tag
import BBCode.Proofs.Text.Skip

/-!
# BBCode.Proofs.Tag.Grammar

Tags read off a text directly, without tokens in between.

* `readTag?`: the shape of a tag, character by character.
* `scan_eq_ofChars`: the tags that the scanner finds by way of tokens are the tags read so, with
  the characters between them joined to text.
* `readTag?_append`: a tag is read where it is spelled.
-/

namespace BBCode

namespace Token

/-- The characters that are tokens by themselves or start one. -/
def isMark (c : Char) : Bool := c = '[' || c = ']' || c = '='

theorem lex_cons {c : Char} (h : isMark c = false) (s : Text) :
    lex (c :: s) = joinChar c (lex s) := by
  simp only [isMark, Bool.or_eq_false_iff, decide_eq_false_iff_not] at h
  obtain ⟨⟨h1, h2⟩, h3⟩ := h
  rw [lex]
  · intro s' heq _
    exact h1 heq
  · exact h1
  · exact h2
  · exact h3

theorem lex_bracket {s : Text} (h : s.head? ≠ some '/') : lex ('[' :: s) = openBracket :: lex s := by
  cases s with
  | nil => rfl
  | cons c s =>
    rw [lex]
    intro s' heq
    cases heq
    exact h rfl

theorem joinChar_eq (c : Char) (ts : List Token) :
    ∃ run us, joinChar c ts = text (c :: run) :: us := by
  fun_cases joinChar c ts with
  | case1 run ts => exact ⟨run, ts, rfl⟩
  | case2 => exact ⟨[], ts, rfl⟩

theorem foldr_joinChar_text (n run : Text) (ts : List Token) :
    n.foldr joinChar (text run :: ts) = text (n ++ run) :: ts := by
  induction n with
  | nil => rfl
  | cons c n ih => rw [List.foldr_cons, ih]; rfl

theorem lex_append {n : Text} (h : ∀ c ∈ n, isMark c = false) (s : Text) :
    lex (n ++ s) = n.foldr joinChar (lex s) := by
  induction n with
  | nil => rfl
  | cons c n ih =>
    rw [List.cons_append, lex_cons (h c (by simp)), ih fun d hd => h d (by simp [hd])]
    rfl

/-- No run of text stands in front of a mark. -/
theorem lex_of_mark {s : Text} (h : ∀ c r, s = c :: r → isMark c = true) (run : Text)
    (ts : List Token) : lex s ≠ text run :: ts := by
  fun_cases lex s with
  | case1 => simp
  | case2 s => simp
  | case3 s => simp
  | case4 s => simp
  | case5 s => simp
  | case6 c s h1 h2 h3 h4 =>
    have hc := h c s rfl
    simp only [isMark, Bool.or_eq_true, decide_eq_true_eq] at hc
    rcases hc with (rfl | rfl) | rfl
    · exact absurd rfl h2
    · exact absurd rfl h3
    · exact absurd rfl h4

theorem joinChar_of_mark {s : Text} (h : ∀ c r, s = c :: r → isMark c = true) (c : Char) :
    joinChar c (lex s) = text [c] :: lex s := by
  have hs := lex_of_mark h
  revert hs
  generalize lex s = ts
  intro hs
  rw [joinChar]
  intro run us heq
  exact hs run us heq

/-- A run that ends at a mark is one token. -/
theorem lex_run {n s : Text} (hn : ∀ c ∈ n, isMark c = false) (hne : n ≠ [])
    (hs : ∀ c r, s = c :: r → isMark c = true) : lex (n ++ s) = text n :: lex s := by
  obtain ⟨m, c, rfl⟩ : ∃ m c, n = m ++ [c] := 
    ⟨n.dropLast, n.getLast hne, (List.dropLast_concat_getLast hne).symm⟩
  rw [lex_append hn, List.foldr_append, List.foldr_cons, List.foldr_nil, joinChar_of_mark hs,
    foldr_joinChar_text]

end Token

namespace Tag

/-- The characters of a name in front of a text. -/
def nameOf (s : Text) : Text := s.takeWhile isNameChar

/-- What follows the characters of a name. -/
def afterName (s : Text) : Text := s.dropWhile isNameChar

/-- Reads what follows the bracket and the slash of a closing tag. -/
def readClosing? (s : Text) : Option (Tag × Text) :=
  if (nameOf s).isEmpty then none
  else (readWord? id [']'] (afterName s)).map fun x => (closing (nameOf s), x.2)

/-- Reads what follows the bracket of an opening tag. -/
def readOpening? (s : Text) : Option (Tag × Text) :=
  if (nameOf s).isEmpty then none
  else
    match readWord? id [']'] (afterName s) with
    | some (_, r) => some (opening (nameOf s) none, r)
    | none =>
      match readWord? id ['='] (afterName s) with
      | some (_, r) => (nearest? id [']'] r).map fun x => (opening (nameOf s) (some x.1), x.2.2)
      | none => none

/-- Reads a tag off the front of a text. -/
def readTag? : Text → Option (Tag × Text)
  | '[' :: '/' :: s => readClosing? s
  | '[' :: s => readOpening? s
  | _ => none

theorem readTag?_opening {s : Text} (hs : s.head? ≠ some '/') :
    readTag? ('[' :: s) = readOpening? s := by
  rw [readTag?]
  rintro r rfl
  exact hs rfl

theorem nameOf_append_afterName (s : Text) : nameOf s ++ afterName s = s :=
  List.takeWhile_append_dropWhile

theorem isNameChar_of_mem_nameOf {s : Text} {c : Char} (h : c ∈ nameOf s) : isNameChar c = true :=
  List.all_eq_true.1 List.all_takeWhile c h

theorem head_afterName {s r : Text} {c : Char} (h : afterName s = c :: r) :
    isNameChar c = false := by
  have hc := List.head?_dropWhile_not isNameChar s
  rw [show s.dropWhile isNameChar = c :: r from h] at hc
  simpa using hc

theorem isMark_of_isNameChar {c : Char} (h : isNameChar c = true) : Token.isMark c = false := by
  cases hm : Token.isMark c with
  | false => rfl
  | true =>
    simp only [Token.isMark, Bool.or_eq_true, decide_eq_true_eq] at hm
    rcases hm with (rfl | rfl) | rfl <;> exact absurd h (by decide)

/-- What is lexed behind the bracket of a tag: either the name as one token and then a mark, or
nothing that starts with a name. -/
theorem lex_name (s : Text) :
    (nameOf s ≠ [] ∧ (∀ c r, afterName s = c :: r → Token.isMark c = true) ∧
      Token.lex s = .text (nameOf s) :: Token.lex (afterName s)) ∨
    ((nameOf s = [] ∨ ∃ c r, afterName s = c :: r ∧ Token.isMark c = false) ∧
      ∀ m ts, Token.lex s = .text m :: ts → isName m = false) := by
  have hsplit := nameOf_append_afterName s
  have hmark : ∀ c ∈ nameOf s, Token.isMark c = false := fun c hc =>
    isMark_of_isNameChar (isNameChar_of_mem_nameOf hc)
  -- what is read when the first characters that are no part of a name come before any mark
  have hrun : ∀ c r, afterName s = c :: r → Token.isMark c = false →
      ∀ m ts, Token.lex s = .text m :: ts → isName m = false := by
    intro c r hr hc m ts hm
    obtain ⟨run, us, hrun⟩ := Token.joinChar_eq c (Token.lex r)
    rw [← hsplit, hr, Token.lex_append hmark, Token.lex_cons hc, hrun,
      Token.foldr_joinChar_text] at hm
    cases hm
    simp [isName, head_afterName hr]
  by_cases hn : nameOf s = []
  · right
    refine ⟨.inl hn, ?_⟩
    have hs : afterName s = s := by
      rw [hn] at hsplit
      exact hsplit
    cases hcs : s with
    | nil => intro m ts h; cases h
    | cons c r =>
      rw [← hcs]
      cases hc : Token.isMark c with
      | true =>
        intro m ts h
        refine absurd h (Token.lex_of_mark ?_ m ts)
        intro d q hd
        rw [hcs] at hd
        cases hd
        exact hc
      | false => exact hrun c r (hs.trans hcs) hc
  · by_cases hm : ∀ c r, afterName s = c :: r → Token.isMark c = true
    · left
      refine ⟨hn, hm, ?_⟩
      conv => lhs; rw [← hsplit]
      exact Token.lex_run hmark hn hm
    · right
      simp only [Classical.not_forall] at hm
      obtain ⟨c, r, hr, hc⟩ := hm
      have hc : Token.isMark c = false := by simpa using hc
      exact ⟨.inr ⟨c, r, hr, hc⟩, hrun c r hr hc⟩

theorem isName_nameOf {s : Text} (h : nameOf s ≠ []) : isName (nameOf s) = true := by
  have hall : (nameOf s).all isNameChar = true := List.all_takeWhile
  simp [isName, hall, h]

/-- Where no name follows the first token, no tag is read. -/
theorem read?_of_not_isName (t : Token) {ts : List Token}
    (h : ∀ m us, ts = .text m :: us → isName m = false) : read? (t :: ts) = none := by
  unfold read?
  split
  · rename_i n us heq
    cases heq
    simp [h n _ rfl]
  · rename_i n us heq
    cases heq
    simp [h n _ rfl]
  · rename_i n us heq
    cases heq
    simp [h n _ rfl]
  · rfl

theorem readParam?_lex (s : Text) :
    readParam? (Token.lex s) = (nearest? id [']'] s).map fun x => (x.1, Token.lex x.2.2) := by
  fun_induction Token.lex s with
  | case1 => rfl
  | case2 s ih =>
    simp only [readParam?, ih, nearest?, readWord?]
    cases nearest? id [']'] s <;> simp [Token.source]
  | case3 s _ ih =>
    simp only [readParam?, ih, nearest?, readWord?]
    cases nearest? id [']'] s <;> simp [Token.source]
  | case4 s ih => simp [readParam?, nearest?, readWord?]
  | case5 s ih =>
    simp only [readParam?, ih, nearest?, readWord?]
    cases nearest? id [']'] s <;> simp [Token.source]
  | case6 c s _ _ h3 _ ih =>
    have hc : id c ≠ ']' := fun h => h3 h
    rw [nearest?, readWord?_cons_of_ne hc]
    -- a run that stands first is lengthened, otherwise a run starts here
    revert ih
    generalize Token.lex s = ts
    intro ih
    fun_cases Token.joinChar c ts with
    | case1 run us =>
      simp only [readParam?] at ih ⊢
      cases hu : readParam? us with
      | none =>
        rw [hu] at ih
        simp only [Option.map_none] at ih ⊢
        simp [Option.map_eq_none_iff.1 ih.symm]
      | some x =>
        rw [hu] at ih
        simp only [Option.map_some] at ih ⊢
        obtain ⟨y, hy, hxy⟩ := Option.map_eq_some_iff.1 ih.symm
        rw [hy]
        simp only [Option.map_some, Option.some.injEq, Prod.mk.injEq, Token.source] at hxy ⊢
        exact ⟨by rw [hxy.1]; rfl, hxy.2.symm⟩
    | case2 =>
      rw [readParam?, ih]
      · cases nearest? id [']'] s <;> simp [Token.source]
      · simp

/-- What a text starts with where it does not go on with a run of text. -/
theorem mark_cases {s : Text} (h : ∀ c r, s = c :: r → Token.isMark c = true) :
    s = [] ∨ ∃ r, s = '[' :: r ∨ s = ']' :: r ∨ s = '=' :: r := by
  cases s with
  | nil => exact .inl rfl
  | cons c r =>
    have hc := h c r rfl
    simp only [Token.isMark, Bool.or_eq_true, decide_eq_true_eq] at hc
    rcases hc with (rfl | rfl) | rfl
    · exact .inr ⟨r, .inl rfl⟩
    · exact .inr ⟨r, .inr (.inl rfl)⟩
    · exact .inr ⟨r, .inr (.inr rfl)⟩

theorem lex_bracket_cases (r : Text) :
    (∃ ts, Token.lex ('[' :: r) = .openSlash :: ts) ∨
      ∃ ts, Token.lex ('[' :: r) = .openBracket :: ts := by
  by_cases h : r.head? = some '/'
  · obtain ⟨q, rfl⟩ := List.head?_eq_some_iff.1 h
    exact .inl ⟨_, rfl⟩
  · exact .inr ⟨_, Token.lex_bracket h⟩

theorem read?_closing (s : Text) :
    read? (.openSlash :: Token.lex s) =
      (readTag? ('[' :: '/' :: s)).map fun x => (x.1, Token.lex x.2) := by
  rw [readTag?, readClosing?]
  rcases lex_name s with ⟨hn, hm, hl⟩ | ⟨hn, hl⟩
  · rw [if_neg (by simpa using hn), hl]
    rcases mark_cases hm with hr | ⟨r, hr | hr | hr⟩
    · simp [hr, read?, Token.lex, readWord?]
    · rcases lex_bracket_cases r with ⟨ts, hts⟩ | ⟨ts, hts⟩ <;> simp [hr, hts, read?, readWord?]
    · simp [hr, read?, Token.lex, readWord?, isName_nameOf hn]
    · simp [hr, read?, Token.lex, readWord?]
  · rw [read?_of_not_isName _ hl]
    rcases hn with hn | ⟨c, r, hr, hc⟩
    · simp [hn]
    · have hne : id c ≠ ']' := by
        rintro rfl
        exact absurd hc (by decide)
      simp [hr, readWord?_cons_of_ne hne]

theorem read?_opening {s : Text} (hs : s.head? ≠ some '/') :
    read? (.openBracket :: Token.lex s) =
      (readTag? ('[' :: s)).map fun x => (x.1, Token.lex x.2) := by
  rw [readTag?_opening hs, readOpening?]
  rcases lex_name s with ⟨hn, hm, hl⟩ | ⟨hn, hl⟩
  · rw [if_neg (by simpa using hn), hl]
    rcases mark_cases hm with hr | ⟨r, hr | hr | hr⟩
    · simp [hr, read?, Token.lex, readWord?]
    · rcases lex_bracket_cases r with ⟨ts, hts⟩ | ⟨ts, hts⟩ <;> simp [hr, hts, read?, readWord?]
    · simp [hr, read?, Token.lex, readWord?, isName_nameOf hn]
    · simp [hr, read?, Token.lex, readWord?, isName_nameOf hn, readParam?_lex, Function.comp_def]
  · rw [read?_of_not_isName _ hl]
    rcases hn with hn | ⟨c, r, hr, hc⟩
    · simp [hn]
    · have h1 : id c ≠ ']' := by
        rintro rfl
        exact absurd hc (by decide)
      have h2 : id c ≠ '=' := by
        rintro rfl
        exact absurd hc (by decide)
      simp [hr, readWord?_cons_of_ne h1, readWord?_cons_of_ne h2]

theorem read?_of_not_bracket {t : Token} (h : t.startsTag = false) (ts : List Token) :
    read? (t :: ts) = none := by
  unfold read?
  split
  · rename_i heq
    cases heq
    cases h
  · rename_i heq
    cases heq
    cases h
  · rename_i heq
    cases heq
    cases h
  · rfl

theorem readTag?_of_ne {c : Char} (h : c ≠ '[') (s : Text) : readTag? (c :: s) = none := by
  unfold readTag?
  split
  · rename_i heq
    exact absurd (List.cons.inj heq).1 h
  · rename_i heq
    exact absurd (List.cons.inj heq).1 h
  · rfl

theorem eq_cons_of_readWord? {c : Char} {s a r : Text} (h : readWord? id [c] s = some (a, r)) :
    s = c :: r := by
  obtain ⟨ha, hs⟩ := readWord?_eq_some.1 h
  rw [List.map_id] at ha
  rw [hs, ha]
  rfl

theorem readTag?_source {s r : Text} {t : Tag} (h : readTag? s = some (t, r)) :
    s = t.source ++ r ∧ t.source ≠ [] := by
  unfold readTag? at h
  split at h
  · rename_i s
    unfold readClosing? at h
    split at h
    · cases h
    · simp only [Option.map_eq_some_iff, Prod.mk.injEq] at h
      obtain ⟨⟨a, q⟩, hq, rfl, rfl⟩ := h
      have hs := nameOf_append_afterName s
      rw [eq_cons_of_readWord? hq] at hs
      exact ⟨(congrArg (['[', '/'] ++ ·) hs.symm).trans (by simp [source]), by simp [source]⟩
  · rename_i s _
    unfold readOpening? at h
    split at h
    · cases h
    · split at h
      · rename_i a q hq
        cases h
        have hs := nameOf_append_afterName s
        rw [eq_cons_of_readWord? hq] at hs
        exact ⟨(congrArg ('[' :: ·) hs.symm).trans (by simp [source]), by simp [source]⟩
      · split at h
        · rename_i a q hq
          simp only [Option.map_eq_some_iff, Prod.mk.injEq] at h
          obtain ⟨⟨b, m, r⟩, hb, rfl, rfl⟩ := h
          obtain ⟨hs, hm⟩ := nearest?_append hb
          rw [List.map_id] at hm
          have hn := nameOf_append_afterName s
          rw [eq_cons_of_readWord? hq, hs, hm] at hn
          exact ⟨(congrArg ('[' :: ·) hn.symm).trans (by simp [source]), by simp [source]⟩
        · cases h
  · cases h

theorem readTag?_length {s r : Text} {t : Tag} (h : readTag? s = some (t, r)) :
    r.length < s.length := by
  obtain ⟨hs, hne⟩ := readTag?_source h
  have hpos := List.length_pos_iff.2 hne
  rw [hs, List.length_append]
  omega

/-- Tags as a pattern on characters. -/
def grammar : Pattern Char Tag where
  read? := readTag?
  shorter := readTag?_length

/-- The tags among the pieces, the characters between them joined to text. -/
def ofChars : List (Piece Char Tag) → List Tag
  | [] => []
  | .plain c :: ps => joinText [c] (ofChars ps)
  | .found t :: ps => t :: ofChars ps

theorem joinText_joinText (a b : Text) (ts : List Tag) :
    joinText a (joinText b ts) = joinText (a ++ b) ts := by
  cases ts with
  | nil => rfl
  | cons t ts => cases t <;> simp [joinText]

/-- A token that starts no tag is text. -/
theorem ofPieces_cons {t : Token} {ts : List Token} (h : read? (t :: ts) = none) :
    ofPieces (pattern.pieces (t :: ts)) = joinText t.source (ofPieces (pattern.pieces ts)) := by
  have hr : pattern.read? (t :: ts) = none := h
  rw [Pattern.pieces_of_not_read hr]
  rfl

theorem scan_cons {c : Char} (h : Token.isMark c = false) (s : Text) :
    scan (c :: s) = joinText [c] (scan s) := by
  rw [scan, scan, Token.lex_cons h]
  generalize Token.lex s = ts
  fun_cases Token.joinChar c ts with
  | case1 run ts =>
    rw [ofPieces_cons (read?_of_not_bracket rfl ts), ofPieces_cons (read?_of_not_bracket rfl ts),
      joinText_joinText]
    rfl
  | case2 => exact ofPieces_cons (read?_of_not_bracket rfl ts)

/-- The first token of a text in front of which no tag is read is text. -/
theorem scan_of_not_read {c : Char} {s : Text} (h : readTag? (c :: s) = none) :
    (∃ r, c = '[' ∧ s = '/' :: r ∧ scan (c :: s) = joinText ['[', '/'] (scan r)) ∨
      scan (c :: s) = joinText [c] (scan s) := by
  cases hm : Token.isMark c with
  | false => exact .inr (scan_cons hm s)
  | true =>
    simp only [Token.isMark, Bool.or_eq_true, decide_eq_true_eq] at hm
    rcases hm with (rfl | rfl) | rfl
    · by_cases hs : s.head? = some '/'
      · obtain ⟨r, rfl⟩ := List.head?_eq_some_iff.1 hs
        refine .inl ⟨r, rfl, rfl, ?_⟩
        exact ofPieces_cons (by rw [read?_closing, h]; rfl)
      · right
        rw [scan, Token.lex_bracket hs]
        exact ofPieces_cons (by rw [read?_opening hs, h]; rfl)
    · exact .inr (ofPieces_cons (read?_of_not_bracket rfl _))
    · exact .inr (ofPieces_cons (read?_of_not_bracket rfl _))

theorem scan_of_read {s r : Text} {t : Tag} (h : readTag? s = some (t, r)) :
    scan s = t :: scan r := by
  have hlex : pattern.read? (Token.lex s) = some (t, Token.lex r) := by
    show read? (Token.lex s) = _
    cases s with
    | nil => cases h
    | cons c s =>
      by_cases hc : c = '['
      · subst hc
        by_cases hs : s.head? = some '/'
        · obtain ⟨q, rfl⟩ := List.head?_eq_some_iff.1 hs
          rw [Token.lex, read?_closing, h]
          rfl
        · rw [Token.lex_bracket hs, read?_opening hs, h]
          rfl
      · rw [readTag?_of_ne hc] at h
        cases h
  rw [scan, Pattern.pieces_of_read hlex]
  rfl

/-- The scanner and the grammar find the same tags. -/
theorem scan_eq_ofChars (s : Text) : scan s = ofChars (grammar.pieces s) := by
  induction hlen : s.length using Nat.strongRecOn generalizing s with
  | ind len ih =>
    subst hlen
    cases s with
    | nil => simp [scan, Token.lex, ofPieces, ofChars]
    | cons c s =>
      cases hr : readTag? (c :: s) with
      | some x =>
        obtain ⟨t, r⟩ := x
        rw [Pattern.pieces_of_read (p := grammar) hr, scan_of_read hr,
          ih r.length (readTag?_length hr) r rfl]
        rfl
      | none =>
        have hs := ih s.length (Nat.lt_succ_self _) s rfl
        rw [Pattern.pieces_of_not_read (p := grammar) hr, ofChars, ← hs]
        rcases scan_of_not_read hr with ⟨r, rfl, rfl, hscan⟩ | hscan
        · -- the bracket and the slash are one token but two characters
          have hslash : scan ('/' :: r) = joinText ['/'] (scan r) := scan_cons (by decide) r
          rw [hscan, hslash, joinText_joinText]
          rfl
        · exact hscan

/-! ## Tags as they are spelled -/

/-- A tag that is read where it is spelled: its name is one, and its parameter ends where the tag
does. -/
def WellSpelled : Tag → Prop
  | opening name none => isName name = true
  | opening name (some param) => isName name = true ∧ ']' ∉ param
  | closing name => isName name = true
  | text _ => False

theorem nameOf_append {n : Text} (hn : isName n = true) {c : Char} (hc : isNameChar c = false)
    (r : Text) : nameOf (n ++ c :: r) = n ∧ afterName (n ++ c :: r) = c :: r ∧ n.isEmpty = false := by
  simp only [isName, Bool.and_eq_true, Bool.not_eq_true', List.all_eq_true] at hn
  refine ⟨?_, ?_, hn.1⟩
  · rw [nameOf, List.takeWhile_append_of_pos hn.2, List.takeWhile_cons_of_neg (by simp [hc]),
      List.append_nil]
  · rw [afterName, List.dropWhile_append_of_pos hn.2, List.dropWhile_cons_of_neg (by simp [hc])]

theorem head?_ne_slash {n : Text} (hn : isName n = true) (s : Text) :
    (n ++ s).head? ≠ some '/' := by
  simp only [isName, Bool.and_eq_true, Bool.not_eq_true', List.all_eq_true] at hn
  cases n with
  | nil => cases hn.1
  | cons c n =>
    intro h
    obtain rfl : c = '/' := by simpa using h
    exact absurd (hn.2 '/' (by simp)) (by decide)

theorem readTag?_append {t : Tag} (h : t.WellSpelled) (r : Text) :
    readTag? (t.source ++ r) = some (t, r) := by
  have hbracket : isNameChar ']' = false := by decide
  have hequals : isNameChar '=' = false := by decide
  cases t with
  | text run => cases h
  | closing n =>
    obtain ⟨hname, hafter, hne⟩ := nameOf_append h hbracket r
    have hs : (closing n).source ++ r = '[' :: '/' :: (n ++ ']' :: r) := by simp [source]
    rw [hs, readTag?, readClosing?, hname, hafter, hne]
    simp [readWord?]
  | opening n param =>
    cases param with
    | none =>
      obtain ⟨hname, hafter, hne⟩ := nameOf_append h hbracket r
      have hs : (opening n none).source ++ r = '[' :: (n ++ ']' :: r) := by simp [source]
      rw [hs, readTag?_opening (head?_ne_slash h _), readOpening?, hname, hafter, hne]
      simp [readWord?]
    | some param =>
      obtain ⟨hn, hparam⟩ := h
      obtain ⟨hname, hafter, hne⟩ := nameOf_append hn hequals (param ++ ']' :: r)
      have hs : (opening n (some param)).source ++ r = '[' :: (n ++ '=' :: (param ++ ']' :: r)) := by
        simp [source]
      have hskip : Skips (readWord? id [']']) param :=
        skips_of_head_ne fun c hc heq => hparam (heq ▸ hc)
      have hclose : nearest? id [']'] (param ++ ']' :: r) = some (param, [']'], r) :=
        nearest?_append_word (a := [']']) hskip rfl
      rw [hs, readTag?_opening (head?_ne_slash hn _), readOpening?, hname, hafter, hne]
      simp [readWord?, hclose]

end Tag

end BBCode

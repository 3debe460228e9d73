import BBCode.Proofs.Path
import BBCode.Proofs.Text.Decimal
import BBCode.Proofs.Toml.Quote
import BBCode.Toml.Reader

/-!
# BBCode.Proofs.Toml.Document

Documents laid out line by line. Each statement stands on a line of its own, with blank lines
between as many as one likes; then the document is read as its statements, one after the other.

* `Writes` and `Line`: what it is for a text to be a value at the end of a line, and to be a line.
* `writes_quote`, `writes_numbers` and `writes_boolean`: the values that are printed.
* `read_of_laid`: the fields of a document are those that its statements build up.
-/

namespace BBCode.Toml

variable {s r w y : Text} {c : Char} {v : Value}

/-! ## Characters of keys and numbers -/

/-- Whether a line can start with this character and say something. -/
def isContent (c : Char) : Bool := !(isWhite c || c = '#' || c = '\n' || c = '\r')

theorem ne_of_isKeyChar (h : isKeyChar c = true) {d : Char} (hd : isKeyChar d = false) : c ≠ d := by
  rintro rfl
  rw [h] at hd
  cases hd

theorem isWordChar_of_isKeyChar (h : isKeyChar c = true) : isWordChar c = true := by
  have hne := fun d => @ne_of_isKeyChar c h d
  simp only [isWordChar, Bool.not_eq_true', Bool.or_eq_false_iff, decide_eq_false_iff_not]
  exact ⟨⟨⟨⟨⟨⟨⟨hne _ rfl, hne _ rfl⟩, hne _ rfl⟩, hne _ rfl⟩, hne _ rfl⟩, hne _ rfl⟩, hne _ rfl⟩,
    hne _ rfl⟩

theorem isKeyWordChar_of_isKeyChar (h : isKeyChar c = true) : isKeyWordChar c = true := by
  have hne := fun d => @ne_of_isKeyChar c h d
  simp only [isKeyWordChar, isWordChar_of_isKeyChar h, Bool.true_and, Bool.not_eq_true',
    Bool.or_eq_false_iff, decide_eq_false_iff_not]
  exact ⟨⟨⟨hne _ rfl, hne _ rfl⟩, hne _ rfl⟩, hne _ rfl⟩

theorem isContent_of_isKeyChar (h : isKeyChar c = true) : isContent c = true := by
  have hne := fun d => @ne_of_isKeyChar c h d
  simp only [isContent, isWhite, Bool.not_eq_true', Bool.or_eq_false_iff, decide_eq_false_iff_not]
  exact ⟨⟨⟨⟨hne _ rfl, hne _ rfl⟩, hne _ rfl⟩, hne _ rfl⟩, hne _ rfl⟩

/-- A key that needs no quotes. -/
structure IsBareKey (k : Text) : Prop where
  ne_nil : k ≠ []
  chars : ∀ c ∈ k, isKeyChar c = true

theorem IsBareKey.eq_cons {k : Text} (hk : IsBareKey k) :
    ∃ d t, k = d :: t ∧ isKeyChar d = true := by
  obtain ⟨d, t, rfl⟩ := List.exists_cons_of_ne_nil hk.ne_nil
  exact ⟨d, t, rfl, hk.chars d List.mem_cons_self⟩

/-- Even a number could be a key. -/
theorem isBareKey_decimal (n : Nat) : IsBareKey (decimal n) where
  ne_nil := Nat.toDigits_ne_nil
  chars c hc := by simp [isKeyChar, Char.isAlphanum, isDigit_of_mem_decimal hc]

/-- Words end where a character stands that they cannot have. -/
theorem takeWhile_append_of_stop {p : Char → Bool} (hw : ∀ d ∈ w, p d = true) (hc : p c = false) :
    (w ++ c :: y).takeWhile p = w ∧ (w ++ c :: y).dropWhile p = c :: y := by
  constructor
  · rw [List.takeWhile_append_of_pos hw, List.takeWhile_cons_of_neg (by simp [hc]), List.append_nil]
  · rw [List.dropWhile_append_of_pos hw, List.dropWhile_cons_of_neg (by simp [hc])]

/-! ## Words -/

theorem readWord_append (hw : ∀ d ∈ w, isWordChar d = true) (hdate : readDate? w = none)
    (hc : isWordChar c = false) : readWord (w ++ c :: y) = (w, c :: y) := by
  obtain ⟨htake, hdrop⟩ := takeWhile_append_of_stop (y := y) hw hc
  rw [readWord, htake, hdrop, hdate]

/-- The marks that a value starts with that is no word. -/
def isValueMark (c : Char) : Bool := c = '"' || c = '\'' || c = '[' || c = '\x7b'

theorem readValue?_word {d : Char} {t : Text} (hd : isValueMark d = false)
    (hw : ∀ e ∈ d :: t, isWordChar e = true) (hdate : readDate? (d :: t) = none)
    (hv : ofWord? (d :: t) = some v) (hc : isWordChar c = false) (depth : Nat) :
    readValue? depth (d :: t ++ c :: y) = some (.ok v, c :: y) := by
  simp only [isValueMark, Bool.or_eq_false_iff, decide_eq_false_iff_not] at hd
  obtain ⟨⟨⟨h1, h2⟩, h3⟩, h4⟩ := hd
  have hread := readWord_append (y := y) hw hdate hc
  rw [readValue?.eq_7 depth (d :: t ++ c :: y) (fun _ h => h1 (List.cons.inj h).1)
    (fun _ h => h2 (List.cons.inj h).1) (fun _ h => h3 (List.cons.inj h).1)
    (fun _ h => h4 (List.cons.inj h).1), hread, hv]
  rfl

theorem natural?_decimal (n : Nat) : natural? (decimal n) = some n := by
  have hsplit : Text.splitAt '_' (decimal n) = [decimal n] :=
    Text.splitAt_of_not_mem (not_mem_decimal (by decide) n)
  have hall : (decimal n).all Char.isDigit = true :=
    List.all_eq_true.2 fun _ h => isDigit_of_mem_decimal h
  have hempty : (decimal n).isEmpty = false := List.isEmpty_eq_false_iff.2 Nat.toDigits_ne_nil
  have hdigits : digits? Char.isDigit (decimal n) = some (decimal n) := by
    simp [digits?, hsplit, hall, hempty]
  have hzero : ((decimal n).head? = some '0' && (decimal n).length ≠ 1) = false := by
    cases n with
    | zero => decide
    | succ n => simp [head?_decimal (Nat.succ_pos n)]
  rw [natural?, hdigits]
  simp only [hzero]
  exact congrArg some Nat.ofDigitChars_ten_toDigits

theorem integer?_decimal (n : Nat) : integer? (decimal n) = some (n : Int) := by
  have hno : ∀ {d : Char} {a t : Text}, d.isDigit = false → decimal n = a ++ d :: t → False :=
    fun hd h => not_mem_decimal hd n (h ▸ List.mem_append_right _ List.mem_cons_self)
  rw [integer?.eq_6 _ (fun _ => hno (d := 'x') (a := ['0']) rfl)
    (fun _ => hno (d := 'o') (a := ['0']) rfl) (fun _ => hno (d := 'b') (a := ['0']) rfl)
    (fun _ => hno (d := '-') (a := []) rfl) (fun _ => hno (d := '+') (a := []) rfl),
    natural?_decimal]
  rfl

theorem ofWord?_decimal {n : Nat} (h : n < 65536) : ofWord? (decimal n) = some (.integer n) := by
  have htrue : decimal n ≠ "true".toList := fun h =>
    not_mem_decimal (c := 't') (by decide) n (h ▸ by decide)
  have hfalse : decimal n ≠ "false".toList := fun h =>
    not_mem_decimal (c := 'f') (by decide) n (h ▸ by decide)
  have hrange : isInRange n = true := by
    rw [isInRange, Bool.and_eq_true, decide_eq_true_eq, decide_eq_true_eq]
    exact ⟨Int.le_trans (by decide) (Int.natCast_nonneg n),
      Int.ofNat_lt.2 (Nat.lt_trans h (by decide))⟩
  rw [ofWord?, if_neg htrue, if_neg hfalse, integer?_decimal]
  exact if_pos hrange

/-- A date has a minus in it. -/
theorem readDate?_decimal (n : Nat) : readDate? (decimal n) = none := by
  rw [readDate?.eq_def]
  split
  · rename_i hdate
    exact absurd (by simp [hdate]) (not_mem_decimal (c := '-') (by decide) n)
  · rfl

theorem readValue?_decimal {n : Nat} (h : n < 65536) (hc : isWordChar c = false) (depth : Nat) :
    readValue? depth (decimal n ++ c :: y) = some (.ok (.integer n), c :: y) := by
  obtain ⟨d, t, hn, hd⟩ := (isBareKey_decimal n).eq_cons
  have hmark : isValueMark d = false := by
    have hne := fun e => @ne_of_isKeyChar d hd e
    simp only [isValueMark, Bool.or_eq_false_iff, decide_eq_false_iff_not]
    exact ⟨⟨⟨hne _ rfl, hne _ rfl⟩, hne _ rfl⟩, hne _ rfl⟩
  have hword : ∀ e ∈ decimal n, isWordChar e = true := fun e he =>
    isWordChar_of_isKeyChar ((isBareKey_decimal n).chars e he)
  have hdate := readDate?_decimal n
  have hv := ofWord?_decimal h
  rw [hn] at hword hdate hv ⊢
  exact readValue?_word hmark hword hdate hv hc depth

/-! ## Lines -/

theorem skipLines?_newline (s : Text) : skipLines? ('\n' :: s) = skipLines? s := rfl

theorem skipWhite_of_isContent (h : isContent c = true) : skipWhite (c :: y) = c :: y := by
  simp only [isContent, Bool.not_eq_true', Bool.or_eq_false_iff] at h
  exact List.dropWhile_cons_of_neg (by simp [h.1.1.1])

theorem skipLines?_of_isContent (hs : skipWhite s = c :: y) (h : isContent c = true) :
    skipLines? s = some (c :: y) := by
  simp only [isContent, Bool.not_eq_true', Bool.or_eq_false_iff, decide_eq_false_iff_not] at h
  rw [skipLines?, skipLinesUpTo?, hs]
  split
  · rename_i heq
    exact absurd (List.cons.inj heq).1 h.1.1.2
  · rename_i heq
    exact absurd (List.cons.inj heq).1 h.1.2
  · rename_i heq
    exact absurd (List.cons.inj heq).1 h.2
  · rfl

/-! ## Arrays -/

/-- The numbers of an array that has one on each line. -/
def rows (ns : List Nat) : Text := ns.flatMap fun n => "    ".toList ++ decimal n ++ ",\n".toList

theorem length_le_rows (ns : List Nat) : ns.length ≤ (rows ns).length := by
  induction ns with
  | nil => exact Nat.le_refl 0
  | cons n ns ih =>
    have hcons : rows (n :: ns) = "    ".toList ++ decimal n ++ ",\n".toList ++ rows ns := rfl
    have hcomma : ",\n".toList.length = 2 := by decide
    rw [hcons, List.length_append, List.length_append, hcomma, List.length_cons]
    omega

variable {value? : Text → Reading Value} {x : Except Fault Value} {q : Text}

theorem readItems?_end (fuel : Nat) (hs : skipLines? s = some (']' :: r)) :
    readItems? value? (fuel + 1) s = some (.ok [], r) := by
  simp [readItems?, hs]

theorem readItems?_item (fuel : Nat) (hs : skipLines? s = some (c :: y)) (hc : c ≠ ']')
    (hv : value? (c :: y) = some (x, q)) (hq : skipLines? q = some (',' :: r)) :
    readItems? value? (fuel + 1) s = (readItems? value? fuel r).after (· :: ·) x := by
  simp [readItems?, hs, hc, hv, hq]

theorem readItems?_last (fuel : Nat) (hs : skipLines? s = some (c :: y)) (hc : c ≠ ']')
    (hv : value? (c :: y) = some (x, q)) (hq : skipLines? q = some (']' :: r)) :
    readItems? value? (fuel + 1) s = some (x.map ([·]), r) := by
  simp [readItems?, hs, hc, hv, hq]

theorem readItems?_rows {ns : List Nat}
    (hvalue : ∀ n ∈ ns, ∀ y, value? (decimal n ++ ',' :: y) = some (.ok (.integer n), ',' :: y))
    (r : Text) : ∀ fuel, ns.length < fuel →
      readItems? value? fuel ('\n' :: (rows ns ++ ']' :: r)) =
        some (.ok (ns.map fun n : Nat => .integer n), r) := by
  have hend : skipLines? (']' :: r) = some (']' :: r) := skipLines?_of_isContent rfl rfl
  induction ns with
  | nil =>
    intro fuel hfuel
    obtain ⟨fuel, rfl⟩ := Nat.exists_eq_add_one.2 hfuel
    exact readItems?_end fuel hend
  | cons n ns ih =>
    intro fuel hfuel
    obtain ⟨hn, hns⟩ := List.forall_mem_cons.1 hvalue
    obtain ⟨fuel, rfl⟩ := Nat.exists_eq_add_one.2 (Nat.zero_lt_of_lt hfuel)
    obtain ⟨d, t, hdt, hkey⟩ := (isBareKey_decimal n).eq_cons
    have hd := isContent_of_isKeyChar hkey
    have hbracket : d ≠ ']' := ne_of_isKeyChar hkey rfl
    have hrow : '\n' :: (rows (n :: ns) ++ ']' :: r) = '\n' :: ' ' :: ' ' :: ' ' :: ' ' ::
        (d :: t ++ ',' :: '\n' :: (rows ns ++ ']' :: r)) := by
      simp [rows, hdt]
    have hskip : skipLines? ('\n' :: (rows (n :: ns) ++ ']' :: r)) =
        some (d :: t ++ ',' :: '\n' :: (rows ns ++ ']' :: r)) := by
      rw [hrow, skipLines?_newline]
      exact skipLines?_of_isContent (skipWhite_of_isContent hd) hd
    have hread := hn ('\n' :: (rows ns ++ ']' :: r))
    rw [hdt] at hread
    rw [readItems?_item fuel hskip hbracket hread (skipLines?_of_isContent rfl rfl),
      ih hns fuel (Nat.lt_of_succ_lt_succ hfuel)]
    rfl

theorem numbers_eq_rows (n m : Nat) (ns : List Nat) :
    numbers (n :: m :: ns) = "[\n".toList ++ rows (n :: m :: ns) ++ [']'] := rfl

/-- An array of numbers is read back in each of its layouts. -/
theorem readValue?_numbers {ns : List Nat} (h : ∀ n ∈ ns, n < 65536) (depth : Nat) (r : Text) :
    readValue? (depth + 1) (numbers ns ++ r) =
      some (.ok (.array (ns.map fun n : Nat => .integer n)), r) := by
  have hend : skipLines? (']' :: r) = some (']' :: r) := skipLines?_of_isContent rfl rfl
  match ns with
  | [] =>
    have hs : numbers [] ++ r = '[' :: ']' :: r := rfl
    rw [hs, readValue?, readItems?_end _ hend]
    rfl
  | [n] =>
    obtain ⟨d, t, hdt, hkey⟩ := (isBareKey_decimal n).eq_cons
    have hd := isContent_of_isKeyChar hkey
    have hbracket : d ≠ ']' := ne_of_isKeyChar hkey rfl
    have hs : numbers [n] ++ r = '[' :: (d :: t ++ ']' :: r) := by simp [numbers, hdt]
    have hread := readValue?_decimal (y := r) (h n List.mem_cons_self) (c := ']') (by decide) depth
    rw [hdt] at hread
    have hskip : skipLines? (d :: t ++ ']' :: r) = some (d :: t ++ ']' :: r) :=
      skipLines?_of_isContent (skipWhite_of_isContent hd) hd
    rw [hs, readValue?, readItems?_last _ hskip hbracket hread hend]
    rfl
  | n :: m :: ns =>
    have hs : numbers (n :: m :: ns) ++ r = '[' :: '\n' :: (rows (n :: m :: ns) ++ ']' :: r) := by
      simp [numbers_eq_rows]
    have hvalue : ∀ k ∈ n :: m :: ns, ∀ y, readValue? depth (decimal k ++ ',' :: y) =
        some (.ok (.integer k), ',' :: y) := fun k hk y =>
      readValue?_decimal (h k hk) (by decide) depth
    have hlength := length_le_rows (n :: m :: ns)
    rw [hs, readValue?, readItems?_rows hvalue r _
      (by simp only [List.length_cons, List.length_append] at *; omega)]
    rfl

/-! ## Lines of a document -/

/-- A text is written for a value if it is read as that value at the end of a line. -/
structure Writes (w : Text) (v : Value) : Prop where
  starts : ∃ c t, w = c :: t ∧ isContent c = true
  reads : ∀ y, readValue? nestingLimit (w ++ '\n' :: y) = some (.ok v, '\n' :: y)

theorem quote_eq_cons (s : Text) : ∃ c t, quote s = c :: t ∧ (c = '"' ∨ c = '\'') := by
  have hdouble : ∀ w : Text, ∃ c t, '"' :: w = c :: t ∧ (c = '"' ∨ c = '\'') := fun w =>
    ⟨'"', w, rfl, .inl rfl⟩
  have hsingle : ∀ w : Text, ∃ c t, '\'' :: w = c :: t ∧ (c = '"' ∨ c = '\'') := fun w =>
    ⟨'\'', w, rfl, .inr rfl⟩
  rw [quote]
  split
  · exact hdouble _
  split
  · exact hsingle _
  split
  · exact hdouble _
  split
  · exact hsingle _
  split <;> exact hdouble _

theorem writes_quote (s : Text) : Writes (quote s) (.text s) := by
  obtain ⟨c, t, hs, hc⟩ := quote_eq_cons s
  refine ⟨⟨c, t, hs, ?_⟩, fun y => ?_⟩
  · rcases hc with rfl | rfl <;> decide
  · have hread : readString? (quote s ++ '\n' :: y) = some (.ok s, '\n' :: y) :=
      readString?_quote s (fun _ h => absurd (List.cons.inj h).1 (by decide))
        (fun _ h => absurd (List.cons.inj h).1 (by decide))
    rw [hs] at hread ⊢
    rcases hc with rfl | rfl
    · rw [List.cons_append, readValue?, ← List.cons_append, hread]
      rfl
    · rw [List.cons_append, readValue?, ← List.cons_append, hread]
      rfl

theorem writes_numbers {ns : List Nat} (h : ∀ n ∈ ns, n < 65536) :
    Writes (numbers ns) (.array (ns.map fun n : Nat => .integer n)) where
  starts := by
    match ns with
    | [] => exact ⟨'[', _, rfl, by decide⟩
    | [n] => exact ⟨'[', _, rfl, by decide⟩
    | n :: m :: ns => exact ⟨'[', _, rfl, by decide⟩
  reads y := readValue?_numbers h 79 _

theorem writes_boolean (b : Bool) : Writes (boolean b) (.boolean b) := by
  cases b with
  | true =>
    exact ⟨⟨'t', ['r', 'u', 'e'], rfl, rfl⟩, fun y =>
      readValue?_word rfl (by decide) (by decide) rfl rfl _⟩
  | false =>
    exact ⟨⟨'f', ['a', 'l', 's', 'e'], rfl, rfl⟩, fun y =>
      readValue?_word rfl (by decide) (by decide) rfl rfl _⟩

/-- A line of a document, without its end, and the statement on it. -/
structure Line (w : Text) (st : Statement) : Prop where
  starts : ∃ c t, w = c :: t ∧ isContent c = true
  reads : ∀ y, readStatement? (w ++ '\n' :: y) = some (.ok st, '\n' :: y)

theorem readKeyPart?_bare {k : Text} (hk : IsBareKey k) (hc : isKeyWordChar c = false) :
    readKeyPart? (k ++ c :: y) = some (.ok k, c :: y) := by
  have hword : ∀ d ∈ k, isKeyWordChar d = true := fun d hd =>
    isKeyWordChar_of_isKeyChar (hk.chars d hd)
  obtain ⟨htake, hdrop⟩ := takeWhile_append_of_stop (y := y) hword hc
  have hhead : ¬ ((k ++ c :: y).head? = some '"' || (k ++ c :: y).head? = some '\'') = true := by
    obtain ⟨d, t, rfl, hd⟩ := hk.eq_cons
    simp [ne_of_isKeyChar hd (d := '"') rfl, ne_of_isKeyChar hd (d := '\'') rfl]
  have hempty : k.isEmpty = false := List.isEmpty_eq_false_iff.2 hk.ne_nil
  have hall : k.all isKeyChar = true := List.all_eq_true.2 hk.chars
  rw [readKeyPart?, if_neg hhead]
  simp only [htake, hdrop, hempty, hall]
  rfl

theorem readKey?_bare {k : Text} (hk : IsBareKey k) (hc : isKeyWordChar c = false)
    (hdot : ∀ z, skipWhite (c :: y) ≠ '.' :: z) :
    readKey? (k ++ c :: y) = some (.ok [k], skipWhite (c :: y)) := by
  have hskip : skipWhite (k ++ c :: y) = k ++ c :: y := by
    obtain ⟨d, t, rfl, hd⟩ := hk.eq_cons
    exact skipWhite_of_isContent (isContent_of_isKeyChar hd)
  have hparts : readKeyParts? ((k ++ c :: y).length + 1) (k ++ c :: y) =
      some (.ok [k], skipWhite (c :: y)) := by
    simp only [readKeyParts?, hskip, readKeyPart?_bare hk hc]
    rfl
  have hlimit : limitParts [k] = .ok [k] := limitParts_eq_ok.2 ⟨rfl, (by decide : 1 ≤ keyLimit)⟩
  rw [readKey?, hparts]
  exact congrArg (fun a => some (a, skipWhite (c :: y))) hlimit

/-- A key and its value. -/
theorem line_field {k : Text} (hk : IsBareKey k) (hw : Writes w v) :
    Line (k ++ ' ' :: '=' :: ' ' :: w) (.field [k] v) := by
  obtain ⟨d, t, hwt, hd⟩ := hw.starts
  obtain ⟨e, u, hkt, he⟩ := hk.eq_cons
  refine ⟨⟨e, u ++ ' ' :: '=' :: ' ' :: w, by rw [hkt, List.cons_append],
    isContent_of_isKeyChar he⟩, fun y => ?_⟩
  have hkey : readKey? (k ++ ' ' :: '=' :: ' ' :: (w ++ '\n' :: y)) =
      some (.ok [k], '=' :: ' ' :: (w ++ '\n' :: y)) :=
    readKey?_bare hk rfl fun z hz => absurd (List.cons.inj hz).1 (by decide)
  have hgap : skipWhite (' ' :: (w ++ '\n' :: y)) = w ++ '\n' :: y := by
    rw [hwt]
    exact skipWhite_of_isContent hd
  have hassoc : k ++ ' ' :: '=' :: ' ' :: w ++ '\n' :: y =
      k ++ ' ' :: '=' :: ' ' :: (w ++ '\n' :: y) := by simp
  have hfield : readField? (some ∘ skipWhite) (readValue? nestingLimit)
      (k ++ ' ' :: '=' :: ' ' :: w ++ '\n' :: y) = some (.ok ([k], v), '\n' :: y) := by
    have hsign : (some ∘ skipWhite) ('=' :: ' ' :: (w ++ '\n' :: y)) =
        some ('=' :: ' ' :: (w ++ '\n' :: y)) := rfl
    have hvalue : (some ∘ skipWhite) (' ' :: (w ++ '\n' :: y)) = some (w ++ '\n' :: y) :=
      congrArg some hgap
    rw [readField?, hassoc, hkey]
    simp only [hsign, hvalue, hw.reads]
    rfl
  rw [readStatement?.eq_2 _ fun z hz => ?_, hfield]
  · rfl
  · rw [hkt] at hz
    exact ne_of_isKeyChar he (d := '[') rfl (List.cons.inj hz).1

/-- The header of a table. -/
theorem line_header {k : Text} (hk : IsBareKey k) : Line ('[' :: k ++ [']']) (.header [k]) := by
  refine ⟨⟨'[', _, rfl, rfl⟩, fun y => ?_⟩
  have hkey : readKey? (k ++ ']' :: '\n' :: y) = some (.ok [k], ']' :: '\n' :: y) :=
    readKey?_bare hk rfl fun z hz => absurd (List.cons.inj hz).1 (by decide)
  have hs : '[' :: k ++ [']'] ++ '\n' :: y = '[' :: (k ++ ']' :: '\n' :: y) := by simp
  rw [hs, readStatement?, readHeader?.eq_2 _ fun z hz => ?_, hkey]
  · rfl
  · obtain ⟨e, u, rfl, he⟩ := hk.eq_cons
    exact ne_of_isKeyChar he (d := '[') rfl (List.cons.inj hz).1

/-- A document whose statements stand on lines of their own, with blank lines between. -/
inductive Laid : Text → List Statement → Prop where
  | nil : Laid [] []
  | blank {s : Text} {sts : List Statement} (h : Laid s sts) : Laid ('\n' :: s) sts
  | line {w s : Text} {st : Statement} {sts : List Statement} (hw : Line w st) (h : Laid s sts) :
    Laid (w ++ '\n' :: s) (st :: sts)

namespace Laid

variable {sts : List Statement}

theorem length_le (h : Laid s sts) : sts.length ≤ s.length := by
  induction h with
  | nil => exact Nat.le_refl 0
  | blank h ih => exact Nat.le_succ_of_le ih
  | line hw h ih =>
    simp only [List.length_cons, List.length_append]
    omega

theorem readStatements?_newline (fuel : Nat) (s : Text) :
    Toml.readStatements? (fuel + 1) ('\n' :: s) = Toml.readStatements? (fuel + 1) s := by
  rw [Toml.readStatements?, Toml.readStatements?, skipLines?_newline]

theorem readStatements? (h : Laid s sts) : ∀ fuel, sts.length < fuel →
    readStatements? fuel s = some (sts.map .ok) := by
  induction h with
  | nil =>
    intro fuel hfuel
    obtain ⟨fuel, rfl⟩ := Nat.exists_eq_add_one.2 hfuel
    rfl
  | blank h ih =>
    intro fuel hfuel
    obtain ⟨fuel, rfl⟩ := Nat.exists_eq_add_one.2 (Nat.zero_lt_of_lt hfuel)
    rw [readStatements?_newline]
    exact ih _ hfuel
  | line hw h ih =>
    rename_i w s st sts
    intro fuel hfuel
    obtain ⟨fuel, rfl⟩ := Nat.exists_eq_add_one.2 (Nat.zero_lt_of_lt hfuel)
    have hfuel : sts.length < fuel := Nat.lt_of_succ_lt_succ hfuel
    obtain ⟨c, t, hwt, hc⟩ := hw.starts
    have hskip : skipLines? (w ++ '\n' :: s) = some (w ++ '\n' :: s) := by
      rw [hwt]
      exact skipLines?_of_isContent (skipWhite_of_isContent hc) hc
    have hend : endOfLine? ('\n' :: s) = some ('\n' :: s) := rfl
    have hrest : Toml.readStatements? fuel ('\n' :: s) = some (sts.map .ok) := by
      obtain ⟨fuel, rfl⟩ := Nat.exists_eq_add_one.2 (Nat.zero_lt_of_lt hfuel)
      rw [readStatements?_newline]
      exact ih _ hfuel
    have hread := hw.reads s
    rw [hwt] at hskip hread ⊢
    rw [Toml.readStatements?, hskip]
    simp only [List.cons_append] at hread ⊢
    simp only [hread, hend, hrest]
    rfl

end Laid

/-- The fields of a document are those that its statements build up. -/
theorem read_of_laid {sts : List Statement} (h : Laid s sts)
    (hmark : s.head? ≠ some byteOrderMark) : read s = build {} (sts.map .ok) := by
  have hfuel : sts.length < s.length + 1 := Nat.lt_succ_of_le h.length_le
  simp only [read, if_neg hmark, h.readStatements? _ hfuel]

/-! ## Tables -/

namespace Fields

variable {fs : Fields} {k : Text}

theorem lookup_eq_none (h : k ∉ fs.map Prod.fst) : fs.lookup k = none := by
  refine List.lookup_eq_none_iff.2 fun f hf => ?_
  have hne : k ≠ f.1 := fun he => h (he ▸ List.mem_map_of_mem hf)
  simpa using hne

/-- Where no key is written twice, each key has the value that is written for it. -/
theorem lookup_of_mem (h : (fs.map Prod.fst).Nodup) (hm : (k, v) ∈ fs) : fs.lookup k = some v := by
  induction fs with
  | nil => cases hm
  | cons f fs ih =>
    obtain ⟨hf, hfs⟩ := List.nodup_cons.1 h
    rcases List.mem_cons.1 hm with rfl | hm
    · exact List.lookup_cons_self
    · have hne : (k == f.1) = false := by
        have : k ≠ f.1 := fun he => hf (he ▸ List.mem_map_of_mem hm)
        simpa using this
      rw [List.lookup_cons, hne]
      exact ih hfs hm

theorem lookup_last (h : k ∉ fs.map Prod.fst) : List.lookup k (fs ++ [(k, v)]) = some v := by
  rw [List.lookup_append, lookup_eq_none h, Option.none_or]
  exact List.lookup_cons_self

theorem replace_last (h : k ∉ fs.map Prod.fst) (v' : Value) :
    replace k v' (fs ++ [(k, v)]) = fs ++ [(k, v')] := by
  have hfs : fs.map (fun f => if f.1 = k then (k, v') else f) = fs := by
    refine (List.map_congr_left fun f hf => if_neg fun he => h ?_).trans (List.map_id fs)
    exact he ▸ List.mem_map_of_mem hf
  rw [replace, List.map_append, hfs]
  simp

end Fields

/-- The statements that write some fields. -/
def Fields.statements (fs : Fields) : List Statement := fs.map fun f => .field [f.1] f.2

/-- Fields of different keys are added to the table of the last header. -/
theorem build_fields {above : Fields} {k : Text} (hk : k ∉ above.map Prod.fst) (fs : Fields) :
    ∀ {sub : Fields}, ((sub ++ fs).map Prod.fst).Nodup →
      build ⟨above ++ [(k, .table .header sub)], [k]⟩ (fs.statements.map .ok) =
        .ok (above ++ [(k, .table .header (sub ++ fs))]) := by
  induction fs with
  | nil =>
    intro sub _
    rw [List.append_nil]
    rfl
  | cons f fs ih =>
    intro sub hnodup
    have hnew : f.1 ∉ sub.map Prod.fst := by
      simp only [List.map_append, List.map_cons, List.nodup_append, List.mem_cons] at hnodup
      exact fun hm => hnodup.2.2 _ hm _ (.inl rfl) rfl
    have hinsert : Fields.insert? [f.1] f.2 sub = some (sub ++ [f]) := by
      rw [Fields.insert?, Fields.lookup_eq_none hnew]
    have hadd : Draft.add? ⟨above ++ [(k, .table .header sub)], [k]⟩ (.field [f.1] f.2) =
        some ⟨above ++ [(k, .table .header (sub ++ [f]))], [k]⟩ := by
      simp only [Draft.add?, Fields.modifyAt?, Fields.lookup_last hk, hinsert, Option.map_some,
        Fields.replace_last hk]
    have hassoc : sub ++ f :: fs = sub ++ [f] ++ fs := by simp
    rw [Fields.statements, List.map_cons, List.map_cons, build_cons, hadd, hassoc]
    exact ih (hassoc ▸ hnodup)

/-- A header with fields of different keys makes a table of them. -/
theorem build_table {above fs : Fields} {k : Text} (hk : k ∉ above.map Prod.fst)
    (hnodup : (fs.map Prod.fst).Nodup) (header : List Text) :
    build ⟨above, header⟩ ((Statement.header [k] :: fs.statements).map .ok) =
      .ok (above ++ [(k, .table .header fs)]) := by
  have hadd : Draft.add? ⟨above, header⟩ (.header [k]) =
      some ⟨above ++ [(k, .table .header [])], [k]⟩ := by
    show (Fields.openTable? k above).map _ = _
    rw [Fields.openTable?, Fields.lookup_eq_none hk]
    rfl
  rw [List.map_cons, build_cons, hadd]
  exact build_fields hk fs hnodup

end BBCode.Toml

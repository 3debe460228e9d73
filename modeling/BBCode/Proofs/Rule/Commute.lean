import BBCode.Proofs.Text.Skip
import BBCode.Rule.Table
import Mathlib.Data.List.Forall2
import Mathlib.Data.List.Nodup
import Mathlib.Data.List.Perm.Basic

/-!
# BBCode.Proofs.Rule.Commute

The order of the inline rules. Such a rule puts markup around the body of a pair of tags, so all it
does to a text is to replace some of its own tags where they stand. Which ones follows from the
order of its own tags alone, and no other inline rule makes, removes or splits one of them.

* `substitute_eq_mark`: such a rule goes through a text once and has one bit of state.
* `read?_mark`: it finds its tags in the text that another rule has made where it finds them in
  the text that rule was given.
* `mark_comm`: two such rules with different tags commute.
* `applyAll_perm_inline`: all orders of the inline rules make the same text.
-/

namespace BBCode

/-- A tag without a value, and the markup that its pairs become. -/
structure Wrapper where
  tag : Text
  before : Text
  after : Text
  tag_letters : ∀ c ∈ tag, c.isAlpha = true
  before_markup : before.head? = some '<' ∧ '[' ∉ before
  after_markup : after.head? = some '<' ∧ '[' ∉ after

namespace Wrapper

variable {p q : Wrapper} {i j : Bool} {s r : Text}

def pair (p : Wrapper) : TagPair := ⟨p.tag, none⟩

def opener (p : Wrapper) : Text := '[' :: p.tag ++ [']']

/-- The tag that is looked for: the closing one inside a pair, else the opening one. -/
def delimiter (p : Wrapper) : Bool → Text
  | true => p.pair.closer
  | false => p.opener

/-- What is written for that tag. -/
def markup (p : Wrapper) : Bool → Text
  | true => p.after
  | false => p.before

/-- Reads the tag that is looked for. An opening tag counts only in front of a closing one. -/
def read? (p : Wrapper) (inside : Bool) (s : Text) : Option Text :=
  match readWord? foldCase (p.delimiter inside) s with
  | none => none
  | some (_, r) =>
    if inside || (nearest? foldCase p.pair.closer r).isSome then some r else none

theorem exists_readWord? (h : p.read? i s = some r) :
    ∃ a, readWord? foldCase (p.delimiter i) s = some (a, r) := by
  unfold read? at h
  split at h
  · cases h
  · rename_i a q hq
    split at h
    · cases h
      exact ⟨a, hq⟩
    · cases h

theorem read?_length (h : p.read? i s = some r) : r.length < s.length := by
  obtain ⟨a, ha⟩ := exists_readWord? h
  have hlen := readWord?_length ha
  cases i with
  | false =>
    simp only [delimiter, opener, List.length_append, List.length_cons] at hlen
    omega
  | true =>
    simp only [delimiter, TagPair.closer, List.length_append, List.length_cons] at hlen
    omega

/-- Replaces the tags that count, given whether a pair is open in front of the text. -/
def mark (p : Wrapper) (inside : Bool) : Text → Text
  | [] => []
  | c :: s =>
    match _h : p.read? inside (c :: s) with
    | some r => p.markup inside ++ p.mark (!inside) r
    | none => c :: p.mark inside s
termination_by s => s.length
decreasing_by
  · exact read?_length _h
  · exact Nat.lt_succ_self _

@[simp] theorem mark_nil (p : Wrapper) (i : Bool) : p.mark i [] = [] := by rw [mark]

theorem mark_of_read (h : p.read? i s = some r) : p.mark i s = p.markup i ++ p.mark (!i) r := by
  cases s with
  | nil =>
    have hlen := read?_length h
    simp at hlen
  | cons c s =>
    rw [mark]
    split
    · rename_i q hq
      rw [h] at hq
      cases hq
      rfl
    · rename_i hn
      rw [h] at hn
      cases hn

theorem mark_of_not_read {c : Char} (h : p.read? i (c :: s) = none) :
    p.mark i (c :: s) = c :: p.mark i s := by
  rw [mark]
  split
  · rename_i q hq
    rw [h] at hq
    cases hq
  · rfl

/-! ## A rule as one pass -/

/-- Inside a pair the text is copied up to the nearest closing tag. -/
theorem mark_inside {b a : Text} (h : nearest? foldCase p.pair.closer s = some (b, a, r)) :
    p.mark true s = b ++ (p.after ++ p.mark false r) := by
  induction s generalizing b with
  | nil =>
    have hlen := congrArg List.length (nearest?_append h).2
    obtain ⟨hs, -⟩ := nearest?_append h
    simp [List.append_eq_nil_iff.1 (List.append_eq_nil_iff.1 hs.symm).1, TagPair.closer] at hlen
  | cons c s ih =>
    rw [nearest?] at h
    split at h
    · rename_i x hx
      cases h
      have hread : p.read? true (c :: s) = some r := by
        simp only [read?, delimiter, hx, Bool.true_or, if_true]
      exact mark_of_read hread
    · rename_i hn
      simp only [Option.map_eq_some_iff, Prod.mk.injEq] at h
      obtain ⟨⟨b', x⟩, hx, rfl, rfl⟩ := h
      have hread : p.read? true (c :: s) = none := by simp only [read?, delimiter, hn]
      rw [mark_of_not_read hread, ih hx]
      rfl

/-- Putting markup around the body of every pair replaces the tags that count. -/
theorem substitute_eq_mark (p : Wrapper) (s : Text) :
    p.pair.pattern.substitute (fun x => p.before ++ x.body ++ p.after) s = p.mark false s := by
  have hopen : ∀ s, p.pair.readOpening? s =
      (readWord? foldCase p.opener s).map fun x => (x.1, [], x.2) := fun s => rfl
  induction hlen : s.length using Nat.strongRecOn generalizing s with
  | ind len ih =>
    subst hlen
    cases hpair : p.pair.readPair? s with
    | some x =>
      obtain ⟨x, rest⟩ := x
      rw [Pattern.substitute_of_read (p := p.pair.pattern) hpair,
        ih _ (TagPair.readPair?_length hpair) rest rfl]
      rw [TagPair.readPair?, hopen] at hpair
      cases hw : readWord? foldCase p.opener s with
      | none =>
        rw [hw] at hpair
        cases hpair
      | some y =>
        obtain ⟨a, r⟩ := y
        simp only [hw, Option.map_some, Option.map_eq_some_iff, Prod.mk.injEq] at hpair
        obtain ⟨⟨b, z, r'⟩, hn, rfl, rfl⟩ := hpair
        have hread : p.read? false s = some r := by simp [read?, delimiter, hw, hn]
        rw [mark_of_read hread, Bool.not_false, mark_inside hn]
        simp [markup]
    | none =>
      have hread : p.read? false s = none := by
        rw [TagPair.readPair?, hopen] at hpair
        unfold read?
        rw [delimiter]
        cases hw : readWord? foldCase p.opener s with
        | none => rfl
        | some y =>
          simp only [hw, Option.map_some, Option.map_eq_none_iff] at hpair
          simp [hpair]
      cases s with
      | nil => simp
      | cons c s =>
        rw [Pattern.substitute_of_not_read (p := p.pair.pattern) hpair, mark_of_not_read hread,
          ih s.length (Nat.lt_succ_self _) s rfl]

/-! ## Reading behind another rule -/

theorem not_mem_tag {c : Char} (hc : c.isAlpha = false) : c ∉ p.tag := by
  intro hmem
  rw [p.tag_letters c hmem] at hc
  cases hc

/-- A tag is a bracket, then no opening bracket and no markup up to the closing bracket. -/
theorem delimiter_eq (p : Wrapper) (i : Bool) :
    ∃ w, p.delimiter i = '[' :: (w ++ [']']) ∧ '[' ∉ w ∧ '<' ∉ w ∧ ']' ∉ w := by
  have h1 : '[' ∉ p.tag := not_mem_tag (by decide)
  have h2 : '<' ∉ p.tag := not_mem_tag (by decide)
  have h3 : ']' ∉ p.tag := not_mem_tag (by decide)
  cases i with
  | false => exact ⟨p.tag, rfl, h1, h2, h3⟩
  | true => exact ⟨'/' :: p.tag, rfl, by simp [h1], by simp [h2], by simp [h3]⟩

theorem markup_eq (p : Wrapper) (i : Bool) : ∃ m, p.markup i = '<' :: m ∧ '[' ∉ p.markup i := by
  cases i with
  | false =>
    obtain ⟨m, hm⟩ := List.head?_eq_some_iff.1 p.before_markup.1
    exact ⟨m, hm, p.before_markup.2⟩
  | true =>
    obtain ⟨m, hm⟩ := List.head?_eq_some_iff.1 p.after_markup.1
    exact ⟨m, hm, p.after_markup.2⟩

/-- No tag starts in a text without an opening bracket. -/
theorem skips_delimiter (h : '[' ∉ s) : Skips (readWord? foldCase (p.delimiter i)) s := by
  obtain ⟨w, hw, -⟩ := p.delimiter_eq i
  rw [hw]
  refine skips_of_head_ne fun c hc hbracket => h ?_
  rw [foldCase_eq (by decide) hbracket] at hc
  exact hc

theorem read?_of_readWord? (h : readWord? foldCase (p.delimiter i) s = none) :
    p.read? i s = none := by
  rw [read?, h]

theorem skips_read? (h : '[' ∉ s) : Skips (p.read? i) s :=
  (skips_delimiter h).imp fun _ => read?_of_readWord?

theorem mark_append {x : Text} (h : '[' ∉ x) (s : Text) : p.mark i (x ++ s) = x ++ p.mark i s := by
  induction x with
  | nil => rfl
  | cons c x ih =>
    rw [List.mem_cons, not_or] at h
    have hread : p.read? i (c :: (x ++ s)) = none :=
      (skips_read? (s := c :: x) (by simp [h])).1 s
    rw [List.cons_append, mark_of_not_read hread, ih h.2]
    rfl

theorem head_of_read (h : p.read? i s = some r) : ∃ c t, s = c :: t ∧ foldCase c = '[' := by
  obtain ⟨a, ha⟩ := exists_readWord? h
  obtain ⟨w, hw, -⟩ := p.delimiter_eq i
  rw [hw] at ha
  cases s with
  | nil => cases ha
  | cons c t =>
    refine ⟨c, t, rfl, ?_⟩
    by_contra hc
    rw [readWord?_cons_of_ne hc] at ha
    cases ha

/-- The end of a tag is read in what a rule makes of a text where it is read in the text: no tag
starts in it, and no markup. -/
theorem readWord?_mark_tail {w : Text} (h1 : '[' ∉ w) (h2 : '<' ∉ w) (s : Text) :
    readWord? foldCase w (q.mark i s) =
      (readWord? foldCase w s).map fun x => (x.1, q.mark i x.2) := by
  induction w generalizing s with
  | nil => rfl
  | cons c w ih =>
    rw [List.mem_cons, not_or] at h1 h2
    cases hread : q.read? i s with
    | some r =>
      obtain ⟨d, t, rfl, hd⟩ := head_of_read hread
      obtain ⟨m, hm, -⟩ := q.markup_eq i
      have hlt : foldCase '<' ≠ c := h2.1
      rw [mark_of_read hread, hm, List.cons_append, readWord?_cons_of_ne hlt,
        readWord?_cons_of_ne (hd ▸ h1.1)]
      rfl
    | none =>
      cases s with
      | nil => simp [readWord?]
      | cons d t =>
        rw [mark_of_not_read hread, readWord?, readWord?, ih h1.2 h2.2]
        by_cases hd : foldCase d = c
        · simp [hd, Function.comp_def]
        · simp [hd]

/-- Two rules that look for different tags. -/
def Apart (p q : Wrapper) : Prop := ∀ i j, p.delimiter i ≠ q.delimiter j

theorem Apart.symm (h : Apart p q) : Apart q p := fun i j => (h j i).symm

theorem apart_of_tag_ne (h : p.tag ≠ q.tag) : Apart p q := by
  have hslash : ∀ {p : Wrapper}, '/' ∉ p.tag := not_mem_tag (by decide)
  intro i j heq
  cases i <;> cases j <;>
    simp only [delimiter, opener, pair, TagPair.closer, List.cons_append, List.cons.injEq,
      true_and] at heq
  · exact h (List.append_cancel_right heq)
  · have hmem : '/' ∈ p.tag ++ [']'] := by simp [heq]
    exact hslash (by simpa using hmem)
  · have hmem : '/' ∈ q.tag ++ [']'] := by simp [← heq]
    exact hslash (by simpa using hmem)
  · exact h (List.append_cancel_right heq)

/-- Where one rule reads its tag, a rule with other tags reads none. -/
theorem readWord?_of_apart (h : Apart p q) (hq : q.read? j s = some r) :
    readWord? foldCase (p.delimiter i) s = none := by
  obtain ⟨b, hb⟩ := exists_readWord? hq
  obtain ⟨v, hv, -, -, hv3⟩ := q.delimiter_eq j
  obtain ⟨w, hw, -, -, hw3⟩ := p.delimiter_eq i
  rw [Option.eq_none_iff_forall_ne_some]
  rintro ⟨a, r'⟩ ha
  obtain ⟨hafold, ha⟩ := readWord?_eq_some.1 ha
  obtain ⟨hbfold, hb⟩ := readWord?_eq_some.1 hb
  -- both tags end at the first closing bracket of the text
  have hfold : s.map foldCase = '[' :: (w ++ ']' :: r'.map foldCase) := by
    rw [ha, List.map_append, hafold, hw]
    simp
  have hfold' : s.map foldCase = '[' :: (v ++ ']' :: r.map foldCase) := by
    rw [hb, List.map_append, hbfold, hv]
    simp
  obtain ⟨rfl, -⟩ := append_cons_inj hw3 hv3 (List.cons.inj (hfold.symm.trans hfold')).2
  exact h i j (hw.trans hv.symm)

/-- A tag is read in what a rule with other tags makes of a text where it is read in the text. -/
theorem readWord?_mark (h : Apart p q) (s : Text) :
    readWord? foldCase (p.delimiter j) (q.mark i s) =
      (readWord? foldCase (p.delimiter j) s).map fun x => (x.1, q.mark i x.2) := by
  obtain ⟨w, hw, h1, h2, -⟩ := p.delimiter_eq j
  cases hread : q.read? i s with
  | some r =>
    obtain ⟨m, hm, -⟩ := q.markup_eq i
    rw [readWord?_of_apart h hread, mark_of_read hread, hm, hw, List.cons_append]
    exact readWord?_cons_of_ne (by decide)
  | none =>
    cases s with
    | nil => simp [hw, readWord?]
    | cons d t =>
      have htail := readWord?_mark_tail (q := q) (i := i) (w := w ++ [']']) (by simp [h1])
        (by simp [h2]) t
      rw [mark_of_not_read hread, hw, readWord?, readWord?, htail]
      by_cases hd : foldCase d = '['
      · simp [hd, Function.comp_def]
      · simp [hd]

theorem isSome_nearest?_cons {f : Char → Char} {w : Text} {c : Char}
    (h : readWord? f w (c :: s) = none) :
    (nearest? f w (c :: s)).isSome = (nearest? f w s).isSome := by
  rw [nearest?, h, Option.isSome_map]

theorem isSome_nearest?_append {f : Char → Char} {w x : Text} (h : Skips (readWord? f w) x)
    (s : Text) : (nearest? f w (x ++ s)).isSome = (nearest? f w s).isSome := by
  rw [nearest?_append_of_skips h, Option.isSome_map]

/-- A tag stands somewhere in what a rule with other tags makes of a text if it does in the text. -/
theorem isSome_nearest?_mark (h : Apart p q) (s : Text) :
    (nearest? foldCase (p.delimiter j) (q.mark i s)).isSome =
      (nearest? foldCase (p.delimiter j) s).isSome := by
  fun_induction mark q i s with
  | case1 => rfl
  | case2 i c s r hread ih =>
    obtain ⟨a, ha⟩ := exists_readWord? hread
    obtain ⟨m, hm, hmarkup⟩ := q.markup_eq i
    obtain ⟨v, hv, hv1, -, -⟩ := q.delimiter_eq i
    have hnone := readWord?_of_apart (i := j) h hread
    obtain ⟨hfold, hs⟩ := readWord?_eq_some.1 ha
    rw [isSome_nearest?_append (skips_delimiter hmarkup), ih]
    -- behind its bracket the tag of the other rule has no further one
    obtain ⟨a, rfl, hname⟩ := map_foldCase_eq_cons (by decide) (hfold.trans hv)
    rw [List.cons_append, List.cons.injEq] at hs
    obtain ⟨rfl, rfl⟩ := hs
    have hbracket : '[' ∉ a := by
      intro hmem
      have hmap : foldCase '[' ∈ a.map foldCase := List.mem_map_of_mem hmem
      rw [hname, List.mem_append] at hmap
      rcases hmap with hmap | hmap
      · exact hv1 hmap
      · exact absurd hmap (by decide)
    rw [isSome_nearest?_cons hnone, isSome_nearest?_append (skips_delimiter hbracket)]
  | case3 i c s hread ih =>
    have hword := readWord?_mark (i := i) (j := j) h (c :: s)
    rw [mark_of_not_read hread] at hword
    cases hn : readWord? foldCase (p.delimiter j) (c :: s) with
    | none =>
      rw [hn, Option.map_none] at hword
      rw [isSome_nearest?_cons hword, isSome_nearest?_cons hn, ih]
    | some x =>
      rw [hn, Option.map_some] at hword
      rw [nearest?_of_read hword, nearest?_of_read hn]
      rfl

/-- The tags that count in what a rule with other tags makes of a text are those that count in the
text. -/
theorem read?_mark (h : Apart p q) (s : Text) :
    p.read? j (q.mark i s) = (p.read? j s).map (q.mark i) := by
  rw [read?, read?, readWord?_mark h]
  cases readWord? foldCase (p.delimiter j) s with
  | none => rfl
  | some x =>
    have hclose : (nearest? foldCase p.pair.closer (q.mark i x.2)).isSome =
        (nearest? foldCase p.pair.closer x.2).isSome := isSome_nearest?_mark (j := true) h x.2
    simp only [Option.map_some, hclose]
    split <;> rfl

/-! ## Both orders -/

/-- A tag that counts is replaced in either order. -/
theorem mark_of_read_both (h : Apart p q) (hread : p.read? j s = some r) :
    p.mark j (q.mark i s) = p.markup j ++ p.mark (!j) (q.mark i r) ∧
      q.mark i (p.mark j s) = p.markup j ++ q.mark i (p.mark (!j) r) := by
  have hmark : p.read? j (q.mark i s) = some (q.mark i r) := by rw [read?_mark h, hread]; rfl
  obtain ⟨m, -, hmarkup⟩ := p.markup_eq j
  exact ⟨mark_of_read hmark, by rw [mark_of_read hread, mark_append hmarkup]⟩

theorem mark_comm (h : Apart p q) (i j : Bool) (s : Text) :
    p.mark j (q.mark i s) = q.mark i (p.mark j s) := by
  induction hlen : s.length using Nat.strongRecOn generalizing s i j with
  | ind len ih =>
    subst hlen
    cases hp : p.read? j s with
    | some r =>
      obtain ⟨h1, h2⟩ := mark_of_read_both (i := i) h hp
      rw [h1, h2, ih r.length (read?_length hp) i (!j) r rfl]
    | none =>
      cases hq : q.read? i s with
      | some r =>
        obtain ⟨h1, h2⟩ := mark_of_read_both (i := j) h.symm hq
        rw [h1, h2, ih r.length (read?_length hq) (!i) j r rfl]
      | none =>
        cases s with
        | nil => simp
        | cons c s =>
          have hp' : p.read? j (q.mark i (c :: s)) = none := by rw [read?_mark h, hp]; rfl
          have hq' : q.read? i (p.mark j (c :: s)) = none := by rw [read?_mark h.symm, hq]; rfl
          rw [mark_of_not_read hq] at hp' ⊢
          rw [mark_of_not_read hp] at hq' ⊢
          rw [mark_of_not_read hp', mark_of_not_read hq',
            ih s.length (Nat.lt_succ_self _) i j s rfl]

end Wrapper

/-! ## The inline rules -/

namespace Rule

/-- The names of the rules that put markup around a stretch of text. -/
def inlineNames : List String :=
  ["bold", "italic", "underline", "strike", "strike-long", "spoiler", "centre", "heading"]

/-- These rules, in the order in which a render applies them. -/
def inline : List Rule :=
  (Stage.all.flatMap Stage.rules).filter fun r => inlineNames.contains r.name

/-- A rule that does what a wrapper does. -/
def Wraps (r : Rule) (p : Wrapper) : Prop :=
  r.pattern = p.pair.pattern ∧ r.action = .replace fun x => p.before ++ x.body ++ p.after

theorem Wraps.apply {r : Rule} {p : Wrapper} (h : r.Wraps p) (o : Options) (x : Text × Tally) :
    r.apply o x = (p.mark false x.1, x.2) := by
  obtain ⟨name, pattern, action⟩ := r
  obtain ⟨rfl, rfl⟩ := h
  rw [apply_replace, Wrapper.substitute_eq_mark]

def wrappers : List Wrapper :=
  [⟨"b".toList, "<strong>".toList, "</strong>".toList, by decide, by decide, by decide⟩,
    ⟨"i".toList, "<em>".toList, "</em>".toList, by decide, by decide, by decide⟩,
    ⟨"u".toList, "<u>".toList, "</u>".toList, by decide, by decide, by decide⟩,
    ⟨"s".toList, "<s>".toList, "</s>".toList, by decide, by decide, by decide⟩,
    ⟨"strike".toList, "<s>".toList, "</s>".toList, by decide, by decide, by decide⟩,
    ⟨"spoiler".toList,
      "<span class=\"spoiler\" onclick=\"this.classList.toggle('revealed')\">".toList,
      "</span>".toList, by decide, by decide, by decide⟩,
    ⟨"centre".toList, "<center>".toList, "</center>".toList, by decide, by decide, by decide⟩,
    ⟨"heading".toList, "<h2 class=\"osu-heading\">".toList, "</h2>".toList, by decide, by decide,
      by decide⟩]

theorem wraps_inline : List.Forall₂ Wraps inline wrappers :=
  .cons ⟨rfl, rfl⟩ <| .cons ⟨rfl, rfl⟩ <| .cons ⟨rfl, rfl⟩ <| .cons ⟨rfl, rfl⟩ <|
    .cons ⟨rfl, rfl⟩ <| .cons ⟨rfl, rfl⟩ <| .cons ⟨rfl, rfl⟩ <| .cons ⟨rfl, rfl⟩ .nil

theorem exists_wraps {r : Rule} (h : r ∈ inline) : ∃ p ∈ wrappers, r.Wraps p := by
  obtain ⟨hlen, hget⟩ := List.forall₂_iff_get.1 wraps_inline
  obtain ⟨n, hn, rfl⟩ := List.getElem_of_mem h
  exact ⟨wrappers[n], List.getElem_mem _, hget n hn (hlen ▸ hn)⟩

theorem nodup_tag_wrappers : (wrappers.map Wrapper.tag).Nodup := by decide

theorem mark_wrappers_comm {p q : Wrapper} (hp : p ∈ wrappers) (hq : q ∈ wrappers) (s : Text) :
    p.mark false (q.mark false s) = q.mark false (p.mark false s) := by
  by_cases htag : p.tag = q.tag
  · rw [List.inj_on_of_nodup_map nodup_tag_wrappers hp hq htag]
  · exact Wrapper.mark_comm (Wrapper.apart_of_tag_ne htag) false false s

theorem apply_inline_comm (o : Options) {r r' : Rule} (h : r ∈ inline) (h' : r' ∈ inline)
    (x : Text × Tally) : r.apply o (r'.apply o x) = r'.apply o (r.apply o x) := by
  obtain ⟨p, hp, hr⟩ := exists_wraps h
  obtain ⟨q, hq, hr'⟩ := exists_wraps h'
  simp only [hr.apply, hr'.apply]
  rw [mark_wrappers_comm hp hq]

/-- All orders of the inline rules make the same of a text. -/
theorem applyAll_perm_inline (o : Options) {rs : List Rule} (h : rs.Perm inline)
    (x : Text × Tally) : applyAll o rs x = applyAll o inline x := by
  refine h.foldl_eq' (fun r hr r' hr' y => ?_) x
  exact apply_inline_comm o (h.mem_iff.1 hr') (h.mem_iff.1 hr) y

/-- Tags that cross, nest in themselves, are not closed or not opened, and the last rule first. -/
theorem applyAll_reverse_inline :
    inline.reverse.Perm inline ∧
      applyAll {} inline.reverse ("[b][I]a[b][/b]b[/i][u]c[/b][/s]".toList, { widgets := .empty }) =
        ("<strong><em>a[b]</strong>b</em>[u]c[/b][/s]".toList, { widgets := .empty }) := by
  refine ⟨inline.reverse_perm, ?_⟩
  rw [applyAll_perm_inline {} inline.reverse_perm]
  have htext : (applyAll {} inline ("[b][I]a[b][/b]b[/i][u]c[/b][/s]".toList,
      { widgets := .empty })).1 = "<strong><em>a[b]</strong>b</em>[u]c[/b][/s]".toList := by
    decide +kernel
  exact Prod.ext htext rfl

end Rule

end BBCode

import BBCode.Proofs.Box.Forest
import BBCode.Proofs.Tag.Scan

/-!
# BBCode.Proofs.Unclosed.Boxes

Boxes that never close. An opening tag closes if boxes and literals, and then a closing tag, stand
behind it; this is said without the stack that `resolve` pairs tags with. From the leftmost opening
tag that never closes on, a document is neither rendered nor counted, and what stands before that
tag is rendered as if it stood alone.

* `Forest.closes`: every opening tag of a forest closes inside the forest.
* `stopsAt_iff`: the hard stop of `resolve` is the leftmost opening tag that never closes.
* `resolve_stopsAt`: `resolve` fails closed.
-/

namespace BBCode.Box

variable {k : BoxKind}

/-- A box whose opening tag stands in front of some tags closes among them. -/
def Closes (k : BoxKind) (ts : List Tag) : Prop :=
  ∃ (inside : Forest k true) (closing : Tag) (rest : List Tag),
    closing.closes k.tag = true ∧ ts = inside.tags ++ closing :: rest

/-- Byte `p` of a text is where the leftmost opening tag of a kind starts that never closes. -/
def StopsAt (k : BoxKind) (s : Text) (p : Nat) : Prop :=
  ∃ before opening after, Tag.scan s = before ++ opening :: after ∧
    Text.byteLength (before.flatMap Tag.source) = p ∧
    (k.title? opening).isSome = true ∧ ¬ Closes k after ∧
    ∀ pre t post, before = pre ++ t :: post → (k.title? t).isSome = true →
      Closes k (post ++ opening :: after)

theorem Closes.append {ts : List Tag} (h : Closes k ts) (us : List Tag) : Closes k (ts ++ us) := by
  obtain ⟨inside, closing, rest, hclose, rfl⟩ := h
  exact ⟨inside, closing, rest ++ us, hclose, by simp⟩

/-- Every opening tag of a forest closes inside the forest. -/
theorem Forest.closes {nested : Bool} (f : Forest k nested) {pre post : List Tag} {t : Tag}
    (h : f.tags = pre ++ t :: post) (ht : (k.title? t).isSome = true) : Closes k post := by
  induction f generalizing pre post with
  | nil => simp [tags] at h
  | literal u hopen hclose rest ih =>
    cases pre with
    | nil =>
      rw [tags, List.nil_append, List.cons.injEq] at h
      rw [← h.1, hopen] at ht
      cases ht
    | cons v pre =>
      rw [tags, List.cons_append, List.cons.injEq] at h
      exact ih h.2
  | box opening title hopen inside closing hclose rest ih1 ih2 =>
    cases pre with
    | nil =>
      rw [tags, List.nil_append, List.cons_append, List.cons.injEq] at h
      exact ⟨inside, closing, rest.tags, hclose, h.2.symm⟩
    | cons v pre =>
      rw [tags, List.cons_append, List.cons_append, List.cons.injEq] at h
      rcases List.append_eq_append_iff.1 h.2 with ⟨mid, hpre, hrest⟩ | ⟨mid, hinside, hpost⟩
      · -- the tag stands at the closing tag or behind it
        cases mid with
        | nil =>
          rw [List.nil_append, List.cons.injEq] at hrest
          rw [← hrest.1, title?_of_closes hclose] at ht
          cases ht
        | cons w mid =>
          rw [List.cons_append, List.cons.injEq] at hrest
          exact ih2 hrest.2
      · cases mid with
        | nil =>
          rw [List.nil_append, List.cons.injEq] at hpost
          rw [hpost.1, title?_of_closes hclose] at ht
          cases ht
        | cons w mid =>
          rw [List.cons_append, List.cons.injEq] at hpost
          obtain ⟨rfl, rfl⟩ := hpost
          exact (ih1 hinside).append _

/-! ## Tags that stay open -/

/-- What is open after some tags was open before or was opened by them. -/
theorem mem_openAfter {i j : Nat} {stack : List Nat} {ts : List Tag}
    (h : j ∈ openAfter k i stack ts) : j ∈ stack ∨ i ≤ j := by
  induction ts generalizing i stack with
  | nil => exact .inl h
  | cons t ts ih =>
    rw [openAfter] at h
    split at h
    · rcases ih h with h | h
      · rcases List.mem_cons.1 h with rfl | h
        · exact .inr (Nat.le_refl _)
        · exact .inl h
      · exact .inr (by omega)
    · split at h
      · rcases ih h with h | h
        · exact .inl (List.mem_of_mem_tail h)
        · exact .inr (by omega)
      · rcases ih h with h | h
        · exact .inl h
        · exact .inr (by omega)

namespace Forest.StaysOpen

variable {t : Tag} {ts : List Tag}

theorem mem (h : StaysOpen k ts) : 0 ∈ openAfter k 0 [] ts := by
  obtain ⟨inner, hinner⟩ := h 0 []
  rw [hinner]
  exact List.mem_append_right _ List.mem_cons_self

theorem opens (h : StaysOpen k (t :: ts)) : (k.title? t).isSome = true := by
  by_contra hopen
  have hmem := h.mem
  rw [openAfter, if_neg hopen, List.tail_nil, ite_self] at hmem
  rcases mem_openAfter hmem with hmem | hmem
  · cases hmem
  · exact absurd hmem (by decide)

theorem not_closes (h : StaysOpen k (t :: ts)) : ¬ Closes k ts := by
  rintro ⟨inside, closing, rest, hclose, rfl⟩
  obtain ⟨title, htitle⟩ := Option.isSome_iff_exists.1 h.opens
  have hmem := h.mem
  rw [openAfter_opening htitle, openAfter_tags _ _ _ _ (fun h => by cases h), openAfter,
    title?_of_closes hclose, hclose] at hmem
  simp only [Option.isSome_none, Bool.false_eq_true, if_false, if_true, List.tail_cons] at hmem
  rcases mem_openAfter hmem with hmem | hmem
  · cases hmem
  · omega

end Forest.StaysOpen

/-! ## Where the stop is -/

theorem stopped_cases (k : BoxKind) (s : Text) :
    stopped k s = [] ∨ ∃ opening after, stopped k s = opening :: after ∧
      (k.title? opening).isSome = true ∧ ¬ Closes k after := by
  rcases Forest.rest_read k false (Tag.scan s) with h | h | ⟨h, -⟩
  · exact .inl h
  · have h : Forest.StaysOpen k (stopped k s) := h
    cases hs : stopped k s with
    | nil => exact .inl rfl
    | cons opening after =>
      rw [hs] at h
      exact .inr ⟨opening, after, rfl, h.opens, h.not_closes⟩
  · cases h

/-- The tags before the leftmost opening tag that never closes are the forest of the text. -/
theorem split_of_not_closes {s : Text} {before after : List Tag} {opening : Tag}
    (hscan : Tag.scan s = before ++ opening :: after) (hopen : (k.title? opening).isSome = true)
    (hnever : ¬ Closes k after)
    (hbefore : ∀ pre t post, before = pre ++ t :: post → (k.title? t).isSome = true →
      Closes k (post ++ opening :: after)) :
    before = (forest k s).tags ∧ opening :: after = stopped k s := by
  have happend := (tags_forest k s).trans hscan
  rcases List.append_eq_append_iff.1 happend with ⟨mid, hmid, hrest⟩ | ⟨mid, hmid, hrest⟩
  · cases mid with
    | nil =>
      rw [List.append_nil] at hmid
      exact ⟨hmid, hrest.symm⟩
    | cons u mid =>
      -- the reader would have stopped at a tag that closes
      rcases stopped_cases k s with h | ⟨v, vs, h, hv, hnot⟩
      · rw [h] at hrest
        cases hrest
      · rw [h, List.cons_append, List.cons.injEq] at hrest
        obtain ⟨rfl, rfl⟩ := hrest
        exact absurd (hbefore _ _ _ hmid hv) hnot
  · cases mid with
    | nil =>
      rw [List.append_nil] at hmid
      exact ⟨hmid.symm, hrest⟩
    | cons u mid =>
      -- the forest would hold a tag that never closes
      rw [List.cons_append, List.cons.injEq] at hrest
      obtain ⟨rfl, rfl⟩ := hrest
      exact absurd (((forest k s).closes hmid hopen).append _) hnever

theorem stopByte?_eq (k : BoxKind) (s : Text) : stopByte? k s =
    if stopped k s = [] then none
    else some (Text.byteLength ((forest k s).tags.flatMap Tag.source)) := by
  rw [stopByte?, split_scan]
  cases stopped k s <;> rfl

/-- The hard stop of `resolve` is the leftmost opening tag that never closes. -/
theorem stopsAt_iff {s : Text} {p : Nat} : StopsAt k s p ↔ stopByte? k s = some p := by
  rw [stopByte?_eq]
  constructor
  · rintro ⟨before, opening, after, hscan, rfl, hopen, hnever, hbefore⟩
    obtain ⟨rfl, hstop⟩ := split_of_not_closes hscan hopen hnever hbefore
    rw [← hstop, if_neg (List.cons_ne_nil _ _)]
  · intro h
    rcases stopped_cases k s with hs | ⟨opening, after, hs, hopen, hnever⟩
    · rw [if_pos hs] at h
      cases h
    · rw [hs, if_neg (List.cons_ne_nil _ _), Option.some.injEq] at h
      refine ⟨(forest k s).tags, opening, after, ?_, h, hopen, hnever, ?_⟩
      · rw [← hs]
        exact (tags_forest k s).symm
      · exact fun pre t post hpre ht => ((forest k s).closes hpre ht).append _

/-! ## Texts in which nothing closes -/

theorem foldl_literals {o : Options} {ts : List Tag}
    (h : ∀ u ∈ ts, k.title? u = none ∧ u.closes k.tag = false) (n : Nest) (t : Tally) :
    ts.foldl (step o k) (n, t) = (n.write (ts.flatMap Tag.source), t) := by
  induction ts generalizing n with
  | nil => rw [List.foldl_nil, List.flatMap_nil, Nest.write_nil]
  | cons u ts ih =>
    obtain ⟨hu, hts⟩ := List.forall_mem_cons.1 h
    rw [List.foldl_cons, Forest.step_literal hu.1 (fun _ => hu.2)
      (fun h : true = false => by cases h), ih hts, Nest.write_write, List.flatMap_cons]

/-- Without a closing tag no box is rendered, whatever opens. -/
theorem resolve_of_no_closing (o : Options) {s : Text}
    (h : ∀ u ∈ Tag.scan s, u.closes k.tag = false) (t : Tally) : resolve o k (s, t) = (s, t) := by
  have happend := tags_forest k s
  have hliteral : ∀ u ∈ (forest k s).tags, k.title? u = none ∧ u.closes k.tag = false := by
    intro u hu
    have hclose : ∀ v ∈ (forest k s).tags, v.closes k.tag = false := fun v hv =>
      h v (happend ▸ List.mem_append_left _ hv)
    refine ⟨?_, hclose u hu⟩
    by_contra hopen
    obtain ⟨pre, post, hpre⟩ := List.append_of_mem hu
    obtain ⟨inside, closing, rest, hc, rfl⟩ :=
      (forest k s).closes hpre (Option.isSome_iff_ne_none.2 hopen)
    rw [hclose closing (by simp [hpre])] at hc
    cases hc
  simp only [resolve, split_scan, foldl_literals hliteral]
  show (_ ++ (forest k s).tags.flatMap Tag.source ++ _, t) = (s, t)
  rw [List.nil_append, ← List.flatMap_append, happend, Tag.flatMap_source_scan]

/-! ## Failing closed -/

/-- If a text has a hard stop, the part before it is a text in which every box closes, with the
same boxes. -/
theorem resolve_before (o : Options) {s : Text} (t : Tally) (hs : stopped k s ≠ []) :
    Tag.scan ((forest k s).tags.flatMap Tag.source) = (forest k s).tags ∧
      Tag.scan ((stopped k s).flatMap Tag.source) = stopped k s ∧
      resolve o k (s, t) =
        ((resolve o k ((forest k s).tags.flatMap Tag.source, t)).1 ++
            (stopped k s).flatMap Tag.source,
          (resolve o k ((forest k s).tags.flatMap Tag.source, t)).2) := by
  have hcut := Tag.scan_cut (tags_forest k s).symm (by
    rcases stopped_cases k s with h | ⟨opening, after, h, hopen, -⟩
    · exact absurd h hs
    · rw [h]
      rintro u ⟨⟩
      cases opening with
      | text run => cases k <;> cases hopen
      | opening n p => rfl
      | closing n => rfl)
  obtain ⟨hfront, hback⟩ := hcut
  have hself : forest k s = forest k ((forest k s).tags.flatMap Tag.source) :=
    eq_forest hfront.symm
  have hclosed : unclosed? k (Tag.scan ((forest k s).tags.flatMap Tag.source)) = none :=
    unclosed?_eq_none_iff.2 (by rw [← hself, hfront])
  refine ⟨hfront, hback, ?_⟩
  have hsplit : split k (forest k s).tags = ((forest k s).tags, []) := by
    rw [split, ← congrArg (unclosed? k) hfront, hclosed]
  simp only [resolve, split_scan k s, hfront, hsplit, List.flatMap_nil, List.append_nil]

/-- A text is resolved up to the leftmost opening tag that never closes, as if it ended there, and
stays as it is from there on: nothing behind that place is rendered, counted or registered. Every
box that opens before that place closes before it. -/
theorem resolve_stopsAt (o : Options) (k : BoxKind) (s : Text) (t : Tally) {p : Nat}
    (h : StopsAt k s p) : ∃ a b, s = a ++ b ∧ a.byteLength = p ∧
      resolve o k (s, t) = ((resolve o k (a, t)).1 ++ b, (resolve o k (a, t)).2) ∧
      Tag.scan s = Tag.scan a ++ Tag.scan b ∧
      ∀ pre u post, Tag.scan a = pre ++ u :: post → (k.title? u).isSome = true →
        Closes k post := by
  have hbyte := stopsAt_iff.1 h
  rw [stopByte?_eq] at hbyte
  split at hbyte
  · cases hbyte
  · rename_i hs
    obtain ⟨hfront, hback, hresolve⟩ := resolve_before o t hs
    refine ⟨_, _, ?_, Option.some.inj hbyte, hresolve, ?_, ?_⟩
    · rw [← List.flatMap_append, tags_forest, Tag.flatMap_source_scan]
    · rw [hfront, hback, tags_forest]
    · rw [hfront]
      exact fun pre u post hpre hu => (forest k s).closes hpre hu

/-- A box, then one that never closes around one that does. -/
theorem resolve_stopsAt_dangling :
    StopsAt .named "[box=a]é[/box][box=b]x[box=c]y[/box]".toList 15 ∧ ∃ a b,
      "[box=a]é[/box][box=b]x[box=c]y[/box]".toList = a ++ b ∧ Text.byteLength a = 15 ∧
      resolve {} .named ("[box=a]é[/box][box=b]x[box=c]y[/box]".toList, { widgets := .empty }) =
        ((resolve {} .named (a, { widgets := .empty })).1 ++ b,
          (resolve {} .named (a, { widgets := .empty })).2) := by
  have h : StopsAt .named "[box=a]é[/box][box=b]x[box=c]y[/box]".toList 15 :=
    stopsAt_iff.2 (by decide +kernel)
  obtain ⟨a, b, hs, hp, hresolve, -⟩ := resolve_stopsAt {} .named _ { widgets := .empty } h
  exact ⟨h, a, b, hs, hp, hresolve⟩

end BBCode.Box

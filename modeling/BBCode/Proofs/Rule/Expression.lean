import BBCode.Item
import BBCode.Proofs.Guard.Restore
import BBCode.Proofs.Rule.Nearest
import BBCode.Rule.Table
import Mathlib.Data.List.Forall2

/-!
# BBCode.Proofs.Rule.Expression

The expressions that pairs of tags are searched with, and what a matcher that backtracks finds for
them. Such a matcher tries the ways of each part of an expression in order and takes the first one
for which the rest of the expression matches. A value or a body that is to be as short as possible
could so be stretched over the mark that ends it, to reach a later closing tag. It never is: where
the rest does not match behind the first mark, it matches behind no other.

* `first?_shortest_word`: what is as short as possible ends at the nearest mark.
* `PairShape.match?_eq_readPair?`: a match is a pair of tags as the rules read it.
* `Rule.paired_nearest`: every rule for paired tags is the loop from tag to tag.
-/

namespace BBCode

/-- A part of an expression. Letters are compared up to case. -/
inductive Atom where
  | word (w : Text)
  /-- Any text, as little as possible. -/
  | shortest
  /-- At least one character and none that is `stop`, as much as possible. -/
  | longest (stop : Char)
  /-- One of some words, in this order. -/
  | oneOf (ws : List Text)

namespace Atom

/-- The ways to cut a text in two, the shortest first part first. -/
def cuts : Text → List (Text × Text)
  | [] => [([], [])]
  | c :: s => ([], c :: s) :: (cuts s).map fun x => (c :: x.1, x.2)

/-- The ways to take characters that are not `stop` off the front, as many as possible first. -/
def runs (stop : Char) : Text → List (Text × Text)
  | [] => []
  | c :: s =>
    if c = stop then [] else (runs stop s).map (fun x => (c :: x.1, x.2)) ++ [([c], s)]

/-- What a part can match at the front of a text, with what is left, in the order tried. -/
def ways : Atom → Text → List (Text × Text)
  | word w, s => (readWord? foldCase w s).toList
  | shortest, s => cuts s
  | longest stop, s => runs stop s
  | oneOf ws, s => ws.filterMap fun w => readWord? foldCase w s

/-- The first match of an expression: what each part matches, and what is left. A way of a part is
given up if the rest of the expression does not match behind it. -/
def first? : List Atom → Text → Option (List Text × Text)
  | [], s => some ([], s)
  | a :: as, s => (a.ways s).findSome? fun x => (first? as x.2).map fun y => (x.1 :: y.1, y.2)

variable {as : List Atom} {γ : Type}

theorem first?_word (w : Text) (as : List Atom) (s : Text) :
    first? (word w :: as) s =
      (readWord? foldCase w s).bind fun x => (first? as x.2).map fun y => (x.1 :: y.1, y.2) := by
  rw [first?, ways]
  cases readWord? foldCase w s <;> simp

/-! ## Marks -/

/-- A mark is compared as it is. -/
def IsMark (p : Char) : Prop := p.isLower = false ∧ foldCase p = p

instance (p : Char) : Decidable (IsMark p) := inferInstanceAs (Decidable (_ ∧ _))

theorem isMark_of_isDigit {c : Char} (h : c.isDigit = true) : IsMark c ∧ c ≠ ']' := by
  have hall : ∀ d ∈ "0123456789".toList, IsMark d ∧ d ≠ ']' := by decide
  exact hall c (mem_digits h)

theorem IsMark.readWord?_foldCase {stop : Char} (h : IsMark stop) (s : Text) :
    readWord? foldCase [stop] s = readWord? id [stop] s :=
  BBCode.readWord?_foldCase (fun _ hp => List.mem_singleton.1 hp ▸ h) s

theorem nearest?_foldCase {w : Text} (h : ∀ p ∈ w, IsMark p) (s : Text) :
    nearest? foldCase w s = nearest? id w s := by
  induction s with
  | nil => rw [nearest?, nearest?, readWord?_foldCase h]
  | cons c s ih => rw [nearest?, nearest?, readWord?_foldCase h, ih]

theorem readWord?_of_nearest?_nil {f : Char → Char} {w s a r : Text}
    (h : nearest? f w s = some ([], a, r)) : readWord? f w s = some (a, r) := by
  obtain ⟨rfl, hw⟩ := nearest?_append h
  exact readWord?_eq_some.2 ⟨hw, rfl⟩

/-! ## As little as possible -/

/-- Of all cuts in front of a word, the first one counts behind which the rest succeeds. If it
succeeds behind no later place than the nearest, that is the one at the nearest place. -/
theorem findSome?_cuts (w : Text) (k : Text → Text → Text → Option γ)
    (hk : ∀ b a r b' a' r', r' <:+ r → k b a r = none → k b' a' r' = none) (s : Text) :
    ((cuts s).findSome? fun x => (readWord? foldCase w x.2).bind fun y => k x.1 y.1 y.2) =
      (nearest? foldCase w s).bind fun y => k y.1 y.2.1 y.2.2 := by
  induction s generalizing k with
  | nil =>
    rw [cuts, nearest?, List.findSome?_singleton]
    generalize readWord? foldCase w [] = x
    cases x <;> rfl
  | cons c s ih =>
    have htail := ih (fun b => k (c :: b)) fun b a r b' a' r' => hk (c :: b) a r (c :: b') a' r'
    rw [cuts, List.findSome?_cons, List.findSome?_map]
    simp only [Function.comp_def, htail]
    cases hc : readWord? foldCase w (c :: s) with
    | none =>
      rw [nearest?, hc]
      simp only [Option.bind_none, Option.bind_map]
      rfl
    | some x =>
      rw [nearest?, hc]
      simp only [Option.bind_some]
      cases hx : k [] x.1 x.2 with
      | some y => rfl
      | none =>
        -- any later place has less text behind it
        cases hs : nearest? foldCase w s with
        | none => rfl
        | some y =>
          obtain ⟨b, a, r⟩ := y
          have hnearest : nearest? foldCase w (c :: s) = some ([], x.1, x.2) :=
            nearest?_of_read hc
          have hlate : r <:+ c :: s := ⟨c :: b ++ a, by rw [(nearest?_append hs).1]; simp⟩
          have hfirst : x.2 <:+ c :: s := ⟨x.1, (readWord?_eq_some.1 hc).2.symm⟩
          have hr : r <:+ x.2 := List.suffix_of_suffix_length_le hlate hfirst
            (nearest?_length_le (List.suffix_cons c s) hnearest hs)
          exact hk _ _ _ _ _ _ hr hx

theorem first?_shortest_word
    (hlate : ∀ r r', r' <:+ r → first? as r = none → first? as r' = none) (w s : Text) :
    first? (shortest :: word w :: as) s =
      (nearest? foldCase w s).bind fun x =>
        (first? as x.2.2).map fun y => (x.1 :: x.2.1 :: y.1, y.2) := by
  rw [← findSome?_cuts w (fun b a r => (first? as r).map fun y => (b :: a :: y.1, y.2))]
  · rw [first?, ways]
    congr
    funext x
    rw [first?_word]
    cases readWord? foldCase w x.2 <;> simp [Function.comp_def]
  · intro b a r b' a' r' hr hnone
    rw [Option.map_eq_none_iff] at hnone ⊢
    exact hlate r r' hr hnone

/-- A body ends at the nearest closing tag. -/
theorem first?_body (w s : Text) :
    first? [shortest, word w] s =
      (nearest? foldCase w s).map fun x => ([x.1, x.2.1], x.2.2) := by
  rw [first?_shortest_word fun _ _ _ h => by cases h]
  cases nearest? foldCase w s <;> rfl

theorem first?_body_late (w : Text) (r r' : Text) (hr : r' <:+ r)
    (h : first? [shortest, word w] r = none) : first? [shortest, word w] r' = none := by
  rw [first?_body, Option.map_eq_none_iff] at h ⊢
  obtain ⟨x, rfl⟩ := hr
  exact Classical.byContradiction fun hne => nearest?_append_ne_none hne h

/-! ## As much as possible -/

theorem findSome?_runs (stop : Char) (k : Text → Text → Text → Option γ) (s : Text) :
    ((runs stop s).findSome? fun x =>
        (readWord? id [stop] x.2).bind fun y => k x.1 y.1 y.2) =
      (nearest? id [stop] s).bind fun y => if y.1 = [] then none else k y.1 y.2.1 y.2.2 := by
  induction s generalizing k with
  | nil => rfl
  | cons c s ih =>
    rw [runs]
    by_cases hc : c = stop
    · have hread : readWord? id [stop] (c :: s) = some ([c], s) := by simp [readWord?, hc]
      rw [if_pos hc, nearest?, hread]
      rfl
    · have hread : readWord? id [stop] (c :: s) = none := readWord?_cons_of_ne hc
      have htail := ih fun b => k (c :: b)
      rw [if_neg hc, nearest?, hread, List.findSome?_append, List.findSome?_map,
        List.findSome?_singleton]
      simp only [Function.comp_def, htail]
      cases hs : readWord? id [stop] s with
      | some x =>
        rw [nearest?_of_read hs]
        rfl
      | none =>
        cases hn : nearest? id [stop] s with
        | none => rfl
        | some x =>
          have hne : x.1 ≠ [] := by
            intro hnil
            obtain ⟨b, a, r⟩ := x
            obtain rfl : b = [] := hnil
            rw [readWord?_of_nearest?_nil hn] at hs
            cases hs
          simp [hne]

theorem first?_longest {stop : Char} (hstop : IsMark stop) (as : List Atom) (s : Text) :
    first? (longest stop :: word [stop] :: as) s =
      (nearest? id [stop] s).bind fun x => if x.1 = [] then none
        else (first? as x.2.2).map fun y => (x.1 :: x.2.1 :: y.1, y.2) := by
  have hfold := hstop.readWord?_foldCase
  rw [← findSome?_runs stop fun b a r => (first? as r).map fun y => (b :: a :: y.1, y.2)]
  rw [first?, ways]
  congr
  funext x
  rw [first?_word, hfold]
  cases readWord? id [stop] x.2 <;> simp [Function.comp_def]

/-! ## Some words -/

/-- A word without the mark stands in front of the mark exactly if it is what the nearest mark
ends. -/
theorem bind_readWord?_mark {stop : Char} {w : Text} (hw : stop ∉ w)
    (k : Text → Text → Text → Option γ) (s : Text) :
    ((readWord? id w s).bind fun x => (readWord? id [stop] x.2).bind fun y => k x.1 y.1 y.2) =
      (nearest? id [stop] s).bind fun x => if w = x.1 then k x.1 x.2.1 x.2.2 else none := by
  induction w generalizing s k with
  | nil =>
    rw [readWord?, Option.bind_some]
    cases hs : readWord? id [stop] s with
    | some x =>
      rw [nearest?_of_read hs]
      rfl
    | none =>
      cases hn : nearest? id [stop] s with
      | none => rfl
      | some x =>
        have hne : [] ≠ x.1 := by
          intro hnil
          obtain ⟨b, a, r⟩ := x
          obtain rfl : [] = b := hnil
          rw [readWord?_of_nearest?_nil hn] at hs
          cases hs
        exact (if_neg hne).symm
  | cons p w ih =>
    rw [List.mem_cons, not_or] at hw
    cases s with
    | nil => rfl
    | cons c s =>
      by_cases hc : c = stop
      · have hread : readWord? id [stop] (c :: s) = some ([c], s) := by simp [readWord?, hc]
        have hne : id c ≠ p := fun h => hw.1 (hc.symm.trans h)
        rw [nearest?_of_read hread, readWord?_cons_of_ne hne]
        rfl
      · have hread : readWord? id [stop] (c :: s) = none := readWord?_cons_of_ne hc
        rw [nearest?, hread, readWord?]
        by_cases hp : id c = p
        · have hi := ih hw.2 (fun a => k (c :: a)) s
          rw [if_pos hp]
          simp only [Option.bind_map, Function.comp_def, hi, ← hp, id_eq, List.cons.injEq, true_and]
        · have hp' : p ≠ c := fun h => hp h.symm
          rw [if_neg hp]
          cases nearest? id [stop] s <;> simp [hp']

/-- One of some words in front of a mark is what the nearest mark ends, if that is one of them. -/
theorem first?_oneOf {stop : Char} (hstop : IsMark stop) {ws : List Text}
    (hws : ∀ w ∈ ws, ∀ p ∈ w, IsMark p ∧ p ≠ stop) (as : List Atom) (s : Text) :
    first? (oneOf ws :: word [stop] :: as) s =
      (nearest? id [stop] s).bind fun x => if x.1 ∈ ws then
        (first? as x.2.2).map fun y => (x.1 :: x.2.1 :: y.1, y.2) else none := by
  have hfold := hstop.readWord?_foldCase
  induction ws with
  | nil =>
    rw [first?, ways]
    cases nearest? id [stop] s <;> simp
  | cons w ws ih =>
    obtain ⟨hw, hws⟩ := List.forall_mem_cons.1 hws
    have hone := bind_readWord?_mark (fun h => (hw stop h).2 rfl)
      (fun a m r => (first? as r).map fun y => (a :: m :: y.1, y.2)) s
    have hcons : first? (oneOf (w :: ws) :: word [stop] :: as) s =
        ((readWord? id w s).bind fun x => (first? (word [stop] :: as) x.2).map fun y =>
          (x.1 :: y.1, y.2)).or (first? (oneOf ws :: word [stop] :: as) s) := by
      rw [first?, first?, ways, ways, List.filterMap_cons,
        readWord?_foldCase (w := w) fun p hp => (hw p hp).1]
      cases readWord? id w s with
      | none => rfl
      | some x => rw [List.findSome?_cons, Option.bind_some]; cases Option.map _ _ <;> rfl
    have hword : ∀ x : Text × Text, (first? (word [stop] :: as) x.2).map (fun y =>
        (x.1 :: y.1, y.2)) = (readWord? id [stop] x.2).bind fun y => (first? as y.2).map fun z =>
          (x.1 :: y.1 :: z.1, z.2) := by
      intro x
      rw [first?_word, hfold]
      cases readWord? id [stop] x.2 <;> simp [Function.comp_def]
    simp only [hcons, hword, hone, ih hws]
    cases nearest? id [stop] s with
    | none => rfl
    | some x =>
      by_cases hx : w = x.1
      · obtain ⟨v, m, r⟩ := x
        obtain rfl : w = v := hx
        simp only [Option.bind_some, if_true, List.mem_cons, true_or]
        split
        · exact Option.or_self
        · exact Option.or_none
      · have hx' : x.1 ≠ w := fun h => hx h.symm
        simp [hx, hx']

end Atom

/-! ## Expressions of pairs -/

/-- The shapes of opening tags. -/
inductive PairShape where
  | bare (tag : String)
  | valued (tag : String)
  | quoted (tag : String)
  | filled (tag : String)
  /-- With one of some numbers. -/
  | numbered (tag : String) (values : List UInt16)

namespace PairShape

open Atom

def numbers (values : List UInt16) : List Text := values.map fun n => decimal n.toNat

/-- A pair as the rules read it. -/
def pair : PairShape → TagPair
  | bare tag => ⟨tag.toList, none⟩
  | valued tag => ⟨tag.toList, some .any⟩
  | quoted tag => ⟨tag.toList, some .quoted⟩
  | filled tag => ⟨tag.toList, some .filled⟩
  | numbered tag values => ⟨tag.toList, some (.oneOf (numbers values))⟩

/-- The expression of an opening tag. -/
def opening : PairShape → List Atom
  | bare tag => [word ('[' :: tag.toList ++ [']'])]
  | valued tag => [word ('[' :: tag.toList ++ ['=']), shortest, word [']']]
  | quoted tag => [word ('[' :: tag.toList ++ ['=', '"']), shortest, word ['"', ']']]
  | filled tag => [word ('[' :: tag.toList ++ ['=']), longest ']', word [']']]
  | numbered tag values => [word ('[' :: tag.toList ++ ['=']), oneOf (numbers values), word [']']]

/-- The expression of a pair: an opening tag, as little as possible, the closing tag. -/
def expression (p : PairShape) : List Atom := p.opening ++ [shortest, word p.pair.closer]

/-- The pair that the parts of a match make up. -/
def region : List Text → Region
  | [o, b, c] => { opening := o, body := b, closing := c }
  | [h, v, m, b, c] => { opening := h ++ v ++ m, param := v, body := b, closing := c }
  | _ => { opening := [] }

/-- The first match of the expression of a pair. -/
def match? (p : PairShape) (s : Text) : Option (Region × Text) :=
  (first? p.expression s).map fun x => (region x.1, x.2)

theorem readPair?_bare (n s : Text) :
    (TagPair.mk n none).readPair? s =
      (readWord? foldCase ('[' :: n ++ [']']) s).bind fun x =>
        (nearest? foldCase (TagPair.mk n none).closer x.2).map fun y =>
          (⟨x.1, [], y.1, y.2.1⟩, y.2.2) := by
  rw [TagPair.readPair?, TagPair.readOpening?]
  cases readWord? foldCase ('[' :: n ++ [']']) s <;> rfl

theorem readPair?_value (n : Text) (v : ValueForm) (s : Text) :
    (TagPair.mk n (some v)).readPair? s =
      (readWord? foldCase ('[' :: n ++ v.before) s).bind fun x =>
        (nearest? id v.after x.2).bind fun y => if v.accepts y.1 then
          (nearest? foldCase (TagPair.mk n (some v)).closer y.2.2).map fun z =>
            (⟨x.1 ++ y.1 ++ y.2.1, y.1, z.1, z.2.1⟩, z.2.2) else none := by
  simp only [TagPair.readPair?, TagPair.readOpening?]
  cases readWord? foldCase ('[' :: n ++ v.before) s with
  | none => rfl
  | some x =>
    simp only [Option.bind_some]
    cases nearest? id v.after x.2 with
    | none => rfl
    | some y =>
      simp only [Option.bind_some]
      by_cases hy : v.accepts y.1 = true
      · simp only [hy, if_true]
      · simp only [hy, Bool.false_eq_true, if_false]

theorem match_bare (n s : Text) :
    (first? [word ('[' :: n ++ [']']), shortest, word (TagPair.mk n none).closer] s).map
        (fun x => (region x.1, x.2)) = (TagPair.mk n none).readPair? s := by
  rw [first?_word, readPair?_bare]
  cases readWord? foldCase ('[' :: n ++ [']']) s with
  | none => rfl
  | some x =>
    simp only [Option.bind_some, first?_body]
    cases nearest? foldCase (TagPair.mk n none).closer x.2 <;> rfl

/-- An expression for the value that matches what the nearest mark ends, if it is accepted, makes
an expression for the pair. -/
theorem match_value {n : Text} {v : ValueForm} {a : Atom}
    (h : ∀ q, first? [a, word v.after, shortest, word (TagPair.mk n (some v)).closer] q =
      (nearest? id v.after q).bind fun y => if v.accepts y.1 then
        (first? [shortest, word (TagPair.mk n (some v)).closer] y.2.2).map fun z =>
          (y.1 :: y.2.1 :: z.1, z.2) else none) (s : Text) :
    (first? [word ('[' :: n ++ v.before), a, word v.after, shortest,
        word (TagPair.mk n (some v)).closer] s).map (fun x => (region x.1, x.2)) =
      (TagPair.mk n (some v)).readPair? s := by
  rw [first?_word, readPair?_value]
  cases readWord? foldCase ('[' :: n ++ v.before) s with
  | none => rfl
  | some x =>
    simp only [Option.bind_some, h, first?_body]
    cases nearest? id v.after x.2 with
    | none => rfl
    | some y =>
      simp only [Option.bind_some]
      split
      · cases nearest? foldCase (TagPair.mk n (some v)).closer y.2.2 <;> rfl
      · rfl

/-- What a matcher finds that backtracks is a pair of tags as the rules read it. -/
theorem match?_eq_readPair? (p : PairShape) (s : Text) : p.match? s = p.pair.readPair? s := by
  have hbracket : ∀ q ∈ [']'], IsMark q := by decide
  have hquote : ∀ q ∈ ['"', ']'], IsMark q := by decide
  cases p with
  | bare tag => exact match_bare tag.toList s
  | valued tag =>
    refine match_value (v := .any) (fun q => ?_) s
    rw [ValueForm.any, first?_shortest_word (first?_body_late _), nearest?_foldCase hbracket]
    rfl
  | quoted tag =>
    refine match_value (v := .quoted) (fun q => ?_) s
    rw [ValueForm.quoted, first?_shortest_word (first?_body_late _), nearest?_foldCase hquote]
    rfl
  | filled tag =>
    refine match_value (v := .filled) (fun q => ?_) s
    rw [ValueForm.filled, first?_longest (hbracket ']' (by simp))]
    congr
    funext x
    cases x.1 <;> rfl
  | numbered tag values =>
    refine match_value (v := .oneOf (numbers values)) (fun q => ?_) s
    have hdigits : ∀ w ∈ numbers values, ∀ c ∈ w, IsMark c ∧ c ≠ ']' := by
      intro w hw c hc
      obtain ⟨n, -, rfl⟩ := List.mem_map.1 hw
      exact isMark_of_isDigit (isDigit_of_mem_decimal hc)
    rw [ValueForm.oneOf, first?_oneOf (hbracket ']' (by simp)) hdigits]
    simp only [List.contains_eq_mem, decide_eq_true_eq]

end PairShape

/-! ## The rules for paired tags -/

namespace Rule

/-- The rules for paired tags, table by table, with the rule for sizes and those for lists. -/
def paired (o : Options) : List Rule :=
  [Stage.formatting, .color, .specials, .quotes, .inlineCode, .layout, .linksAndMedia,
    .trailing].flatMap Stage.rules ++ (size? o.allowedSizes).toList ++ Item.rules

/-- What the rules for paired tags search for. Without an allowed size there is no rule for
sizes. -/
def pairedShapes (o : Options) : List PairShape :=
  [.bare "b", .bare "i", .bare "u", .bare "s", .bare "strike",
   .valued "color",
   .bare "spoiler",
   .bare "quote", .quoted "quote",
   .bare "c",
   .bare "centre",
   .bare "url", .valued "url", .valued "profile", .bare "img", .valued "img", .bare "youtube",
   .bare "audio",
   .valued "email", .bare "heading", .bare "notice"] ++
  (if o.allowedSizes.isEmpty then [] else [.numbered "size" o.allowedSizes]) ++
  [.filled "list", .bare "list"]

/-- A rule finds what a matcher finds that backtracks over the expression of a shape, and goes from
one nearest pair of that shape to the next. -/
def Seeks (o : Options) (r : Rule) (p : PairShape) : Prop :=
  (∀ s, r.pattern.read? s = p.match? s) ∧
    ∀ s c, r.apply o (s, c) = p.pair.rewrite (r.action.emit o) s c

theorem seeks (o : Options) (name : String) (p : PairShape) (a : Action) :
    Seeks o ⟨name, p.pair.pattern, a⟩ p :=
  ⟨fun s => (p.match?_eq_readPair? s).symm, apply_eq_rewrite o name p.pair a⟩

theorem seeks_bare (o : Options) (name tag : String) (f : Text → Text) :
    Seeks o (.bare name tag f) (.bare tag) := seeks o name (.bare tag) _

theorem seeks_valued (o : Options) (name tag : String) (f : Text → Text → Text) :
    Seeks o (.valued name tag .any f) (.valued tag) := seeks o name (.valued tag) _

theorem forall₂_seeks (o : Options) : List.Forall₂ (Seeks o) (paired o) (pairedShapes o) := by
  refine List.rel_append (List.rel_append ?_ ?_) ?_
  · exact .cons (seeks_bare ..) <| .cons (seeks_bare ..) <| .cons (seeks_bare ..) <|
      .cons (seeks_bare ..) <| .cons (seeks_bare ..) <| .cons (seeks_valued ..) <|
      .cons (seeks_bare ..) <| .cons (seeks_bare ..) <| .cons (seeks o _ (.quoted "quote") _) <|
      .cons (seeks o _ (.bare "c") _) <| .cons (seeks_bare ..) <| .cons (seeks_bare ..) <|
      .cons (seeks_valued ..) <| .cons (seeks o _ (.valued "profile") _) <|
      .cons (seeks_bare ..) <| .cons (seeks_valued ..) <| .cons (seeks_bare ..) <|
      .cons (seeks_bare ..) <| .cons (seeks_valued ..) <| .cons (seeks_bare ..) <|
      .cons (seeks_bare ..) .nil
  · unfold size?
    split
    · exact .nil
    · exact .cons (seeks o _ (.numbered "size" o.allowedSizes) _) .nil
  · exact .cons (seeks o _ (.filled "list") _) (.cons (seeks_bare ..) .nil)

/-- Every rule for paired tags goes through a text from left to right: it looks for the nearest
opening tag of its shape and the nearest closing tag behind that, writes what it makes of the two,
goes on right behind the closing tag, and copies the rest where a tag is missing. A matcher that
backtracks over the expression of the shape finds the same pairs. What stands outside of the pairs
is kept, a value holds no mark that ends it, and a body no closing tag. -/
theorem paired_nearest (o : Options) :
    List.Forall₂ (fun r p =>
        (∀ s, r.pattern.read? s = p.match? s) ∧
          (∀ s c, r.apply o (s, c) = p.pair.rewrite (r.action.emit o) s c) ∧
          ∀ s before x after, p.pair.nearestPair? s = some (before, x, after) →
            s = before ++ (x.source ++ after) ∧
              ¬ p.pair.closer <:+: x.body.map foldCase ∧
              ∀ v, p.pair.value = some v → v.after ≠ [] → ¬ v.after <:+: x.param)
      (paired o) (pairedShapes o) :=
  (forall₂_seeks o).imp fun _ _ h => ⟨h.1, h.2, fun _ _ _ _ => TagPair.nearestPair?_spec⟩

end Rule

end BBCode

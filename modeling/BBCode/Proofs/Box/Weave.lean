import BBCode.Proofs.Box.Titles
import BBCode.Proofs.Template.Widgets
import BBCode.Proofs.Text.Ends

/-!
# BBCode.Proofs.Box.Weave

Texts in which some boxes are rendered and others are not. Such a text is woven: runs of text, and
between them cells, which are tags or the two ends of boxes that are rendered. The runs are kept as
they are in the document; that they lose their line breaks at the ends of a rendered box is part of
how a weave is written.

What is written can be scanned again. The ends of rendered boxes are text to the scanner, and they
make no tag out of the text in front of them: where a run was followed by a tag and started none
itself, it starts none in front of HTML.

* `inert_of_skipsBefore`: a run that starts no tag in front of one text starts none in front of any.
* `legible_weave`: the weave of a text.
* `weave_write`: scanning what a weave is written as gives the weave with its HTML taken for text.
-/

namespace BBCode

namespace Tag

/-- A character that is part of no tag, except in a parameter. -/
def Stopper (c : Char) : Prop := isNameChar c = false ∧ c ≠ ']' ∧ c ≠ '=' ∧ c ≠ '/'

instance (c : Char) : Decidable (Stopper c) := inferInstanceAs (Decidable (_ ∧ _))

/-- A tag that runs into a stopper has its parameter there, and goes on to any bracket. -/
theorem spelled_of_source_append {t : Tag} {x a r : Text} {b : Char} (ht : t.WellSpelled)
    (h : t.source = x ++ b :: a) (hx : x ≠ []) (hb : Stopper b) (hr : ']' ∈ r) :
    Spelled (x ++ r) := by
  obtain ⟨d, x, rfl⟩ := List.exists_cons_of_ne_nil hx
  obtain ⟨hb, hclose, hequals, hslash⟩ := hb
  have hname : ∀ n : Text, isName n = true → b ∉ n := by
    intro n hn hmem
    simp only [isName, Bool.and_eq_true, List.all_eq_true] at hn
    exact absurd (hn.2 b hmem) (by simp [hb])
  cases t with
  | text run => cases ht
  | closing n =>
    rw [source, List.cons_append, List.cons_append, List.cons_append, List.cons.injEq] at h
    have hmem : b ∈ '/' :: (n ++ [']']) := by rw [h.2]; simp
    simp only [List.mem_cons, List.mem_append, List.not_mem_nil, or_false] at hmem
    rcases hmem with hmem | hmem | hmem
    · exact absurd hmem hslash
    · exact absurd hmem (hname n ht)
    · exact absurd hmem hclose
  | opening n param =>
    cases param with
    | none =>
      rw [source, List.cons_append, List.cons_append, List.cons.injEq] at h
      have hmem : b ∈ n ++ [']'] := by rw [h.2]; simp
      simp only [List.mem_append, List.mem_singleton] at hmem
      rcases hmem with hmem | hmem
      · exact absurd hmem (hname n ht)
      · exact absurd hmem hclose
    | some param =>
      obtain ⟨hn, -⟩ := ht
      simp only [source, List.cons_append, List.append_assoc, List.cons.injEq] at h
      obtain ⟨rfl, h⟩ := h
      -- the stopper is behind the equals sign
      obtain ⟨y, rfl⟩ : ∃ y, x = n ++ '=' :: y := by
        rcases List.append_eq_append_iff.1 h with ⟨y, rfl, hy⟩ | ⟨y, rfl, hy⟩
        · cases y with
          | nil => exact absurd (List.cons.inj hy).1.symm hequals
          | cons e y =>
            rw [List.cons_append, List.cons.injEq] at hy
            exact ⟨y, by rw [hy.1]⟩
        · cases y with
          | nil => exact absurd (List.cons.inj hy).1 hequals
          | cons e y =>
            rw [List.cons_append, List.cons.injEq] at hy
            exact absurd (by simp [hy.1]) (hname _ hn)
      obtain ⟨p, q, hpq, hp⟩ :=
        List.eq_append_cons_of_mem (List.mem_append_right y hr)
      exact ⟨opening n (some p), ⟨hn, hp⟩, q, by simp [source, hpq]⟩

/-- A run of text that starts no tag, whatever follows it that cannot be part of a name. -/
def Inert (s : Text) : Prop := ∀ r : Text, (∀ c ∈ r.head?, Stopper c) → SkipsBefore readTag? r s

theorem inert_nil : Inert [] := fun _ _ => trivial

theorem inert_of_skipsBefore {s r : Text} (h : SkipsBefore readTag? r s) (hr : ']' ∈ r) :
    Inert s := by
  induction s with
  | nil => exact inert_nil
  | cons d s ih =>
    intro r' hr'
    refine ⟨readTag?_eq_none.2 fun hspelled => ?_, ih h.2 r' hr'⟩
    apply readTag?_eq_none.1 h.1
    obtain ⟨t, ht, q, hq⟩ := hspelled
    rw [← List.cons_append] at hq ⊢
    rcases List.append_eq_append_iff.1 hq with ⟨a, hsource, ha⟩ | ⟨a, hs, -⟩
    · cases a with
      | nil => exact ⟨t, ht, r, by rw [hsource, List.append_nil]⟩
      | cons b a =>
        have hb : Stopper b := hr' b (by rw [ha]; rfl)
        exact spelled_of_source_append ht hsource (List.cons_ne_nil d s) hb hr
    · exact ⟨t, ht, a ++ r, by rw [hs, List.append_assoc]⟩

/-- A part of an inert run with more of it on both sides. -/
theorem Inert.of_append {p s q : Text} (h : Inert (p ++ (s ++ q))) : Inert s := by
  have hbefore := (h ['[', ']'] (by rintro c ⟨⟩; decide)).of_append.2.of_append.1
  exact inert_of_skipsBefore hbefore (by simp)

theorem firm_source {t : Tag} (h : t.isText = false) : Text.Firm t.source := by
  obtain ⟨m, hm⟩ : ∃ m, t.source = ['['] ++ (m ++ [']']) := by
    cases t with
    | text run => cases h
    | closing n => exact ⟨'/' :: n, rfl⟩
    | opening n param =>
      cases param with
      | none => exact ⟨n, rfl⟩
      | some param => exact ⟨n ++ '=' :: param, by simp [source]⟩
  rw [hm]
  exact .of_ends (by decide) (by decide) m

end Tag

namespace Box

open Tag (Inert Stopper readTag? inert_nil inert_of_skipsBefore)

/-! ## Weaves -/

/-- What stands between two runs of text: a tag, or one end of a box that is rendered. -/
inductive Cell where
  | tag (t : Tag)
  | opened (title id : Text) (expanded : Bool)
  | closed

/-- A widget up to its body. -/
def openingHtml (title id : Text) (expanded : Bool) : Text :=
  Widget.headTag id expanded ++ (Widget.toggleLink title id ++ Widget.bodyTag expanded)

def closingHtml : Text := "</div></div>".toList

theorem widget_eq_ends (title body id : Text) (expanded : Bool) :
    Html.widget title body id expanded =
      openingHtml title id expanded ++ (body ++ closingHtml) := by
  rw [Widget.widget_eq, openingHtml, List.append_assoc, List.append_assoc]
  rfl

namespace Cell

def source : Cell → Text
  | tag t => t.source
  | opened title id expanded => openingHtml title id expanded
  | closed => closingHtml

def opens : Cell → Bool
  | opened _ _ _ => true
  | _ => false

def closes : Cell → Bool
  | closed => true
  | _ => false

/-- A tag that the scanner finds, or HTML in which it finds none. -/
inductive Legible : Cell → Prop where
  | tag {t : Tag} (h : t.WellSpelled) : Legible (tag t)
  | opened {title id : Text} {expanded : Bool} (ht : '[' ∉ title)
      (hid : ∀ c ∈ id, isQuiet c = true) : Legible (opened title id expanded)
  | closed : Legible closed

end Cell

/-- A run of text, and cells with the run of text behind each. -/
structure Weave where
  front : Text
  cells : List (Cell × Text)

/-- What is left of a run of text between two cells. -/
def trimIf (start stop : Bool) (s : Text) : Text :=
  if stop then (if start then s.trimStart else s).trimEnd else if start then s.trimStart else s

/-- Writes a run of text and the cells behind it; `inside` says whether it is the first in a
rendered box. -/
def write (inside : Bool) (s : Text) : List (Cell × Text) → Text
  | [] => trimIf inside false s
  | (c, s') :: w => trimIf inside c.closes s ++ (c.source ++ write c.opens s' w)

/-- Takes the ends of rendered boxes for text. -/
def dissolve (inside : Bool) (s : Text) : List (Cell × Text) → Weave
  | [] => ⟨trimIf inside false s, []⟩
  | (.tag t, s') :: w =>
    let x := dissolve false s' w
    ⟨trimIf inside false s, (.tag t, x.front) :: x.cells⟩
  | (c, s') :: w =>
    let x := dissolve c.opens s' w
    ⟨trimIf inside c.closes s ++ (c.source ++ x.front), x.cells⟩

/-- No run starts a tag, and each cell is read as what it is. -/
def Legible (s : Text) : List (Cell × Text) → Prop
  | [] => SkipsBefore readTag? [] s
  | (c, s') :: w => Inert s ∧ c.Legible ∧ Legible s' w

def ofTags : List Tag → Weave
  | [] => ⟨[], []⟩
  | .text run :: ts => ⟨run ++ (ofTags ts).front, (ofTags ts).cells⟩
  | t :: ts => ⟨[], (.tag t, (ofTags ts).front) :: (ofTags ts).cells⟩

/-- The weave of a text, in which no box is rendered. -/
def weave (s : Text) : Weave := ofTags (Tag.scan s)

/-! ## Cells -/

section

variable {title id : Text} (hid : ∀ c ∈ id, isQuiet c = true) (expanded : Bool)

include hid

theorem openingHtml_eq (title : Text) : ∃ m, openingHtml title id expanded =
    ['<', 'd'] ++ (m ++ ['"', '>']) := by
  obtain ⟨a, ha, -⟩ := Widget.sealed_headTag hid expanded
  obtain ⟨b, hb, -⟩ := Widget.sealed_bodyTag expanded
  refine ⟨a ++ ['"', '>'] ++ Widget.toggleLink title id ++ ['<', 'd'] ++ b, ?_⟩
  rw [openingHtml, ha, hb]
  simp only [List.append_assoc]

theorem firm_openingHtml (title : Text) : Text.Firm (openingHtml title id expanded) := by
  obtain ⟨m, hm⟩ := openingHtml_eq hid expanded title
  rw [hm]
  exact .of_ends (by decide) (by decide) m

theorem not_mem_openingHtml (ht : '[' ∉ title) : '[' ∉ openingHtml title id expanded := by
  have hsealed : ∀ s : Text, Sealed s → '[' ∉ s := by
    rintro s ⟨m, rfl, hm⟩
    have hinner : '[' ∉ m := fun hc => absurd (hm _ hc) (by decide)
    simp [hinner]
  have hquiet : '[' ∉ id := fun hc => absurd (hid _ hc) (by decide)
  have hlink : '[' ∉ Widget.toggleLink title id := by
    unfold Widget.toggleLink
    simp only [List.mem_append, not_or]
    exact ⟨⟨⟨⟨by decide, hquiet⟩, by decide⟩, ht⟩, by decide⟩
  simp only [openingHtml, List.mem_append, not_or]
  exact ⟨hsealed _ (Widget.sealed_headTag hid expanded), hlink,
    hsealed _ (Widget.sealed_bodyTag expanded)⟩

end

theorem firm_closingHtml : Text.Firm closingHtml :=
  Text.Firm.of_ends (a := ['<', '/']) (b := ['v', '>']) (by decide) (by decide) "div></di".toList

theorem not_isText_of_wellSpelled {t : Tag} (h : t.WellSpelled) : t.isText = false := by
  cases t <;> first | rfl | cases h

namespace Cell

variable {c : Cell}

theorem Legible.firm (h : c.Legible) : Text.Firm c.source := by
  cases h with
  | tag ht => exact Tag.firm_source (not_isText_of_wellSpelled ht)
  | opened _ hid => exact firm_openingHtml hid _ _
  | closed => exact firm_closingHtml

theorem Legible.stopper (h : c.Legible) (r : Text) : ∀ d ∈ (c.source ++ r).head?, Stopper d := by
  cases h with
  | @tag t ht =>
    cases t with
    | text run => cases ht
    | opening n param => cases param <;> (rintro d ⟨⟩; decide)
    | closing n => rintro d ⟨⟩; decide
  | @opened title id expanded _ hid =>
    obtain ⟨m, hm⟩ := openingHtml_eq hid expanded title
    rw [source, hm]
    rintro d ⟨⟩
    decide
  | closed => rintro d ⟨⟩; decide

end Cell

/-! ## Trimming runs -/

theorem trimIf_trimIf (a b stop stop' : Bool) (s : Text) :
    trimIf b stop' (trimIf a stop s) = trimIf (a || b) (stop || stop') s := by
  cases a <;> cases b <;> cases stop <;> cases stop' <;>
    simp [trimIf, Text.trimStart_trimEnd, Text.trimStart_trimStart, Text.trimEnd_trimEnd]

theorem trimIf_firm {h : Text} (hh : Text.Firm h) (start stop : Bool) (x y : Text) :
    trimIf start stop (x ++ (h ++ y)) = trimIf start false x ++ (h ++ trimIf false stop y) := by
  cases start <;> cases stop <;> simp [trimIf, hh.start, hh.stop]

theorem write_firm {h : Text} (hh : Text.Firm h) (inside : Bool) (x y : Text)
    (w : List (Cell × Text)) :
    write inside (x ++ (h ++ y)) w = trimIf inside false x ++ (h ++ write false y w) := by
  cases w with
  | nil => exact trimIf_firm hh inside false x y
  | cons e w =>
    obtain ⟨c, s⟩ := e
    simp only [write, trimIf_firm hh, List.append_assoc]

theorem exists_trimIf_start (start : Bool) (s : Text) : ∃ p, s = p ++ trimIf start false s := by
  cases start with
  | false => exact ⟨[], rfl⟩
  | true =>
    obtain ⟨p, -, hs⟩ := Text.trimStart_append s
    exact ⟨p, hs⟩

theorem exists_trimIf (start stop : Bool) (s : Text) :
    ∃ p q, s = p ++ (trimIf start stop s ++ q) := by
  obtain ⟨p, hp⟩ := exists_trimIf_start start s
  cases stop with
  | false => exact ⟨p, [], by rw [List.append_nil]; exact hp⟩
  | true =>
    obtain ⟨q, -, hs⟩ := Text.trimEnd_append (trimIf start false s)
    exact ⟨p, q, hp.trans (congrArg (p ++ ·) hs)⟩

theorem inert_trimIf {s : Text} (h : Inert s) (start stop : Bool) :
    Inert (trimIf start stop s) := by
  obtain ⟨p, q, hs⟩ := exists_trimIf start stop s
  rw [hs] at h
  exact h.of_append

/-! ## The weave of a text -/

theorem ofTags_cons {t : Tag} (h : t.isText = false) (ts : List Tag) :
    ofTags (t :: ts) = ⟨[], (.tag t, (ofTags ts).front) :: (ofTags ts).cells⟩ := by
  cases t <;> first | rfl | cases h

theorem ofTags_joinText (x : Text) (ts : List Tag) :
    ofTags (Tag.joinText x ts) = ⟨x ++ (ofTags ts).front, (ofTags ts).cells⟩ := by
  cases ts with
  | nil => rfl
  | cons t ts =>
    cases t with
    | text run => simp [Tag.joinText, ofTags]
    | opening n p => rfl
    | closing n => rfl

theorem write_ofTags (x : Text) (ts : List Tag) :
    write false (x ++ (ofTags ts).front) (ofTags ts).cells = x ++ ts.flatMap Tag.source := by
  induction ts generalizing x with
  | nil => rfl
  | cons t ts ih =>
    cases ht : t.isText with
    | true =>
      cases t with
      | text run =>
        rw [ofTags, ← List.append_assoc, ih, List.append_assoc]
        rfl
      | opening n p => cases ht
      | closing n => cases ht
    | false =>
      rw [ofTags_cons ht, write, List.append_nil]
      exact congrArg (fun y => x ++ (t.source ++ y)) (ih [])

theorem closeBracket_mem_source {t : Tag} (h : t.isText = false) : ']' ∈ t.source := by
  cases t with
  | text run => cases h
  | closing n => simp [Tag.source]
  | opening n param => cases param <;> simp [Tag.source]

theorem ofTags_cells (ts : List Tag) : ∀ e ∈ (ofTags ts).cells, ∃ t : Tag, t.isText = false ∧
    e.1 = .tag t := by
  induction ts with
  | nil => exact fun e he => by cases he
  | cons t ts ih =>
    cases ht : t.isText with
    | true =>
      cases t with
      | text run => exact ih
      | opening n p => cases ht
      | closing n => cases ht
    | false =>
      rw [ofTags_cons ht]
      exact List.forall_mem_cons.2 ⟨⟨t, ht, rfl⟩, ih⟩

/-- A character that starts no tag, in front of a weave. -/
theorem legible_cons {c : Char} {ts : List Tag} (hc : ¬ Tag.Spelled (c :: ts.flatMap Tag.source))
    (h : Legible (ofTags ts).front (ofTags ts).cells) :
    Legible (c :: (ofTags ts).front) (ofTags ts).cells := by
  have hread := Tag.readTag?_eq_none.2 hc
  have hsource : write false (ofTags ts).front (ofTags ts).cells = ts.flatMap Tag.source :=
    write_ofTags [] ts
  have htags := ofTags_cells ts
  rw [← hsource] at hread
  generalize (ofTags ts).front = front at h hread ⊢
  generalize (ofTags ts).cells = cells at h hread htags ⊢
  cases cells with
  | nil => exact ⟨(congrArg _ (congrArg _ (List.append_nil _))).trans hread, h⟩
  | cons e w =>
    obtain ⟨d, s⟩ := e
    obtain ⟨hinert, hd, hw⟩ := h
    obtain ⟨t, ht, heq⟩ := htags _ List.mem_cons_self
    obtain rfl : d = .tag t := heq
    have hbefore := hinert _ (hd.stopper (write false s w))
    refine ⟨inert_of_skipsBefore (r := t.source ++ write false s w) ⟨hread, hbefore⟩ ?_, hd, hw⟩
    exact List.mem_append_left _ (closeBracket_mem_source ht)

theorem legible_ofTags {s : Text} {ts : List Tag} (h : Tag.Decomposes s ts) :
    Legible (ofTags ts).front (ofTags ts).cells := by
  induction h with
  | done => trivial
  | tag ht _ ih =>
    rw [ofTags_cons (not_isText_of_wellSpelled ht)]
    exact ⟨inert_nil, .tag ht, ih⟩
  | first hc hts rest ih =>
    rw [← rest.flatMap_source] at hc
    exact legible_cons hc ih
  | next hc rest ih =>
    rw [← rest.flatMap_source] at hc
    exact legible_cons hc ih

theorem legible_weave (s : Text) : Legible (weave s).front (weave s).cells :=
  legible_ofTags (Tag.decomposes s)

theorem weave_append {x r : Text} (h : SkipsBefore readTag? r x) :
    weave (x ++ r) = ⟨x ++ (weave r).front, (weave r).cells⟩ := by
  induction x with
  | nil => rfl
  | cons c x ih =>
    have hscan : Tag.scan (c :: (x ++ r)) = Tag.joinText [c] (Tag.scan (x ++ r)) :=
      Tag.scan_char (Tag.readTag?_eq_none.1 h.1)
    rw [List.cons_append, weave, hscan, ofTags_joinText]
    have ih := ih h.2
    rw [weave] at ih
    rw [ih]
    rfl

theorem weave_nil : weave [] = ⟨[], []⟩ := by
  rw [weave, Tag.scan_nil]
  rfl

theorem skipsBefore_of_not_mem {x : Text} (h : '[' ∉ x) (r : Text) :
    SkipsBefore readTag? r x :=
  Skips.before (.of_forall_mem fun _ hc _ => Tag.readTag?_of_ne (fun heq => h (heq ▸ hc)) _) r

theorem weave_source_append {t : Tag} (ht : t.WellSpelled) (r : Text) :
    weave (t.source ++ r) = ⟨[], (.tag t, (weave r).front) :: (weave r).cells⟩ := by
  rw [weave, Tag.scan_tag ht, ofTags_cons (not_isText_of_wellSpelled ht)]
  rfl

/-- Scanning what a weave is written as gives the weave with its HTML taken for text. -/
theorem weave_write {s : Text} {w : List (Cell × Text)} (h : Legible s w) (inside : Bool) :
    weave (write inside s w) = dissolve inside s w := by
  induction w generalizing s inside with
  | nil =>
    obtain ⟨p, hs⟩ := exists_trimIf_start inside s
    have hbefore : SkipsBefore readTag? [] s := h
    rw [hs] at hbefore
    have happend := weave_append hbefore.of_append.2
    rw [List.append_nil] at happend
    rw [write, happend, weave_nil, List.append_nil]
    rfl
  | cons e w ih =>
    obtain ⟨c, s'⟩ := e
    obtain ⟨hinert, hc, hw⟩ := h
    rw [write, weave_append (inert_trimIf hinert inside c.closes _ (hc.stopper _))]
    have hmark : ∀ d : Cell, '[' ∉ d.source → weave (d.source ++ write d.opens s' w) =
        ⟨d.source ++ (dissolve d.opens s' w).front, (dissolve d.opens s' w).cells⟩ := by
      intro d hd
      rw [weave_append (skipsBefore_of_not_mem hd _), ih hw]
    cases hc with
    | @tag t ht =>
      have hcell : weave (t.source ++ write false s' w) =
          ⟨[], (.tag t, (dissolve false s' w).front) :: (dissolve false s' w).cells⟩ := by
        rw [weave_source_append ht, ih hw]
      have hopens : (Cell.tag t).opens = false := rfl
      rw [Cell.source, hopens, hcell, List.append_nil]
      rfl
    | @opened title id expanded ht hid =>
      rw [hmark (.opened title id expanded) (not_mem_openingHtml hid _ ht)]
      rfl
    | closed =>
      rw [hmark .closed (by decide)]
      rfl

end Box

end BBCode

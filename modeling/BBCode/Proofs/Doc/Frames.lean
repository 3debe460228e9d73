import BBCode.Proofs.Doc.Tree

/-!
# BBCode.Proofs.Doc.Frames

The tags and the HTML around the nodes of a tree, and how they keep apart. A tag is not read where
another begins; HTML holds no bracket, no line break and nothing that placeholders are made of.

* `clashes_opener`, `clashes_closer`: no tag starts like another.
* `markup_before`, `markup_after`: what is said of all HTML around nodes.
* `Style.write_closed`: what holds of the parts of a tree holds of the whole.
-/

namespace BBCode

/-! ## Characters -/

theorem ne_of_isPlain {c : Char} (h : isPlain c = true) :
    c ≠ '[' ∧ c ≠ ']' ∧ c ≠ '<' ∧ c ≠ '>' ∧ c ≠ '\r' ∧ c ≠ '\n' ∧
      c ≠ Guarded.placeholderStart ∧ c ≠ Guarded.placeholderStop := by
  simpa [isPlain] using h

theorem PlainValue.ne {s : Text} (h : PlainValue s) {c : Char} (hc : c ∈ s) : c ≠ '<' ∧ c ≠ '>' :=
  ⟨(ne_of_isPlain (h.plain c hc)).2.2.1, (ne_of_isPlain (h.plain c hc)).2.2.2.1⟩

/-! ## Tags -/

namespace Kind

def all : List Kind :=
  [bold, italic, underline, strike, strikeLong, color, size, spoiler, box, spoilerbox, quote,
   quoteBy, inlineCode, centre, link, profile, listOf, list, heading, notice]

theorem mem_all (k : Kind) : k ∈ all := by
  cases k <;> decide

theorem clashes_opener {j k : Kind} (h : j ≠ k) : clashes foldCase j.opener k.opener = true := by
  have hall : ∀ j ∈ all, ∀ k ∈ all, j ≠ k → clashes foldCase j.opener k.opener = true := by
    decide
  exact hall j (mem_all j) k (mem_all k) h

theorem clashes_opener_closer (j k : Kind) : clashes foldCase j.opener k.closer = true := by
  have hall : ∀ j ∈ all, ∀ k ∈ all, clashes foldCase j.opener k.closer = true := by
    decide
  exact hall j (mem_all j) k (mem_all k)

theorem clashes_closer_opener (j k : Kind) : clashes foldCase j.closer k.opener = true := by
  have hall : ∀ j ∈ all, ∀ k ∈ all, clashes foldCase j.closer k.opener = true := by
    decide
  exact hall j (mem_all j) k (mem_all k)

theorem clashes_closer {j k : Kind} (h : j.name ≠ k.name) :
    clashes foldCase j.closer k.closer = true := by
  have hall : ∀ j ∈ all, ∀ k ∈ all, j.name ≠ k.name → clashes foldCase j.closer k.closer = true := by
    decide
  exact hall j (mem_all j) k (mem_all k) h

theorem not_bracket_of_mem_opener (k : Kind) : ∃ x, k.opener = '[' :: x ∧ '[' ∉ x ++ k.tail := by
  have hall : ∀ k ∈ all, '[' ∉ k.opener.tail ++ k.tail := by decide
  exact ⟨k.opener.tail, rfl, hall k (mem_all k)⟩

theorem not_bracket_of_mem_closer (k : Kind) : ∃ x, k.closer = '[' :: x ∧ '[' ∉ x := by
  have hall : ∀ k ∈ all, '[' ∉ k.closer.tail := by decide
  exact ⟨k.closer.tail, rfl, hall k (mem_all k)⟩

end Kind

/-- A word that starts with a bracket is not read where another tag begins. -/
theorem skips_tag {w x y : Text} (h : clashes foldCase ('[' :: w) ('[' :: x) = true)
    (hx : '[' ∉ x ++ y) : Skips (readWord? foldCase ('[' :: w)) ('[' :: x ++ y) := by
  refine ⟨fun r => ?_, skips_of_head_ne fun c hc => foldCase_bracket fun heq => hx (heq ▸ hc)⟩
  show readWord? foldCase ('[' :: w) ('[' :: (x ++ y ++ r)) = none
  rw [List.append_assoc]
  exact readWord?_of_clashes h (y ++ r)

theorem Element.skips_source_before {w : Text} {o : Options} {e : Element} (he : e.Valid o)
    (h : clashes foldCase ('[' :: w) e.kind.opener = true) (ns : List Node) :
    Skips (readWord? foldCase ('[' :: w)) (Style.source.before ns e) := by
  obtain ⟨x, hx, hmem⟩ := e.kind.not_bracket_of_mem_opener
  rw [hx] at h
  have hv : '[' ∉ e.value := fun hc => (ne_of_isPlain (he.value.plain _ hc)).1 rfl
  have hmem' : '[' ∉ x ++ (e.value ++ e.kind.tail) := by
    simp only [List.mem_append, not_or] at hmem ⊢
    exact ⟨hmem.1, hv, hmem.2⟩
  show Skips _ (e.kind.opener ++ e.value ++ e.kind.tail)
  rw [hx, List.append_assoc]
  exact skips_tag h hmem'

theorem Kind.skips_closer {w : Text} {k : Kind}
    (h : clashes foldCase ('[' :: w) k.closer = true) :
    Skips (readWord? foldCase ('[' :: w)) k.closer := by
  obtain ⟨x, hx, hmem⟩ := k.not_bracket_of_mem_closer
  rw [hx] at h ⊢
  have hskip := skips_tag (y := []) h (by simpa using hmem)
  rwa [List.append_nil] at hskip

/-! ## HTML -/

/-- A character of the HTML around nodes: no bracket, no end of a line, nothing of a placeholder. -/
def isMarkupChar (c : Char) : Bool :=
  !(['[', ']', '\r', '\n', Guarded.placeholderStart, Guarded.placeholderStop].contains c)

/-- What can stand around nodes: no line break either. -/
structure Markup (s : Text) : Prop where
  chars : ∀ c ∈ s, isMarkupChar c = true
  unbroken : Skips (readWord? id lineBreak) s

namespace Markup

variable {s t : Text}

theorem append (hs : Markup s) (ht : Markup t) : Markup (s ++ t) := by
  refine ⟨fun c hc => ?_, hs.unbroken.append ht.unbroken⟩
  rcases List.mem_append.1 hc with hc | hc
  · exact hs.chars c hc
  · exact ht.chars c hc

theorem of_check (h : (s.all isMarkupChar && avoids id lineBreak s) = true) : Markup s := by
  rw [Bool.and_eq_true] at h
  exact ⟨List.all_eq_true.1 h.1, skips_of_avoids h.2⟩

theorem of_plain (h : ∀ c ∈ s, isPlain c = true) : Markup s := by
  refine ⟨fun c hc => ?_, skips_of_head_ne fun c hc => (ne_of_isPlain (h c hc)).2.2.1⟩
  obtain ⟨h1, h2, -, -, h3, h4, h5, h6⟩ := ne_of_isPlain (h c hc)
  simp [isMarkupChar, h1, h2, h3, h4, h5, h6]

theorem ne_of_isMarkupChar {c : Char} (h : isMarkupChar c = true) :
    c ≠ '[' ∧ c ≠ ']' ∧ c ≠ '\r' ∧ c ≠ '\n' ∧
      c ≠ Guarded.placeholderStart ∧ c ≠ Guarded.placeholderStop := by
  simpa [isMarkupChar] using h

/-- A word that starts with a bracket is not read in HTML. -/
theorem skips (hs : Markup s) (w : Text) : Skips (readWord? foldCase ('[' :: w)) s :=
  skips_of_head_ne fun c hc => foldCase_bracket (ne_of_isMarkupChar (hs.chars c hc)).1

theorem unreserved (hs : Markup s) : Guarded.Unreserved s := by
  intro c hc
  obtain ⟨-, -, -, -, h1, h2⟩ := ne_of_isMarkupChar (hs.chars c hc)
  simp [Guarded.isReserved, h1, h2]

end Markup

theorem isPlain_of_isDigit {c : Char} (h : c.isDigit = true) : isPlain c = true := by
  have hall : ∀ d ∈ "0123456789".toList, isPlain d = true := by decide
  exact hall c (mem_digits h)

theorem isPlain_of_isQuiet {c : Char} (h : isQuiet c = true) : isPlain c = true := by
  simp only [isQuiet, bars, Bool.and_eq_true, Bool.not_eq_true', List.contains_eq_mem,
    decide_eq_false_iff_not, List.mem_cons, not_or, decide_eq_true_eq] at h
  obtain ⟨⟨h1, h2, h3, h4, h5, h6, -, h7, h8, -⟩, -⟩ := h
  have hstart : c ≠ Guarded.placeholderStart := h7
  have hstop : c ≠ Guarded.placeholderStop := h8
  simp [isPlain, h1, h2, h3, h4, h5, h6, hstart, hstop]

/-- The fixed parts of the HTML around the elements of a kind that are not plain. -/
def Kind.texts : Kind → List Text
  | bold => ["<strong>".toList, "</strong>".toList]
  | italic => ["<em>".toList, "</em>".toList]
  | underline => ["<u>".toList, "</u>".toList]
  | strike | strikeLong => ["<s>".toList, "</s>".toList]
  | color => ["<span style=\"color:".toList, ";\">".toList, "</span>".toList]
  | size => ["<span style=\"font-size:".toList, "%;\">".toList, "</span>".toList]
  | spoiler =>
    ["<span class=\"spoiler\" onclick=\"this.classList.toggle('revealed')\">".toList,
     "</span>".toList]
  | box | spoilerbox =>
    ["<div class=\"js-spoilerbox bbcode-spoilerbox".toList, "\">".toList,
     "<a class=\"js-spoilerbox__link bbcode-spoilerbox__link\" href=\"#\" data-widget-toggle=\"".toList,
     "\"><span class=\"bbcode-spoilerbox__link-icon\"></span>".toList, "</a>".toList,
     "<div class=\"js-spoilerbox__body bbcode-spoilerbox__body\" style=\"display: ".toList,
     ";\">".toList, "</div></div>".toList]
  | quote => ["<blockquote>".toList, "</blockquote>".toList]
  | quoteBy => ["<blockquote><h4>".toList, " wrote:</h4>".toList, "</blockquote>".toList]
  | inlineCode => ["<code>".toList, "</code>".toList]
  | centre => ["<center>".toList, "</center>".toList]
  | link => ["<a href=\"".toList, "\" target=\"_blank\" rel=\"noopener noreferrer\">".toList, "</a>".toList]
  | profile =>
    ["<a class=\"js-usercard\" href=\"".toList,
     "\" target=\"_blank\" rel=\"noopener noreferrer\">".toList, "</a><span id=\"".toList,
     "\" hidden></span>".toList]
  | listOf => ["<ol>".toList, "</ol>".toList]
  | list => ["<ol class=\"unordered\">".toList, "</ol>".toList]
  | heading => ["<h2 class=\"osu-heading\">".toList, "</h2>".toList]
  | notice => ["<div class=\"well\">".toList, "</div>".toList]

namespace Element

variable {o : Options} {e : Element}

section

variable {P : Text → Prop} (happ : ∀ {s t}, P s → P t → P (s ++ t))
  (hplain : ∀ s : Text, (∀ c ∈ s, isPlain c = true) → P s) (htext : ∀ s ∈ e.kind.texts, P s)

include happ hplain

theorem closed_cardId (ns : List Node) (e : Element) : P (e.cardId ns) := by
  refine happ (hplain _ (by decide)) (hplain _ fun c hc => ?_)
  exact isPlain_of_isDigit (isDigit_of_mem_decimal hc)

theorem closed_box {title id : Text} (hbox : ∀ s ∈ Kind.box.texts, P s) (hid : P id)
    (ht : P title) (flag : Bool) :
    P (Widget.headTag id flag ++ (Widget.toggleLink title id ++ Widget.bodyTag flag)) := by
  have hopen : P (Html.openClass flag) := hplain _ (by cases flag <;> decide)
  have hflag : P (Html.flagText flag) := hplain _ (by cases flag <;> decide)
  have hdisplay : P (Html.displayValue flag) := hplain _ (by cases flag <;> decide)
  have h1 : P "\" id=\"".toList := hplain _ (by decide)
  have h2 : P "\" data-widget-id=\"".toList := hplain _ (by decide)
  have h3 : P "\" data-expanded=\"".toList := hplain _ (by decide)
  simp only [Kind.texts, List.forall_mem_cons] at hbox
  obtain ⟨t1, t2, t3, t4, t5, t6, t7, -⟩ := hbox
  have hhead : P (Widget.headTag id flag) :=
    happ (happ (happ (happ (happ (happ (happ (happ t1 hopen) h1) hid) h2) hid) h3) hflag) t2
  have hlink : P (Widget.toggleLink title id) := happ (happ (happ (happ t3 hid) t4) ht) t5
  have hbody : P (Widget.bodyTag flag) := happ (happ t6 hdisplay) t7
  exact happ hhead (happ hlink hbody)

include htext

/-- What holds of plain texts and of the fixed parts, and of texts put together, holds of the HTML
in front of a body. -/
theorem closed_before (ho : o.Plain) (he : e.Valid o) (flag : Text → Bool) (ns : List Node) :
    P (e.before o flag ns) := by
  obtain ⟨k, v⟩ := e
  have hv : P v := hplain v he.value.plain
  have hid : ∀ {kind title : Text} {n : Nat}, P (WidgetId.make kind title n) :=
    hplain _ fun c hc => isPlain_of_isQuiet (Widget.isQuiet_of_mem_make hc)
  cases k with
  | box => exact closed_box happ hplain htext hid hv _
  | spoilerbox => exact closed_box happ hplain htext hid (hplain _ (by decide)) _
  | profile =>
    have hurl : P o.profileUrl := hplain _ ho.profileUrl.plain
    have h1 : P "\" data-user-id=\"".toList := hplain _ (by decide)
    have h2 : P "\" data-tooltip-id=\"".toList := hplain _ (by decide)
    simp only [Kind.texts, List.forall_mem_cons] at htext
    obtain ⟨t1, t2, -⟩ := htext
    exact happ (happ (happ (happ (happ (happ (happ t1 hurl) hv) h1) hv) h2)
      (closed_cardId happ hplain ns _)) t2
  | color | size | quoteBy | link =>
    simp only [Kind.texts, List.forall_mem_cons] at htext
    obtain ⟨t1, t2, -⟩ := htext
    exact happ (happ t1 hv) t2
  | _ =>
    simp only [Kind.texts, List.forall_mem_cons] at htext
    exact htext.1

theorem closed_after (he : e.Valid o) (ns : List Node) : P (e.after ns) := by
  obtain ⟨k, v⟩ := e
  cases k with
  | profile =>
    have hv : P v := hplain v he.value.plain
    have h1 : P "\" class=\"qtip qtip--user-card\" data-user-id=\"".toList :=
      hplain _ (by decide)
    simp only [Kind.texts, List.forall_mem_cons] at htext
    obtain ⟨-, -, t3, t4, -⟩ := htext
    exact happ (happ (happ (happ t3 (closed_cardId happ hplain ns _)) h1) hv) t4
  | box | spoilerbox =>
    simp only [Kind.texts, List.forall_mem_cons] at htext
    obtain ⟨-, -, -, -, -, -, -, t8, -⟩ := htext
    exact t8
  | color | size | quoteBy | link =>
    simp only [Kind.texts, List.forall_mem_cons] at htext
    obtain ⟨-, -, t3, -⟩ := htext
    exact t3
  | _ =>
    simp only [Kind.texts, List.forall_mem_cons] at htext
    exact htext.2.1

end

theorem markup_texts {k : Kind} {s : Text} (hs : s ∈ k.texts) : Markup s := by
  have hall : ∀ k ∈ Kind.all, ∀ s ∈ k.texts,
      (s.all isMarkupChar && avoids id lineBreak s) = true := by decide +kernel
  exact .of_check (hall k (Kind.mem_all k) s hs)

theorem markup_before (ho : o.Plain) (he : e.Valid o) (flag : Text → Bool) (ns : List Node) :
    Markup (e.before o flag ns) :=
  closed_before Markup.append (fun _ => .of_plain) (fun _ => markup_texts) ho he flag ns

theorem markup_after (he : e.Valid o) (ns : List Node) : Markup (e.after ns) :=
  closed_after Markup.append (fun _ => .of_plain) (fun _ => markup_texts) he ns

/-- A word that starts a tag of HTML is read in no HTML whose fixed parts avoid it. -/
theorem skips_html {w : Text} (h : ∀ s ∈ e.kind.texts, avoids foldCase ('<' :: w) s = true)
    (ho : o.Plain) (he : e.Valid o) (flag : Text → Bool) (ns : List Node) :
    Skips (readWord? foldCase ('<' :: w)) (e.before o flag ns) ∧
      Skips (readWord? foldCase ('<' :: w)) (e.after ns) := by
  have hplain : ∀ s : Text, (∀ c ∈ s, isPlain c = true) →
      Skips (readWord? foldCase ('<' :: w)) s := fun s hs =>
    skips_of_head_ne fun c hc => foldCase_lt (ne_of_isPlain (hs c hc)).2.2.1
  have htext := fun s hs => skips_of_avoids (h s hs)
  exact ⟨closed_before Skips.append hplain htext ho he flag ns,
    closed_after Skips.append hplain htext he ns⟩

end Element

/-! ## From the parts of a tree to the whole -/

/-- Items can stand in the tree. -/
def Doc.HasItems {p : Place} (d : Doc p) : Prop :=
  p = .list ∨ ∃ e, .element e ∈ d.nodes ∧ e.kind.place = .list

namespace Doc

theorem HasItems.of_flow {p : Place} {c : Doc .flow} {d : Doc p} (h : c.HasItems)
    (hnodes : c.nodes ⊆ d.nodes) : d.HasItems := by
  rcases h with h | ⟨f, hf, hplace⟩
  · cases h
  · exact .inr ⟨f, hnodes hf, hplace⟩

theorem HasItems.of_body {e : Element} {body : Doc e.kind.place} {rest : Doc .flow}
    (h : body.HasItems) : (element e body rest).HasItems := by
  rcases h with h | ⟨f, hf, hplace⟩
  · exact .inr ⟨e, by simp [nodes], h⟩
  · exact .inr ⟨f, by simp [nodes, hf], hplace⟩

theorem nodes_rest_subset (e : Element) (body : Doc e.kind.place) (rest : Doc .flow) :
    rest.nodes ⊆ (element e body rest).nodes := by
  intro n hn
  simp [nodes, hn]

/-- Lists are called so, and hold all items. -/
theorem Avoids.not_hasItems {d : Doc .flow} (h : d.Avoids "list".toList) : ¬ d.HasItems := by
  rintro (hp | ⟨e, he, hplace⟩)
  · cases hp
  · refine h e he ?_
    cases hk : e.kind <;> rw [hk] at hplace <;> first | rfl | cases hplace

end Doc

namespace Style

variable {S T : Style} {o : Options} {p : Place} {d : Doc p}

/-- What holds of text, of lifted code and of all frames, and of texts put together, holds of a
tree. -/
theorem write_closed {P : Text → Prop} (hnil : P []) (happ : ∀ {s t}, P s → P t → P (s ++ t))
    (htext : ∀ s, PlainText s → P s) (hcode : ∀ ns raw, CodeText raw → P (S.code ns raw))
    (hframe : ∀ ns e, .element e ∈ d.nodes → e.Valid o → P (S.before ns e) ∧ P (S.after ns e))
    (hitem : d.HasItems → P S.itemBefore ∧ P S.itemAfter) (hd : d.Valid o) (ns : List Node) :
    P (S.write ns d) := by
  induction d generalizing ns with
  | nil => exact hnil
  | text s rest ih => exact happ (htext s hd.1) (ih hframe hitem hd.2.2 ns)
  | code raw rest ih =>
    have hr := ih (fun ns e he => hframe ns e (List.mem_cons_of_mem _ he))
      (fun h => hitem (h.of_flow (List.subset_cons_self _ _))) hd.2 (ns ++ [.code raw])
    exact happ (hcode ns raw hd.1) hr
  | element e body rest ihb ihr =>
    obtain ⟨he, -, hbody, hrest⟩ := hd
    obtain ⟨hbefore, hafter⟩ := hframe ns e (by simp [Doc.nodes]) he
    have hb := ihb (fun ns f hf => hframe ns f (by simp [Doc.nodes, hf]))
      (fun h => hitem (Doc.HasItems.of_body h)) hbody (ns ++ [.element e])
    have hr := ihr (fun ns f hf => hframe ns f (by simp [Doc.nodes, hf]))
      (fun h => hitem (Doc.HasItems.of_flow h (Doc.nodes_rest_subset e body rest))) hrest
      (ns ++ .element e :: body.nodes)
    exact happ hbefore (happ hb (happ hafter hr))
  | item body rest ihb ihr =>
    obtain ⟨hbefore, hafter⟩ := hitem (.inl rfl)
    have hb := ihb (fun ns f hf => hframe ns f (by simp [Doc.nodes, hf]))
      (fun _ => hitem (.inl rfl)) hd.1 ns
    have hr := ihr (fun ns f hf => hframe ns f (by simp [Doc.nodes, hf]))
      (fun _ => hitem (.inl rfl)) hd.2 (ns ++ body.nodes)
    exact happ hbefore (happ hb (happ hafter hr))

/-- Styles that agree on the nodes of a tree write it alike. -/
theorem write_congr (hcode : ∀ ns raw, S.code ns raw = T.code ns raw)
    (hframe : ∀ ns e, .element e ∈ d.nodes →
      S.before ns e = T.before ns e ∧ S.after ns e = T.after ns e)
    (hitem : d.HasItems → S.itemBefore = T.itemBefore ∧ S.itemAfter = T.itemAfter)
    (ns : List Node) : S.write ns d = T.write ns d := by
  induction d generalizing ns with
  | nil => rfl
  | text s rest ih => rw [write, write, ih hframe hitem]
  | code raw rest ih =>
    have hr := ih (fun ns e he => hframe ns e (List.mem_cons_of_mem _ he))
      fun h => hitem (h.of_flow (List.subset_cons_self _ _))
    rw [write, write, hcode, hr]
  | element e body rest ihb ihr =>
    obtain ⟨hbefore, hafter⟩ := hframe ns e (by simp [Doc.nodes])
    have hb := ihb (fun ns f hf => hframe ns f (by simp [Doc.nodes, hf]))
      fun h => hitem (Doc.HasItems.of_body h)
    have hr := ihr (fun ns f hf => hframe ns f (by simp [Doc.nodes, hf]))
      fun h => hitem (Doc.HasItems.of_flow h (Doc.nodes_rest_subset e body rest))
    rw [write, write, hbefore, hafter, hb, hr]
  | item body rest ihb ihr =>
    obtain ⟨hbefore, hafter⟩ := hitem (.inl rfl)
    have hb := ihb (fun ns f hf => hframe ns f (by simp [Doc.nodes, hf])) fun _ => hitem (.inl rfl)
    have hr := ihr (fun ns f hf => hframe ns f (by simp [Doc.nodes, hf])) fun _ => hitem (.inl rfl)
    rw [write, write, hbefore, hafter, hb, hr]

end Style

end BBCode

import BBCode.Proofs.Doc.Pass
import BBCode.Proofs.Doc.Stage

/-!
# BBCode.Proofs.Doc.Rules

Rules on trees. The rule for a kind of elements finds exactly the elements of that kind, whatever
has been done to the others: its tags are read in no other tag, no HTML and no text, and the
nearest closing tag is that of the element itself, because no element of the name stands in it.

* `Element.readPair?`: an element is read between its own tags.
* `replacing_restyles`: replacing the elements of a kind writes them as HTML and changes nothing
  else, part by part.
* `fillFrom_staged`: the same for a whole tree.
-/

namespace BBCode

namespace TagPair

/-- The opening tag up to its value, or all of it if it has none. -/
def opener (t : TagPair) : Text :=
  '[' :: t.name ++ match t.value with
    | none => [']']
    | some f => f.before

theorem readPair?_of_opener {t : TagPair} {s : Text} (h : readWord? foldCase t.opener s = none) :
    t.readPair? s = none := by
  obtain ⟨name, value⟩ := t
  have hopen : TagPair.readOpening? ⟨name, value⟩ s = none := by
    cases value with
    | none =>
      have h : readWord? foldCase ('[' :: name ++ [']']) s = none := h
      simp only [readOpening?, h, Option.map_none]
    | some f =>
      have h : readWord? foldCase ('[' :: name ++ f.before) s = none := h
      simp only [readOpening?, h]
  rw [readPair?, hopen]

theorem skips_readPair? {t : TagPair} {x : Text} (h : Skips (readWord? foldCase t.opener) x) :
    Skips t.readPair? x :=
  h.imp fun _ hs => readPair?_of_opener hs

theorem readOpening?_bare {name : Text} (hname : name.map foldCase = name) (r : Text) :
    TagPair.readOpening? ⟨name, none⟩ ('[' :: name ++ [']'] ++ r) =
      some ('[' :: name ++ [']'], [], r) := by
  have hword : ('[' :: name ++ [']']).map foldCase = '[' :: name ++ [']'] := by
    have h1 : foldCase '[' = '[' := by decide
    have h2 : foldCase ']' = ']' := by decide
    simp [hname, h1, h2]
  simp only [readOpening?, readWord?_self_append hword, Option.map_some]

theorem readOpening?_valued {name value : Text} {f : ValueForm}
    (hname : ('[' :: name ++ f.before).map foldCase = '[' :: name ++ f.before)
    (hvalue : Skips (readWord? id f.after) value) (hok : f.accepts value = true) (r : Text) :
    TagPair.readOpening? ⟨name, some f⟩ ('[' :: name ++ f.before ++ value ++ f.after ++ r) =
      some ('[' :: name ++ f.before ++ value ++ f.after, value, r) := by
  have hn := nearest?_append_word (r := r) hvalue (List.map_id f.after)
  have hr := readWord?_self_append hname (value ++ (f.after ++ r))
  have happ : '[' :: name ++ f.before ++ value ++ f.after ++ r =
      ('[' :: name ++ f.before) ++ (value ++ (f.after ++ r)) := by simp
  simp only [readOpening?, happ, hr, hn, hok, if_true]

end TagPair

/-! ## Elements -/

namespace Kind

/-- How the value of an element is written. -/
def form? (o : Options) : Kind → Option ValueForm
  | color | box | link | profile => some .any
  | size => some (.oneOf (o.allowedSizes.map fun n => decimal n.toNat))
  | quoteBy => some .quoted
  | listOf => some .filled
  | _ => none

/-- The tags of a kind, as rules look for them. -/
def pair (o : Options) (k : Kind) : TagPair := ⟨k.name, k.form? o⟩

theorem opener_pair (o : Options) (k : Kind) : (k.pair o).opener = k.opener := by
  cases k <;> rfl

theorem map_foldCase_name (k : Kind) : k.name.map foldCase = k.name := by
  cases k <;> decide

theorem map_foldCase_opener (k : Kind) : k.opener.map foldCase = k.opener := by
  cases k <;> decide

theorem map_foldCase_closer (k : Kind) : k.closer.map foldCase = k.closer := by
  cases k <;> decide

/-- How many elements of the kind there are among some nodes. -/
def count (k : Kind) (ns : List Node) : Nat :=
  ns.countP fun
    | .element e => e.kind = k
    | .code _ => false

theorem count_append (k : Kind) (ns ms : List Node) :
    k.count (ns ++ ms) = k.count ns + k.count ms := List.countP_append

theorem count_eq_zero {k : Kind} {ns : List Node} (h : ∀ e, .element e ∈ ns → e.kind ≠ k) :
    k.count ns = 0 := by
  refine List.countP_eq_zero.2 fun n hn => ?_
  cases n with
  | element e => simpa using h e hn
  | code raw => simp

end Kind

theorem Element.number_eq_count {e : Element} (h : e.kind ≠ .box) (ns : List Node) :
    e.number ns = e.kind.count ns := by
  refine List.countP_congr fun n _ => ?_
  cases n with
  | element f => simp [Element.counts, h]
  | code raw => simp [Element.counts]

section

variable {o : Options} {e : Element}

theorem Element.readOpening?_bare (hform : e.kind.form? o = none)
    (hopen : e.kind.opener = '[' :: e.kind.name ++ [']']) (htail : e.kind.tail = [])
    (hv : e.value = []) (ns : List Node) (r : Text) :
    (e.kind.pair o).readOpening? (Style.source.before ns e ++ r) =
      some (Style.source.before ns e, e.value, r) := by
  have hr := TagPair.readOpening?_bare e.kind.map_foldCase_name r
  show (TagPair.mk e.kind.name (e.kind.form? o)).readOpening?
      (e.kind.opener ++ e.value ++ e.kind.tail ++ r) =
    some (e.kind.opener ++ e.value ++ e.kind.tail, e.value, r)
  rw [hform, hopen, htail, hv, List.append_nil, List.append_nil, hr]

theorem Element.readOpening?_valued {f : ValueForm} (hform : e.kind.form? o = some f)
    (hopen : e.kind.opener = '[' :: e.kind.name ++ f.before) (htail : e.kind.tail = f.after)
    (hskip : Skips (readWord? id f.after) e.value) (hok : f.accepts e.value = true)
    (ns : List Node) (r : Text) :
    (e.kind.pair o).readOpening? (Style.source.before ns e ++ r) =
      some (Style.source.before ns e, e.value, r) := by
  have hname := e.kind.map_foldCase_opener
  rw [hopen] at hname
  have hr := TagPair.readOpening?_valued hname hskip hok r
  show (TagPair.mk e.kind.name (e.kind.form? o)).readOpening?
      (e.kind.opener ++ e.value ++ e.kind.tail ++ r) =
    some (e.kind.opener ++ e.value ++ e.kind.tail, e.value, r)
  rw [hform, hopen, htail, hr]

theorem Element.readOpening? (he : e.Valid o) (ns : List Node) (r : Text) :
    (e.kind.pair o).readOpening? (Style.source.before ns e ++ r) =
      some (Style.source.before ns e, e.value, r) := by
  obtain ⟨k, v⟩ := e
  have hbracket : Skips (readWord? id [']']) v :=
    skips_of_head_ne fun c hc heq => (ne_of_isPlain (he.value.plain c hc)).2.1 heq
  have hquote : Skips (readWord? id ['"', ']']) v :=
    skips_of_head_ne fun c hc heq => he.value.noQuote (heq ▸ hc)
  cases hk : k with
  | color | box | link | profile =>
    subst hk
    exact Element.readOpening?_valued rfl rfl rfl hbracket rfl ns r
  | size =>
    subst hk
    obtain ⟨n, hn, hv⟩ := he.size rfl
    have hv : v = decimal n.toNat := hv
    have hok : (o.allowedSizes.map fun n => decimal n.toNat).contains v = true := by
      rw [List.contains_iff_mem, hv]
      exact List.mem_map.2 ⟨n, hn, rfl⟩
    exact Element.readOpening?_valued rfl rfl rfl hbracket hok ns r
  | quoteBy =>
    subst hk
    exact Element.readOpening?_valued rfl rfl rfl hquote rfl ns r
  | listOf =>
    subst hk
    have hv : v ≠ [] := he.listOf rfl
    have hok : (!v.isEmpty) = true := by simpa using hv
    exact Element.readOpening?_valued rfl rfl rfl hbracket hok ns r
  | _ =>
    subst hk
    exact Element.readOpening?_bare rfl rfl rfl (he.bare rfl) ns r

/-- An element is read from its opening tag to its closing tag, if no closing tag of its name
stands between. -/
theorem Element.readPair? (he : e.Valid o) (ns : List Node) {b : Text}
    (hb : Skips (readWord? foldCase e.kind.closer) b) (r : Text) :
    (e.kind.pair o).readPair? (Style.source.before ns e ++ (b ++ (e.kind.closer ++ r))) =
      some (⟨Style.source.before ns e, e.value, b, e.kind.closer⟩, r) := by
  have hclose : nearest? foldCase (e.kind.pair o).closer (b ++ (e.kind.closer ++ r)) =
      some (b, e.kind.closer, r) := nearest?_append_word hb e.kind.map_foldCase_closer
  rw [TagPair.readPair?, Element.readOpening? he]
  simp only [hclose, Option.map_some]

end

/-! ## Replacing the elements of a kind -/

namespace Piece

variable {α : Type}

/-- What is written behind a text. -/
def onto (x : Text) (y : Text × Nat) : Text × Nat := (x ++ y.1, y.2)

theorem onto_onto (x y : Text) (z : Text × Nat) : onto x (onto y z) = onto (x ++ y) z := by
  rw [onto, onto, onto, List.append_assoc]

theorem fillFrom_pieces_append {p : Pattern Char α} {x : Text} (h : Skips p.read? x)
    (f : Nat → α → Text) (n : Nat) (r : Text) :
    fillFrom f n (p.pieces (x ++ r)) = onto x (fillFrom f n (p.pieces r)) := by
  rw [Pattern.pieces_append h, fillFrom_plain]
  rfl

end Piece

/-- The replacement writes an element of the kind as HTML, whatever is in it. -/
def Renders (o : Options) (flag : Text → Bool) (k : Kind) (f : Nat → Region → Text) : Prop :=
  ∀ ns v b, (Element.mk k v).Valid o → Unbroken b →
    f (k.count ns) ⟨Style.source.before ns ⟨k, v⟩, v, b, k.closer⟩ =
      (Element.mk k v).before o flag ns ++ (b ++ (Element.mk k v).after ns)

section

variable {o : Options} {flag : Text → Bool} {done : List Kind} {items : Bool} {k : Kind}

theorem Style.staged_before_cons {e : Element} (h : e.kind ≠ k) (ns : List Node) :
    (Style.staged o flag (k :: done) items).before ns e =
      (Style.staged o flag done items).before ns e := by
  by_cases hdone : e.kind ∈ done
  · rw [(staged_of_mem hdone ns).1, (staged_of_mem (List.mem_cons_of_mem k hdone) ns).1]
  · have hcons : e.kind ∉ k :: done := by simp [h, hdone]
    rw [(staged_of_not_mem hdone ns).1, (staged_of_not_mem hcons ns).1]

theorem Style.staged_after_cons {e : Element} (h : e.kind ≠ k) (ns : List Node) :
    (Style.staged o flag (k :: done) items).after ns e =
      (Style.staged o flag done items).after ns e := by
  by_cases hdone : e.kind ∈ done
  · rw [(staged_of_mem hdone ns).2, (staged_of_mem (List.mem_cons_of_mem k hdone) ns).2]
  · have hcons : e.kind ∉ k :: done := by simp [h, hdone]
    rw [(staged_of_not_mem hdone ns).2, (staged_of_not_mem hcons ns).2]

theorem Style.staged_cons {p : Place} {d : Doc p} (h : ∀ e, .element e ∈ d.nodes → e.kind ≠ k)
    (ns : List Node) : (Style.staged o flag (k :: done) items).write ns d =
      (Style.staged o flag done items).write ns d :=
  write_congr (S := staged o flag (k :: done) items) (T := staged o flag done items)
    (fun _ _ => rfl) (fun ns e he => ⟨staged_before_cons (h e he) ns, staged_after_cons (h e he) ns⟩)
    (fun _ => ⟨rfl, rfl⟩) ns

theorem Doc.Avoids.kind_ne {p : Place} {d : Doc p} (h : d.Avoids k.name) {e : Element}
    (he : .element e ∈ d.nodes) : e.kind ≠ k :=
  fun hk => h e he (congrArg Kind.name hk)

theorem Kind.clashes_marker (k : Kind) : clashes foldCase k.opener "[*]".toList = true ∧
    clashes foldCase k.closer "[*]".toList = true := by
  have hall : ∀ k ∈ all, clashes foldCase k.opener "[*]".toList = true ∧
      clashes foldCase k.closer "[*]".toList = true := by decide
  exact hall k (mem_all k)

theorem skips_pair {x : Text} (h : Skips (readWord? foldCase k.opener) x) :
    Skips (k.pair o).pattern.read? x :=
  TagPair.skips_readPair? (by rw [Kind.opener_pair]; exact h)

/-- The pass that replaces the elements of a kind. -/
def replacing (o : Options) (k : Kind) (f : Nat → Region → Text) : Pass (Text × Nat) where
  run ns s := Piece.fillFrom f (k.count ns) ((k.pair o).pattern.pieces s)
  onto := Piece.onto
  onto_nil _ := rfl
  onto_append x y z := (Piece.onto_onto x y z).symm

theorem replacing_skips {f : Nat → Region → Text} {ns ms : List Node} {x : Text}
    (hms : k.count ms = 0) (h : Skips (readWord? foldCase k.opener) x) :
    (replacing o k f).Turns ns ms x x := by
  intro z
  have hcount : k.count (ns ++ ms) = k.count ns := by rw [Kind.count_append, hms, Nat.add_zero]
  simp only [replacing, hcount, Piece.fillFrom_pieces_append (skips_pair h)]

/-- An element of the kind is read as a whole, and the search goes on behind it. -/
theorem replacing_element {f : Nat → Region → Text} (hf : Renders o flag k f) {e : Element}
    (hek : e.kind = k) (he : e.Valid o) (ns ms : List Node) (hms : k.count ms = 0) {b : Text}
    (hb : Skips (readWord? foldCase k.closer) b) (hub : Unbroken b) :
    (replacing o k f).Turns ns (.element e :: ms) (Style.source.before ns e ++ (b ++ k.closer))
      (e.before o flag ns ++ (b ++ e.after ns)) := by
  subst hek
  intro z
  have hone : e.kind.count [.element e] = 1 := by simp [Kind.count]
  have hcount : e.kind.count (ns ++ .element e :: ms) = e.kind.count ns + 1 := by
    rw [← List.singleton_append, Kind.count_append, Kind.count_append, hms, hone]
  have hread : (e.kind.pair o).pattern.read? _ = some _ := Element.readPair? he ns hb z
  simp only [replacing, List.append_assoc]
  rw [Pattern.pieces_of_read hread, Piece.fillFrom, hf ns e.value b he hub, hcount]
  simp only [Piece.onto, List.append_assoc]

theorem replacing_restyles {f : Nat → Region → Text} (hf : Renders o flag k f) (hk : k ∉ done)
    (hnests : k.nests = false) (ho : o.Plain) (all : List Node) :
    (replacing o k f).Restyles o all (Style.staged o flag done items)
      (Style.staged o flag (k :: done) items) where
  text ns s hs := replacing_skips rfl hs.skips
  code ns raw _ _ := replacing_skips (Kind.count_eq_zero (by simp)) <|
    skips_of_head_ne fun c hc => foldCase_bracket (Guarded.ne_of_mem_placeholder hc).1
  item ns := by
    have hframe : Skips (readWord? foldCase k.opener) (Style.staged o flag done items).itemBefore ∧
        Skips (readWord? foldCase k.opener) (Style.staged o flag done items).itemAfter :=
      skips_itemFrame k.clashes_marker.1
    exact ⟨replacing_skips rfl hframe.1, replacing_skips rfl hframe.2⟩
  element ns e body he havoid hbody hb := by
    by_cases hek : e.kind = k
    · have hdone : e.kind ∉ done := hek ▸ hk
      have hmem : e.kind ∈ k :: done := by simp [hek]
      have havoid : body.Avoids k.name := hek ▸ havoid (hek ▸ hnests)
      have hzero := Kind.count_eq_zero fun g hg => havoid.kind_ne hg
      have hclose : Skips (readWord? foldCase k.closer)
          ((Style.staged o flag done items).write (ns ++ [.element e]) body) :=
        skips_staged ho hbody (fun g hg => ⟨Kind.clashes_closer_opener _ _,
          Kind.clashes_closer (havoid g hg).symm⟩) (fun _ => k.clashes_marker.2) _
      have hub : Unbroken ((Style.staged o flag done items).write (ns ++ [.element e]) body) :=
        unbroken_staged ho hbody _
      have hcloser : Style.source.after ns e = k.closer := congrArg Kind.closer hek
      have hall := replacing_element hf hek he ns body.nodes hzero hclose hub
      rw [(Style.staged_of_not_mem hdone ns).1, (Style.staged_of_not_mem hdone ns).2,
        (Style.staged_of_mem hmem ns).1, (Style.staged_of_mem hmem ns).2, hcloser,
        Style.staged_cons fun g hg => havoid.kind_ne hg]
      exact hall
    · have hopen : Skips (readWord? foldCase k.opener) ((Style.staged o flag done items).before ns e) :=
        Element.skips_staged_before ho he (Kind.clashes_opener (Ne.symm hek)) ns
      have hclose : Skips (readWord? foldCase k.opener) ((Style.staged o flag done items).after ns e) :=
        Element.skips_staged_after he (Kind.clashes_opener_closer k e.kind) ns
      have hzero : k.count [.element e] = 0 := Kind.count_eq_zero (by simpa using hek)
      rw [Style.staged_before_cons hek, Style.staged_after_cons hek]
      exact .element (replacing_skips hzero hopen) hb (replacing_skips rfl hclose)

/-- Replacing the elements of a kind in a tree. -/
theorem fillFrom_staged {f : Nat → Region → Text} (hf : Renders o flag k f) (hk : k ∉ done)
    (hnests : k.nests = false) (ho : o.Plain) {p : Place} {d : Doc p} (hd : d.Valid o) :
    Piece.fillFrom f 0 ((k.pair o).pattern.pieces ((Style.staged o flag done items).write [] d)) =
      ((Style.staged o flag (k :: done) items).write [] d, k.count d.nodes) := by
  have hturns : (replacing o k f).Turns [] d.nodes ((Style.staged o flag done items).write [] d)
      ((Style.staged o flag (k :: done) items).write [] d) :=
    (replacing_restyles hf hk hnests ho d.nodes).write hd List.prefix_rfl
  rw [← List.append_nil ((Style.staged o flag done items).write [] d)]
  refine (hturns []).trans ?_
  simp [replacing, Piece.fillFrom, Piece.onto]

end

end BBCode

import BBCode.Proofs.Flags
import BBCode.Proofs.Guard.Restore
import BBCode.Proofs.Text.Bytes
import Mathlib.Data.List.Nodup

/-!
# BBCode.Proofs.Box.Names

The names that the ids of boxes are computed from. A name is the kind, the title and the running
number of a box with NUL characters between them. A title may hold any characters, NUL and digits
as well, but neither a kind nor a number holds a NUL, so a name is read back from its two ends;
and a counter never gives out a number twice. So no two boxes of a render have the same name.

* `name_inj`: a name tells kind, title and number.
* `Handed.openFrame`: opening a box hands over a new name and registers its id.
* `names_distinct`: what all boxes of a render hand over, and what the widget map gains.
-/

namespace BBCode

namespace WidgetId

/-- The id that a name stands for. -/
def ofName (name : Text) : Text := "box-".toList ++ (uuid (Text.toBytes name)).flatMap hexByte

theorem nul_not_mem_decimal (n : Nat) : '\x00' ∉ decimal n := fun h =>
  absurd (isDigit_of_mem_decimal h) (by decide)

/-- The kind is what stands before the first NUL, the number what stands behind the last. -/
theorem name_inj {kind kind' title title' : Text} {i j : Nat} (hk : '\x00' ∉ kind)
    (hk' : '\x00' ∉ kind') (h : name kind title i = name kind' title' j) :
    kind = kind' ∧ title = title' ∧ i = j := by
  simp only [name, List.cons_append, List.append_assoc] at h
  obtain ⟨hkind, hrest⟩ := append_cons_inj hk hk' h
  have hreverse := congrArg List.reverse hrest
  simp only [List.reverse_append, List.reverse_cons, List.append_assoc, List.singleton_append]
    at hreverse
  obtain ⟨hnumber, htitle⟩ := append_cons_inj (by simpa using nul_not_mem_decimal i)
    (by simpa using nul_not_mem_decimal j) hreverse
  exact ⟨hkind, List.reverse_inj.1 htitle, decimal_inj (List.reverse_inj.1 hnumber)⟩

theorem hexByte_inj {a b : UInt8} (h : hexByte a = hexByte b) : a = b := by
  have hdigit : ∀ i < 16, ∀ j < 16, Nat.digitChar i = Nat.digitChar j → i = j := by decide
  simp only [hexByte, List.cons.injEq, and_true] at h
  have ha := a.toNat_lt
  have hb := b.toNat_lt
  have hhigh := hdigit _ (by omega) _ (by omega) h.1
  have hlow := hdigit _ (Nat.mod_lt _ (by decide)) _ (Nat.mod_lt _ (by decide)) h.2
  apply UInt8.toNat_inj.1
  omega

theorem flatMap_hexByte_inj {as bs : List UInt8} (h : as.flatMap hexByte = bs.flatMap hexByte) :
    as = bs := by
  induction as generalizing bs with
  | nil =>
    cases bs with
    | nil => rfl
    | cons b bs => cases h
  | cons a as ih =>
    cases bs with
    | nil => cases h
    | cons b bs =>
      obtain ⟨hab, hrest⟩ := List.append_inj h rfl
      rw [hexByte_inj hab, ih hrest]

theorem uuid_eq_of_ofName {a b : Text} (h : ofName a = ofName b) :
    uuid (Text.toBytes a) = uuid (Text.toBytes b) :=
  flatMap_hexByte_inj (List.append_cancel_left h)

end WidgetId

namespace WidgetMap

theorem length_place {es : List (Text × Bool)} (h : es.Pairwise (fun a b => a.1 < b.1)) (id : Text)
    (flag : Bool) :
    (place id flag es).length = es.length + if (es.lookup id).isNone then 1 else 0 := by
  induction es with
  | nil => rfl
  | cons e es ih =>
    obtain ⟨k, v⟩ := e
    obtain ⟨hk, hes⟩ := List.pairwise_cons.1 h
    by_cases hlt : id < k
    · have hnone : ((k, v) :: es).lookup id = none := by
        refine lookup_of_head_lt fun e he => ?_
        rcases List.mem_cons.1 he with rfl | he
        · exact hlt
        · exact List.lt_trans hlt (hk e he)
      rw [place, if_pos hlt, hnone]
      rfl
    · by_cases heq : id = k
      · rw [place, if_neg hlt, if_pos heq, lookup_cons_ite, if_pos heq]
        rfl
      · rw [place, if_neg hlt, if_neg heq, lookup_cons_ite, if_neg heq, List.length_cons, ih hes,
          List.length_cons]
        omega

theorem size_ensure (m : WidgetMap) (id : Text) (default : Bool) :
    (m.ensure id default).size = m.size + if (m.get? id).isNone then 1 else 0 := by
  unfold ensure
  split
  · rename_i flag hf
    rw [hf]
    rfl
  · exact length_place m.sorted id default

end WidgetMap

namespace BoxKind

theorem nul_not_mem_tag (k : BoxKind) : '\x00' ∉ k.tag := by
  cases k <;> decide

theorem tag_inj {j k : BoxKind} (h : j.tag = k.tag) : j = k := by
  cases j <;> cases k <;> first | rfl | exact absurd h (by decide)

end BoxKind

namespace Box

variable {o : Options} {k : BoxKind}

/-- The number of the box of a kind and title that was counted last. -/
def number (k : BoxKind) (title : Text) (t : Tally) : Nat :=
  match k with
  | .named => t.titleCount title
  | .spoiler => t.spoilerboxes

theorem count_fst (title : Text) (t : Tally) : (count k title t).1 = number k title t + 1 := by
  cases k with
  | named => exact t.countTitle_fst title
  | spoiler => rfl

theorem number_count (title : Text) (t : Tally) :
    number k title (count k title t).2 = (count k title t).1 := by
  cases k <;> rfl

/-- Counters never go back. -/
theorem number_le_count (j : BoxKind) (s title : Text) (t : Tally) :
    number j s t ≤ number j s (count k title t).2 := by
  cases k with
  | named =>
    cases j with
    | named => exact List.count_le_count_cons
    | spoiler => exact Nat.le_refl _
  | spoiler =>
    cases j with
    | named => exact Nat.le_refl _
    | spoiler => exact Nat.le_succ _

/-! ## What is handed over -/

/-- The name that opening a box hands over. -/
def nextName (k : BoxKind) (title : Text) (t : Tally) : Text :=
  WidgetId.name k.tag title (count k title t).1

theorem nextId_eq_ofName (title : Text) (t : Tally) :
    nextId k title t = WidgetId.ofName (nextName k title t) := rfl

/-- The names that a run over the tags of boxes hands over, in order. -/
def handed (o : Options) (k : BoxKind) : Nest × Tally → List Tag → List Text
  | _, [] => []
  | x, tag :: tags =>
    ((k.title? tag).map fun title => nextName k title x.2).toList ++
      handed o k (step o k x tag) tags

/-- What can be asked for in the course of a render. -/
inductive Request where
  | resolve (k : BoxKind) (text : Text)
  | countTitle (title : Text)
  | nextSpoilerbox

namespace Request

def perform (o : Options) (t : Tally) : Request → Tally
  | resolve k text => (Box.resolve o k (text, t)).2
  | countTitle title => (t.countTitle title).2
  | nextSpoilerbox => t.nextSpoilerbox.2

/-- The names that a request hands over. Boxes are resolved up to the hard stop. -/
def names (o : Options) (t : Tally) : Request → List Text
  | resolve k text => handed o k ({}, t) (split k (Tag.scan text)).1
  | countTitle _ | nextSpoilerbox => []

def performAll (o : Options) (t : Tally) (rs : List Request) : Tally := rs.foldl (perform o) t

/-- The names that requests hand over, in order. -/
def allNames (o : Options) : Tally → List Request → List Text
  | _, [] => []
  | t, r :: rs => r.names o t ++ allNames o (r.perform o t) rs

end Request

/-! ## What is kept -/

/-- What holds of a tally after some names were handed over, in a render from the map `m`: each
has a number that its counter has reached, none was handed over before, and the map has gained
their ids. -/
structure Handed (o : Options) (m : WidgetMap) (names : List Text) (t : Tally) : Prop where
  reached : ∀ n ∈ names, ∃ k title i, n = WidgetId.name (BoxKind.tag k) title i ∧
    i ≤ number k title t
  nodup : names.Nodup
  seen : t.seen = (names.map WidgetId.ofName).reverse
  get? : ∀ id, t.widgets.get? id =
    if id ∈ t.seen then some ((m.get? id).getD o.expandByDefault) else m.get? id
  size : t.seen.Nodup →
    t.widgets.size = m.size + (t.seen.filter fun id => (m.get? id).isNone).length

namespace Handed

variable {m : WidgetMap} {names : List Text} {t : Tally}

theorem start (o : Options) (m : WidgetMap) : Handed o m [] { widgets := m } where
  reached _ h := by cases h
  nodup := .nil
  seen := rfl
  get? _ := by simp
  size _ := rfl

theorem count (h : Handed o m names t) (k : BoxKind) (title : Text) :
    Handed o m names (count k title t).2 where
  reached n hn := by
    obtain ⟨j, s, i, rfl, hi⟩ := h.reached n hn
    exact ⟨j, s, i, rfl, Nat.le_trans hi (number_le_count j s title t)⟩
  nodup := h.nodup
  seen := by rw [count_seen, h.seen]
  get? := by rw [count_widgets, count_seen]; exact h.get?
  size := by rw [count_widgets, count_seen]; exact h.size

/-- A name with the next number has not been handed over. -/
theorem nextName_not_mem (h : Handed o m names t) (k : BoxKind) (title : Text) :
    nextName k title t ∉ names := by
  intro hmem
  obtain ⟨j, s, i, hname, hi⟩ := h.reached _ hmem
  obtain ⟨hkind, rfl, hnumber⟩ := WidgetId.name_inj k.nul_not_mem_tag j.nul_not_mem_tag hname
  obtain rfl := BoxKind.tag_inj hkind
  rw [count_fst] at hnumber
  omega

theorem register (h : Handed o m names t) {n : Text} (hn : n ∉ names)
    (hreached : ∃ k title i, n = WidgetId.name (BoxKind.tag k) title i ∧ i ≤ number k title t) :
    Handed o m (names ++ [n]) (t.register o.expandByDefault (WidgetId.ofName n)).2 where
  reached a ha := by
    rcases List.mem_append.1 ha with ha | ha
    · exact h.reached a ha
    · rw [List.mem_singleton.1 ha]
      exact hreached
  nodup := by
    rw [List.nodup_append_comm]
    exact List.nodup_cons.2 ⟨hn, h.nodup⟩
  seen := by
    rw [Tally.register_seen, h.seen]
    simp
  get? id := by
    show (t.widgets.ensure (WidgetId.ofName n) _).get? id = _
    rw [WidgetMap.get?_ensure, Tally.register_seen]
    by_cases hid : id = WidgetId.ofName n
    · rw [if_pos hid, if_pos (List.mem_cons.2 (.inl hid)), ← hid, h.get?]
      split <;> rfl
    · rw [if_neg hid, h.get?]
      simp only [List.mem_cons, hid, false_or]
  size hseen := by
    rw [Tally.register_seen] at hseen ⊢
    obtain ⟨hid, hseen⟩ := List.nodup_cons.1 hseen
    show (t.widgets.ensure (WidgetId.ofName n) _).size = _
    rw [WidgetMap.size_ensure, h.size hseen, h.get?, if_neg hid]
    by_cases hnew : (m.get? (WidgetId.ofName n)).isNone = true
    · rw [if_pos hnew, List.filter_cons, if_pos hnew, List.length_cons, Nat.add_assoc]
    · rw [if_neg hnew, List.filter_cons, if_neg hnew, Nat.add_zero]

/-- Opening a box hands over a new name and registers its id. -/
theorem openFrame (h : Handed o m names t) (k : BoxKind) (title : Text) :
    Handed o m (names ++ [nextName k title t]) (openFrame o k title t).2 := by
  rw [openFrame_eq, nextId_eq_ofName]
  exact (h.count k title).register (h.nextName_not_mem k title)
    ⟨k, title, _, rfl, Nat.le_of_eq (number_count title t).symm⟩

theorem step {x : Nest × Tally} (h : Handed o m names x.2) (k : BoxKind) (tag : Tag) :
    Handed o m (names ++ ((k.title? tag).map fun title => nextName k title x.2).toList)
      (step o k x tag).2 := by
  cases htitle : k.title? tag with
  | some title =>
    rw [Box.step, htitle]
    exact h.openFrame k title
  | none =>
    have hnone : (Box.step o k x tag).2 = x.2 := by
      rw [Box.step, htitle]
      simp only
      split <;> rfl
    rw [hnone]
    simpa using h

/-- A run over the tags of boxes hands over new names only. -/
theorem foldl {x : Nest × Tally} (h : Handed o m names x.2) (k : BoxKind) (tags : List Tag) :
    Handed o m (names ++ handed o k x tags) (tags.foldl (Box.step o k) x).2 := by
  induction tags generalizing names x with
  | nil => simpa [handed] using h
  | cons tag tags ih =>
    rw [handed, ← List.append_assoc]
    exact ih (h.step k tag)

theorem perform (h : Handed o m names t) (r : Request) :
    Handed o m (names ++ r.names o t) (r.perform o t) := by
  cases r with
  | resolve k text => exact h.foldl (x := ({}, t)) k (split k (Tag.scan text)).1
  | countTitle title =>
    rw [Request.names, List.append_nil]
    exact h.count .named title
  | nextSpoilerbox =>
    rw [Request.names, List.append_nil]
    exact h.count .spoiler BoxKind.spoilerTitle

theorem performAll (h : Handed o m names t) (rs : List Request) :
    Handed o m (names ++ Request.allNames o t rs) (Request.performAll o t rs) := by
  induction rs generalizing names t with
  | nil =>
    rw [Request.allNames, List.append_nil]
    exact h
  | cons r rs ih =>
    rw [Request.allNames, ← List.append_assoc]
    exact ih (h.perform r)

end Handed

/-- In one render, whatever texts are resolved for either kind of boxes and whatever is counted in
between, the byte strings handed to the UUID differ from each other. The ids registered are those
that they stand for, and a widget that the start map does not have gets the default flag. If no
two of the byte strings have the same UUID, the ids differ as well, and the map has gained one
entry for each of them that the start map did not have. -/
theorem names_distinct (o : Options) (m : WidgetMap) (rs : List Request) :
    let names := Request.allNames o { widgets := m } rs
    let t := Request.performAll o { widgets := m } rs
    (names.map Text.toBytes).Nodup ∧
      t.seen = (names.map WidgetId.ofName).reverse ∧
      (∀ id, t.widgets.get? id =
        if id ∈ t.seen then some ((m.get? id).getD o.expandByDefault) else m.get? id) ∧
      ((∀ a ∈ names, ∀ b ∈ names,
          WidgetId.uuid (Text.toBytes a) = WidgetId.uuid (Text.toBytes b) → a = b) →
        (names.map WidgetId.ofName).Nodup ∧
          t.widgets.size = m.size +
            ((names.map WidgetId.ofName).filter fun id => (m.get? id).isNone).length) := by
  intro names t
  have h : Handed o m names t := (Handed.start o m).performAll rs
  refine ⟨h.nodup.map fun _ _ => Text.toBytes_injective, h.seen, h.get?, fun huuid => ?_⟩
  have hids : (names.map WidgetId.ofName).Nodup :=
    h.nodup.map_on fun a ha b hb hab => huuid a ha b hb (WidgetId.uuid_eq_of_ofName hab)
  refine ⟨hids, ?_⟩
  have hsize := h.size (by rw [h.seen]; exact List.nodup_reverse.2 hids)
  rw [hsize, h.seen, List.filter_reverse, List.length_reverse]

/-- Two boxes of one title, and one whose title holds what stands between title and number. -/
theorem names_distinct_forged :
    let rs := [.resolve .named "[box=A]x[/box][box=A\x002]y[/box]".toList, .countTitle "A".toList,
      .resolve .named "[box=A]z[/box]".toList]
    let names := [WidgetId.name "box".toList "A".toList 1,
      WidgetId.name "box".toList "A\x002".toList 1, WidgetId.name "box".toList "A".toList 3]
    Request.allNames {} { widgets := .empty } rs = names ∧
      (∀ a ∈ names, ∀ b ∈ names,
        WidgetId.uuid (Text.toBytes a) = WidgetId.uuid (Text.toBytes b) → a = b) ∧
      (names.map WidgetId.ofName).Nodup ∧
      (Request.performAll {} { widgets := .empty } rs).widgets.size = 3 := by
  intro rs names
  have hnames : Request.allNames {} { widgets := .empty } rs = names := by decide +kernel
  have huuid : ∀ a ∈ names, ∀ b ∈ names,
      WidgetId.uuid (Text.toBytes a) = WidgetId.uuid (Text.toBytes b) → a = b := by decide +kernel
  obtain ⟨-, -, -, hgain⟩ := names_distinct {} .empty rs
  rw [hnames] at hgain
  obtain ⟨hids, hsize⟩ := hgain huuid
  exact ⟨hnames, huuid, hids, hsize⟩

end Box

end BBCode

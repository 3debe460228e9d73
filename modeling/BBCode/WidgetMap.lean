import BBCode.Text

/-!
# BBCode.WidgetMap

The flags of the collapsible widgets of a document, by widget id. A map outlives the render that
made it, so that a widget the reader opened stays open. The ids are kept in increasing order,
which makes equal contents equal maps.

Main statements: `get?_set`, `get?_ensure` and `get?_retain` say what each operation does to the
flag of every id.
-/

namespace BBCode

structure WidgetMap where
  entries : List (Text × Bool)
  sorted : entries.Pairwise (fun a b => a.1 < b.1)

namespace WidgetMap

/-- Puts an entry at its place, over one of the same id. -/
def place (id : Text) (flag : Bool) : List (Text × Bool) → List (Text × Bool)
  | [] => [(id, flag)]
  | e :: es =>
    if id < e.1 then (id, flag) :: e :: es
    else if id = e.1 then (id, flag) :: es
    else e :: place id flag es

theorem mem_place {id : Text} {flag : Bool} {es : List (Text × Bool)} {x : Text × Bool}
    (h : x ∈ place id flag es) : x = (id, flag) ∨ x ∈ es := by
  induction es with
  | nil => exact .inl (by simpa [place] using h)
  | cons e es ih =>
    rw [place] at h
    split at h
    · simpa using h
    · split at h
      · rcases List.mem_cons.1 h with h | h
        · exact .inl h
        · exact .inr (List.mem_cons_of_mem _ h)
      · rcases List.mem_cons.1 h with h | h
        · exact .inr (by simp [h])
        · rcases ih h with h | h
          · exact .inl h
          · exact .inr (List.mem_cons_of_mem _ h)

theorem lt_of_not_lt_of_ne {a b : Text} (h : ¬ a < b) (hne : a ≠ b) : b < a :=
  Decidable.byContradiction fun h' =>
    hne (List.le_antisymm (List.not_lt.1 h') (List.not_lt.1 h))

theorem place_sorted (id : Text) (flag : Bool) {es : List (Text × Bool)}
    (h : es.Pairwise (fun a b => a.1 < b.1)) :
    (place id flag es).Pairwise (fun a b => a.1 < b.1) := by
  induction es with
  | nil => simp [place]
  | cons e es ih =>
    obtain ⟨he, hes⟩ := List.pairwise_cons.1 h
    rw [place]
    split
    · rename_i hlt
      refine List.pairwise_cons.2 ⟨?_, h⟩
      intro x hx
      rcases List.mem_cons.1 hx with rfl | hx
      · exact hlt
      · exact List.lt_trans hlt (he x hx)
    · split
      · rename_i heq
        refine List.pairwise_cons.2 ⟨?_, hes⟩
        intro x hx
        show id < x.1
        rw [heq]
        exact he x hx
      · rename_i hlt hne
        refine List.pairwise_cons.2 ⟨?_, ih hes⟩
        intro x hx
        rcases mem_place hx with rfl | hx
        · exact lt_of_not_lt_of_ne hlt hne
        · exact he x hx

def empty : WidgetMap := ⟨[], .nil⟩

/-- The flag of a widget, if the map has it. -/
def get? (m : WidgetMap) (id : Text) : Option Bool := m.entries.lookup id

def set (m : WidgetMap) (id : Text) (flag : Bool) : WidgetMap :=
  ⟨place id flag m.entries, place_sorted id flag m.sorted⟩

/-- The flag after flipping it, and the map with it. A widget the map does not have counts as
collapsed. -/
def toggle (m : WidgetMap) (id : Text) : Bool × WidgetMap :=
  let flag := !(m.get? id).getD false
  (flag, m.set id flag)

/-- The map with a flag for `id`, which is `default` if it had none. -/
def ensure (m : WidgetMap) (id : Text) (default : Bool) : WidgetMap :=
  match m.get? id with
  | some _ => m
  | none => m.set id default

/-- The map without the widgets that `keep` rejects. -/
def retain (m : WidgetMap) (keep : Text → Bool) : WidgetMap :=
  ⟨m.entries.filter fun e => keep e.1, m.sorted.filter _⟩

def size (m : WidgetMap) : Nat := m.entries.length

def isEmpty (m : WidgetMap) : Bool := m.entries.isEmpty

/-- The map of some flags; of two for one id the later counts. -/
def ofList (es : List (Text × Bool)) : WidgetMap :=
  es.foldl (fun m e => m.set e.1 e.2) empty

@[ext] theorem ext {m n : WidgetMap} (h : m.entries = n.entries) : m = n := by
  cases m; cases n; cases h; rfl

theorem lookup_cons_ite (k k' : Text) (v : Bool) (es : List (Text × Bool)) :
    ((k', v) :: es).lookup k = if k = k' then some v else es.lookup k := by
  rw [List.lookup_cons]
  by_cases hk : k = k'
  · simp [hk]
  · rw [if_neg hk, beq_false_of_ne hk]

theorem lookup_place (id k : Text) (flag : Bool) (es : List (Text × Bool)) :
    (place id flag es).lookup k = if k = id then some flag else es.lookup k := by
  induction es with
  | nil => rw [place, lookup_cons_ite]
  | cons e es ih =>
    obtain ⟨k', v⟩ := e
    rw [place]
    split
    · rw [lookup_cons_ite]
    · split
      · rename_i heq
        have heq : id = k' := heq
        subst heq
        rw [lookup_cons_ite, lookup_cons_ite]
        by_cases hk : k = id
        · rw [if_pos hk, if_pos hk]
        · rw [if_neg hk, if_neg hk, if_neg hk]
      · rename_i hne
        have hne : id ≠ k' := hne
        rw [lookup_cons_ite, lookup_cons_ite, ih]
        by_cases hk : k = id
        · rw [if_pos hk, if_pos hk, if_neg (hk ▸ hne)]
        · rw [if_neg hk, if_neg hk]

theorem get?_set (m : WidgetMap) (id k : Text) (flag : Bool) :
    (m.set id flag).get? k = if k = id then some flag else m.get? k :=
  lookup_place id k flag m.entries

theorem get?_ensure (m : WidgetMap) (id k : Text) (default : Bool) :
    (m.ensure id default).get? k =
      if k = id then some ((m.get? id).getD default) else m.get? k := by
  unfold ensure
  split
  · rename_i flag hf
    by_cases hk : k = id <;> simp [hk, hf]
  · rename_i hn
    rw [get?_set, hn]
    rfl

theorem lookup_filter (keep : Text → Bool) (k : Text) (es : List (Text × Bool)) :
    (es.filter fun e => keep e.1).lookup k = if keep k then es.lookup k else none := by
  induction es with
  | nil => simp
  | cons e es ih =>
    obtain ⟨k', v⟩ := e
    by_cases hkeep : keep k' = true
    · rw [List.filter_cons_of_pos (by simpa using hkeep), lookup_cons_ite, lookup_cons_ite, ih]
      by_cases hk : k = k'
      · rw [if_pos hk, if_pos hk, hk, if_pos hkeep]
      · rw [if_neg hk, if_neg hk]
    · rw [List.filter_cons_of_neg (by simpa using hkeep), lookup_cons_ite, ih]
      by_cases hk : k = k'
      · rw [hk, if_neg hkeep, if_neg hkeep]
      · rw [if_neg hk]

theorem get?_retain (m : WidgetMap) (keep : Text → Bool) (k : Text) :
    (m.retain keep).get? k = if keep k then m.get? k else none :=
  lookup_filter keep k m.entries

end WidgetMap

end BBCode

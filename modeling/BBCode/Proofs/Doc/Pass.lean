import BBCode.Proofs.Doc.Frames

/-!
# BBCode.Proofs.Doc.Pass

Passes over the text of a tree. A pass goes through a text once, from left to right. What it makes
of a part depends on the nodes in front of that part, and what it writes comes in front of what it
makes of the rest. So it is enough to know what a pass makes of text, of code regions, of elements
and of item marks to know what it makes of a tree.

* `Pass.Turns`: what a pass makes of one part, whatever follows.
* `Pass.Restyles`: the parts that one style writes become those that another style writes.
* `Pass.Restyles.write`: the same for whole trees.
-/

namespace BBCode

structure Pass (ρ : Type) where
  /-- What the pass makes of a text that stands behind some nodes. -/
  run : List Node → Text → ρ
  /-- The same with a text written in front. -/
  onto : Text → ρ → ρ
  onto_nil : ∀ r, onto [] r = r
  onto_append : ∀ x y r, onto (x ++ y) r = onto x (onto y r)

namespace Pass

variable {ρ : Type} {P : Pass ρ}

/-- Behind the nodes `ns` the pass writes `y` for `x`, the text of the nodes `ms`. -/
def Turns (P : Pass ρ) (ns ms : List Node) (x y : Text) : Prop :=
  ∀ z, P.run ns (x ++ z) = P.onto y (P.run (ns ++ ms) z)

namespace Turns

variable {ns ms ms' : List Node} {x y x' y' : Text}

theorem nil (P : Pass ρ) (ns : List Node) : P.Turns ns [] [] [] := by
  intro z
  rw [P.onto_nil, List.append_nil, List.nil_append]

theorem append (h : P.Turns ns ms x y) (h' : P.Turns (ns ++ ms) ms' x' y') :
    P.Turns ns (ms ++ ms') (x ++ x') (y ++ y') := by
  intro z
  rw [List.append_assoc, h, h', P.onto_append, List.append_assoc]

/-- Text without nodes in front. -/
theorem append_left (h : P.Turns ns [] x y) (h' : P.Turns ns ms x' y') :
    P.Turns ns ms (x ++ x') (y ++ y') := by
  have h' : P.Turns (ns ++ []) ms x' y' := by rwa [List.append_nil]
  exact h.append h'

/-- Text without nodes behind. -/
theorem append_right (h : P.Turns ns ms x y) (h' : P.Turns (ns ++ ms) [] x' y') :
    P.Turns ns ms (x ++ x') (y ++ y') := by
  have hall := h.append h'
  rwa [List.append_nil] at hall

/-- An element whose tags and body are turned one by one. -/
theorem element {e : Element} {a a' b b' c c' : Text} (hbefore : P.Turns ns [.element e] a a')
    (hbody : P.Turns (ns ++ [.element e]) ms b b')
    (hafter : P.Turns (ns ++ .element e :: ms) [] c c') :
    P.Turns ns (.element e :: ms) (a ++ (b ++ c)) (a' ++ (b' ++ c')) := by
  have hafter : P.Turns (ns ++ [.element e] ++ ms) [] c c' := by
    rwa [List.append_assoc, List.singleton_append]
  exact hbefore.append (hbody.append_right hafter)

end Turns

/-- Of trees with the nodes `all` the pass turns each part that `S` writes into the one that `T`
writes. An element is turned as a whole, given that its body is. -/
structure Restyles (P : Pass ρ) (o : Options) (all : List Node) (S T : Style) : Prop where
  text : ∀ ns s, PlainText s → P.Turns ns [] s s
  code : ∀ ns raw, ns ++ [.code raw] <+: all → CodeText raw →
    P.Turns ns [.code raw] (S.code ns raw) (T.code ns raw)
  element : ∀ ns (e : Element) (body : Doc e.kind.place), e.Valid o →
    (e.kind.nests = false → body.Avoids e.kind.name) → body.Valid o →
    P.Turns (ns ++ [.element e]) body.nodes (S.write (ns ++ [.element e]) body)
      (T.write (ns ++ [.element e]) body) →
    P.Turns ns (.element e :: body.nodes)
      (S.before ns e ++ (S.write (ns ++ [.element e]) body ++ S.after ns e))
      (T.before ns e ++ (T.write (ns ++ [.element e]) body ++ T.after ns e))
  item : ∀ ns, P.Turns ns [] S.itemBefore T.itemBefore ∧ P.Turns ns [] S.itemAfter T.itemAfter

theorem Restyles.write {o : Options} {all : List Node} {S T : Style} (h : P.Restyles o all S T)
    {p : Place} {d : Doc p} (hd : d.Valid o) {ns : List Node} (hns : ns ++ d.nodes <+: all) :
    P.Turns ns d.nodes (S.write ns d) (T.write ns d) := by
  induction d generalizing ns with
  | nil => exact .nil P ns
  | text s rest ih => exact (h.text ns s hd.1).append_left (ih hd.2.2 hns)
  | code raw rest ih =>
    rw [Doc.nodes, ← List.singleton_append, ← List.append_assoc] at hns
    have hcode := h.code ns raw ((List.prefix_append _ _).trans hns) hd.1
    exact hcode.append (ih hd.2 hns)
  | element e body rest ihb ihr =>
    obtain ⟨he, havoid, hbody, hrest⟩ := hd
    have hsplit : ns ++ (Doc.element e body rest).nodes =
        ns ++ [.element e] ++ body.nodes ++ rest.nodes := by simp [Doc.nodes]
    have hcons : ns ++ [.element e] ++ body.nodes = ns ++ .element e :: body.nodes := by simp
    rw [hsplit] at hns
    have hb := ihb hbody ((List.prefix_append _ _).trans hns)
    have he := h.element ns e body he havoid hbody hb
    rw [hcons] at hns
    have hall := he.append (ihr hrest hns)
    simp only [List.append_assoc, List.cons_append] at hall
    exact hall
  | item body rest ihb ihr =>
    rw [Doc.nodes, ← List.append_assoc] at hns
    have hb := ihb hd.1 ((List.prefix_append _ _).trans hns)
    have hafter := (h.item (ns ++ body.nodes)).2
    exact (h.item ns).1.append_left (hb.append (hafter.append_left (ihr hd.2 hns)))

end Pass

end BBCode

import BBCode.FrontEnd
import BBCode.Proofs.Flags
import Mathlib.Data.List.Induction

/-!
# BBCode.Proofs.Session.Cache

The cache of a session cannot be told from outside, except by what the display is asked to do. A
session that renders the document every time has no state but the widget flags; whatever is done to
the two of them in whatever order, they give the same answers and hold the same flags.

* `Good`: what the last page and the flags have to do with each other at every moment.
* `Good.perform`: every operation keeps this, and gives the answer of the session without a cache.
* `perform_eq_uncached`: the same after any number of operations, with what the display was asked.
-/

namespace BBCode

/-- What can be done to a session. -/
inductive Operation where
  | render (source : Text) (generation : Nat)
  | toggle (id : Text)
  | set (id : Text) (expanded : Bool)
  | restore (widgets : WidgetMap)

/-- What a session answers. -/
inductive Answer where
  | html (s : Text)
  | flag (expanded : Bool)
  | done
  deriving DecidableEq, Repr

namespace Session

def perform (s : Session) : Operation → Answer × Session
  | .render source generation =>
    let x := s.render source generation
    (.html x.1, x.2)
  | .toggle id =>
    let x := s.toggleWidget id
    (.flag x.1, x.2)
  | .set id expanded => (.done, s.setWidget id expanded)
  | .restore widgets => (.done, s.restoreWidgets widgets)

/-- The session after some operations. -/
def after (s : Session) (ops : List Operation) : Session :=
  ops.foldl (fun s op => (s.perform op).2) s

theorem after_append (s : Session) (ops ops' : List Operation) :
    s.after (ops ++ ops') = (s.after ops).after ops' := List.foldl_append

end Session

/-- A session that keeps the widget flags and nothing else: every render runs. -/
structure Uncached where
  options : Options
  widgets : WidgetMap := .empty

namespace Uncached

def perform (u : Uncached) : Operation → Answer × Uncached
  | .render source _ =>
    let page := Page.render u.options source u.widgets
    (.html page.html, { u with widgets := page.widgets })
  | .toggle id =>
    let x := u.widgets.toggle id
    (.flag x.1, { u with widgets := x.2 })
  | .set id expanded => (.done, { u with widgets := u.widgets.set id expanded })
  | .restore widgets => (.done, { u with widgets := widgets })

def after (u : Uncached) (ops : List Operation) : Uncached :=
  ops.foldl (fun u op => (u.perform op).2) u

theorem after_append (u : Uncached) (ops ops' : List Operation) :
    u.after (ops ++ ops') = (u.after ops).after ops' := List.foldl_append

end Uncached

/-- What the latest render was asked for, if no flag was changed after it. Whatever is done to a
session is a render or changes flags, so the last operation tells. -/
def lastShown (earlier : List Operation) : Option (Text × Nat) :=
  match earlier.getLast? with
  | some (.render source generation) => some (source, generation)
  | _ => none

/-- What the display is asked to remove by an operation after others. -/
def asked (earlier : List Operation) : Operation → List Text
  | .render source generation =>
    if lastShown earlier = some (source, generation) then [] else ["qtip-".toList]
  | .toggle _ | .set _ _ | .restore _ => []

theorem lastShown_concat_render (earlier : List Operation) (source : Text) (generation : Nat) :
    lastShown (earlier ++ [.render source generation]) = some (source, generation) := by
  simp [lastShown]

/-- What ties a session to one without a cache, after the same operations: they hold the same
flags, and a last page that no change of flags has outdated is what rendering its source from these
flags gives, and would leave them as they are. -/
structure Good (earlier : List Operation) (s : Session) (u : Uncached) : Prop where
  options : s.options = u.options
  widgets : s.widgets = u.widgets
  revision : ∀ r, s.last = some r → r.revision ≤ s.revision
  fixed : ∀ r, s.last = some r → r.revision = s.revision →
    (Page.render s.options r.source s.widgets).html = r.html ∧
      (Page.render s.options r.source s.widgets).widgets = s.widgets
  shown : ∀ source generation, lastShown earlier = some (source, generation) ↔
    ∃ r, s.last = some r ∧ r.revision = s.revision ∧ r.source = source ∧ r.generation = generation

theorem Session.cached?_eq_some {s : Session} {source html : Text} {generation : Nat} :
    s.cached? source generation = some html ↔ ∃ r, s.last = some r ∧ r.revision = s.revision ∧
      r.source = source ∧ r.generation = generation ∧ r.html = html := by
  rw [cached?]
  cases hl : s.last with
  | none => simp
  | some r =>
    simp only [isCurrent, Bool.and_eq_true, decide_eq_true_eq, Option.ite_none_right_eq_some,
      Option.some.injEq]
    constructor
    · rintro ⟨⟨⟨hg, hr⟩, hs⟩, hh⟩
      exact ⟨r, rfl, hr, hs, hg, hh⟩
    · rintro ⟨r, rfl, hr, hs, hg, hh⟩
      exact ⟨⟨⟨hg, hr⟩, hs⟩, hh⟩

namespace Good

variable {earlier : List Operation} {s : Session} {u : Uncached}

theorem start (o : Options) (h : Host) : Good [] { options := o, host := h } { options := o } where
  options := rfl
  widgets := rfl
  revision r hr := by cases hr
  fixed r hr := by cases hr
  shown source generation := by simp [lastShown]

/-- A page that is still good is what a session without a cache would render, with the flags that
it would leave. -/
theorem of_hit (h : Good earlier s u) {source html : Text} {generation : Nat}
    (hc : s.cached? source generation = some html) :
    lastShown earlier = some (source, generation) ∧
      u.perform (.render source generation) = (.html html, u) := by
  obtain ⟨r, hl, hrev, rfl, rfl, rfl⟩ := Session.cached?_eq_some.1 hc
  obtain ⟨hhtml, hw⟩ := h.fixed r hl hrev
  rw [h.options, h.widgets] at hhtml hw
  refine ⟨(h.shown _ _).2 ⟨r, hl, hrev, rfl, rfl⟩, ?_⟩
  show (Answer.html _, { u with widgets := _ }) = _
  rw [hhtml, hw]

theorem of_miss (h : Good earlier s u) {source : Text} {generation : Nat}
    (hc : s.cached? source generation = none) : lastShown earlier ≠ some (source, generation) := by
  intro hs
  obtain ⟨r, hl, hrev, hsrc, hg⟩ := (h.shown _ _).1 hs
  have hhit := Session.cached?_eq_some.2 ⟨r, hl, hrev, hsrc, hg, rfl⟩
  rw [hc] at hhit
  cases hhit

theorem render_of_miss {source : Text} {generation : Nat}
    (hc : s.cached? source generation = none) :
    s.render source generation = ((Page.render s.options source s.widgets).html,
      { s with
        widgets := (Page.render s.options source s.widgets).widgets
        host := s.host.remove (Page.render s.options source s.widgets).removals
        last := some ⟨source, generation, s.revision,
          (Page.render s.options source s.widgets).html⟩ }) := by
  rw [Session.render, hc]

theorem perform_render (h : Good earlier s u) (source : Text) (generation : Nat) :
    (s.perform (.render source generation)).1 = (u.perform (.render source generation)).1 ∧
      (s.perform (.render source generation)).2.host =
        s.host.remove (asked earlier (.render source generation)) ∧
      Good (earlier ++ [.render source generation]) (s.perform (.render source generation)).2
        (u.perform (.render source generation)).2 := by
  have hlast := lastShown_concat_render earlier source generation
  cases hc : s.cached? source generation with
  | some html =>
    obtain ⟨hs, hu⟩ := h.of_hit hc
    have hp : s.perform (.render source generation) = (.html html, s) := by
      rw [Session.perform, Session.render_of_hit hc]
    rw [hu, hp, asked, if_pos hs]
    refine ⟨rfl, ?_, { h with shown := ?_ }⟩
    · show s.host = s.host.remove []
      rw [Host.remove]
      split <;> simp
    · rw [hlast, ← hs]
      exact h.shown
  | none =>
    have hp : s.perform (.render source generation) = (.html (Page.render s.options source s.widgets).html,
        { s with
          widgets := (Page.render s.options source s.widgets).widgets
          host := s.host.remove (Page.render s.options source s.widgets).removals
          last := some ⟨source, generation, s.revision,
            (Page.render s.options source s.widgets).html⟩ }) := by
      rw [Session.perform, render_of_miss hc]
    rw [hp, asked, if_neg (h.of_miss hc)]
    refine ⟨?_, rfl, ?_⟩
    · rw [Uncached.perform, h.options, h.widgets]
    · refine ⟨h.options, ?_, ?_, ?_, ?_⟩
      · rw [Uncached.perform, h.options, h.widgets]
      · intro r hr
        cases hr
        exact Nat.le_refl _
      · intro r hr _
        cases hr
        have hfix := Page.render_render s.options source s.widgets
        exact ⟨congrArg Page.html hfix, congrArg Page.widgets hfix⟩
      · intro source' generation'
        rw [hlast]
        constructor
        · intro heq
          cases heq
          exact ⟨_, rfl, rfl, rfl, rfl⟩
        · rintro ⟨r, hr, -, rfl, rfl⟩
          cases hr
          rfl

/-- A change of flags outdates the last page. -/
theorem change (h : Good earlier s u) {op : Operation} (hop : ∀ source g, op ≠ .render source g)
    {s' : Session} {u' : Uncached} (ho : s'.options = s.options) (ho' : u'.options = u.options)
    (hw : s'.widgets = u'.widgets) (hl : s'.last = s.last) (hr : s'.revision = s.revision + 1) :
    Good (earlier ++ [op]) s' u' := by
  have hold : ∀ r, s'.last = some r → r.revision ≠ s'.revision := by
    intro r hlast hrev
    have := h.revision r (hl ▸ hlast)
    omega
  refine ⟨by rw [ho, ho', h.options], hw, ?_, ?_, ?_⟩
  · intro r hlast
    have := h.revision r (hl ▸ hlast)
    omega
  · intro r hlast hrev
    exact absurd hrev (hold r hlast)
  · intro source generation
    constructor
    · intro hs
      cases op with
      | render source' generation' => exact absurd rfl (hop source' generation')
      | toggle id => simp [lastShown] at hs
      | set id b => simp [lastShown] at hs
      | restore m => simp [lastShown] at hs
    · rintro ⟨r, hlast, hrev, -⟩
      exact absurd hrev (hold r hlast)

/-- One operation: the same answer, the same flags afterwards, and the display is asked exactly
what `asked` says. -/
theorem perform (h : Good earlier s u) (op : Operation) :
    (s.perform op).1 = (u.perform op).1 ∧
      (s.perform op).2.host = s.host.remove (asked earlier op) ∧
      Good (earlier ++ [op]) (s.perform op).2 (u.perform op).2 := by
  have hnone : s.host = s.host.remove [] := by
    rw [Host.remove]
    split <;> simp
  cases op with
  | render source generation => exact h.perform_render source generation
  | toggle id =>
    refine ⟨?_, hnone, h.change (by simp) rfl rfl ?_ rfl rfl⟩
    · show Answer.flag _ = Answer.flag _
      rw [Session.toggleWidget, h.widgets]
    · show (s.widgets.toggle id).2 = (u.widgets.toggle id).2
      rw [h.widgets]
  | set id b =>
    refine ⟨rfl, hnone, h.change (by simp) rfl rfl ?_ rfl rfl⟩
    show s.widgets.set id b = u.widgets.set id b
    rw [h.widgets]
  | restore m => exact ⟨rfl, hnone, h.change (by simp) rfl rfl rfl rfl rfl⟩

theorem after (o : Options) (host : Host) (ops : List Operation) :
    Good ops (({ options := o, host } : Session).after ops) (({ options := o } : Uncached).after ops) := by
  induction ops using List.reverseRecOn with
  | nil => exact start o host
  | append_singleton ops op ih =>
    rw [Session.after_append, Uncached.after_append]
    exact (ih.perform op).2.2

end Good

theorem Host.attached_remove (h : Host) (ids : List Text) : (h.remove ids).attached = h.attached := by
  rw [remove]
  split <;> rfl

theorem Host.removals_remove (h : Host) (ids : List Text) :
    (h.remove ids).removals = h.removals ++ if h.attached then ids else [] := by
  rw [remove]
  split <;> simp

theorem Session.attached_after (o : Options) (host : Host) (ops : List Operation) :
    (({ options := o, host } : Session).after ops).host.attached = host.attached := by
  induction ops using List.reverseRecOn with
  | nil => rfl
  | append_singleton ops op ih =>
    have hstep := ((Good.after o host ops).perform op).2.1
    rw [after_append]
    show ((_ : Session).perform op).2.host.attached = host.attached
    rw [hstep, Host.attached_remove, ih]

theorem Session.perform_after (o : Options) (host : Host) (earlier : List Operation)
    (op : Operation) :
    let s := ({ options := o, host } : Session).after earlier
    let u := ({ options := o } : Uncached).after earlier
    (s.perform op).1 = (u.perform op).1 ∧ (s.perform op).2.widgets = (u.perform op).2.widgets ∧
      (s.perform op).2.host.removals =
        s.host.removals ++ if host.attached then asked earlier op else [] := by
  intro s u
  obtain ⟨hanswer, hhost, hgood⟩ := (Good.after o host earlier).perform op
  refine ⟨hanswer, hgood.widgets, ?_⟩
  rw [← attached_after o host earlier, ← Host.removals_remove]
  exact congrArg Host.removals hhost

/-! ## Front ends -/

namespace FrontEnd

/-- What a front end can do: flags come as pairs of an id and a flag. -/
inductive Operation where
  | render (source : Text) (generation : Nat)
  | toggle (id : Text)
  | set (id : Text) (expanded : Bool)
  | restore (states : List (Text × Bool))

/-- What that is for the session. -/
def Operation.toSession : Operation → BBCode.Operation
  | .render source generation => .render source generation
  | .toggle id => .toggle id
  | .set id expanded => .set id expanded
  | .restore states => .restore (.ofList states)

def perform (f : FrontEnd) : Operation → Answer × FrontEnd
  | .render source generation =>
    let x := f.render source generation
    (.html x.1, x.2)
  | .toggle id =>
    let x := f.toggleWidget id
    (.flag x.1, x.2)
  | .set id expanded => (.done, f.setWidgetExpanded id expanded)
  | .restore states => (.done, f.restoreWidgetStates states)

def after (f : FrontEnd) (ops : List Operation) : FrontEnd :=
  ops.foldl (fun f op => (f.perform op).2) f

theorem perform_eq (f : FrontEnd) (op : Operation) :
    f.perform op =
      ((f.session.perform op.toSession).1, ⟨(f.session.perform op.toSession).2⟩) := by
  cases op <;> rfl

theorem session_after (f : FrontEnd) (ops : List Operation) :
    (f.after ops).session = f.session.after (ops.map Operation.toSession) := by
  induction ops generalizing f with
  | nil => rfl
  | cons op ops ih =>
    show (after (f.perform op).2 ops).session = _
    rw [ih, perform_eq]
    rfl

end FrontEnd

/-- Step for step, a session answers and holds what a session without a cache does, and asks its
display to remove the hover cards once for every render but those that repeat the last operation.
The same goes for the session of a front end. -/
theorem perform_eq_uncached :
    (∀ (o : Options) (host : Host) (earlier : List Operation) (op : Operation),
      let s := ({ options := o, host } : Session).after earlier
      let u := ({ options := o } : Uncached).after earlier
      (s.perform op).1 = (u.perform op).1 ∧ (s.perform op).2.widgets = (u.perform op).2.widgets ∧
        (s.perform op).2.host.removals =
          s.host.removals ++ if host.attached then asked earlier op else []) ∧
    ∀ (attached : Bool) (earlier : List FrontEnd.Operation) (op : FrontEnd.Operation),
      let f := (FrontEnd.start attached).after earlier
      let u := ({ options := {} } : Uncached).after (earlier.map FrontEnd.Operation.toSession)
      (f.perform op).1 = (u.perform op.toSession).1 ∧
        (f.perform op).2.widgetStates = (u.perform op.toSession).2.widgets.entries ∧
        (f.perform op).2.session.host.removals = f.session.host.removals ++
          if attached then asked (earlier.map FrontEnd.Operation.toSession) op.toSession else [] := by
  refine ⟨Session.perform_after, ?_⟩
  intro attached earlier op f u
  have h := Session.perform_after {} { attached } (earlier.map FrontEnd.Operation.toSession)
    op.toSession
  have hf : f.session = ({ options := {}, host := { attached } } : Session).after
      (earlier.map FrontEnd.Operation.toSession) := FrontEnd.session_after _ earlier
  rw [FrontEnd.perform_eq, hf]
  exact ⟨h.1, congrArg WidgetMap.entries h.2.1, h.2.2⟩

end BBCode

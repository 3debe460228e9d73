import BBCode.Document

/-!
# BBCode.Session

A document that is being edited and displayed. A session owns the widget flags that survive from
render to render, and keeps the last page: the document is rendered again only when the source,
the caller's generation number or a widget flag has changed.

Main statement: `render_of_hit`, a page that is still good is returned without a render.
-/

namespace BBCode

/-- Whoever displays the pages, seen through what it was asked to remove. -/
structure Host where
  /-- Without a display nothing is asked. -/
  attached : Bool := true
  removals : List Text := []

def Host.remove (h : Host) (ids : List Text) : Host :=
  if h.attached then { h with removals := h.removals ++ ids } else h

/-- The last page and what it was made from. -/
structure Rendered where
  source : Text
  /-- The caller's number, below `2 ^ 64`. -/
  generation : Nat
  /-- The session's count of changes at that time. -/
  revision : Nat
  html : Text

structure Session where
  options : Options
  widgets : WidgetMap := .empty
  host : Host := {}
  /-- Counts the changes of widget flags. The count stays below `2 ^ 64`: it is kept in 64 bits, and no
  session lives through so many changes. -/
  revision : Nat := 0
  last : Option Rendered := none

namespace Session

/-- Whether the last page is still good. -/
def isCurrent (s : Session) (source : Text) (generation : Nat) (r : Rendered) : Bool :=
  r.generation = generation && r.revision = s.revision && r.source = source

/-- The last page, if it is still good for this source and generation. -/
def cached? (s : Session) (source : Text) (generation : Nat) : Option Text :=
  match s.last with
  | none => none
  | some r => if s.isCurrent source generation r then some r.html else none

def render (s : Session) (source : Text) (generation : Nat) : Text × Session :=
  match s.cached? source generation with
  | some html => (html, s)
  | none =>
    let page := Page.render s.options source s.widgets
    (page.html,
      { s with
        widgets := page.widgets
        host := s.host.remove page.removals
        last := some ⟨source, generation, s.revision, page.html⟩ })

/-- Flips the flag of a widget; the result is the new flag. -/
def toggleWidget (s : Session) (id : Text) : Bool × Session :=
  let x := s.widgets.toggle id
  (x.1, { s with widgets := x.2, revision := s.revision + 1 })

def setWidget (s : Session) (id : Text) (expanded : Bool) : Session :=
  { s with widgets := s.widgets.set id expanded, revision := s.revision + 1 }

/-- Replaces all flags, for instance by those of an earlier session. -/
def restoreWidgets (s : Session) (widgets : WidgetMap) : Session :=
  { s with widgets := widgets, revision := s.revision + 1 }

theorem render_of_hit {s : Session} {source html : Text} {generation : Nat}
    (h : s.cached? source generation = some html) : s.render source generation = (html, s) := by
  rw [render, h]

end Session

end BBCode

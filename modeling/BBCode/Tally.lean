import BBCode.Options
import BBCode.WidgetMap

/-!
# BBCode.Tally

What one render has counted and registered so far. The counters start at zero with every render;
only the widget map comes from the render before and goes to the next.

Main statement: `countTitle_fst`, a box is numbered by how often its title has occurred, and
`register_fst`, a known widget keeps its flag.
-/

namespace BBCode

structure Tally where
  widgets : WidgetMap
  /-- The titles of the named boxes, the last first. -/
  titles : List Text := []
  spoilerboxes : Nat := 0
  /-- The hover cards handed out. -/
  cards : Nat := 0
  /-- The ids of the widgets, the last first. -/
  seen : List Text := []

namespace Tally

/-- How many boxes had this title. -/
def titleCount (t : Tally) (title : Text) : Nat := t.titles.count title

/-- Records another box with a title; the number is how many it has had. -/
def countTitle (t : Tally) (title : Text) : Nat × Tally :=
  let u := { t with titles := title :: t.titles }
  (u.titleCount title, u)

def nextSpoilerbox (t : Tally) : Nat × Tally :=
  (t.spoilerboxes + 1, { t with spoilerboxes := t.spoilerboxes + 1 })

/-- The number of the next hover card, from zero on. -/
def nextCard (t : Tally) : Nat × Tally := (t.cards, { t with cards := t.cards + 1 })

/-- The flag of a widget, which is registered with the default flag if it is new. -/
def register (t : Tally) (default : Bool) (id : Text) : Bool × Tally :=
  let widgets := t.widgets.ensure id default
  ((widgets.get? id).getD default, { t with widgets := widgets, seen := id :: t.seen })

/-- The widget map for the next render: widgets that this one did not show are dropped. -/
def finish (t : Tally) : WidgetMap := t.widgets.retain fun id => t.seen.contains id

theorem countTitle_fst (t : Tally) (title : Text) :
    (t.countTitle title).1 = t.titleCount title + 1 := by
  simp [countTitle, titleCount]

theorem register_fst (t : Tally) (default : Bool) (id : Text) :
    (t.register default id).1 = (t.widgets.get? id).getD default := by
  simp [register, WidgetMap.get?_ensure]

end Tally

end BBCode

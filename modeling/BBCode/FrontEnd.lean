import BBCode.Session

/-!
# BBCode.FrontEnd

A session as a front end holds it: with the default options, with or without a display that wants
to hear what it has to remove, and with widget flags that come and go as pairs of an id and a flag.
-/

namespace BBCode

structure FrontEnd where
  session : Session

namespace FrontEnd

/-- A new session; `attached` says whether there is a display. -/
def start (attached : Bool) : FrontEnd := ⟨{ options := {}, host := { attached } }⟩

def render (f : FrontEnd) (source : Text) (generation : Nat) : Text × FrontEnd :=
  let x := f.session.render source generation
  (x.1, ⟨x.2⟩)

def toggleWidget (f : FrontEnd) (id : Text) : Bool × FrontEnd :=
  let x := f.session.toggleWidget id
  (x.1, ⟨x.2⟩)

def setWidgetExpanded (f : FrontEnd) (id : Text) (expanded : Bool) : FrontEnd :=
  ⟨f.session.setWidget id expanded⟩

def widgetStates (f : FrontEnd) : List (Text × Bool) := f.session.widgets.entries

def restoreWidgetStates (f : FrontEnd) (states : List (Text × Bool)) : FrontEnd :=
  ⟨f.session.restoreWidgets (.ofList states)⟩

end FrontEnd

end BBCode

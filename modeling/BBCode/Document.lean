import BBCode.Autolink
import BBCode.Box
import BBCode.Item
import BBCode.Rule.Table

/-!
# BBCode.Document

Rendering a document: code regions are lifted out, the steps of the pipeline change the text one
after the other, the code regions are put back. Malformed markup never fails a render; whatever
no step matches is text.

Main statements: `html_render` and `widgets_render` say what comes of a render.
-/

namespace BBCode

/-- A rewriting of the whole text. -/
inductive Step where
  | rules (s : Stage)
  | size
  | boxes (k : BoxKind)
  | lists
  | links
  deriving DecidableEq, Repr

namespace Step

def apply (o : Options) (s : Step) (x : Text × Tally) : Text × Tally :=
  match s with
  | rules stage => stage.apply o x
  | size => ((Rule.size? o.allowedSizes).map fun r => r.apply o x).getD x
  | boxes k => Box.resolve o k x
  | lists => Item.resolve o x
  | links => (Autolink.autolink x.1, x.2)

/-- The steps of a render, in order. -/
def pipeline : List Step :=
  [rules .lineBreaks, rules .formatting, rules .color, size, rules .specials, boxes .named,
   boxes .spoiler, rules .quotes, rules .inlineCode, rules .layout, rules .linksAndMedia, lists,
   rules .trailing, rules .collapseBreaks, links]

end Step

/-- What a render makes of a document. -/
structure Page where
  html : Text
  /-- The flags of the widgets on the page. -/
  widgets : WidgetMap
  /-- What the ids of those elements start with that whoever displays the page has to remove,
  because the render before may have made them. -/
  removals : List Text

namespace Page

/-- What the steps make of a protected text. -/
def run (o : Options) (text : Text) (widgets : WidgetMap) : Text × Tally :=
  Step.pipeline.foldl (fun x s => s.apply o x) (text, { widgets })

/-- Renders a document. The flags of widgets that are in the map are kept. -/
def render (o : Options) (source : Text) (widgets : WidgetMap) : Page :=
  let guarded := Guarded.protect source o.codeBlocks
  let x := run o guarded.text widgets
  { html := Guarded.restore guarded.blocks x.1
    widgets := x.2.finish
    removals := [Html.cardPrefix] }

theorem html_render (o : Options) (source : Text) (widgets : WidgetMap) :
    (render o source widgets).html =
      Guarded.restore (Guarded.protect source o.codeBlocks).blocks
        (run o (Guarded.protect source o.codeBlocks).text widgets).1 := rfl

theorem widgets_render (o : Options) (source : Text) (widgets : WidgetMap) :
    (render o source widgets).widgets =
      (run o (Guarded.protect source o.codeBlocks).text widgets).2.finish := rfl

end Page

/-- What a render remarks about a document. -/
inductive Notice where
  /-- The document had characters that placeholders are made of. -/
  | stripped
  | applying (rule : String)
  /-- The opening tag at this byte never closes. -/
  | unclosed (k : BoxKind) (byte : Nat)
  deriving DecidableEq, Repr

namespace Notice

/-- What a step remarks about the text it is given. -/
def ofStep (s : Step) (text : Text) : List Notice :=
  match s with
  | .rules stage => stage.rules.map fun r => applying r.name
  | .boxes k => (Box.stopByte? k text).toList.map (unclosed k)
  | .lists => Item.rules.map fun r => applying r.name
  | .size | .links => []

/-- The remarks of the steps, in order. -/
def ofSteps (o : Options) : List Step → Text × Tally → List Notice
  | [], _ => []
  | s :: ss, x => ofStep s x.1 ++ ofSteps o ss (s.apply o x)

/-- The remarks of a render, in order. -/
def ofRender (o : Options) (source : Text) (widgets : WidgetMap) : List Notice :=
  (if source.any Guarded.isReserved then [stripped] else [])
    ++ ofSteps o Step.pipeline ((Guarded.protect source o.codeBlocks).text, { widgets })

end Notice

end BBCode

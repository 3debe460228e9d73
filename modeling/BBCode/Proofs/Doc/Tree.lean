import BBCode.Document
import BBCode.Proofs.Guard.Bodies
import BBCode.Proofs.Template.Widgets

/-!
# BBCode.Proofs.Doc.Tree

Documents as trees. A tree is written down in markup by putting each node between its tags, and it
is rendered by putting each node between the fixed HTML of its kind; what is in between is the
same in both. Boxes, spoiler boxes and profile links are numbered in document order.

* `Doc`: trees of elements, text and code regions. Items stand in lists only.
* `Doc.Valid`: which trees can be written down without one tag being taken for another.
* `Doc.source`, `Doc.html`: the two ways of writing a tree.
-/

namespace BBCode

/-- Where a part of a document stands. -/
inductive Place where
  | flow
  | list
  deriving DecidableEq, Repr

inductive Kind where
  | bold
  | italic
  | underline
  | strike
  | strikeLong
  | color
  | size
  | spoiler
  | box
  | spoilerbox
  | quote
  | quoteBy
  | inlineCode
  | centre
  | link
  | profile
  | listOf
  | list
  | heading
  | notice
  deriving DecidableEq, Repr

namespace Kind

def name : Kind → Text
  | bold => "b".toList
  | italic => "i".toList
  | underline => "u".toList
  | strike => "s".toList
  | strikeLong => "strike".toList
  | color => "color".toList
  | size => "size".toList
  | spoiler => "spoiler".toList
  | box => "box".toList
  | spoilerbox => "spoilerbox".toList
  | quote | quoteBy => "quote".toList
  | inlineCode => "c".toList
  | centre => "centre".toList
  | link => "url".toList
  | profile => "profile".toList
  | listOf | list => "list".toList
  | heading => "heading".toList
  | notice => "notice".toList

/-- The marks before and after the value in an opening tag, for the kinds that have a value. -/
def marks? : Kind → Option (Text × Text)
  | color | size | box | link | profile | listOf => some (['='], [']'])
  | quoteBy => some (['=', '"'], ['"', ']'])
  | _ => none

/-- The opening tag up to its value, or all of it if it has none. -/
def opener (k : Kind) : Text :=
  '[' :: k.name ++ match k.marks? with
    | none => [']']
    | some m => m.1

/-- The rest of the opening tag. -/
def tail (k : Kind) : Text :=
  match k.marks? with
  | none => []
  | some m => m.2

def closer (k : Kind) : Text := '[' :: '/' :: k.name ++ [']']

/-- What the body of an element is made of. -/
def place : Kind → Place
  | listOf | list => .list
  | _ => .flow

/-- Whether an element can stand in another of its kind. -/
def nests : Kind → Bool
  | box | spoilerbox => true
  | _ => false

end Kind

/-- A pair of tags with the value in the opening tag. -/
structure Element where
  kind : Kind
  value : Text := []
  deriving DecidableEq, Repr

/-- A document, or the items of a list. -/
inductive Doc : Place → Type where
  | nil {p : Place} : Doc p
  | text (s : Text) (rest : Doc .flow) : Doc .flow
  | code (raw : Text) (rest : Doc .flow) : Doc .flow
  | element (e : Element) (body : Doc e.kind.place) (rest : Doc .flow) : Doc .flow
  | item (body : Doc .flow) (rest : Doc .list) : Doc .list

/-- What is numbered or lifted out. -/
inductive Node where
  | element (e : Element)
  | code (raw : Text)
  deriving DecidableEq, Repr

namespace Doc

/-- The elements and code regions in document order. -/
def nodes : {p : Place} → Doc p → List Node
  | _, nil => []
  | _, text _ rest => rest.nodes
  | _, code raw rest => .code raw :: rest.nodes
  | _, element e body rest => .element e :: (body.nodes ++ rest.nodes)
  | _, item body rest => body.nodes ++ rest.nodes

def startsWithText : {p : Place} → Doc p → Bool
  | _, text _ _ => true
  | _, _ => false

end Doc

/-! ## Writing trees -/

/-- How the nodes of a tree are written, each in the light of the nodes before it. -/
structure Style where
  before : List Node → Element → Text
  after : List Node → Element → Text
  itemBefore : Text
  itemAfter : Text
  code : List Node → Text → Text

namespace Style

/-- Writes a part of a tree that stands behind the nodes `ns`. -/
def write (S : Style) : {p : Place} → List Node → Doc p → Text
  | _, _, .nil => []
  | _, ns, .text s rest => s ++ S.write ns rest
  | _, ns, .code raw rest => S.code ns raw ++ S.write (ns ++ [.code raw]) rest
  | _, ns, .element e body rest =>
    S.before ns e ++ (S.write (ns ++ [.element e]) body ++
      (S.after ns e ++ S.write (ns ++ .element e :: body.nodes) rest))
  | _, ns, .item body rest =>
    S.itemBefore ++ (S.write ns body ++ (S.itemAfter ++ S.write (ns ++ body.nodes) rest))

/-- The markup of a tree. -/
def source : Style where
  before _ e := e.kind.opener ++ e.value ++ e.kind.tail
  after _ e := e.kind.closer
  itemBefore := "[*]".toList
  itemAfter := []
  code _ raw := "[code]".toList ++ raw ++ "[/code]".toList

end Style

namespace Element

/-- Whether a node counts when an element is numbered: boxes are numbered by title, spoiler boxes
and profile links each by themselves. -/
def counts (e : Element) : Node → Bool
  | .element f => f.kind = e.kind && (e.kind ≠ .box || f.value = e.value)
  | .code _ => false

/-- How many nodes before an element count for it. -/
def number (ns : List Node) (e : Element) : Nat := ns.countP e.counts

/-- The title and the id of the widget that a box makes. -/
def widget? (ns : List Node) (e : Element) : Option (Text × Text) :=
  match e.kind with
  | .box => some (e.value, WidgetId.make "box".toList e.value (e.number ns + 1))
  | .spoilerbox =>
    some ("SPOILER".toList, WidgetId.make "spoilerbox".toList "SPOILER".toList (e.number ns + 1))
  | _ => none

/-- The id of the hover card that a profile link has. -/
def cardId (ns : List Node) (e : Element) : Text := "qtip-".toList ++ decimal (e.number ns)

/-- The HTML in front of the body. -/
def before (o : Options) (flag : Text → Bool) (ns : List Node) (e : Element) : Text :=
  match e.kind with
  | .bold => "<strong>".toList
  | .italic => "<em>".toList
  | .underline => "<u>".toList
  | .strike | .strikeLong => "<s>".toList
  | .color => "<span style=\"color:".toList ++ e.value ++ ";\">".toList
  | .size => "<span style=\"font-size:".toList ++ e.value ++ "%;\">".toList
  | .spoiler =>
    "<span class=\"spoiler\" onclick=\"this.classList.toggle('revealed')\">".toList
  | .box | .spoilerbox =>
    match e.widget? ns with
    | some (title, id) =>
      Widget.headTag id (flag id) ++ (Widget.toggleLink title id ++ Widget.bodyTag (flag id))
    | none => []
  | .quote => "<blockquote>".toList
  | .quoteBy => "<blockquote><h4>".toList ++ e.value ++ " wrote:</h4>".toList
  | .inlineCode => "<code>".toList
  | .centre => "<center>".toList
  | .link =>
    "<a href=\"".toList ++ e.value ++ "\" target=\"_blank\" rel=\"noopener noreferrer\">".toList
  | .profile =>
    "<a class=\"js-usercard\" href=\"".toList ++ o.profileUrl ++ e.value ++ "\" data-user-id=\"".toList
      ++ e.value ++ "\" data-tooltip-id=\"".toList ++ e.cardId ns
      ++ "\" target=\"_blank\" rel=\"noopener noreferrer\">".toList
  | .listOf => "<ol>".toList
  | .list => "<ol class=\"unordered\">".toList
  | .heading => "<h2 class=\"osu-heading\">".toList
  | .notice => "<div class=\"well\">".toList

/-- The HTML behind the body. -/
def after (ns : List Node) (e : Element) : Text :=
  match e.kind with
  | .bold => "</strong>".toList
  | .italic => "</em>".toList
  | .underline => "</u>".toList
  | .strike | .strikeLong => "</s>".toList
  | .color | .size | .spoiler => "</span>".toList
  | .box | .spoilerbox => "</div></div>".toList
  | .quote | .quoteBy => "</blockquote>".toList
  | .inlineCode => "</code>".toList
  | .centre => "</center>".toList
  | .link => "</a>".toList
  | .profile =>
    "</a><span id=\"".toList ++ e.cardId ns ++ "\" class=\"qtip qtip--user-card\" data-user-id=\"".toList
      ++ e.value ++ "\" hidden></span>".toList
  | .listOf | .list => "</ol>".toList
  | .heading => "</h2>".toList
  | .notice => "</div>".toList

end Element

/-- The HTML of a tree, with the widgets in the state that `flag` gives. -/
def Style.html (o : Options) (flag : Text → Bool) : Style where
  before := Element.before o flag
  after := Element.after
  itemBefore := "<li>".toList
  itemAfter := "</li>".toList
  code _ raw := "<pre>".toList ++ raw.trimNewlines.escape ++ "</pre>".toList

namespace Doc

def source (d : Doc .flow) : Text := Style.source.write [] d

def html (o : Options) (flag : Text → Bool) (d : Doc .flow) : Text :=
  (Style.html o flag).write [] d

/-- The ids of the widgets that nodes make, behind the nodes `ns`. -/
def idsFrom : List Node → List Node → List Text
  | _, [] => []
  | ns, .element e :: ms => (e.widget? ns).toList.map Prod.snd ++ idsFrom (ns ++ [.element e]) ms
  | ns, .code raw :: ms => idsFrom (ns ++ [.code raw]) ms

/-- The ids of the widgets of a tree, in document order. -/
def widgetIds (d : Doc .flow) : List Text := idsFrom [] d.nodes

end Doc

/-! ## Which trees can be written down -/

/-- No character that tags are made of, ends a line or stands in a placeholder. -/
def isPlain (c : Char) : Bool :=
  !(['[', ']', '<', '>', '\r', '\n', Guarded.placeholderStart, Guarded.placeholderStop].contains c)

def schemeMark : Text := "://".toList

structure PlainText (s : Text) : Prop where
  plain : ∀ c ∈ s, isPlain c = true
  noScheme : ¬ schemeMark <:+: s

/-- A value holds no quote either. -/
structure PlainValue (s : Text) : Prop where
  plain : ∀ c ∈ s, isPlain c = true
  noQuote : '"' ∉ s

/-- Raw text that does not close its code region, in whatever letter case. -/
structure CodeText (raw : Text) : Prop where
  unclosed : nearest? foldCase "[/code]".toList raw = none
  unreserved : Guarded.Unreserved raw

/-- The value of an element suits its kind. Only the target of a link can hold a scheme. -/
structure Element.Valid (o : Options) (e : Element) : Prop where
  value : PlainValue e.value
  noScheme : e.kind ≠ .link → ¬ schemeMark <:+: e.value
  bare : e.kind.marks? = none → e.value = []
  size : e.kind = .size → ∃ n ∈ o.allowedSizes, e.value = decimal n.toNat
  listOf : e.kind = .listOf → e.value ≠ []

/-- No element of the name stands in the tree. -/
def Doc.Avoids (name : Text) {p : Place} (d : Doc p) : Prop :=
  ∀ e, .element e ∈ d.nodes → e.kind.name ≠ name

/-- Text is plain and never next to text, and no tag but those of boxes stands inside itself. -/
def Doc.Valid (o : Options) : {p : Place} → Doc p → Prop
  | _, .nil => True
  | _, .text s rest => PlainText s ∧ rest.startsWithText = false ∧ rest.Valid o
  | _, .code raw rest => CodeText raw ∧ rest.Valid o
  | _, .element e body rest =>
    e.Valid o ∧ (e.kind.nests = false → body.Avoids e.kind.name) ∧ body.Valid o ∧ rest.Valid o
  | _, .item body rest => body.Valid o ∧ rest.Valid o

/-- Options that trees are rendered with. -/
structure Options.Plain (o : Options) : Prop where
  nearest : o.codeBlocks = .nearest
  profileUrl : PlainValue o.profileUrl

end BBCode

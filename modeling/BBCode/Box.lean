import BBCode.Html
import BBCode.Tag
import BBCode.Tally
import BBCode.Text.Trim
import BBCode.WidgetId

/-!
# BBCode.Box

Collapsible boxes: `[box=title]` up to its own `[/box]`, and `[spoilerbox]` up to its own
`[/spoilerbox]`, whose title is fixed. Boxes nest. A closing tag closes the innermost open box;
the leftmost opening tag that never closes is a hard stop, and the document stays as it is from
there on.
-/

namespace BBCode

inductive BoxKind where
  | named
  | spoiler
  deriving DecidableEq, Repr

namespace BoxKind

def tag : BoxKind → Text
  | named => "box".toList
  | spoiler => "spoilerbox".toList

/-- The title of every spoiler box. -/
def spoilerTitle : Text := "SPOILER".toList

/-- The title in an opening tag of a box. A named box has to have one, even if empty, a spoiler
box must not. -/
def title? (k : BoxKind) (t : Tag) : Option Text :=
  match k, t with
  | named, .opening n (some title) => if n.sameAscii k.tag then some title else none
  | spoiler, .opening n none => if n.sameAscii k.tag then some spoilerTitle else none
  | _, _ => none

theorem title?_closing (k : BoxKind) (n : Text) : k.title? (.closing n) = none := by
  cases k <;> rfl

end BoxKind

namespace Box

/-- A box whose closing tag has not been reached. -/
structure Frame where
  title : Text
  id : Text
  expanded : Bool
  body : Text := []

/-- The boxes that are open, the innermost first, around what is written so far. -/
structure Nest where
  frames : List Frame := []
  out : Text := []

namespace Nest

/-- Writes into the innermost open box. -/
def write (n : Nest) (s : Text) : Nest :=
  match n.frames with
  | [] => { n with out := n.out ++ s }
  | f :: fs => { n with frames := { f with body := f.body ++ s } :: fs }

def push (n : Nest) (f : Frame) : Nest := { n with frames := f :: n.frames }

/-- Closes the innermost open box; without one the closing tag is text. -/
def close (n : Nest) (source : Text) : Nest :=
  match n.frames with
  | [] => n.write source
  | f :: fs =>
    write { n with frames := fs } (Html.widget f.title f.body.trimBreaks f.id f.expanded)

theorem write_nil (n : Nest) : n.write [] = n := by
  obtain ⟨frames, out⟩ := n
  cases frames <;> simp [write]

theorem write_write (n : Nest) (x y : Text) : (n.write x).write y = n.write (x ++ y) := by
  obtain ⟨frames, out⟩ := n
  cases frames <;> simp [write]

theorem close_write_push (n : Nest) (f : Frame) (x source : Text) :
    ((n.push f).write x).close source =
      n.write (Html.widget f.title (f.body ++ x).trimBreaks f.id f.expanded) := rfl

end Nest

/-- Opens a box. Its id is made from its title and number in the order of the opening tags, so it
does not depend on how boxes nest. -/
def openFrame (o : Options) (k : BoxKind) (title : Text) (t : Tally) : Frame × Tally :=
  let counted := match k with
    | .named => t.countTitle title
    | .spoiler => t.nextSpoilerbox
  let id := WidgetId.make k.tag title counted.1
  let registered := counted.2.register o.expandByDefault id
  ({ title, id, expanded := registered.1 }, registered.2)

/-- Handles one tag of the part of a document in which every box closes. -/
def step (o : Options) (k : BoxKind) (x : Nest × Tally) (t : Tag) : Nest × Tally :=
  match k.title? t with
  | some title =>
    let opened := openFrame o k title x.2
    (x.1.push opened.1, opened.2)
  | none => if t.closes k.tag then (x.1.close t.source, x.2) else (x.1.write t.source, x.2)

/-- The positions of the opening tags that are open after some tags, the innermost first; the
tags start at position `i`, where those in `stack` are open. -/
def openAfter (k : BoxKind) : Nat → List Nat → List Tag → List Nat
  | _, stack, [] => stack
  | i, stack, t :: ts =>
    if (k.title? t).isSome then openAfter k (i + 1) (i :: stack) ts
    else if t.closes k.tag then openAfter k (i + 1) stack.tail ts
    else openAfter k (i + 1) stack ts

/-- The position of the leftmost opening tag that never closes. -/
def unclosed? (k : BoxKind) (ts : List Tag) : Option Nat := (openAfter k 0 [] ts).getLast?

/-- The tags before the leftmost opening tag that never closes, and the tags from it on. -/
def split (k : BoxKind) (ts : List Tag) : List Tag × List Tag :=
  match unclosed? k ts with
  | none => (ts, [])
  | some i => (ts.take i, ts.drop i)

/-- Renders the boxes of a kind. -/
def resolve (o : Options) (k : BoxKind) (x : Text × Tally) : Text × Tally :=
  let parts := split k (Tag.scan x.1)
  let y := parts.1.foldl (step o k) ({}, x.2)
  (y.1.out ++ parts.2.flatMap Tag.source, y.2)

/-- The byte at which the leftmost opening tag that never closes starts. -/
def stopByte? (k : BoxKind) (s : Text) : Option Nat :=
  let parts := split k (Tag.scan s)
  if parts.2.isEmpty then none else some (Text.byteLength (parts.1.flatMap Tag.source))

end Box

end BBCode

import BBCode.Text

/-!
# BBCode.Toml.Reading

Reading a document is done in two passes: first its layout, that is where each key and each value
ends, then what they mean. A document can be laid out well and still mean nothing, and of two such
faults the one written first counts; a fault of the layout counts before all of them.
-/

namespace BBCode.Toml

/-- Why a text is no document. -/
inductive Fault where
  | malformed
  /-- A key has too many parts. -/
  | tooDeep
  deriving DecidableEq, Repr

/-- What stands at the front of a text, or the fault in it, and the text after it; nothing if the
layout is faulty. -/
abbrev Reading (α : Type) := Option (Except Fault α × Text)

/-- A missing meaning is a fault. -/
def orMalformed {α : Type} : Option α → Except Fault α
  | some a => .ok a
  | none => .error .malformed

namespace Reading

variable {α β γ : Type}

def map (f : α → β) (x : Reading α) : Reading β :=
  Option.map (fun y => (y.1.map f, y.2)) x

/-- A reading of which not every meaning is allowed. -/
def check (f : α → Except Fault β) (x : Reading α) : Reading β :=
  Option.map (fun y => (y.1.bind f, y.2)) x

/-- A reading together with what stands before it. -/
def after (f : α → β → γ) (a : Except Fault α) (x : Reading β) : Reading γ :=
  Option.map (fun y => (a.bind fun a => y.1.map (f a), y.2)) x

end Reading

end BBCode.Toml

import BBCode.Sha1

/-!
# BBCode.WidgetId

Identifiers of widgets. An id is computed from what the widget is, not drawn at random, so that
the same document gets the same ids on every render: it is the name-based UUID (version 5) of the
widget's kind, title and running number.

Main statement: `mem_make`, which characters an id is spelled with.
-/

namespace BBCode.WidgetId

/-- The namespace of the UUIDs, 0e9a41c6-5b1f-4d2e-9f3a-7c58d2b46a10. -/
def namespaceBytes : List UInt8 :=
  [0x0e, 0x9a, 0x41, 0xc6, 0x5b, 0x1f, 0x4d, 0x2e, 0x9f, 0x3a, 0x7c, 0x58, 0xd2, 0xb4, 0x6a, 0x10]

/-- The name that is hashed: kind, title and number with NUL characters between. -/
def name (kind title : Text) (occurrence : Nat) : Text :=
  kind ++ '\x00' :: title ++ '\x00' :: decimal occurrence

/-- Marks the bytes of a digest as a UUID of version 5 in the standard variant. -/
def stamp (bytes : List UInt8) : List UInt8 :=
  (bytes.take 16).zipIdx.map fun b =>
    if b.2 = 6 then (b.1 &&& 0x0f) ||| 0x50
    else if b.2 = 8 then (b.1 &&& 0x3f) ||| 0x80
    else b.1

def uuid (name : List UInt8) : List UInt8 := stamp (Sha1.digest (namespaceBytes ++ name))

def hexByte (b : UInt8) : Text := [Nat.digitChar (b.toNat / 16), Nat.digitChar (b.toNat % 16)]

/-- The id of the widget of a kind that is the `occurrence`-th of its title. -/
def make (kind title : Text) (occurrence : Nat) : Text :=
  "box-".toList ++ (uuid (name kind title occurrence).toBytes).flatMap hexByte

theorem mem_make {kind title : Text} {n : Nat} {c : Char} (h : c ∈ make kind title n) :
    c ∈ "box-0123456789abcdef".toList := by
  have hbox : ∀ d ∈ "box-".toList, d ∈ "box-0123456789abcdef".toList := by decide
  have hdigit : ∀ i < 16, Nat.digitChar i ∈ "box-0123456789abcdef".toList := by decide
  rcases List.mem_append.1 h with h | h
  · exact hbox c h
  · obtain ⟨b, -, hb⟩ := List.mem_flatMap.1 h
    have hlt := b.toNat_lt
    simp only [hexByte, List.mem_cons, List.not_mem_nil, or_false] at hb
    rcases hb with rfl | rfl
    · exact hdigit _ (by omega)
    · exact hdigit _ (by omega)

end BBCode.WidgetId

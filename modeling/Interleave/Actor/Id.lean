import Interleave.Text

namespace Interleave

structure ActorId where
  index : Nat
deriving DecidableEq

namespace ActorId

def root : ActorId := ⟨0⟩

def text (id : ActorId) : String := toString id.index

def tagged (id : ActorId) : String := "ActorId(" ++ id.text ++ ")"

/-- Four columns: right aligned, left aligned, filled with zeros, and signed. -/
def columns (id : ActorId) : String :=
  String.intercalate "|"
    [Text.padLeft 4 ' ' id.text, Text.padRight 3 ' ' id.text,
      Text.padLeft 3 '0' id.text, "+" ++ id.text]

def inOrder (ids : List ActorId) : List ActorId :=
  ids.mergeSort fun left right => left.index ≤ right.index

@[simp] theorem eta (id : ActorId) : (⟨id.index⟩ : ActorId) = id := rfl

theorem ext_iff {left right : ActorId} : left = right ↔ left.index = right.index := by
  cases left
  cases right
  simp

end ActorId

end Interleave

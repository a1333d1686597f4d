import BrowserAgent.Proofs.FormatLaws
import BrowserAgent.Yaml.Decoder

/-!
# Values that YAML nodes hold

A node without names and tags holds a value of texts, lists and objects. The decoders read what a
node holds, wherever in a tree it stands.
-/

namespace BrowserAgent.Yaml

mutual

/-- The node stands for the value. A plain scalar stands for a text only if it cannot be taken for
another value. -/
inductive Holds : Node → JsonValue → Prop
  | text {mark : Mark} {s : String} {isPlain : Bool}
      (clear : isPlain = true → isAmbiguous s = false) :
    Holds (.scalar mark s isPlain none) (.text s)
  | list {mark : Mark} {nodes : List Node} {items : List JsonValue}
      (each : HoldsItems nodes items) : Holds (.list mark nodes) (.list items)
  | object {mark : Mark} {pairs : List (Node × Node)} {members : List (String × JsonValue)}
      (each : HoldsMembers pairs members) : Holds (.map mark pairs) (.object members)

inductive HoldsItems : List Node → List JsonValue → Prop
  | nil : HoldsItems [] []
  | cons {node : Node} {nodes : List Node} {item : JsonValue} {items : List JsonValue}
      (first : Holds node item) (more : HoldsItems nodes items) :
    HoldsItems (node :: nodes) (item :: items)

inductive HoldsMembers : List (Node × Node) → List (String × JsonValue) → Prop
  | nil : HoldsMembers [] []
  | cons {key node : Node} {pairs : List (Node × Node)} {name : String} {value : JsonValue}
      {members : List (String × JsonValue)} (name_ : Holds key (.text name))
      (value_ : Holds node value) (more : HoldsMembers pairs members) :
    HoldsMembers ((key, node) :: pairs) ((name, value) :: members)

end

namespace Decoder

variable {α : Type}

/-- The decoder reads the value from each node that holds it. -/
def Reads ⦃α : Type⦄ (x : Decoder α) (v : JsonValue) (a : α) : Prop :=
  ∀ node, Holds node v → ∀ tree path around, x ⟨tree, path, node, around⟩ = .ok a

theorem Reads.map {β : Type} {x : Decoder α} {v : JsonValue} {a : α} (g : α → β)
    (h : Reads x v a) : Reads (g <$> x) v (g a) := by
  intro node held tree path around
  show g <$> x ⟨tree, path, node, around⟩ = _
  rw [h node held]
  rfl

end Decoder

end BrowserAgent.Yaml

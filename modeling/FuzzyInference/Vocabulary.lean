import FuzzyInference.Variable

/-! The variables known by name. Names are compared after lower-casing; a variable takes the place of
an earlier one of the same name. -/

namespace FuzzyInference

namespace Variable

variable {α : Type} [Scalar α]

/-- The name as far as look-ups see it. -/
def key (v : Variable α) : String := Text.lowerCase v.name

end Variable

structure Vocabulary (α : Type) [Scalar α] where
  members : List (Variable α) := []

namespace Vocabulary

variable {α : Type} [Scalar α]

def register (w : Vocabulary α) (v : Variable α) : Vocabulary α :=
  ⟨Keyed.insert Variable.key v w.members⟩

def ofList (vs : List (Variable α)) : Vocabulary α := vs.foldl register {}

def get? (w : Vocabulary α) (name : String) : Option (Variable α) :=
  Keyed.get? Variable.key (Text.lowerCase name) w.members

def contains (w : Vocabulary α) (name : String) : Bool := (w.get? name).isSome

def names (w : Vocabulary α) : List String := w.members.map Variable.name

end Vocabulary

end FuzzyInference

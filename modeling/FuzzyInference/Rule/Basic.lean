import FuzzyInference.Mode
import FuzzyInference.Operator
import FuzzyInference.Vocabulary

/-! Rules and their text, `IF a IS b AND c IS d THEN x IS y, z IS w`. Connectives apply from left to
right without precedence. -/

namespace FuzzyInference

/-- The condition that a variable is in a set. The label is looked up only when the rule is used. -/
structure Antecedent (α : Type) [Scalar α] where
  subject : Variable α
  label : String

inductive Consequent (α : Type) [Scalar α] where
  /-- The variable is in the set. -/
  | fuzzy (target : Variable α) (set : FuzzySet α)
  /-- The variable has the value. -/
  | crisp (target : Variable α) (value : α)

structure Rule (α : Type) [Scalar α] where
  antecedents : List (Antecedent α) := []
  /-- Between each two neighbouring antecedents, if the rule is well formed. -/
  connectives : List Connective := []
  consequents : List (Consequent α) := []
  weight : α := 1
  enabled : Bool := true

variable {α : Type} [Scalar α]

namespace Antecedent

/-- The same variable by name and the same label in any case. -/
instance : BEq (Antecedent α) where
  beq a b := a.subject.name == b.subject.name && Text.eqIgnoringCase a.label b.label

def text (a : Antecedent α) : String := a.subject.name ++ " IS " ++ a.label

end Antecedent

namespace Consequent

def target : Consequent α → Variable α
  | .fuzzy v _ => v
  | .crisp v _ => v

/-- The method of inference that can evaluate a consequent. -/
def mode : Consequent α → Mode
  | .fuzzy .. => .mamdani
  | .crisp .. => .sugeno

/-- The same variable by name with the same set by label, or with the same value. -/
instance : BEq (Consequent α) where
  beq
    | .fuzzy v s, .fuzzy w t => v.name == w.name && s.label == t.label
    | .crisp v x, .crisp w y => v.name == w.name && x == y
    | _, _ => false

def text [Numeral α] : Consequent α → String
  | .fuzzy v s => v.name ++ " IS " ++ s.label
  | .crisp v x => v.name ++ " = " ++ Numeral.text x

end Consequent

namespace Rule

instance : BEq (Rule α) where
  beq r q := r.antecedents == q.antecedents && r.connectives == q.connectives
    && r.consequents == q.consequents && r.weight == q.weight && r.enabled == q.enabled

/-- Further antecedents behind the first; a missing connective is written as AND. -/
def furtherText : List Connective → List (Antecedent α) → String
  | _, [] => ""
  | [], a :: rest => " AND " ++ a.text ++ furtherText [] rest
  | c :: cs, a :: rest => " " ++ c.keyword ++ " " ++ a.text ++ furtherText cs rest

def conditionText (r : Rule α) : String :=
  match r.antecedents with
  | [] => ""
  | a :: rest => " " ++ a.text ++ furtherText r.connectives rest

def conclusionText [Numeral α] (r : Rule α) : String :=
  match r.consequents with
  | [] => ""
  | c :: rest => " " ++ c.text ++ String.join (rest.map fun c => ", " ++ c.text)

/-- Weight and enabled flag are not part of the text. -/
def text [Numeral α] (r : Rule α) : String :=
  "IF" ++ r.conditionText ++ " THEN" ++ r.conclusionText

end Rule

end FuzzyInference

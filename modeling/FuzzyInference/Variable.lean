import FuzzyInference.Shape.Basic

/-! Linguistic variables: an interval of crisp values and named fuzzy sets over it. The labels of one
variable differ by more than the case of ASCII letters, so a label in any case means one set. -/

namespace FuzzyInference

/-- A label with its meaning. Sets are told apart by the label alone. -/
structure FuzzySet (α : Type) [Scalar α] where
  label : String
  shape : Shape α

namespace FuzzySet

variable {α : Type} [Scalar α]

/-- The label as far as look-ups see it. -/
def key (s : FuzzySet α) : List Char := Text.caseKey s.label

def isNamed (label : String) (s : FuzzySet α) : Bool := Text.eqIgnoringCase s.label label

def degree (s : FuzzySet α) (x : α) : α := s.shape.degree x

def text [Numeral α] (s : FuzzySet α) : String :=
  "FuzzySet\x7blabel='" ++ s.label ++ "', mf=" ++ s.shape.text ++ "\x7d"

/-- The first set whose label an earlier set has, given the labels already taken. -/
def repeated? (taken : List (List Char)) : List (FuzzySet α) → Option (FuzzySet α)
  | [] => none
  | s :: rest => if s.key ∈ taken then some s else repeated? (s.key :: taken) rest

theorem repeated?_eq_none_iff (taken : List (List Char)) (sets : List (FuzzySet α)) :
    repeated? taken sets = none ↔
      (sets.map key).Nodup ∧ ∀ k ∈ sets.map key, k ∉ taken := by
  induction sets generalizing taken with
  | nil => simp [repeated?]
  | cons s rest ih =>
    by_cases h : s.key ∈ taken
    · simp [repeated?, h]
    · simp only [repeated?, h, if_false, ih, List.map_cons, List.nodup_cons, List.mem_cons, not_or,
        forall_eq_or_imp, not_false_eq_true, true_and]
      constructor
      · rintro ⟨hn, hr⟩
        exact ⟨⟨fun hm => (hr _ hm).1 rfl, hn⟩, fun k hk => (hr k hk).2⟩
      · rintro ⟨⟨hs, hn⟩, hr⟩
        exact ⟨hn, fun k hk => ⟨fun e => hs (e ▸ hk), hr k hk⟩⟩

theorem nodup_of_repeated? {sets : List (FuzzySet α)} (h : repeated? [] sets = none) :
    (sets.map key).Nodup := ((repeated?_eq_none_iff [] sets).1 h).1

end FuzzySet

structure Variable (α : Type) [Scalar α] where
  name : String
  start : α
  stop : α
  sets : List (FuzzySet α)
  finite_start : Scalar.isFinite start = true
  finite_stop : Scalar.isFinite stop = true
  start_le_stop : start ≤ stop
  distinct : (sets.map FuzzySet.key).Nodup

inductive VariableError (α : Type) where
  | invalidDomain (name : String) (start stop : α)
  | duplicateSet (name label : String)

namespace Variable

variable {α : Type} [Scalar α]

/-- Takes the given sets in place of all sets of the variable. -/
def withSets (v : Variable α) (sets : List (FuzzySet α)) : Except (VariableError α) (Variable α) :=
  match h : FuzzySet.repeated? [] sets with
  | some s => .error (.duplicateSet v.name s.label)
  | none => .ok { v with sets, distinct := FuzzySet.nodup_of_repeated? h }

/-- A variable without sets. -/
def bare (name : String) (start stop : α) : Except (VariableError α) (Variable α) :=
  if h : Scalar.isFinite start = true ∧ Scalar.isFinite stop = true ∧ start ≤ stop then
    .ok ⟨name, start, stop, [], h.1, h.2.1, h.2.2, List.nodup_nil⟩
  else .error (.invalidDomain name start stop)

/-- The domain is checked before the sets. -/
def make (name : String) (start stop : α) (sets : List (FuzzySet α)) :
    Except (VariableError α) (Variable α) := do
  (← bare name start stop).withSets sets

/-- The set that a label in any case means. -/
def set? (v : Variable α) (label : String) : Option (FuzzySet α) :=
  v.sets.find? (·.isNamed label)

theorem key_not_mem_of_set? {v : Variable α} {s : FuzzySet α} (h : v.set? s.label = none) :
    s.key ∉ v.sets.map FuzzySet.key := by
  simp only [set?, List.find?_eq_none, FuzzySet.isNamed, Text.eqIgnoringCase, beq_iff_eq] at h
  rintro hm
  obtain ⟨t, ht, he⟩ := List.mem_map.1 hm
  exact h t ht he

def addSet (v : Variable α) (s : FuzzySet α) : Except (VariableError α) (Variable α) :=
  match h : v.set? s.label with
  | some _ => .error (.duplicateSet v.name s.label)
  | none => .ok { v with
      sets := v.sets ++ [s]
      distinct := by
        have hn := key_not_mem_of_set? h
        rw [List.map_append, List.nodup_append]
        refine ⟨v.distinct, by simp, ?_⟩
        intro k hk j hj
        have hj' : j = s.key := by simpa using hj
        exact fun e => hn (hj' ▸ e ▸ hk) }

/-- The middle of the domain, which stands in where no rule says anything. -/
def midpoint (v : Variable α) : α := (v.start + v.stop) / 2

/-- Evenly spaced points of the domain, both ends included if there are at least two. -/
def samplePoints (v : Variable α) (count : Nat) : List α :=
  let step := if 1 < count then (v.stop - v.start) / Scalar.ofNat (count - 1) else 0
  (List.range count).map fun i => v.start + Scalar.ofNat i * step

def labels (v : Variable α) : List String := v.sets.map FuzzySet.label

def text [Numeral α] (v : Variable α) : String :=
  "LinguisticVariable\x7bname='" ++ v.name ++ "', domain=[" ++ Numeral.text v.start ++ ", "
    ++ Numeral.text v.stop ++ "], sets=[" ++ ", ".intercalate v.labels ++ "]\x7d"

end Variable

namespace VariableError

variable {α : Type} [Numeral α]

def fault : VariableError α → Fault
  | .invalidDomain name start stop =>
    { code := .invalidDomain
      message := "Variable '" ++ name ++ "' has invalid domain [" ++ Numeral.text start ++ ", "
        ++ Numeral.text stop ++ "]" }
  | .duplicateSet name label =>
    { code := .duplicateSet
      message := s!"Variable '{name}' already has a fuzzy set named '{label}'" }

end VariableError

end FuzzyInference

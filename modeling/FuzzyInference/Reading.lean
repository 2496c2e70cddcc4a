import FuzzyInference.Diagnostic

/-! Crisp values read against the sets of a variable. -/

namespace FuzzyInference

/-- The degree to which one value belongs to each set of one variable, in the order of the sets. -/
structure Reading (α : Type) where
  variableName : String
  value : α
  degrees : List (String × α)

namespace Reading

variable {α : Type} [Scalar α]

/-- The degree of a label, the exact spelling before any other. -/
def degree? (r : Reading α) (label : String) : Option α :=
  ((r.degrees.find? fun d => d.1 == label).or
    (r.degrees.find? fun d => Text.eqIgnoringCase d.1 label)).map Prod.snd

omit [Scalar α] in
theorem exists_mem_of_degree? {r : Reading α} {label : String} {x : α}
    (h : r.degree? label = some x) : ∃ d ∈ r.degrees, d.2 = x := by
  rw [degree?, Option.map_eq_some_iff] at h
  obtain ⟨d, hd, rfl⟩ := h
  refine ⟨d, ?_, rfl⟩
  rcases Option.or_eq_some_iff.mp hd with hexact | ⟨-, hcase⟩
  · exact List.mem_of_find?_eq_some hexact
  · exact List.mem_of_find?_eq_some hcase

/-- The sum of all degrees. An empty sum is a negative zero. -/
def total (r : Reading α) : α := (r.degrees.map Prod.snd).foldl (· + ·) (-0)

/-- The label with the greatest degree, the first of several. -/
def dominant? (r : Reading α) : Option (String × α) :=
  r.degrees.foldl (fun best d =>
    match best with
    | some b => if d.2 ≤ b.2 then some b else some d
    | none => some d) none

def diagnostic? (r : Reading α) : Option (Diagnostic α) :=
  if r.degrees.isEmpty then some (.emptyFuzzification r.variableName r.value) else none

end Reading

def Variable.fuzzify {α : Type} [Scalar α] (v : Variable α) (x : α) : Reading α :=
  ⟨v.name, x, v.sets.map fun s => (s.label, s.degree x)⟩

/-- At most one reading per variable, by its lower-cased name. -/
structure Readings (α : Type) where
  readings : List (Reading α) := []

namespace Readings

variable {α : Type} [Scalar α]

def key (r : Reading α) : String := Text.lowerCase r.variableName

/-- A later reading takes the place of an earlier one of the same variable. -/
def insert (rs : Readings α) (r : Reading α) : Readings α := ⟨Keyed.insert key r rs.readings⟩

def ofList (rs : List (Reading α)) : Readings α := rs.foldl insert {}

def get? (rs : Readings α) (variableName : String) : Option (Reading α) :=
  Keyed.get? key (Text.lowerCase variableName) rs.readings

/-- Zero where the variable was not read or has no such set. -/
def degree (rs : Readings α) (variableName label : String) : α :=
  ((rs.get? variableName).bind (·.degree? label)).getD 0

end Readings

end FuzzyInference

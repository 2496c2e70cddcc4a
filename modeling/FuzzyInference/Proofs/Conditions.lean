import FuzzyInference.Proofs.Degrees
import FuzzyInference.Proofs.Faults

/-! How the condition of a rule depends on the degrees it joins. Whatever the connectives are, greater
degrees do not make it hold less; by AND alone it holds no more than any of its parts, and by OR alone
no less. -/

namespace FuzzyInference

variable {norms : Norms} {readings readings' : Readings Rat}

/-! ## Greater degrees -/

/-- A reading of the same variable and sets whose degrees are not less. -/
structure Reading.Raised (r r' : Reading Rat) : Prop where
  name : r'.variableName = r.variableName
  degrees : List.Forall₂ (fun d d' => d'.1 = d.1 ∧ d.2 ≤ d'.2) r.degrees r'.degrees

/-- The same readings in the same order, with degrees that are not less. -/
def Readings.Raised (readings readings' : Readings Rat) : Prop :=
  List.Forall₂ Reading.Raised readings.readings readings'.readings

/-- In lists that are related entry by entry, a search that tells related entries apart from no other
finds related ones, or nothing in both. -/
theorem find?_of_forall₂ {β : Type} {rel : β → β → Prop} {p : β → Bool} {xs ys : List β}
    (h : List.Forall₂ rel xs ys) (hp : ∀ x y, rel x y → p y = p x) :
    (xs.find? p = none ∧ ys.find? p = none) ∨
      ∃ x y, xs.find? p = some x ∧ ys.find? p = some y ∧ rel x y := by
  induction h with
  | nil => exact .inl ⟨rfl, rfl⟩
  | @cons x y xs ys hxy _ ih =>
      rw [List.find?_cons, List.find?_cons, hp x y hxy]
      cases p x with
      | true => exact .inr ⟨x, y, rfl, rfl, hxy⟩
      | false => exact ih

theorem Reading.Raised.degree? {r r' : Reading Rat} (h : r.Raised r') (label : String) :
    (r.degree? label = none ∧ r'.degree? label = none) ∨
      ∃ x x', r.degree? label = some x ∧ r'.degree? label = some x' ∧ x ≤ x' := by
  have hexact := find?_of_forall₂ (p := fun d => d.1 == label) h.degrees
    fun d d' hd => by rw [hd.1]
  have hcase := find?_of_forall₂ (p := fun d => Text.eqIgnoringCase d.1 label) h.degrees
    fun d d' hd => by rw [hd.1]
  unfold Reading.degree?
  rcases hexact with ⟨hnone, hnone'⟩ | ⟨d, d', hd, hd', -, hle⟩
  · rw [hnone, hnone', Option.none_or, Option.none_or]
    rcases hcase with ⟨hnone, hnone'⟩ | ⟨d, d', hd, hd', -, hle⟩
    · simp [hnone, hnone']
    · simp [hd, hd', hle]
  · simp [hd, hd', hle]

/-- Raised where they stand, degrees are raised wherever they are looked up. -/
theorem Readings.Raised.degree_le (h : readings.Raised readings') (name label : String) :
    readings.degree name label ≤ readings'.degree name label := by
  have hget := find?_of_forall₂ (p := fun r => decide (Readings.key r = Text.lowerCase name)) h
    fun r r' hr => by rw [Readings.key, Readings.key, hr.name]
  unfold Readings.degree Readings.get? Keyed.get?
  rcases hget with ⟨hnone, hnone'⟩ | ⟨r, r', hr, hr', hraised⟩
  · rw [hnone, hnone']
  · rw [hr, hr', Option.bind_some, Option.bind_some]
    rcases hraised.degree? label with ⟨hnone, hnone'⟩ | ⟨x, x', hx, hx', hle⟩
    · rw [hnone, hnone']
    · rwa [hx, hx']

/-! ## Conditions joined -/

theorem Antecedent.degree_le (hle : ∀ name label, readings.degree name label ≤
      readings'.degree name label) {a : Antecedent Rat} {x x' : Rat}
    (hx : a.degree readings = .ok x) (hx' : a.degree readings' = .ok x') : x ≤ x' := by
  unfold Antecedent.degree at hx hx'
  cases hset : a.subject.set? a.label with
  | none => simp [hset] at hx
  | some s =>
      rw [hset] at hx hx'
      cases hx
      cases hx'
      exact hle _ _

namespace Rule

/-- A rule with a connective between each two neighbours and with sets that are known has a degree. -/
theorem exists_condition {α : Type} [Scalar α] {r : Rule α}
    (hcount : r.connectives.length = r.antecedents.length - 1)
    (hdefined : ∀ a ∈ r.antecedents, a.IsDefined) (norms : Norms) (readings : Readings α) :
    ∃ d, r.condition norms readings = .ok d := by
  have hvoid : r.antecedents.find? Antecedent.isVoid = none := by
    rw [List.find?_eq_none]
    exact fun a ha hvoid => Antecedent.isVoid_iff.mp hvoid (hdefined a ha)
  rw [← failure?_eq_none_iff, failure?_condition, conditionFault?_eq, if_pos (.inr hcount), hvoid]
  rfl

/-- Of two runs over the same conditions, the one that starts no lower and reads no lower degrees ends
no lower. The degrees so far stay within one, where the operators are monotone. -/
theorem joinDegrees_le (h : readings.Graded) (h' : readings'.Graded)
    (hle : ∀ name label, readings.degree name label ≤ readings'.degree name label)
    {cs : List Connective} {as : List (Antecedent Rat)} {a a' b b' : Rat} (ha' : IsDegree a')
    (haa' : a ≤ a') (hb : joinDegrees norms readings a cs as = .ok b)
    (hb' : joinDegrees norms readings' a' cs as = .ok b') : b ≤ b' := by
  induction as generalizing a a' cs with
  | nil => cases cs <;> cases hb <;> cases hb' <;> exact haa'
  | cons part as ih =>
      cases cs with
      | nil =>
          cases hb
          cases hb'
          exact haa'
      | cons c cs =>
          rw [joinDegrees, bind_eq_ok] at hb hb'
          obtain ⟨x, hx, hb⟩ := hb
          obtain ⟨x', hx', hb'⟩ := hb'
          have hdegree := part.isDegree_degree h hx
          have hdegree' := part.isDegree_degree h' hx'
          exact ih (c.isDegree_combine _ _ ha' hdegree')
            (c.combine_le_combine _ _ hdegree ha' hdegree' haa' (part.degree_le hle hx hx')) hb hb'

/-- If all connectives join degrees to one that is related to both, the degree of the whole is related
to that of every part. -/
theorem joinDegrees_rel {rel : Rat → Rat → Prop} [IsPreorder Rat rel] (h : readings.Graded)
    {cs : List Connective} {as : List (Antecedent Rat)} (hlength : cs.length = as.length)
    (hjoin : ∀ c ∈ cs, ∀ x y, IsDegree x → IsDegree y →
      rel (c.combine norms.and norms.or x y) x ∧ rel (c.combine norms.and norms.or x y) y)
    {a b : Rat} (ha : IsDegree a) (hb : joinDegrees norms readings a cs as = .ok b) :
    rel b a ∧ ∀ part ∈ as, ∃ x, part.degree readings = .ok x ∧ rel b x := by
  induction as generalizing a cs with
  | nil =>
      obtain rfl := List.length_eq_zero_iff.mp hlength
      cases hb
      exact ⟨refl_of rel _, nofun⟩
  | cons part as ih =>
      cases cs with
      | nil => cases hlength
      | cons c cs =>
          rw [joinDegrees, bind_eq_ok] at hb
          obtain ⟨x, hx, hb⟩ := hb
          rw [List.forall_mem_cons] at hjoin
          have hdegree := part.isDegree_degree h hx
          obtain ⟨hleft, hright⟩ := hjoin.1 a x ha hdegree
          obtain ⟨hnext, hrest⟩ := ih (Nat.succ.inj hlength) hjoin.2
            (c.isDegree_combine _ _ ha hdegree) hb
          exact ⟨trans_of rel hnext hleft,
            List.forall_mem_cons.mpr ⟨⟨x, hx, trans_of rel hnext hright⟩, hrest⟩⟩

theorem condition_rel (rel : Rat → Rat → Prop) [IsPreorder Rat rel] (h : readings.Graded)
    {r : Rule Rat} (hjoin : ∀ c ∈ r.connectives, ∀ x y, IsDegree x → IsDegree y →
      rel (c.combine norms.and norms.or x y) x ∧ rel (c.combine norms.and norms.or x y) y)
    {d : Rat} (hd : r.condition norms readings = .ok d) :
    ∀ a ∈ r.antecedents, ∃ x, a.degree readings = .ok x ∧ rel d x := by
  rcases condition_eq_ok hd with ⟨hnone, -⟩ | ⟨first, rest, x, hsome, hlength, hx, hd⟩
  · simp [hnone]
  · obtain ⟨hfirst, hrest⟩ := joinDegrees_rel h hlength hjoin (first.isDegree_degree h hx) hd
    rw [hsome]
    exact List.forall_mem_cons.mpr ⟨⟨x, hx, hfirst⟩, hrest⟩

theorem condition_le (h : readings.Graded) (h' : readings'.Graded)
    (hle : ∀ name label, readings.degree name label ≤ readings'.degree name label) {r : Rule Rat}
    {d d' : Rat} (hd : r.condition norms readings = .ok d)
    (hd' : r.condition norms readings' = .ok d') : d ≤ d' := by
  rcases condition_eq_ok hd with ⟨hnone, rfl⟩ | ⟨first, rest, x, hsome, -, hx, hjoin⟩
  · exact (isDegree_condition h' hd').1
  · rcases condition_eq_ok hd' with ⟨hnone, -⟩ | ⟨first', rest', x', hsome', -, hx', hjoin'⟩
    · rw [hsome] at hnone
      cases hnone
    · rw [hsome] at hsome'
      cases hsome'
      exact joinDegrees_le h h' hle (first.isDegree_degree h' hx') (first.degree_le hle hx hx')
        hjoin hjoin'

/-- Over degrees, the condition of a rule is a degree. Raising degrees does not lower it, and so not
the strength of a rule whose weight is not negative; if all connectives are AND it is at most the degree
of each part, and if all are OR at least. -/
theorem condition_isDegree_and_monotone {r : Rule Rat}
    (hcount : r.connectives.length = r.antecedents.length - 1)
    (hdefined : ∀ a ∈ r.antecedents, a.IsDefined) (norms : Norms) {readings : Readings Rat}
    (hgraded : readings.Graded) :
    ∃ d, r.condition norms readings = .ok d ∧ IsDegree d ∧
      (∀ readings' : Readings Rat, readings'.Graded →
        (∀ name label, readings.degree name label ≤ readings'.degree name label) →
        (∃ d', r.condition norms readings' = .ok d' ∧ d ≤ d') ∧
        (0 ≤ r.weight → ∃ s s', r.strength norms readings = .ok s ∧
          r.strength norms readings' = .ok s' ∧ s ≤ s')) ∧
      ((∀ c ∈ r.connectives, c = .and) →
        ∀ a ∈ r.antecedents, ∃ x, a.degree readings = .ok x ∧ d ≤ x) ∧
      ((∀ c ∈ r.connectives, c = .or) →
        ∀ a ∈ r.antecedents, ∃ x, a.degree readings = .ok x ∧ x ≤ d) := by
  obtain ⟨d, hd⟩ := exists_condition hcount hdefined norms readings
  refine ⟨d, hd, isDegree_condition hgraded hd, fun readings' hgraded' hle => ?_,
    fun hand => ?_, fun hor => ?_⟩
  · obtain ⟨d', hd'⟩ := exists_condition hcount hdefined norms readings'
    have hdd' := condition_le hgraded hgraded' hle hd hd'
    refine ⟨⟨d', hd', hdd'⟩, fun hweight => ?_⟩
    exact ⟨_, _, strength_eq_ok_iff.mpr ⟨d, hd, rfl⟩, strength_eq_ok_iff.mpr ⟨d', hd', rfl⟩,
      mul_le_mul_of_nonneg_right hdd' hweight⟩
  · refine condition_rel (· ≤ ·) hgraded (fun c hc x y hx hy => ?_) hd
    rw [hand c hc]
    exact ⟨norms.and.apply_le_left hx hy, norms.and.apply_le_right hx hy⟩
  · refine condition_rel (· ≥ ·) hgraded (fun c hc x y hx hy => ?_) hd
    rw [hor c hc]
    exact ⟨norms.or.le_apply_left hx hy, norms.or.le_apply_right hx hy⟩

end Rule

/-! ## A storm warning -/

namespace Storm

def wind : Variable Rat := ⟨"Wind", 3, 37,
  [⟨"Strong", .triangle 10 20 40, by decide +kernel, by decide +kernel, by decide +kernel⟩],
  rfl, rfl, by decide +kernel, by simp⟩

def sea : Variable Rat := ⟨"Sea", 4, 9,
  [⟨"Rough", .triangle 2 6 10, by decide +kernel, by decide +kernel, by decide +kernel⟩],
  rfl, rfl, by decide +kernel, by simp⟩

/-- Three conditions, with a label in capitals. -/
def warning (first second : Connective) : Rule Rat where
  antecedents := [⟨wind, "STRONG"⟩, ⟨sea, "Rough"⟩, ⟨wind, "Strong"⟩]
  connectives := [first, second]
  weight := 1 / 2

def operators : Norms := { and := .lukasiewicz, or := .probabilisticSum }

def breeze : Readings Rat := .ofList [wind.fuzzify 15, sea.fuzzify 4]

def gale : Readings Rat := .ofList [wind.fuzzify 18, sea.fuzzify 5]

theorem defined_warning (first second : Connective) :
    ∀ a ∈ (warning first second).antecedents, a.IsDefined := by
  simp only [warning, List.forall_mem_cons]
  exact ⟨⟨_, List.mem_singleton_self _, by decide⟩, ⟨_, List.mem_singleton_self _, by decide⟩,
    ⟨_, List.mem_singleton_self _, by decide⟩, nofun⟩

theorem raised_gale : breeze.Raised gale :=
  .cons ⟨rfl, .cons ⟨rfl, by decide +kernel⟩ .nil⟩
    (.cons ⟨rfl, .cons ⟨rfl, by decide +kernel⟩ .nil⟩ .nil)

/-- In a gale the warning holds to three quarters instead of a quarter. -/
theorem condition_monotone_warning :
    ((warning .or .and).condition operators breeze).toOption = some (1 / 4) ∧
    ((warning .or .and).condition operators gale).toOption = some (3 / 4) ∧
    (∃ s s', (warning .or .and).strength operators breeze = .ok s ∧
      (warning .or .and).strength operators gale = .ok s' ∧ s ≤ s') ∧
    (∃ d, (warning .and .and).condition operators gale = .ok d ∧ IsDegree d ∧
      ∀ a ∈ (warning .and .and).antecedents, ∃ x, a.degree gale = .ok x ∧ d ≤ x) ∧
    ∃ d, (warning .or .or).condition operators gale = .ok d ∧ IsDegree d ∧
      ∀ a ∈ (warning .or .or).antecedents, ∃ x, a.degree gale = .ok x ∧ x ≤ d := by
  have hbreeze : breeze.Graded := by decide +kernel
  have hgale : gale.Graded := by decide +kernel
  refine ⟨by decide +kernel, by decide +kernel, ?_, ?_, ?_⟩
  · obtain ⟨_, -, -, hraise, -, -⟩ := Rule.condition_isDegree_and_monotone rfl
      (defined_warning .or .and) operators hbreeze
    exact (hraise gale hgale raised_gale.degree_le).2 (by decide +kernel)
  · obtain ⟨d, hd, hdegree, -, hand, -⟩ := Rule.condition_isDegree_and_monotone rfl
      (defined_warning .and .and) operators hgale
    exact ⟨d, hd, hdegree, hand (by decide)⟩
  · obtain ⟨d, hd, hdegree, -, -, hor⟩ := Rule.condition_isDegree_and_monotone rfl
      (defined_warning .or .or) operators hgale
    exact ⟨d, hd, hdegree, hor (by decide)⟩

end Storm

end FuzzyInference

import FuzzyInference.Proofs.Readings

/-! The names of inputs. The vocabulary takes a name for any other one that is lowered alike, while
conditions, which are asked where the vocabulary has no answer, tell names apart but for the case of
ASCII letters. A value that is accepted is read by all conditions on variables of its name. -/

namespace FuzzyInference

variable {α : Type} [Scalar α]

namespace Engine

/-! ## Accepted names -/

variable {e : Engine α} {name : String} {u v : Variable α} {readings readings' : Readings α}

/-- Whether a condition of some rule is about a variable of the name, but for the case of ASCII
letters. -/
def Mentions (e : Engine α) (name : String) : Prop :=
  ∃ r ∈ e.base.rules, ∃ a ∈ r.antecedents, Text.caseKey a.subject.name = Text.caseKey name

theorem exists_resolveInput_iff : (∃ u, e.resolveInput name = .ok u) ↔
    e.vocabulary.contains name = true ∨ e.Mentions name := by
  have hmentions : ((e.base.rules.flatMap (·.antecedents)).find? fun a =>
      Text.eqIgnoringCase a.subject.name name).isSome = true ↔ e.Mentions name := by
    simp only [List.find?_isSome, List.mem_flatMap, Text.eqIgnoringCase, beq_iff_eq, Mentions]
    constructor
    · rintro ⟨a, ⟨r, hr, ha⟩, hcase⟩
      exact ⟨r, hr, a, ha, hcase⟩
    · rintro ⟨r, hr, a, ha, hcase⟩
      exact ⟨a, ⟨r, hr, ha⟩, hcase⟩
  rw [← hmentions]
  unfold resolveInput Vocabulary.contains
  cases e.vocabulary.get? name with
  | some v => simp
  | none =>
      dsimp only
      cases (e.base.rules.flatMap (·.antecedents)).find? fun a =>
        Text.eqIgnoringCase a.subject.name name <;> simp

/-! ## Reading on -/

theorem readOnto_append_eq_ok {before after : List (String × α)} :
    (e.readOnto readings (before ++ after)).result = .ok readings' ↔
      ∃ between, (e.readOnto readings before).result = .ok between ∧
        (e.readOnto between after).result = .ok readings' := by
  induction before generalizing readings with
  | nil => simp [readOnto]
  | cons input before ih =>
      obtain ⟨name, x⟩ := input
      simp only [List.cons_append, readOnto_cons_eq_ok, ih]
      constructor
      · rintro ⟨u, hu, between, hbefore, hafter⟩
        exact ⟨between, ⟨u, hu, hbefore⟩, hafter⟩
      · rintro ⟨between, ⟨u, hu, hbefore⟩, hafter⟩
        exact ⟨u, hu, between, hbefore, hafter⟩

/-- What is read under a name stays until the name is given again. -/
theorem get?_readOnto_of_unnamed {inputs : List (String × α)}
    (hinputs : ∀ input ∈ inputs, Text.lowerCase input.1 ≠ Text.lowerCase name)
    (h : (e.readOnto readings inputs).result = .ok readings') :
    readings'.get? name = readings.get? name := by
  induction inputs generalizing readings with
  | nil =>
      cases h
      rfl
  | cons input rest ih =>
      obtain ⟨other, x⟩ := input
      rw [List.forall_mem_cons] at hinputs
      obtain ⟨u, hu, hrest⟩ := readOnto_cons_eq_ok.mp h
      have hkey : Text.lowerCase name ≠ Readings.key (u.fuzzify x) := fun heq =>
        hinputs.1 ((key_of_resolveInput hu).symm.trans heq.symm)
      rw [ih hinputs.2 hrest, Readings.get?_insert, if_neg hkey]

theorem get?_read {before after : List (String × α)} {x : α} (hu : e.resolveInput name = .ok u)
    (hafter : ∀ input ∈ after, Text.lowerCase input.1 ≠ Text.lowerCase name)
    (h : (e.read (before ++ (name, x) :: after)).result = .ok readings) :
    readings.get? name = some (u.fuzzify x) := by
  obtain ⟨between, -, hbetween⟩ := readOnto_append_eq_ok.mp h
  obtain ⟨u', hu', hrest⟩ := readOnto_cons_eq_ok.mp hbetween
  rw [hu, Except.ok.injEq] at hu'
  subst hu'
  have hkey : Text.lowerCase name = Readings.key (u.fuzzify x) := (key_of_resolveInput hu).symm
  rw [get?_readOnto_of_unnamed hafter hrest, Readings.get?_insert, if_pos hkey]

/-- A name that is lowered like that of a variable with conditions is accepted if the vocabulary has
such a name, or some condition has it up to the case of ASCII letters, and in no other case. What is
accepted is read under the name of the variable, and its conditions go by that reading. -/
theorem read_lowered_name (hv : ∃ r ∈ e.base.rules, ∃ a ∈ r.antecedents, a.subject = v)
    (hname : Text.lowerCase name = v.key) :
    ((∃ u, e.resolveInput name = .ok u) ↔
        e.vocabulary.contains v.name = true ∨ e.Mentions name) ∧
      (Text.caseKey name = Text.caseKey v.name → ∃ u, e.resolveInput name = .ok u) ∧
      (e.vocabulary.get? v.name = some v → e.resolveInput name = .ok v) ∧
      ∀ u, e.resolveInput name = .ok u → ∀ before x after,
        (∀ input ∈ before ++ after, ∃ w, e.resolveInput input.1 = .ok w) →
        (∀ input ∈ after, Text.lowerCase input.1 ≠ v.key) →
        ∃ readings, (e.read (before ++ (name, x) :: after)).result = .ok readings ∧
          readings.get? v.name = some (u.fuzzify x) ∧
          ∀ a : Antecedent α, a.subject = v → ∀ s, v.set? a.label = some s →
            a.degree readings = .ok (((u.fuzzify x).degree? s.label).getD 0) ∧
            (u = v → a.degree readings = .ok (s.degree x)) := by
  have hget : e.vocabulary.get? name = e.vocabulary.get? v.name := Vocabulary.get?_congr hname
  have haccepted : (∃ u, e.resolveInput name = .ok u) ↔
      e.vocabulary.contains v.name = true ∨ e.Mentions name := by
    rw [exists_resolveInput_iff, Vocabulary.contains, hget, ← Vocabulary.contains]
  refine ⟨haccepted, ?_, ?_, ?_⟩
  · intro hcase
    obtain ⟨r, hr, a, ha, rfl⟩ := hv
    exact haccepted.mpr (.inr ⟨r, hr, a, ha, hcase.symm⟩)
  · intro hknown
    exact resolveInput_of_get? (hget.trans hknown)
  · intro u hu before x after hinputs hafter
    have hall : ∀ input ∈ before ++ (name, x) :: after, ∃ w, e.resolveInput input.1 = .ok w := by
      intro input hinput
      rcases List.mem_append.mp hinput with hbefore | hrest
      · exact hinputs input (List.mem_append_left _ hbefore)
      rcases List.mem_cons.mp hrest with rfl | hrest
      · exact ⟨u, hu⟩
      · exact hinputs input (List.mem_append_right _ hrest)
    obtain ⟨readings, hread⟩ := exists_read hall
    have hreading : readings.get? v.name = some (u.fuzzify x) := by
      rw [Readings.get?, ← Variable.key, ← hname]
      exact get?_read hu (fun input hinput => hname ▸ hafter input hinput) hread
    refine ⟨readings, hread, hreading, ?_⟩
    rintro a rfl s hs
    refine ⟨Antecedent.degree_of_get? hs hreading, ?_⟩
    rintro rfl
    rw [Antecedent.degree_of_get? hs hreading, Variable.degree?_fuzzify hs, Option.getD_some]

end Engine

namespace Cruise

def gap : Variable Float := ⟨"Écart", 8, 24,
  [⟨"Large", .triangle 8 24 24, by decide +kernel, by decide +kernel, by decide +kernel⟩],
  by decide +kernel, by decide +kernel, by decide +kernel, by simp⟩

def wind : Variable Float := ⟨"Wind", 32, 64,
  [⟨"Strong", .triangle 32 64 64, by decide +kernel, by decide +kernel, by decide +kernel⟩],
  by decide +kernel, by decide +kernel, by decide +kernel, by simp⟩

def speed : Variable Float := ⟨"Speed", 16, 128,
  [⟨"High", .triangle 16 128 128, by decide +kernel, by decide +kernel, by decide +kernel⟩],
  by decide +kernel, by decide +kernel, by decide +kernel, by simp⟩

/-- An engine with one rule, whose vocabulary is the given one. -/
def engine (known : List (Variable Float)) : Engine Float where
  pipeline := .sugeno {}
  base := { rules := [{
    antecedents := [⟨gap, "large"⟩, ⟨wind, "Strong"⟩]
    connectives := [.and]
    consequents := [.crisp speed 48] }] }
  vocabulary := ⟨known⟩

/-- Spelled with another case of an ASCII letter, the gap is accepted, and the later value counts. -/
theorem read_lowered_name_gap :
    (∃ r ∈ (engine []).base.rules, ∃ a ∈ r.antecedents, a.subject = gap) ∧
    Text.lowerCase "ÉcarT" = gap.key ∧
    ∃ readings,
      ((engine []).read [("Écart", 20), ("ÉcarT", 16), ("WIND", 40)]).result = .ok readings ∧
      readings.get? "Écart" = some (gap.fuzzify 16) ∧
      (⟨gap, "large"⟩ : Antecedent Float).degree readings = .ok 0.5 := by
  have hcondition : ∃ r ∈ (engine []).base.rules, ∃ a ∈ r.antecedents, a.subject = gap :=
    ⟨_, List.mem_singleton_self _, _, List.mem_cons_self, rfl⟩
  have hkey : Text.lowerCase "ÉcarT" = gap.key := by decide +kernel
  have hgap : (engine []).resolveInput "ÉcarT" = .ok gap := rfl
  have hothers : ∀ input ∈ [("Écart", (20 : Float))] ++ [("WIND", 40)],
      ∃ w, (engine []).resolveInput input.1 = .ok w := by
    rw [List.singleton_append, List.forall_mem_cons, List.forall_mem_singleton]
    exact ⟨⟨gap, rfl⟩, ⟨wind, rfl⟩⟩
  obtain ⟨-, -, -, hread⟩ := Engine.read_lowered_name hcondition hkey
  obtain ⟨readings, hreadings, hget, hdegree⟩ :=
    hread gap hgap [("Écart", 20)] 16 [("WIND", 40)] hothers (by decide +kernel)
  have hhalf := (hdegree ⟨gap, "large"⟩ rfl _ rfl).2 rfl
  exact ⟨hcondition, hkey, readings, hreadings, hget,
    hhalf.trans (congrArg Except.ok (by decide +kernel))⟩

/-- All in lower case the gap is refused, but for an engine whose vocabulary has it. -/
theorem unread_lowered_name_gap :
    (∃ r ∈ (engine []).base.rules, ∃ a ∈ r.antecedents, a.subject = gap) ∧
      Text.lowerCase "écart" = gap.key ∧
      ((engine []).read [("écart", 16)]).result = .error (.unknownInput "écart") ∧
      (engine [gap]).resolveInput "écart" = .ok gap := by
  have hkey : Text.lowerCase "écart" = gap.key := by decide +kernel
  have hunknown : (engine []).resolveInput "écart" = .error (.unknownInput "écart") := rfl
  refine ⟨⟨_, List.mem_singleton_self _, _, List.mem_cons_self, rfl⟩, hkey, ?_, ?_⟩
  · rw [Engine.read, Engine.readOnto, hunknown]
  · exact Engine.resolveInput_of_get? (Vocabulary.get?_congr hkey)

end Cruise

end FuzzyInference

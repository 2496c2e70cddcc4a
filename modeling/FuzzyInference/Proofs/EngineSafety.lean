import FuzzyInference.Decimal.Binary64
import FuzzyInference.Proofs.Descriptions
import FuzzyInference.Proofs.Editing
import FuzzyInference.Proofs.Evaluation
import FuzzyInference.Proofs.Grammar

/-! Engines that are built from a configuration. All their rules come from text in one language, so
that nothing but the name of an input can make an evaluation fail. -/

namespace FuzzyInference

variable {α : Type} [Scalar α]

/-! ## Sound rules -/

/-- What evaluation needs of a rule: conclusions of one mode, a connective between neighbours, and
conditions about known variables and their sets. -/
structure Rule.Sound (l : RuleLanguage α) (r : Rule α) : Prop where
  mode : ∀ c ∈ r.consequents, c.mode = l.mode
  connectives : r.connectives.length = r.antecedents.length - 1
  known : ∀ a ∈ r.antecedents, l.vocabulary.get? a.subject.name = some a.subject
  meaning : ∀ a ∈ r.antecedents, a.isVoid = false

theorem Rule.Sound.fault?_eq_none {l : RuleLanguage α} {r : Rule α} (h : r.Sound l) :
    r.fault? l.mode = none := by
  have hmode : (r.consequents.find? fun c => c.mode != l.mode) = none := by
    simpa using h.mode
  have hmeaning : r.antecedents.find? Antecedent.isVoid = none := by
    simpa using h.meaning
  have hconnectives := h.connectives
  unfold fault? conditionFault?
  rw [hmode]
  cases has : r.antecedents with
  | nil => rfl
  | cons a rest =>
      rw [has] at hmeaning
      rw [has, List.length_cons, Nat.add_sub_cancel] at hconnectives
      dsimp only
      rw [if_pos hconnectives, hmeaning]
      rfl

theorem RuleLanguage.Condition.known {l : RuleLanguage α} {words : List String} {a : Antecedent α}
    (h : Condition l words a) :
    l.vocabulary.get? a.subject.name = some a.subject ∧ a.isVoid = false := by
  obtain ⟨hname, -, hlabel⟩ := h
  refine ⟨Vocabulary.get?_name hname, ?_⟩
  simp [Antecedent.isVoid, Variable.set?_label hlabel]

/-! ## Engines with sound rules -/

namespace Engine

variable {e : Engine α} {l : RuleLanguage α}

/-- Conditions know no variable that the vocabulary does not know. -/
theorem failure?_resolveInput (hrules : ∀ r ∈ e.base.rules, r.Sound l)
    (hvocabulary : e.vocabulary = l.vocabulary) (name : String) :
    failure? (e.resolveInput name) =
      if (e.vocabulary.get? name).isSome then none else some (.unknownInput name) := by
  have hknown (r : Rule α) (hr : r ∈ e.base.rules) (a : Antecedent α) (ha : a ∈ r.antecedents) :
      e.vocabulary.get? a.subject.name = some a.subject := by
    rw [hvocabulary]
    exact (hrules r hr).known a ha
  rw [resolveInput_of_known hknown]
  cases e.vocabulary.get? name <;> rfl

theorem findSome?_resolveInput (hrules : ∀ r ∈ e.base.rules, r.Sound l)
    (hvocabulary : e.vocabulary = l.vocabulary) (inputs : List (String × α)) :
    (inputs.findSome? fun input => failure? (e.resolveInput input.1)) =
      (inputs.find? fun input => (e.vocabulary.get? input.1).isNone).map
        fun input => .unknownInput input.1 := by
  induction inputs with
  | nil => rfl
  | cons input rest ih =>
      rw [List.findSome?_cons, List.find?_cons, failure?_resolveInput hrules hvocabulary, ih]
      cases e.vocabulary.get? input.1 <;> rfl

/-- An engine whose rules are all sound fails on the first input that it does not know, and on
nothing else. -/
theorem failure?_of_sound (hrules : ∀ r ∈ e.base.rules, r.Sound l)
    (hvocabulary : e.vocabulary = l.vocabulary) (hmode : e.mode = l.mode)
    (inputs : List (String × α)) :
    failure? (e.evaluate inputs).result =
      (inputs.find? fun input => (e.vocabulary.get? input.1).isNone).map
        fun input => .unknownInput input.1 := by
  have hfaults : e.base.enabledRules.findSome? (Rule.fault? e.mode) = none := by
    rw [List.findSome?_eq_none_iff]
    intro r hr
    rw [hmode]
    exact (hrules r (List.mem_filter.mp hr).1).fault?_eq_none
  rw [failure?_evaluate, hfaults, Option.or_none, findSome?_resolveInput hrules hvocabulary]

end Engine

/-! ## Engines from configurations -/

namespace Config

/-- The vocabulary knows the configured names, in their order. -/
theorem keys_of_vocabulary {c : Config α} {w : Vocabulary α} (h : c.vocabulary = .ok w) :
    w.members.map Variable.key = c.subjects.map fun spec => Text.lowerCase spec.name :=
  map_key_of_describes (vocabulary_eq_ok_iff.mp h).1

/-- Whether a name means some variable of the configuration. -/
def Knows (c : Config α) (name : String) : Prop :=
  ∃ spec ∈ c.subjects, Text.lowerCase spec.name = Text.lowerCase name

instance (c : Config α) (name : String) : Decidable (c.Knows name) :=
  inferInstanceAs (Decidable (∃ spec ∈ c.subjects, _))

theorem knows_iff {c : Config α} {w : Vocabulary α} (h : c.vocabulary = .ok w) (name : String) :
    c.Knows name ↔ (w.get? name).isSome = true := by
  change _ ↔ w.contains name = true
  rw [Vocabulary.contains_iff, keys_of_vocabulary h, List.mem_map, Knows]

/-- An assembled engine has the given rules, speaks of the given variables and works in the mode of
the configuration. -/
theorem assemble_eq_ok {c : Config α} {w : Vocabulary α} {base : RuleBase α} {e : Engine α}
    (h : c.assemble w base = .ok e) :
    e.base = base ∧ e.vocabulary = w ∧ e.mode = c.engine.mode := by
  unfold assemble at h
  cases hmode : c.engine.mode with
  | mamdani =>
      simp only [hmode] at h
      cases hd : defuzzifier? c.engine with
      | none =>
          rw [hd] at h
          cases h
      | some d =>
          rw [hd] at h
          cases h
          exact ⟨rfl, rfl, rfl⟩
  | sugeno =>
      simp only [hmode] at h
      cases h
      exact ⟨rfl, rfl, rfl⟩

end Config

/-! ## Engines after any edits -/

variable [Numeral α]

/-- Rules from text are sound, as weight and enabled flag do not matter. -/
theorem RuleBase.Written.sound {l : RuleLanguage α} {r : Rule α} (h : Written l r) : r.Sound l := by
  obtain ⟨line, r₀, hparse, hr⟩ := h
  have hsentence := RuleLanguage.parse_eq_ok_iff.mp hparse
  have hfresh := hsentence.fresh
  have hknown (a : Antecedent α) (ha : a ∈ r₀.antecedents) :
      l.vocabulary.get? a.subject.name = some a.subject ∧ a.isVoid = false := by
    obtain ⟨_, hcondition⟩ := hsentence.exists_condition a ha
    exact hcondition.known
  rw [hr]
  exact ⟨hfresh.mode, hfresh.connectives, fun a ha => (hknown a ha).1, fun a ha => (hknown a ha).2⟩

namespace Config

theorem addInline_written {l : RuleLanguage α} {b b' : RuleBase α} {lines : List String}
    (h : RuleBase.WrittenIn l b) (hlines : addInline b lines = .ok b') :
    RuleBase.WrittenIn l b' :=
  foldlM_preserves (fun _ _ _ hb hline => hb.addText hline) h hlines

theorem fileRules_written {l : RuleLanguage α} {b : RuleBase α} (h : RuleBase.WrittenIn l b)
    (files : Files) (c : Config α) : RuleBase.WrittenIn l (c.fileRules files b).base := by
  unfold fileRules
  split
  · exact h
  · exact h.load files _

/-- What a configuration is built into: rules from text about the configured variables. -/
theorem build_eq_ok {files : Files} {c : Config α} {e : Engine α}
    (h : (c.build files).result = .ok e) :
    c.vocabulary = .ok e.vocabulary ∧ e.mode = c.engine.mode ∧
      RuleBase.WrittenIn (c.language e.vocabulary) e.base := by
  unfold build at h
  cases hw : c.vocabulary with
  | error error =>
      rw [hw] at h
      cases h
  | ok w =>
      rw [hw] at h
      obtain ⟨_, -, h⟩ := bind_eq_ok.mp h
      obtain ⟨base, hbase, h⟩ := bind_eq_ok.mp h
      obtain ⟨rfl, rfl, hmode⟩ := assemble_eq_ok h
      have hempty := RuleBase.WrittenIn.empty (c.language e.vocabulary)
      have hloaded := fileRules_written hempty files c
      exact ⟨rfl, hmode, addInline_written hloaded (mapError_eq_ok.mp hbase)⟩

end Config

/-- An engine after edits of its rules. -/
def Engine.edited (e : Engine α) (steps : List (Files × Edit α)) : Engine α :=
  { e with base := e.base.run steps }

namespace Config

/-- Whatever edits take rules from text, an engine that was built from a configuration evaluates all
inputs whose names mean configured variables. Other inputs fail with the first unknown name, and
there is no other failure. -/
theorem evaluate_edited {files : Files} {c : Config α} {e : Engine α}
    (hbuild : (c.build files).result = .ok e) {steps : List (Files × Edit α)}
    (hsteps : ∀ step ∈ steps, step.2.isTextual = true) (inputs : List (String × α)) :
    ((∃ outputs, ((e.edited steps).evaluate inputs).result = .ok outputs) ↔
      ∀ input ∈ inputs, c.Knows input.1) ∧
    ∀ error, ((e.edited steps).evaluate inputs).result = .error error →
      ∃ known name x rest, inputs = known ++ (name, x) :: rest ∧
        (∀ input ∈ known, c.Knows input.1) ∧ ¬ c.Knows name ∧ error = .unknownInput name := by
  obtain ⟨hvocabulary, hmode, hwritten⟩ := build_eq_ok hbuild
  have hsound (r : Rule α) (hr : r ∈ (e.edited steps).base.rules) :
      r.Sound (c.language e.vocabulary) := ((hwritten.run hsteps).rules r hr).sound
  have hfailure := Engine.failure?_of_sound hsound rfl hmode inputs
  have hknows (name : String) : c.Knows name ↔ ((e.edited steps).vocabulary.get? name).isSome = true :=
    knows_iff hvocabulary name
  constructor
  · rw [← failure?_eq_none_iff, hfailure, Option.map_eq_none_iff, List.find?_eq_none]
    simp [hknows, Option.isSome_iff_ne_none]
  · intro error herror
    rw [← failure?_eq_some_iff, hfailure, Option.map_eq_some_iff] at herror
    obtain ⟨⟨name, x⟩, hfind, rfl⟩ := herror
    obtain ⟨hname, known, rest, rfl, hknown⟩ := List.find?_eq_some_iff_append.mp hfind
    refine ⟨known, name, x, rest, rfl, ?_, ?_, rfl⟩
    · intro input hinput
      rw [hknows]
      simpa using hknown input hinput
    · rw [hknows]
      simpa using hname

/-- A speed that may be fast, and a braking force that may be strong. -/
def brakingConfig : Config Float where
  subjects := [⟨"Speed", 0, 200, [⟨"Fast", "triangular", [100, 200, 200]⟩]⟩,
    ⟨"Brake", 0, 1, [⟨"Strong", "triangular", [0.5, 1, 1]⟩]⟩]
  rules := { inline := ["IF speed IS fast THEN Brake IS Strong"] }

/-- One rule more, one text that is no rule, and the first rule taken out of use. -/
def brakingSteps : List (Files × Edit Float) :=
  [.addText "IF Brake IS Strong THEN Speed IS Fast", .addText "IF Brake IS weak THEN Speed IS Fast",
    .disable 0, .setWeight 5 2].map (Files.bare [], ·)

theorem evaluate_edited_braking :
    ∃ e, (brakingConfig.build (.bare [])).result = .ok e ∧
      (∃ outputs, ((e.edited brakingSteps).evaluate [("SPEED", 150), ("brake", 0)]).result =
        .ok outputs) ∧
      ∀ outputs, ((e.edited brakingSteps).evaluate [("SPEED", 150), ("wheel", 0)]).result ≠
        .ok outputs := by
  have hok : (failure? (brakingConfig.build (.bare [])).result).isNone = true := by decide +kernel
  obtain ⟨e, hbuild⟩ := failure?_eq_none_iff.mp (Option.isNone_iff_eq_none.mp hok)
  refine ⟨e, hbuild, ?_, ?_⟩
  · exact (evaluate_edited hbuild (by decide) _).1.mpr (by decide +kernel)
  · intro outputs houtputs
    exact absurd ((evaluate_edited hbuild (by decide) _).1.mp ⟨outputs, houtputs⟩) (by decide +kernel)

end Config

end FuzzyInference

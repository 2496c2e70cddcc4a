import FuzzyInference.Proofs.Descriptions
import FuzzyInference.Proofs.Lookup
import FuzzyInference.Scalar.Binary64

/-! Labels under change. A variable refuses sets of which two have one label up to case, whether all
are replaced or one is added, and then stays as it was. So at any time a label in any case means one
set. -/

namespace FuzzyInference

variable {α : Type} [Scalar α]

/-! ## Repeated labels -/

namespace FuzzySet

/-- No label is another one up to the case of ASCII letters. -/
def Distinct (sets : List (FuzzySet α)) : Prop :=
  sets.Pairwise fun s t => s.isNamed t.label = false

instance (sets : List (FuzzySet α)) : Decidable (Distinct sets) :=
  inferInstanceAs (Decidable (sets.Pairwise _))

/-- The first label that an earlier set has, up to the case of ASCII letters. -/
inductive Repeats : List (FuzzySet α) → String → Prop where
  | intro {before s after} : Distinct before → (∃ t ∈ before, t.isNamed s.label = true) →
      Repeats (before ++ s :: after) s.label

variable {sets : List (FuzzySet α)} {s : FuzzySet α}

theorem distinct_iff : Distinct sets ↔ (sets.map key).Nodup := by
  rw [Distinct, List.Nodup, List.pairwise_map]
  simp only [← Bool.not_eq_true, isNamed_iff]
  rfl

theorem distinct_concat_iff :
    Distinct (sets ++ [s]) ↔ Distinct sets ∧ ∀ t ∈ sets, t.isNamed s.label = false := by
  simp [Distinct, List.pairwise_append]

/-- The scan stops at a set whose label is taken, behind sets whose labels are not. -/
theorem exists_of_repeated? {taken : List (List Char)} (h : repeated? taken sets = some s) :
    ∃ before after, sets = before ++ s :: after ∧ repeated? taken before = none ∧
      (s.key ∈ taken ∨ s.key ∈ before.map key) := by
  induction sets generalizing taken with
  | nil => cases h
  | cons t rest ih =>
      rw [repeated?] at h
      split at h
      · rename_i htaken
        cases h
        exact ⟨[], rest, rfl, rfl, .inl htaken⟩
      · rename_i hfree
        obtain ⟨before, after, rfl, hbefore, hkey⟩ := ih h
        refine ⟨t :: before, after, rfl, by rw [repeated?, if_neg hfree, hbefore], ?_⟩
        rcases hkey with hkey | hkey
        · rcases List.mem_cons.mp hkey with heq | hkey
          · exact .inr (List.mem_cons.mpr (.inl heq))
          · exact .inl hkey
        · exact .inr (List.mem_cons_of_mem _ hkey)

theorem repeats_of_repeated? (h : repeated? [] sets = some s) : Repeats sets s.label := by
  obtain ⟨before, after, rfl, hbefore, hkey⟩ := exists_of_repeated? h
  obtain ⟨t, ht, hkey⟩ := List.mem_map.mp (hkey.resolve_left List.not_mem_nil)
  exact .intro (distinct_iff.mpr (nodup_of_repeated? hbefore)) ⟨t, ht, isNamed_iff.mpr hkey⟩

end FuzzySet

/-! ## Edits of plain lists -/

/-- A change of the sets of a variable. -/
inductive SetEdit (α : Type) [Scalar α] where
  | add (set : FuzzySet α)
  | replace (sets : List (FuzzySet α))

namespace SetEdit

/-- The sets that an edit asks for. -/
def wanted (sets : List (FuzzySet α)) : SetEdit α → List (FuzzySet α)
  | add s => sets ++ [s]
  | replace sets' => sets'

/-- The sets after an edit, which stay if it would repeat a label. -/
def settle (sets : List (FuzzySet α)) (edit : SetEdit α) : List (FuzzySet α) :=
  if FuzzySet.Distinct (edit.wanted sets) then edit.wanted sets else sets

theorem distinct_foldl_settle {sets : List (FuzzySet α)} (h : FuzzySet.Distinct sets)
    (edits : List (SetEdit α)) : FuzzySet.Distinct (edits.foldl settle sets) := by
  induction edits generalizing sets with
  | nil => exact h
  | cons edit edits ih =>
      refine ih ?_
      unfold settle
      split
      · assumption
      · exact h

end SetEdit

/-! ## Edits of a variable -/

namespace Variable

def edit (v : Variable α) : SetEdit α → Except (VariableError α) (Variable α)
  | .add s => v.addSet s
  | .replace sets => v.withSets sets

/-- One edit: its error, if it fails, and the variable after it. -/
def step (v : Variable α) (edit : SetEdit α) : Option (VariableError α) × Variable α :=
  match v.edit edit with
  | .ok w => (none, w)
  | .error e => (some e, v)

/-- The variable after edits, one after the other. -/
def run (v : Variable α) (edits : List (SetEdit α)) : Variable α :=
  edits.foldl (fun v edit => (v.step edit).2) v

/-- What an edit of a variable comes to. It leads to the sets that it asks for, and nothing else
changes; if these repeat a label, it is refused for the first one that is repeated, and nothing
changes at all. -/
inductive Acts (v : Variable α) (edit : SetEdit α) :
    Option (VariableError α) → Variable α → Prop where
  | does {w} : FuzzySet.Distinct (edit.wanted v.sets) → w.name = v.name → w.start = v.start →
      w.stop = v.stop → w.sets = edit.wanted v.sets → Acts v edit none w
  | refused {label} : ¬ FuzzySet.Distinct (edit.wanted v.sets) →
      FuzzySet.Repeats (edit.wanted v.sets) label → Acts v edit (some (.duplicateSet v.name label)) v

variable {v w : Variable α} {s : FuzzySet α} {sets : List (FuzzySet α)}

theorem withSets_of_distinct (h : FuzzySet.Distinct sets) :
    v.withSets sets = .ok { v with sets, distinct := FuzzySet.distinct_iff.mp h } :=
  withSets_eq_ok_iff.mpr ⟨rfl, rfl, rfl, rfl⟩

theorem withSets_of_not_distinct (h : ¬ FuzzySet.Distinct sets) :
    ∃ label, FuzzySet.Repeats sets label ∧
      v.withSets sets = .error (.duplicateSet v.name label) := by
  unfold withSets
  split
  · rename_i s hrepeated
    exact ⟨s.label, FuzzySet.repeats_of_repeated? hrepeated, rfl⟩
  · rename_i hnone
    exact absurd (FuzzySet.distinct_iff.mpr (FuzzySet.nodup_of_repeated? hnone)) h

theorem set?_eq_none_iff : v.set? s.label = none ↔ FuzzySet.Distinct (v.sets ++ [s]) := by
  rw [FuzzySet.distinct_concat_iff, and_iff_right (FuzzySet.distinct_iff.mpr v.distinct), set?,
    List.find?_eq_none]
  simp

theorem addSet_of_distinct (h : FuzzySet.Distinct (v.sets ++ [s])) :
    v.addSet s = .ok { v with sets := v.sets ++ [s], distinct := FuzzySet.distinct_iff.mp h } := by
  unfold addSet
  split
  · rename_i hfound
    rw [set?_eq_none_iff.mpr h] at hfound
    cases hfound
  · rfl

/-- What is added comes last, so no label before it is repeated. -/
theorem addSet_of_not_distinct (h : ¬ FuzzySet.Distinct (v.sets ++ [s])) :
    FuzzySet.Repeats (v.sets ++ [s]) s.label ∧
      v.addSet s = .error (.duplicateSet v.name s.label) := by
  have hdistinct := FuzzySet.distinct_iff.mpr v.distinct
  constructor
  · rw [FuzzySet.distinct_concat_iff, and_iff_right hdistinct] at h
    exact .intro hdistinct (by simpa using h)
  · unfold addSet
    split
    · rfl
    · rename_i hnone
      exact absurd (set?_eq_none_iff.mp hnone) h

theorem acts_step (v : Variable α) (edit : SetEdit α) :
    v.Acts edit (v.step edit).1 (v.step edit).2 := by
  by_cases h : FuzzySet.Distinct (edit.wanted v.sets)
  · have hedit : v.edit edit =
        .ok { v with sets := edit.wanted v.sets, distinct := FuzzySet.distinct_iff.mp h } := by
      cases edit with
      | add s => exact addSet_of_distinct h
      | replace sets => exact withSets_of_distinct h
    rw [step, hedit]
    exact .does h rfl rfl rfl rfl
  · have hedit : ∃ label, FuzzySet.Repeats (edit.wanted v.sets) label ∧
        v.edit edit = .error (.duplicateSet v.name label) := by
      cases edit with
      | add s => exact ⟨s.label, addSet_of_not_distinct h⟩
      | replace sets => exact withSets_of_not_distinct h
    obtain ⟨label, hrepeats, hedit⟩ := hedit
    rw [step, hedit]
    exact .refused h hrepeats

/-- Whatever an edit comes to, name and domain stay, and the sets are those of the plain list. -/
theorem Acts.fields {edit : SetEdit α} {error : Option (VariableError α)}
    (h : v.Acts edit error w) :
    w.name = v.name ∧ w.start = v.start ∧ w.stop = v.stop ∧ w.sets = edit.settle v.sets := by
  unfold SetEdit.settle
  cases h with
  | does hdistinct hname hstart hstop hsets =>
      rw [if_pos hdistinct]
      exact ⟨hname, hstart, hstop, hsets⟩
  | refused hdistinct _ =>
      rw [if_neg hdistinct]
      exact ⟨rfl, rfl, rfl, rfl⟩

theorem run_fields (v : Variable α) (edits : List (SetEdit α)) :
    (v.run edits).name = v.name ∧ (v.run edits).start = v.start ∧ (v.run edits).stop = v.stop ∧
      (v.run edits).sets = edits.foldl SetEdit.settle v.sets := by
  induction edits generalizing v with
  | nil => exact ⟨rfl, rfl, rfl, rfl⟩
  | cons edit edits ih =>
      have hrun : v.run (edit :: edits) = (v.step edit).2.run edits := rfl
      have hstep := (v.acts_step edit).fields
      generalize (v.step edit).2 = next at hrun hstep
      obtain ⟨hname, hstart, hstop, hsets⟩ := hstep
      rw [hrun, List.foldl_cons, ← hname, ← hstart, ← hstop, ← hsets]
      exact ih next

/-- A label in any case means the one set that has it. -/
theorem set?_of_mem (hs : s ∈ v.sets) {label : String}
    (hlabel : Text.caseKey label = Text.caseKey s.label) : v.set? label = some s := by
  rw [set?_congr hlabel]
  cases hfound : v.set? s.label with
  | none =>
      rw [set?, List.find?_eq_none] at hfound
      exact absurd (FuzzySet.isNamed_iff.mpr rfl) (hfound s hs)
  | some t =>
      have ht : t ∈ v.sets := List.mem_of_find?_eq_some hfound
      rw [List.inj_on_of_nodup_map v.distinct ht hs (caseKey_of_set? hfound)]

/-! ## From the making of a variable on -/

/-- Finite bounds in order. -/
structure IsDomain (start stop : α) : Prop where
  finite_start : Scalar.isFinite start = true
  finite_stop : Scalar.isFinite stop = true
  start_le_stop : start ≤ stop

theorem make_of_domain {start stop : α} (h : IsDomain start stop) (name : String)
    (sets : List (FuzzySet α)) : ∃ u : Variable α, u.name = name ∧
      make name start stop sets = u.withSets sets := by
  refine ⟨⟨name, start, stop, [], h.finite_start, h.finite_stop, h.start_le_stop, .nil⟩, rfl, ?_⟩
  rw [make, bare, dif_pos ⟨h.finite_start, h.finite_stop, h.start_le_stop⟩]
  rfl

/-- Labels to be relied on: they are distinct, any edit comes to what it should, and each label in any
case means the set that has it. -/
structure Labelled (v : Variable α) : Prop where
  distinct : FuzzySet.Distinct v.sets
  acts : ∀ edit, v.Acts edit (v.step edit).1 (v.step edit).2
  finds : ∀ s ∈ v.sets, ∀ label, Text.caseKey label = Text.caseKey s.label → v.set? label = some s

/-- A variable is refused for its domain first, then for the first label that is repeated, and made
otherwise. From then on it keeps its name and its domain, its sets are those of the plain list under
the same edits, and its labels are to be relied on. -/
theorem make_run_labelled (name : String) (start stop : α) (sets : List (FuzzySet α)) :
    (¬ IsDomain start stop → make name start stop sets = .error (.invalidDomain name start stop)) ∧
      (IsDomain start stop → ¬ FuzzySet.Distinct sets → ∃ label, FuzzySet.Repeats sets label ∧
        make name start stop sets = .error (.duplicateSet name label)) ∧
      (IsDomain start stop → FuzzySet.Distinct sets → ∃ v, make name start stop sets = .ok v) ∧
      ∀ v, make name start stop sets = .ok v → ∀ edits,
        (v.run edits).name = name ∧ (v.run edits).start = start ∧ (v.run edits).stop = stop ∧
          (v.run edits).sets = edits.foldl SetEdit.settle sets ∧ (v.run edits).Labelled := by
  refine ⟨fun hdomain => ?_, fun hdomain hsets => ?_, fun hdomain hsets => ?_, fun v hmake edits => ?_⟩
  · rw [make, bare, dif_neg fun h => hdomain ⟨h.1, h.2.1, h.2.2⟩]
    rfl
  · obtain ⟨u, rfl, hmake⟩ := make_of_domain hdomain name sets
    rw [hmake]
    exact withSets_of_not_distinct hsets
  · obtain ⟨u, -, hmake⟩ := make_of_domain hdomain name sets
    exact ⟨_, hmake.trans (withSets_of_distinct hsets)⟩
  · obtain ⟨rfl, rfl, rfl, rfl⟩ := make_eq_ok_iff.mp hmake
    obtain ⟨hname, hstart, hstop, hsets⟩ := v.run_fields edits
    have hdistinct : FuzzySet.Distinct (v.run edits).sets := by
      rw [hsets]
      exact SetEdit.distinct_foldl_settle (FuzzySet.distinct_iff.mpr v.distinct) edits
    exact ⟨hname, hstart, hstop, hsets, hdistinct, (v.run edits).acts_step,
      fun s hs label => set?_of_mem hs⟩

end Variable

/-! ## The gears of a car -/

namespace Gearbox

def gear (label : String) : FuzzySet Float :=
  ⟨label, .triangle 1 3 5, by decide +kernel, by decide +kernel, by decide +kernel⟩

/-- The second and the third edit ask for a label twice. -/
def edits : List (SetEdit Float) :=
  [.replace [gear "Low", gear "High"], .add (gear "LOW"), .replace [gear "Slow", gear "sloW"],
    .add (gear "Top")]

/-- No gears from five down to one, and none of which two labels differ in case only. Refused edits
leave the gears as they are, and the next one with a label of theirs is refused as well. -/
theorem make_run_labelled_gearbox :
    Variable.make "Gear" 5 1 [gear "Any"] = .error (.invalidDomain "Gear" 5 1) ∧
      (∃ label, FuzzySet.Repeats [gear "Low", gear "Top", gear "LOW"] label ∧
        Variable.make "Gear" 1 5 [gear "Low", gear "Top", gear "LOW"] =
          .error (.duplicateSet "Gear" label)) ∧
      ∃ v, Variable.make "Gear" 1 5 [gear "Any"] = .ok v ∧
        (v.run edits).sets = [gear "Low", gear "High", gear "Top"] ∧
        (v.run edits).set? "lOw" = some (gear "Low") ∧
        ((v.run edits).step (.add (gear "HIGH"))).1.isSome = true := by
  have hdomain : Variable.IsDomain (1 : Float) 5 :=
    ⟨by decide +kernel, by decide +kernel, by decide +kernel⟩
  have hreverse : ¬ Variable.IsDomain (5 : Float) 1 := fun h =>
    (by decide +kernel : ¬ (5 : Float) ≤ 1) h.start_le_stop
  obtain ⟨hrefused, -, -, -⟩ := Variable.make_run_labelled "Gear" (5 : Float) 1 [gear "Any"]
  obtain ⟨-, hrepeated, -, -⟩ :=
    Variable.make_run_labelled "Gear" 1 5 [gear "Low", gear "Top", gear "LOW"]
  obtain ⟨-, -, hmade, hrun⟩ := Variable.make_run_labelled "Gear" 1 5 [gear "Any"]
  obtain ⟨v, hv⟩ := hmade hdomain (by decide +kernel)
  obtain ⟨-, -, -, hsets, hlabelled⟩ := hrun v hv edits
  have hsettled : edits.foldl SetEdit.settle [gear "Any"] = [gear "Low", gear "High", gear "Top"] :=
    rfl
  rw [hsettled] at hsets
  refine ⟨hrefused hreverse, hrepeated hdomain (by decide +kernel), v, hv, hsets, ?_, ?_⟩
  · exact hlabelled.finds (gear "Low") (by rw [hsets]; exact List.mem_cons_self) "lOw" rfl
  · have hacts := hlabelled.acts (.add (gear "HIGH"))
    generalize (v.run edits).step (.add (gear "HIGH")) = outcome at hacts
    obtain ⟨error, w⟩ := outcome
    cases hacts with
    | does hdistinct =>
        rw [hsets] at hdistinct
        exact absurd hdistinct (by decide +kernel)
    | refused _ _ => rfl

end Gearbox

end FuzzyInference

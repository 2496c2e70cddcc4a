import FuzzyInference.Config.Build
import FuzzyInference.Proofs.Fallible
import FuzzyInference.Proofs.Keyed
import FuzzyInference.Proofs.Lookup

/-! Configured variables. A part of a configuration describes one set or one variable at most, and
it is built into what it describes; conditions on its numbers and names say when there is such. -/

namespace FuzzyInference

variable {α : Type} [Scalar α]

/-! ## Shapes -/

theorem Kind.ofName?_eq_some_iff {s : String} {k : Kind} :
    ofName? s = some k ↔ Text.lowerCase s = k.name := by
  unfold ofName?
  cases k <;> split <;> simp_all [name]

namespace Corners

omit [Scalar α] in
theorem ofList?_eq_some_iff {k : Kind} {xs : List α} {cs : Corners α} :
    ofList? k xs = some cs ↔ cs.kind = k ∧ cs.toList = xs := by
  constructor
  · intro h
    unfold ofList? at h
    split at h
    · cases h
      exact ⟨rfl, rfl⟩
    · cases h
      exact ⟨rfl, rfl⟩
    · cases h
  · rintro ⟨rfl, rfl⟩
    cases cs <;> rfl

omit [Scalar α] in
/-- Any list of the right length is one of corners. -/
theorem exists_toList_iff {k : Kind} {xs : List α} :
    (∃ cs : Corners α, cs.kind = k ∧ cs.toList = xs) ↔ xs.length = k.cornerCount := by
  constructor
  · rintro ⟨cs, rfl, rfl⟩
    cases cs <;> rfl
  · intro h
    cases k with
    | triangular =>
        obtain ⟨a, b, c, rfl⟩ := List.length_eq_three.mp h
        exact ⟨.triangle a b c, rfl, rfl⟩
    | trapezoidal =>
        match xs, h with
        | [a, b, c, d], _ => exact ⟨.trapezoid a b c d, rfl, rfl⟩

variable {cs : Corners α}

theorem finite_iff : cs.finite = true ↔ ∀ x ∈ cs.toList, Scalar.isFinite x = true :=
  List.all_eq_true

theorem ordered_iff : cs.Ordered ↔ cs.toList.IsChain (· ≤ ·) := by
  cases cs <;> simp [Ordered, toList]

theorem degenerate_iff_isChain :
    cs.degenerate = true ↔ cs.toList.IsChain fun x y => (x == y) = true := by
  cases cs <;> simp [degenerate, toList, and_assoc]

end Corners

namespace Shape

theorem ofCorners_eq_ok_iff {cs : Corners α} {s : Shape α} :
    ofCorners cs = .ok s ↔ s.corners = cs := by
  constructor
  · intro h
    unfold ofCorners at h
    split at h
    · split at h
      · split at h
        · cases h
          rfl
        · cases h
      · cases h
    · cases h
  · rintro rfl
    rw [ofCorners, dif_pos s.finite, dif_pos s.ordered, dif_pos s.spread]

theorem ofName_eq_ok_iff {kind : String} {xs : List α} {s : Shape α} : ofName kind xs = .ok s ↔
    Text.lowerCase kind = s.corners.kind.name ∧ s.corners.toList = xs := by
  constructor
  · intro h
    unfold ofName at h
    split at h
    · cases h
    · rename_i k hkind
      split at h
      · cases h
      · rename_i cs hcorners
        obtain rfl := ofCorners_eq_ok_iff.mp h
        obtain ⟨rfl, hlist⟩ := Corners.ofList?_eq_some_iff.mp hcorners
        exact ⟨Kind.ofName?_eq_some_iff.mp hkind, hlist⟩
  · rintro ⟨hkind, hlist⟩
    have hcorners := Corners.ofList?_eq_some_iff.mpr ⟨rfl, hlist⟩
    simp only [ofName, Kind.ofName?_eq_some_iff.mpr hkind, hcorners]
    exact ofCorners_eq_ok_iff.mpr rfl

end Shape

/-! ## Sets -/

namespace SetSpec

/-- The set has the label, the kind of shape and the corners that are given. -/
structure Describes (s : SetSpec α) (t : FuzzySet α) : Prop where
  label : t.label = s.label
  kind : Text.lowerCase s.shape = t.shape.corners.kind.name
  corners : t.shape.corners.toList = s.params

/-- A known kind of shape with as many corners as it takes, which are finite, in order and not all
equal. -/
structure Valid (s : SetSpec α) : Prop where
  kind : ∃ k : Kind, Text.lowerCase s.shape = k.name ∧ s.params.length = k.cornerCount
  finite : ∀ x ∈ s.params, Scalar.isFinite x = true
  ordered : s.params.IsChain (· ≤ ·)
  spread : ¬ s.params.IsChain fun x y => (x == y) = true

variable {s : SetSpec α} {t : FuzzySet α}

theorem build_eq_ok_iff : s.build = .ok t ↔ s.Describes t := by
  obtain ⟨label, shape⟩ := t
  rw [build, map_eq_ok]
  constructor
  · rintro ⟨_, hshape, h⟩
    cases h
    obtain ⟨hkind, hcorners⟩ := Shape.ofName_eq_ok_iff.mp hshape
    exact ⟨rfl, hkind, hcorners⟩
  · rintro ⟨hlabel, hkind, hcorners⟩
    exact ⟨shape, Shape.ofName_eq_ok_iff.mpr ⟨hkind, hcorners⟩, by rw [← hlabel]⟩

theorem exists_describes_iff : (∃ t, s.Describes t) ↔ s.Valid := by
  constructor
  · rintro ⟨t, -, hkind, hcorners⟩
    refine ⟨⟨_, hkind, Corners.exists_toList_iff.mp ⟨_, rfl, hcorners⟩⟩, ?_, ?_, ?_⟩
    · rw [← hcorners]
      exact Corners.finite_iff.mp t.shape.finite
    · rw [← hcorners]
      exact Corners.ordered_iff.mp t.shape.ordered
    · rw [← hcorners, ← Corners.degenerate_iff_isChain, t.shape.spread]
      exact Bool.false_ne_true
  · rintro ⟨⟨k, hkind, hcount⟩, hfinite, hordered, hspread⟩
    obtain ⟨cs, rfl, hcorners⟩ := Corners.exists_toList_iff.mpr hcount
    rw [← hcorners] at hfinite hordered hspread
    have hdegenerate : cs.degenerate = false := by
      rwa [← Corners.degenerate_iff_isChain, Bool.not_eq_true] at hspread
    exact ⟨⟨s.label, cs, Corners.finite_iff.mpr hfinite, Corners.ordered_iff.mpr hordered,
      hdegenerate⟩, rfl, hkind, hcorners⟩

end SetSpec

/-! ## Variables -/

namespace Variable

variable {v : Variable α} {name : String} {start stop : α} {sets : List (FuzzySet α)}

theorem bare_eq_ok_iff : bare name start stop = .ok v ↔
    v.name = name ∧ v.start = start ∧ v.stop = stop ∧ v.sets = [] := by
  constructor
  · intro h
    unfold bare at h
    split at h
    · cases h
      exact ⟨rfl, rfl, rfl, rfl⟩
    · cases h
  · obtain ⟨name', start', stop', sets', hstart, hstop, hle, hdistinct⟩ := v
    rintro ⟨rfl, rfl, rfl, rfl⟩
    rw [bare, dif_pos ⟨hstart, hstop, hle⟩]

theorem withSets_eq_ok_iff {u : Variable α} : u.withSets sets = .ok v ↔
    v.name = u.name ∧ v.start = u.start ∧ v.stop = u.stop ∧ v.sets = sets := by
  constructor
  · intro h
    unfold withSets at h
    split at h
    · cases h
    · cases h
      exact ⟨rfl, rfl, rfl, rfl⟩
  · obtain ⟨name', start', stop', sets', hstart, hstop, hle, hdistinct⟩ := v
    rintro ⟨rfl, rfl, rfl, rfl⟩
    have hfresh : FuzzySet.repeated? [] sets' = none :=
      (FuzzySet.repeated?_eq_none_iff [] sets').mpr ⟨hdistinct, by simp⟩
    unfold withSets
    split
    · rename_i hrepeated
      rw [hfresh] at hrepeated
      cases hrepeated
    · rfl

/-- A variable is made if there is one such, as it carries the proof of what is checked. -/
theorem make_eq_ok_iff : make name start stop sets = .ok v ↔
    v.name = name ∧ v.start = start ∧ v.stop = stop ∧ v.sets = sets := by
  rw [make, bind_eq_ok]
  constructor
  · rintro ⟨u, hbare, h⟩
    obtain ⟨rfl, rfl, rfl, -⟩ := bare_eq_ok_iff.mp hbare
    exact withSets_eq_ok_iff.mp h
  · rintro ⟨rfl, rfl, rfl, rfl⟩
    exact ⟨⟨v.name, v.start, v.stop, [], v.finite_start, v.finite_stop, v.start_le_stop, .nil⟩,
      bare_eq_ok_iff.mpr ⟨rfl, rfl, rfl, rfl⟩, withSets_eq_ok_iff.mpr ⟨rfl, rfl, rfl, rfl⟩⟩

end Variable

namespace VariableSpec

/-- The variable has the name, the domain and the sets that are given. -/
structure Describes (v : VariableSpec α) (u : Variable α) : Prop where
  name : u.name = v.name
  start : u.start = v.start
  stop : u.stop = v.stop
  sets : List.Forall₂ SetSpec.Describes v.sets u.sets

/-- A finite domain, and sets whose labels differ by more than the case of ASCII letters. -/
structure Valid (v : VariableSpec α) : Prop where
  finite_start : Scalar.isFinite v.start = true
  finite_stop : Scalar.isFinite v.stop = true
  start_le_stop : v.start ≤ v.stop
  sets : ∀ s ∈ v.sets, s.Valid
  distinct : (v.sets.map fun s => Text.caseKey s.label).Nodup

variable {v : VariableSpec α} {u : Variable α}

theorem build_eq_ok_iff : v.build = .ok u ↔ v.Describes u := by
  simp only [build, bind_eq_ok, mapM_eq_ok_iff, mapError_eq_ok, SetSpec.build_eq_ok_iff,
    Variable.make_eq_ok_iff]
  constructor
  · rintro ⟨_, hsets, hname, hstart, hstop, rfl⟩
    exact ⟨hname, hstart, hstop, hsets⟩
  · rintro ⟨hname, hstart, hstop, hsets⟩
    exact ⟨_, hsets, hname, hstart, hstop, rfl⟩

theorem map_key_of_describes {specs : List (SetSpec α)} {sets : List (FuzzySet α)}
    (h : List.Forall₂ SetSpec.Describes specs sets) :
    sets.map FuzzySet.key = specs.map fun s => Text.caseKey s.label := by
  induction h with
  | nil => rfl
  | cons hset _ ih => rw [List.map_cons, List.map_cons, ih, FuzzySet.key, hset.label]

theorem exists_describes_iff : (∃ u, v.Describes u) ↔ v.Valid := by
  constructor
  · rintro ⟨u, -, hstart, hstop, hsets⟩
    refine ⟨hstart ▸ u.finite_start, hstop ▸ u.finite_stop, ?_, ?_, ?_⟩
    · rw [← hstart, ← hstop]
      exact u.start_le_stop
    · intro s hs
      exact SetSpec.exists_describes_iff.mp (exists_forall₂_iff.mp ⟨_, hsets⟩ s hs)
    · rw [← map_key_of_describes hsets]
      exact u.distinct
  · rintro ⟨hstart, hstop, hle, hsets, hdistinct⟩
    obtain ⟨sets, hdescribes⟩ := exists_forall₂_iff.mpr fun s hs =>
      SetSpec.exists_describes_iff.mpr (hsets s hs)
    rw [← map_key_of_describes hdescribes] at hdistinct
    exact ⟨⟨v.name, v.start, v.stop, sets, hstart, hstop, hle, hdistinct⟩, rfl, rfl, rfl,
      hdescribes⟩

end VariableSpec

/-! ## Vocabularies -/

namespace Config

/-- The names of what is described are those of the descriptions. -/
theorem map_key_of_describes {specs : List (VariableSpec α)} {vs : List (Variable α)}
    (h : List.Forall₂ VariableSpec.Describes specs vs) :
    vs.map Variable.key = specs.map fun spec => Text.lowerCase spec.name := by
  induction h with
  | nil => rfl
  | cons hv _ ih => rw [List.map_cons, List.map_cons, ih, Variable.key, hv.name]

theorem extend_eq_ok_iff {w w' : Vocabulary α} {spec : VariableSpec α} : extend w spec = .ok w' ↔
    ∃ v, spec.Describes v ∧ v.key ∉ w.members.map Variable.key ∧ w'.members = w.members ++ [v] := by
  simp only [extend, bind_eq_ok, VariableSpec.build_eq_ok_iff]
  refine exists_congr fun v => and_congr_right fun _ => ?_
  have hcontains : w.contains v.name = true ↔ v.key ∈ w.members.map Variable.key :=
    Vocabulary.contains_iff
  by_cases hknown : v.key ∈ w.members.map Variable.key
  · simp [hcontains.mpr hknown, hknown]
  · rw [if_neg (mt hcontains.mp hknown), Vocabulary.register, Keyed.insert,
      Keyed.upsert_of_not_mem _ hknown, Except.ok.injEq]
    constructor
    · rintro rfl
      exact ⟨hknown, rfl⟩
    · rintro ⟨-, hmembers⟩
      rw [← hmembers]

theorem foldlM_extend_eq_ok_iff {w w' : Vocabulary α} {specs : List (VariableSpec α)}
    (hw : (w.members.map Variable.key).Nodup) : specs.foldlM extend w = .ok w' ↔
      ∃ vs, List.Forall₂ VariableSpec.Describes specs vs ∧ w'.members = w.members ++ vs ∧
        (w'.members.map Variable.key).Nodup := by
  -- Each name is checked against those met so far, so keys stay distinct from step to step.
  induction specs generalizing w with
  | nil =>
      rw [List.foldlM_nil]
      change Except.ok w = .ok w' ↔ _
      constructor
      · rintro ⟨⟩
        exact ⟨[], .nil, by simp, hw⟩
      · rintro ⟨_, ⟨⟩, hmembers, -⟩
        rw [List.append_nil] at hmembers
        exact congrArg (Except.ok ∘ Vocabulary.mk) hmembers.symm
  | cons spec specs ih =>
      have hfresh {v : Variable α} : ((w.members ++ [v]).map Variable.key).Nodup ↔
          v.key ∉ w.members.map Variable.key := by
        rw [List.map_append, List.map_singleton, ← List.concat_eq_append, List.nodup_concat,
          and_iff_left hw]
      rw [List.foldlM_cons, bind_eq_ok]
      constructor
      · rintro ⟨w₁, hextend, h⟩
        obtain ⟨v, hv, hnew, hmembers⟩ := extend_eq_ok_iff.mp hextend
        obtain ⟨vs, hvs, hmembers', hnodup⟩ := (ih (hmembers ▸ hfresh.mpr hnew)).mp h
        exact ⟨v :: vs, .cons hv hvs, by rw [hmembers', hmembers, ← List.append_cons], hnodup⟩
      · rintro ⟨_, hdescribes, hmembers, hnodup⟩
        obtain ⟨v, vs, hv, hvs, rfl⟩ := List.forall₂_cons_left_iff.mp hdescribes
        rw [List.append_cons] at hmembers
        have hfront : ((w.members ++ [v]).map Variable.key).Nodup := by
          rw [hmembers, List.map_append] at hnodup
          exact hnodup.of_append_left
        exact ⟨⟨w.members ++ [v]⟩, extend_eq_ok_iff.mpr ⟨v, hv, hfresh.mp hfront, rfl⟩,
          (ih hfront).mpr ⟨vs, hvs, hmembers, hnodup⟩⟩

/-- A vocabulary has the described variables in the order of their descriptions. -/
theorem vocabulary_eq_ok_iff {c : Config α} {w : Vocabulary α} : c.vocabulary = .ok w ↔
    List.Forall₂ VariableSpec.Describes c.subjects w.members ∧
      (c.subjects.map fun spec => Text.lowerCase spec.name).Nodup := by
  rw [vocabulary, foldlM_extend_eq_ok_iff (w := {}) .nil]
  constructor
  · rintro ⟨vs, hvs, hmembers, hnodup⟩
    rw [List.nil_append] at hmembers
    rw [← hmembers] at hvs
    exact ⟨hvs, map_key_of_describes hvs ▸ hnodup⟩
  · rintro ⟨hvs, hnodup⟩
    rw [← map_key_of_describes hvs] at hnodup
    exact ⟨w.members, hvs, rfl, hnodup⟩

end Config

end FuzzyInference

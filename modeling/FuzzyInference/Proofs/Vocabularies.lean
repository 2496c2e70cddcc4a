import FuzzyInference.Proofs.Keyed
import FuzzyInference.Proofs.Lookup
import FuzzyInference.Rule.Language
import FuzzyInference.Scalar.Rational

/-! Vocabularies as maps from lower-cased names to variables. A name keeps the place at which it was
registered first, and means the variable that was registered under it last. -/

namespace FuzzyInference

variable {α : Type} [Scalar α]

namespace Vocabulary

variable {w : Vocabulary α} {name : String} {v : Variable α}

/-! ## Looking up -/

theorem resolve_eq_error_iff {d : Defect} :
    w.resolve name = .error d ↔ w.get? name = none ∧ d = .unknownVariable name := by
  unfold resolve
  cases w.get? name <;> simp [eq_comm]

/-- Whether the names of the variables differ by more than case. -/
def Unambiguous (w : Vocabulary α) : Prop := (w.members.map Variable.key).Nodup

theorem Unambiguous.get?_eq_some_iff (h : w.Unambiguous) :
    w.get? name = some v ↔ v ∈ w.members ∧ v.key = Text.lowerCase name :=
  Keyed.get?_eq_some_iff h

theorem get?_eq_none_iff : w.get? name = none ↔ ∀ v ∈ w.members, v.key ≠ Text.lowerCase name := by
  simp [get?, Keyed.get?]

/-! ## Registering -/

theorem members_ofList (vs : List (Variable α)) :
    (ofList vs).members = Keyed.collect Variable.key vs :=
  (List.foldl_hom members fun _ _ => rfl).symm

theorem unambiguous_ofList (vs : List (Variable α)) : (ofList vs).Unambiguous := by
  rw [Unambiguous, members_ofList]
  exact Keyed.nodup_keys_collect vs

/-- Variables whose names differ are registered as they are. -/
theorem Unambiguous.ofList_members (h : w.Unambiguous) : ofList w.members = w := by
  have hmembers := members_ofList w.members
  rw [Keyed.collect_eq_self h] at hmembers
  exact congrArg Vocabulary.mk hmembers

/-- Variables registered in turn: each name that occurs, in any case, stands for one variable, at the
place where the name occurred first, and that is the last variable registered under it. Look-ups find
this variable in whatever case the name is given, so also under the name it prints, and fail for no
other reason than that no such name was registered. Registering the variables once more changes
nothing. -/
theorem ofList_first_place_last_variable (vs : List (Variable α)) :
    (ofList vs).members.map Variable.key = (vs.map Variable.key).eraseDups ∧
    (ofList vs).members =
      ((vs.map Variable.key).eraseDups.filterMap fun k => vs.reverse.find? fun v => v.key = k) ∧
    (∀ name v, (ofList vs).get? name = some v ↔
      v ∈ (ofList vs).members ∧ v.key = Text.lowerCase name) ∧
    (∀ name, (ofList vs).contains name = true ↔
      ∃ v ∈ (ofList vs).members, v.key = Text.lowerCase name) ∧
    (∀ name v, (ofList vs).resolve name = .ok v ↔
      v ∈ (ofList vs).members ∧ v.key = Text.lowerCase name) ∧
    (∀ name d, (ofList vs).resolve name = .error d ↔
      (∀ v ∈ (ofList vs).members, v.key ≠ Text.lowerCase name) ∧ d = .unknownVariable name) ∧
    (∀ v ∈ (ofList vs).members, (ofList vs).get? v.name = some v) ∧
    ofList (ofList vs).members = ofList vs := by
  have hnames := unambiguous_ofList vs
  have hkeys : (ofList vs).members.map Variable.key = (vs.map Variable.key).eraseDups := by
    rw [members_ofList, Keyed.map_key_collect]
  refine ⟨hkeys, ?_, fun name v => hnames.get?_eq_some_iff, fun name => ?_, fun name v => ?_,
    fun name d => ?_, fun v hv => ?_, hnames.ofList_members⟩
  · have hlast (k : String) : Keyed.get? Variable.key k (ofList vs).members =
        vs.reverse.find? fun v => v.key = k := by
      rw [members_ofList]
      exact Keyed.get?_collect vs k
    rw [← hkeys]
    simpa only [hlast] using (Keyed.filterMap_get?_keys hnames).symm
  · rw [contains_iff, List.mem_map]
  · rw [resolve_eq_ok_iff, hnames.get?_eq_some_iff]
  · rw [resolve_eq_error_iff, get?_eq_none_iff]
  · exact hnames.get?_eq_some_iff.mpr ⟨hv, rfl⟩

end Vocabulary

/-! ## A variable registered anew -/

namespace Crossing

def ferry : Variable Rat :=
  ⟨"Überfahrt", 41, 83, [], rfl, rfl, by decide +kernel, by decide +kernel⟩

def tide : Variable Rat := ⟨"Tide", -43, 43, [], rfl, rfl, by decide +kernel, by decide +kernel⟩

/-- The ferry again, under its name in capitals and with a longer crossing. -/
def slowFerry : Variable Rat :=
  ⟨"ÜBERFAHRT", 41, 97, [], rfl, rfl, by decide +kernel, by decide +kernel⟩

/-- The ferry keeps its place before the tide, under the spelling that came last. -/
theorem ofList_last_ferry :
    let w := Vocabulary.ofList [ferry, tide, slowFerry]
    w.names = ["ÜBERFAHRT", "Tide"] ∧ slowFerry ∈ w.members ∧
      w.get? "überfahrt" = some slowFerry ∧ w.get? slowFerry.name = some slowFerry ∧
      w.resolve "Wind" = .error (.unknownVariable "Wind") := by
  obtain ⟨-, hmembers, hget, -, -, hunknown, hown, -⟩ :=
    Vocabulary.ofList_first_place_last_variable [ferry, tide, slowFerry]
  have hslow : slowFerry ∈ (Vocabulary.ofList [ferry, tide, slowFerry]).members := by
    rw [hmembers]
    exact List.mem_filterMap.mpr ⟨slowFerry.key, by decide +kernel, rfl⟩
  refine ⟨by decide +kernel, hslow, (hget _ _).mpr ⟨hslow, by decide +kernel⟩, hown _ hslow,
    (hunknown _ _).mpr ⟨by decide +kernel, rfl⟩⟩

end Crossing

end FuzzyInference

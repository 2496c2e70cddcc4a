import FuzzyInference.Proofs.LowerCase
import FuzzyInference.Proofs.Words
import FuzzyInference.Vocabulary

/-! Names and labels that look-ups find. What is found is found again under its own spelling, and
that spelling is a token wherever the given one was. -/

namespace FuzzyInference

/-! ## Spellings of tokens -/

namespace Rule

theorem isToken_of_lowerCase {s t : String} (hs : IsToken s.toList)
    (h : Text.lowerCase s = Text.lowerCase t) : IsToken t.toList := by
  have hlower : Text.lowerFrom [] s.toList = Text.lowerFrom [] t.toList :=
    String.ofList_injective h
  rcases hs with hcomma | ⟨hne, hword⟩
  · left
    have hkey : Text.caseKey s = [','] := by simp [Text.caseKey, hcomma]
    have ht := Text.caseKey_eq_of_lowerCase_eq (by simp [hkey]) h
    rw [hkey, Text.caseKey, List.map_eq_singleton_iff] at ht
    obtain ⟨c, hc, hlow⟩ := ht
    rw [hc, (Text.toLower_eq_iff (by decide) c).mp hlow]
  · right
    constructor
    · intro ht
      rw [ht] at hlower
      exact hne (Text.lowerFrom_eq_nil hlower)
    · rw [← Text.forall_isWordChar_lowerFrom [], ← hlower, Text.forall_isWordChar_lowerFrom]
      exact hword

theorem isToken_of_caseKey {s t : String} (hs : IsToken s.toList)
    (h : Text.caseKey s = Text.caseKey t) : IsToken t.toList :=
  isToken_of_lowerCase hs (Text.lowerCase_eq_of_caseKey h)

end Rule

variable {α : Type} [Scalar α]

/-! ## Variables by name -/

namespace Vocabulary

variable {w : Vocabulary α} {name : String} {v : Variable α}

theorem lowerCase_of_get? (h : w.get? name = some v) :
    Text.lowerCase v.name = Text.lowerCase name :=
  Keyed.get?_eq_some_key Variable.key h

/-- Names that are lowered alike mean the same variable. -/
theorem get?_congr {name' : String} (h : Text.lowerCase name = Text.lowerCase name') :
    w.get? name = w.get? name' := by
  rw [get?, get?, h]

/-- A variable that was found is found under its own name. -/
theorem get?_name (h : w.get? name = some v) : w.get? v.name = some v := by
  rw [get?_congr (lowerCase_of_get? h), h]

/-- Known variables whose names are lowered alike are the same. -/
theorem eq_of_key {u : Variable α} (hu : w.get? u.name = some u) (hv : w.get? v.name = some v)
    (h : u.key = v.key) : u = v := by
  rw [get?_congr h, hv] at hu
  exact (Option.some.inj hu).symm

/-- What a token finds has a token for its name. -/
theorem isToken_name (h : w.get? name = some v) (hname : Rule.IsToken name.toList) :
    Rule.IsToken v.name.toList :=
  Rule.isToken_of_lowerCase hname (lowerCase_of_get? h).symm

theorem contains_iff :
    w.contains name = true ↔ Text.lowerCase name ∈ w.members.map Variable.key := by
  simp only [contains, get?, Keyed.get?, List.find?_isSome, decide_eq_true_eq, List.mem_map]

end Vocabulary

/-! ## Sets by label -/

theorem FuzzySet.isNamed_iff {label : String} {s : FuzzySet α} :
    s.isNamed label = true ↔ Text.caseKey s.label = Text.caseKey label := by
  rw [isNamed, Text.eqIgnoringCase, beq_iff_eq]

namespace Variable

variable {v : Variable α} {label : String} {s : FuzzySet α}

theorem caseKey_of_set? (h : v.set? label = some s) :
    Text.caseKey s.label = Text.caseKey label := FuzzySet.isNamed_iff.mp (List.find?_some h)

/-- Labels that differ in the case of ASCII letters only mean the same set. -/
theorem set?_congr {label' : String} (h : Text.caseKey label = Text.caseKey label') :
    v.set? label = v.set? label' := by
  simp only [set?, FuzzySet.isNamed, Text.eqIgnoringCase, h]

/-- A set that was found is found under its own label. -/
theorem set?_label (h : v.set? label = some s) : v.set? s.label = some s := by
  rw [set?_congr (caseKey_of_set? h), h]

theorem isToken_label (h : v.set? label = some s) (hlabel : Rule.IsToken label.toList) :
    Rule.IsToken s.label.toList :=
  Rule.isToken_of_caseKey hlabel (caseKey_of_set? h).symm

end Variable

end FuzzyInference

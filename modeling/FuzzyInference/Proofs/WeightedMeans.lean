import FuzzyInference.Proofs.Balance
import FuzzyInference.Proofs.OutputShape
import FuzzyInference.Proofs.WeightMonotonicity

/-! Crisp conclusions as weighted means. The value of a fired output lies between the values that firing
rules assign to it, and a common factor of all weights cancels. -/

namespace FuzzyInference

/-! ## Sums -/

namespace WeightedMean

variable (v : Variable Rat) (ds : List (Rat × Rat))

/-- One credit after the other is added to the sums. -/
theorem ofCredits_eq :
    ofCredits v ds = ⟨v, (ds.map fun d => d.1 * d.2).sum, (ds.map Prod.fst).sum⟩ := by
  induction ds using List.reverseRec with
  | nil => rfl
  | append_singleton ds d ih =>
      rw [ofCredits, List.foldl_append, ← ofCredits, ih, List.map_append, List.map_append,
        List.sum_append, List.sum_append, List.map_singleton, List.map_singleton,
        List.sum_singleton, List.sum_singleton]
      rfl

variable {v ds}

theorem value_of_fired {m : WeightedMean Rat} (h : m.fired = true) :
    m.value = m.weightedSum / m.totalWeight := if_pos h

theorem value_eq_balance (hfired : (ofCredits v ds).fired = true) :
    (ofCredits v ds).value = balance ds := by
  rw [value_of_fired hfired, ofCredits_eq, balance]

/-- A mean lies between the least and the greatest of its values. -/
theorem value_between (hfired : (ofCredits v ds).fired = true) (hpos : ∀ d ∈ ds, 0 < d.1) :
    ∃ low high, IsLeast {x | x ∈ ds.map Prod.snd} low ∧
      IsGreatest {x | x ∈ ds.map Prod.snd} high ∧
      low ≤ (ofCredits v ds).value ∧ (ofCredits v ds).value ≤ high := by
  have hvalue := value_eq_balance hfired
  rw [ofCredits_eq] at hfired
  have hmass : 0 < (ds.map Prod.fst).sum := of_decide_eq_true hfired
  obtain ⟨d, hd, -⟩ := exists_pos_of_mass_pos hmass
  obtain ⟨low, hlow⟩ := exists_isLeast_of_mem (List.mem_map_of_mem hd)
  obtain ⟨high, hhigh⟩ := exists_isGreatest_of_mem (List.mem_map_of_mem hd)
  refine ⟨low, high, hlow, hhigh, ?_⟩
  rw [hvalue]
  exact balance_mem_Icc hmass (fun d hd => (hpos d hd).le) fun d hd _ =>
    ⟨hlow.2 (List.mem_map_of_mem hd), hhigh.2 (List.mem_map_of_mem hd)⟩

/-- Both sums times a factor. -/
def scale (k : Rat) (m : WeightedMean Rat) : WeightedMean Rat :=
  { m with weightedSum := k * m.weightedSum, totalWeight := k * m.totalWeight }

theorem key_scale (k : Rat) (m : WeightedMean Rat) : (m.scale k).key = m.key := rfl

theorem scale_blank (k : Rat) (v : Variable Rat) :
    ({ target := v } : WeightedMean Rat).scale k = { target := v } := by
  simp [scale]

theorem scale_credit (k : Rat) (d : Rat × Rat) (m : WeightedMean Rat) :
    (m.credit d).scale k = (m.scale k).credit (k * d.1, d.2) := by
  simp only [scale, credit, add, mul_add, mul_assoc]

variable {k : Rat}

theorem fired_scale (hk : 0 < k) (m : WeightedMean Rat) : (m.scale k).fired = m.fired :=
  decide_eq_decide.mpr (mul_pos_iff_of_pos_left hk)

theorem value_scale (hk : 0 < k) (m : WeightedMean Rat) : (m.scale k).value = m.value := by
  have hquotient : (m.scale k).weightedSum / (m.scale k).totalWeight =
      m.weightedSum / m.totalWeight := mul_div_mul_left _ _ hk.ne'
  unfold value
  rw [fired_scale hk, hquotient]
  rfl

end WeightedMean

/-! ## Assigned values -/

namespace Norms

variable {norms : Norms} {readings : Readings Rat} {rules : List (Rule Rat)} {k : String}

/-- Whether a firing rule assigns the value to the output with the key. -/
def Assigns (norms : Norms) (readings : Readings Rat) (rules : List (Rule Rat)) (k : String)
    (x : Rat) : Prop :=
  ∃ r ∈ rules, r.Fires norms readings ∧ ∃ v, .crisp v x ∈ r.consequents ∧ v.key = k

theorem mem_values_iff {x : Rat} :
    x ∈ (norms.credits readings rules k).map Prod.snd ↔ norms.Assigns readings rules k x := by
  have hsay (s : Rat) (c : Consequent Rat) :
      (∃ d, say s c = some d ∧ d.2 = x) ↔ ∃ v, c = .crisp v x := by
    cases c <;> simp [say]
  rw [List.mem_map, credits, Rule.exists_mem_credits_iff say fun _ _ _ c _ s => hsay s c]
  constructor
  · rintro ⟨r, hr, hfires, c, hc, hkey, v, rfl⟩
    exact ⟨r, hr, hfires, v, hc, hkey⟩
  · rintro ⟨r, hr, hfires, v, hc, hkey⟩
    exact ⟨r, hr, hfires, _, hc, hkey, v, rfl⟩

theorem value_between_assigned {m : WeightedMean Rat} (hm : m ∈ norms.ledger readings rules)
    (hfired : m.fired = true) :
    ∃ low high, IsLeast {x | norms.Assigns readings rules m.key x} low ∧
      IsGreatest {x | norms.Assigns readings rules m.key x} high ∧
      low ≤ m.value ∧ m.value ≤ high := by
  obtain ⟨v, -, hentry⟩ := mem_ledger hm
  have hvalues : {x | norms.Assigns readings rules m.key x} =
      {x | x ∈ (norms.credits readings rules m.key).map Prod.snd} :=
    Set.ext fun x => mem_values_iff.symm
  have hfired' := hfired
  rw [← hentry] at hfired'
  have hbetween := WeightedMean.value_between hfired' fun d => pos_of_mem_credits
  rw [hentry] at hbetween
  rwa [hvalues]

end Norms

/-! ## Scaled weights -/

namespace Rule

/-- The rule with its weight times a factor. -/
def scaled (k : Rat) (r : Rule Rat) : Rule Rat := { r with weight := k * r.weight }

variable {norms : Norms} {readings : Readings Rat} {k : Rat} {r : Rule Rat}

theorem strength_scaled {s : Rat} (hs : r.strength norms readings = .ok s) :
    (r.scaled k).strength norms readings = .ok (k * s) := by
  obtain ⟨d, hd, rfl⟩ := strength_eq_ok_iff.mp hs
  exact strength_eq_ok_iff.mpr
    ⟨d, (condition_reweighted _).mpr hd, mul_left_comm k d r.weight⟩

/-- A positive factor of the weight is one of the strength. -/
theorem firing?_scaled (hk : 0 < k) {s : Rat} (hs : r.strength norms readings = .ok s) :
    (r.scaled k).firing? norms readings = (r.firing? norms readings).map (k * ·) := by
  have hfires : fires (k * s) = fires s := decide_eq_decide.mpr (mul_pos_iff_of_pos_left hk)
  rw [firing?_of_strength hs, firing?_of_strength (strength_scaled hs), hfires]
  cases fires s <;> rfl

end Rule

namespace Norms

variable {norms : Norms} {readings : Readings Rat} {rules : List (Rule Rat)} {k : Rat}

/-- What a rule posts with its strength times a factor. -/
theorem postings_scaled (r : Rule Rat) (firing : Option Rat) :
    (r.scaled k).postings say (firing.map (k * ·)) =
      (r.postings say firing).map fun p => (p.1, p.2.map fun d => (k * d.1, d.2)) := by
  have hsay (s : Rat) (c : Consequent Rat) :
      say (k * s) c = (say s c).map fun d => (k * d.1, d.2) := by
    cases c <;> rfl
  cases firing <;> simp [Rule.postings, Rule.scaled, hsay, Function.comp_def]

theorem enabled_scaled (rules : List (Rule Rat)) :
    (rules.map (Rule.scaled k)).filter (·.enabled) =
      (rules.filter (·.enabled)).map (Rule.scaled k) := by
  rw [List.filter_map]
  rfl

/-- If all weights are scaled, so are both sums of each entry. -/
theorem ledger_scaled (hk : 0 < k)
    (hstrength : ∀ r ∈ rules.filter (·.enabled), ∃ s, r.strength norms readings = .ok s) :
    norms.ledger readings (rules.map (Rule.scaled k)) =
      (norms.ledger readings rules).map (WeightedMean.scale k) := by
  have hpostings : ∀ r ∈ rules.filter (·.enabled),
      (r.scaled k).postings say ((r.scaled k).firing? norms readings) =
        (r.postings say (r.firing? norms readings)).map
          fun p => (p.1, p.2.map fun d => (k * d.1, d.2)) := by
    intro r hr
    obtain ⟨s, hs⟩ := hstrength r hr
    rw [Rule.firing?_scaled hk hs, postings_scaled]
  unfold ledger post
  rw [Keyed.map_posts (WeightedMean.key_scale k) (WeightedMean.scale_blank k)
    (WeightedMean.scale_credit k), enabled_scaled, List.flatMap_map, List.map_flatMap,
    List.flatMap_congr hpostings]
  rfl

/-- The value of each fired output lies between the least and the greatest value that firing rules
assign to it, and a positive factor of all weights changes neither values nor what fired. -/
theorem infer_mean {out : List (WeightedMean Rat)} (h : norms.infer rules readings = .ok out) :
    (∀ m ∈ out, m.fired = true →
      (∃ low high, IsLeast {x | norms.Assigns readings rules m.key x} low ∧
        IsGreatest {x | norms.Assigns readings rules m.key x} high ∧
        low ≤ m.value ∧ m.value ≤ high) ∧
      ∀ c, (∀ x, norms.Assigns readings rules m.key x → x = c) → m.value = c) ∧
    ∀ k, 0 < k → ∃ out', norms.infer (rules.map (Rule.scaled k)) readings = .ok out' ∧
      List.Forall₂ (fun m m' => m'.target = m.target ∧ m'.value = m.value ∧ m'.fired = m.fired)
        out out' := by
  obtain ⟨hfault, rfl⟩ := infer_eq_ok_iff.mp h
  refine ⟨fun m hm hfired => ?_, fun k hk => ?_⟩
  · obtain ⟨low, high, hlow, hhigh, hle, hge⟩ := value_between_assigned hm hfired
    refine ⟨⟨low, high, hlow, hhigh, hle, hge⟩, fun c hc => ?_⟩
    rw [hc low hlow.1] at hle
    rw [hc high hhigh.1] at hge
    exact le_antisymm hge hle
  · have hstrength : ∀ r ∈ rules.filter (·.enabled), ∃ s, r.strength norms readings = .ok s :=
      fun r hr => ((Rule.fault?_eq_none_iff norms readings).mp (hfault r hr)).2
    have hfault' : ∀ r ∈ (rules.map (Rule.scaled k)).filter (·.enabled),
        r.fault? .sugeno = none := by
      rw [enabled_scaled, List.forall_mem_map]
      exact fun r hr => (Rule.fault?_reweighted _).mpr (hfault r hr)
    refine ⟨_, infer_eq_ok_iff.mpr ⟨hfault', rfl⟩, ?_⟩
    rw [ledger_scaled hk hstrength, List.forall₂_map_right_iff, List.forall₂_same]
    exact fun m _ => ⟨rfl, m.value_scale hk, m.fired_scale hk⟩

end Norms

/-! ## Turning a valve -/

namespace Valve

def temperature : Variable Rat := ⟨"Temperature", -2, 38,
  [⟨"Cold", .triangle 0 10 20, by decide +kernel, by decide +kernel, by decide +kernel⟩,
    ⟨"Warm", .triangle 10 20 30, by decide +kernel, by decide +kernel, by decide +kernel⟩],
  rfl, rfl, by decide +kernel, by simp [FuzzySet.key, Text.caseKey]⟩

def valve : Variable Rat := ⟨"Valve", -6, 11,
  [⟨"Shut", .triangle (-6) (-6) 0, by decide +kernel, by decide +kernel, by decide +kernel⟩],
  rfl, rfl, by decide +kernel, by simp⟩

/-- The first rule turns the valve both ways, and the last two have no effect. -/
def rules : List (Rule Rat) := [
  { antecedents := [⟨temperature, "Cold"⟩], weight := 1 / 2
    consequents := [.crisp valve (-3), .crisp valve 1] },
  { antecedents := [⟨temperature, "Warm"⟩], consequents := [.crisp valve 2] },
  { antecedents := [⟨temperature, "Warm"⟩], weight := -1, consequents := [.crisp valve 100] },
  { antecedents := [⟨temperature, "Cold"⟩], weight := 0, consequents := [.crisp valve (-100)] }]

def readings : Readings Rat := .ofList [temperature.fuzzify 15]

theorem infer_rules :
    ({} : Norms).infer rules readings = .ok (({} : Norms).ledger readings rules) :=
  Norms.infer_eq_ok_iff.mpr ⟨by
    simp only [rules, List.filter_cons, List.filter_nil, if_true, List.forall_mem_cons]
    exact ⟨rfl, rfl, rfl, rfl, nofun⟩, rfl⟩

/-- The mean of minus three and one, at a quarter each, and of two at a half; ten times the weights
make no difference. -/
theorem infer_mean_valve :
    ∃ out out', ({} : Norms).infer rules readings = .ok out ∧
      ({} : Norms).infer (rules.map (Rule.scaled 10)) readings = .ok out' ∧
      List.Forall₂ (fun m m' => m'.target = m.target ∧ m'.value = m.value ∧ m'.fired = m.fired)
        out out' ∧
      ∃ m ∈ out, m.fired = true ∧ m.value = 1 / 2 ∧
        ∃ low high, IsLeast {x | ({} : Norms).Assigns readings rules m.key x} low ∧
          IsGreatest {x | ({} : Norms).Assigns readings rules m.key x} high ∧
          low ≤ m.value ∧ m.value ≤ high := by
  obtain ⟨hbetween, hscaled⟩ := Norms.infer_mean infer_rules
  obtain ⟨out', hout', hsame⟩ := hscaled 10 (by decide +kernel)
  have hvalue : ∃ m ∈ ({} : Norms).ledger readings rules, m.fired = true ∧ m.value = 1 / 2 := by
    decide +kernel
  obtain ⟨m, hm, hfired, hvalue⟩ := hvalue
  exact ⟨_, out', infer_rules, hout', hsame, m, hm, hfired, hvalue, (hbetween m hm hfired).1⟩

end Valve

end FuzzyInference

import FuzzyInference.Proofs.Evaluation
import FuzzyInference.Proofs.Keyed

/-! What inference answers. An output has the variable of its first mention, and its entry holds what
the firing rules say of it, one after the other, and nothing else. -/

namespace FuzzyInference

variable {α : Type} [Scalar α]

/-! ## What one rule says -/

namespace Rule

/-- The strength of a rule, if it fires. -/
def firing? (norms : Norms) (readings : Readings α) (r : Rule α) : Option α :=
  (r.strength norms readings).toOption.filter fires

theorem mem_firing?_iff {norms : Norms} {readings : Readings α} {r : Rule α} {s : α} :
    s ∈ r.firing? norms readings ↔ r.strength norms readings = .ok s ∧ 0 < s := by
  rw [firing?, Option.mem_def, Option.filter_eq_some_iff]
  cases r.strength norms readings <;> simp [Except.toOption, fires]

theorem pos_of_mem_firing? {norms : Norms} {readings : Readings α} {r : Rule α} {s : α}
    (h : s ∈ r.firing? norms readings) : 0 < s :=
  (mem_firing?_iff.mp h).2

/-- The variables that a rule concludes about. -/
def targets (r : Rule α) : List (Variable α) := r.consequents.map Consequent.target

section Postings

variable {δ : Type} (say : α → Consequent α → Option δ)

/-- What a rule posts: a mention of each of its outputs, and then, if it fires, what it says of them. -/
def postings (firing : Option α) (r : Rule α) : List (Variable α × Option δ) :=
  r.consequents.map (fun c => (c.target, none)) ++
    firing.elim [] fun s => r.consequents.map fun c => (c.target, say s c)

/-- What a rule says of the output with the key, if it fires. -/
def credits (firing : Option α) (k : String) (r : Rule α) : List δ :=
  firing.elim [] fun s =>
    (r.consequents.filter fun c => decide (c.target.key = k)).filterMap (say s)

theorem mem_credits {firing : Option α} {k : String} {r : Rule α} {d : δ} :
    d ∈ r.credits say firing k ↔
      ∃ s ∈ firing, ∃ c ∈ r.consequents, c.target.key = k ∧ say s c = some d := by
  cases firing <;> simp [credits, List.mem_filterMap, and_assoc]

theorem find?_postings (firing : Option α) (k : String) (r : Rule α) :
    ((r.postings say firing).find? fun p => decide (p.1.key = k)).map Prod.fst =
      Keyed.get? Variable.key k r.targets := by
  have hmap (f : Consequent α → Variable α × Option δ) (hf : ∀ c, (f c).1 = c.target) :
      ((r.consequents.map f).find? fun p => decide (p.1.key = k)).map Prod.fst =
        Keyed.get? Variable.key k r.targets := by
    rw [targets, Keyed.get?, List.find?_map, List.find?_map, Option.map_map]
    have hp : ((fun p : Variable α × Option δ => decide (p.1.key = k)) ∘ f) =
        (fun v => decide (Variable.key v = k)) ∘ Consequent.target := by
      funext c
      simp [hf]
    have hfst : Prod.fst ∘ f = Consequent.target := funext hf
    rw [hp, hfst]
  cases firing with
  | none =>
      simp only [postings, Option.elim_none, List.append_nil]
      exact hmap _ fun _ => rfl
  | some s =>
      simp only [postings, Option.elim_some, List.find?_append]
      rw [Option.map_or, hmap _ fun _ => rfl, hmap _ fun _ => rfl, Option.or_self]

theorem filter_postings (firing : Option α) (k : String) (r : Rule α) :
    ((r.postings say firing).filter fun p => decide (p.1.key = k)).filterMap Prod.snd =
      r.credits say firing k := by
  cases firing with
  | none => simp [postings, credits, List.filter_map]
  | some s => simp [postings, credits, List.filter_map, Function.comp_def]

/-- Mentioning all outputs and then, if the rule fires, concluding on each is posting. -/
theorem foldl_postings {out : Type} {post : out → Variable α × Option δ → out}
    (conclude : out → Consequent α → out) {r : Rule α} {s : α}
    (h : ∀ o, ∀ c ∈ r.consequents, conclude o c = post o (c.target, say s c)) (start : out) :
    (r.postings say (if fires s = true then some s else none)).foldl post start =
      if fires s = true then
        r.consequents.foldl conclude
          (r.consequents.foldl (fun o c => post o (c.target, none)) start)
      else r.consequents.foldl (fun o c => post o (c.target, none)) start := by
  rw [postings, List.foldl_append, List.foldl_map]
  split
  · rw [Option.elim_some, List.foldl_map]
    exact (List.foldl_ext _ _ _ h).symm
  · rfl

/-- Of what rules post, an output keeps the first variable under its key and all that is said. -/
theorem get?_postings {β : Type} {key : β → String} {blank : Variable α → β} {credit : δ → β → β}
    (hblank : ∀ v, key (blank v) = v.key) (hcredit : ∀ d b, key (credit d b) = key b)
    (firing : Rule α → Option α) (rules : List (Rule α)) (k : String) :
    Keyed.get? key k ((rules.flatMap fun r => r.postings say (firing r)).foldl
        (Keyed.post key Variable.key blank credit) []) =
      (Keyed.get? Variable.key k (rules.flatMap targets)).map fun v =>
        (rules.flatMap fun r => r.credits say (firing r) k).foldl (fun b d => credit d b)
          (blank v) := by
  have htargets : ((rules.flatMap fun r => r.postings say (firing r)).find?
      fun p => decide (p.1.key = k)).map Prod.fst =
        Keyed.get? Variable.key k (rules.flatMap targets) := by
    induction rules with
    | nil => rfl
    | cons r rules ih =>
        have hr := find?_postings say (firing r) k r
        simp only [List.flatMap_cons, Keyed.get?, List.find?_append, Option.map_or] at hr ih ⊢
        rw [hr, ih]
  have hcredits : ((rules.flatMap fun r => r.postings say (firing r)).filter
      fun p => decide (p.1.key = k)).filterMap Prod.snd =
        rules.flatMap fun r => r.credits say (firing r) k := by
    simp only [List.filter_flatMap, List.filterMap_flatMap, filter_postings]
  rw [Keyed.get?_posts hblank hcredit, hcredits, ← htargets, Option.map_map]
  rfl

end Postings

end Rule

/-- A rule without a fault has conclusions of the right mode and a strength. -/
theorem Rule.fault?_eq_none_iff {mode : Mode} {r : Rule α} (norms : Norms)
    (readings : Readings α) : r.fault? mode = none ↔
      (∀ c ∈ r.consequents, c.mode = mode) ∧ ∃ s, r.strength norms readings = .ok s := by
  rw [← failure?_eq_none_iff, failure?_strength, fault?]
  cases hfind : r.consequents.find? fun c => c.mode != mode with
  | none =>
      have hmode : ∀ c ∈ r.consequents, c.mode = mode := by simpa using hfind
      exact ⟨fun h => ⟨hmode, h⟩, fun h => h.2⟩
  | some c =>
      have hc : c ∈ r.consequents := List.mem_of_find?_eq_some hfind
      have hmode : c.mode ≠ mode := by simpa using List.find?_some hfind
      simp only [reduceCtorEq, false_iff, not_and]
      exact fun hall => absurd (hall c hc) hmode

theorem Rule.firing?_of_strength {norms : Norms} {readings : Readings α} {r : Rule α} {s : α}
    (h : r.strength norms readings = .ok s) :
    r.firing? norms readings = if fires s then some s else none := by
  rw [firing?, h]
  rfl

/-- All variables that enabled rules conclude about, as often as they do. -/
def mentioned (rules : List (Rule α)) : List (Variable α) :=
  (rules.filter (·.enabled)).flatMap Rule.targets

/-! ## Fuzzy conclusions -/

namespace Aggregate

variable (aggregation : SNorm)

def credit (d : FuzzySet α × α) (g : Aggregate α) : Aggregate α := g.activate aggregation d.1 d.2

/-- The entry of an output of which the given things are said, one after the other. -/
def ofCredits (v : Variable α) (ds : List (FuzzySet α × α)) : Aggregate α :=
  ds.foldl (fun g d => g.credit aggregation d) { target := v }

/-- All that is said of the set with the label. -/
def sharesOf (label : String) (ds : List (FuzzySet α × α)) : List α :=
  (ds.filter fun d => decide (d.1.label = label)).map Prod.snd

variable {aggregation} (v : Variable α) (ds : List (FuzzySet α × α))

@[simp] theorem target_ofCredits : (ofCredits aggregation v ds).target = v := by
  unfold ofCredits
  induction ds using List.reverseRec with
  | nil => rfl
  | append_singleton ds d ih =>
      rw [List.foldl_append]
      exact ih

/-- Activations are accounts under the labels of sets, opened at zero. -/
theorem activations_ofCredits : (ofCredits aggregation v ds).activations =
    (ds.map fun d => (d.1, some d.2)).foldl (Keyed.post activationKey FuzzySet.label (·, 0)
      fun x a => (a.1, aggregation.apply a.2 x)) [] := by
  rw [List.foldl_map]
  refine (List.foldl_hom activations fun g d => ?_).symm
  unfold credit activate Keyed.post
  congr 1
  funext account
  cases account <;> rfl

theorem key_opened (s : FuzzySet α) : activationKey (s, (0 : α)) = s.label := rfl

theorem key_gathered (x : α) (a : FuzzySet α × α) :
    activationKey (a.1, aggregation.apply a.2 x) = activationKey a := rfl

theorem nodup_keys_ofCredits :
    ((ofCredits aggregation v ds).activations.map activationKey).Nodup := by
  rw [activations_ofCredits]
  exact Keyed.nodup_keys_posts key_opened key_gathered _

/-- The activation of a set gathers all that is said of its label, from zero on. -/
theorem get?_ofCredits (label : String) :
    Keyed.get? activationKey label (ofCredits aggregation v ds).activations =
      (Keyed.get? FuzzySet.label label (ds.map Prod.fst)).map fun s =>
        (s, (sharesOf label ds).foldl aggregation.apply 0) := by
  have hfold (s : FuzzySet α) (xs : List α) (start : α) :
      xs.foldl (fun (a : FuzzySet α × α) x => (a.1, aggregation.apply a.2 x)) (s, start) =
        (s, xs.foldl aggregation.apply start) := by
    induction xs generalizing start with
    | nil => rfl
    | cons x xs ih => exact ih _
  have hshares : ((ds.map fun d => (d.1, some d.2)).filter fun q =>
      decide (FuzzySet.label q.1 = label)).filterMap Prod.snd = sharesOf label ds := by
    rw [List.filter_map, List.filterMap_map, sharesOf, ← List.filterMap_eq_map]
    rfl
  rw [activations_ofCredits, Keyed.get?_posts key_opened key_gathered, hshares, Keyed.get?,
    List.find?_map, List.find?_map, Option.map_map, Option.map_map]
  simp only [Function.comp_def, hfold]

variable {v ds}

/-- Only sets of which something is said are activated. -/
theorem exists_of_mem_activations {a : FuzzySet α × α}
    (ha : a ∈ (ofCredits aggregation v ds).activations) : ∃ d ∈ ds, d.1 = a.1 := by
  obtain ⟨s, hs, hsa⟩ := Keyed.exists_of_mem (nodup_keys_ofCredits v ds) (get?_ofCredits v ds) ha
  obtain ⟨d, hd, rfl⟩ := List.mem_map.mp (List.mem_of_find?_eq_some hs)
  exact ⟨d, hd, by rw [← hsa]⟩

/-- If all is said of sets of the variable, a label in any case finds the activation of the set that
it means. -/
theorem activation_ofCredits (hsets : ∀ d ∈ ds, v.set? d.1.label = some d.1) (label : String) :
    (ofCredits aggregation v ds).activation label =
      (v.set? label).elim 0 fun s => (sharesOf s.label ds).foldl aggregation.apply 0 := by
  have hown (a : FuzzySet α × α) (ha : a ∈ (ofCredits aggregation v ds).activations) :
      v.set? a.1.label = some a.1 := by
    obtain ⟨d, hd, hda⟩ := exists_of_mem_activations ha
    rw [← hda]
    exact hsets d hd
  have hnamed {a : FuzzySet α × α} (h : a.1.isNamed label = true) :
      v.set? a.1.label = v.set? label := Variable.set?_congr (FuzzySet.isNamed_iff.mp h)
  unfold activation
  cases hlabel : v.set? label with
  | none =>
      have hnone : ((ofCredits aggregation v ds).activations.find?
          fun a => a.1.isNamed label) = none := by
        rw [List.find?_eq_none]
        intro a ha h
        have hset := hnamed h
        rw [hown a ha, hlabel] at hset
        cases hset
      rw [hnone]
      rfl
  | some s =>
      have hsame (a : FuzzySet α × α) (ha : a ∈ (ofCredits aggregation v ds).activations) :
          a.1.isNamed label = decide (activationKey a = s.label) := by
        rw [Bool.eq_iff_iff, decide_eq_true_iff]
        constructor
        · intro h
          have hset := hnamed h
          rw [hown a ha, hlabel, Option.some.injEq] at hset
          rw [activationKey, hset]
        · intro h
          rw [FuzzySet.isNamed_iff, ← Variable.caseKey_of_set? hlabel]
          exact congrArg Text.caseKey h
      have hfind : ((ofCredits aggregation v ds).activations.find? fun a => a.1.isNamed label) =
          Keyed.get? activationKey s.label (ofCredits aggregation v ds).activations :=
        List.find?_congr hsame
      rw [hfind, get?_ofCredits, Option.elim_some]
      -- A set of which nothing is said has no entry and no shares, which is zero both ways.
      cases hs : Keyed.get? FuzzySet.label s.label (ds.map Prod.fst) with
      | some t => rfl
      | none =>
          have hshares : sharesOf s.label ds = [] := by
            simpa [sharesOf, Keyed.get?, List.filter_eq_nil_iff] using hs
          rw [hshares]
          rfl

end Aggregate

namespace MamdaniOperators

variable (ops : MamdaniOperators) (readings : Readings α)

/-- What a rule that fires at a strength says of a set. -/
def say (strength : α) : Consequent α → Option (FuzzySet α × α)
  | .fuzzy _ s => some (s, ops.implication.apply strength 1)
  | .crisp .. => none

/-- All that the rules say of the output with the key. -/
def credits (rules : List (Rule α)) (k : String) : List (FuzzySet α × α) :=
  (rules.filter (·.enabled)).flatMap fun r => r.credits ops.say (r.firing? ops.toNorms readings) k

/-- Enters what a rule posts. -/
def post : List (Aggregate α) → Variable α × Option (FuzzySet α × α) → List (Aggregate α) :=
  Keyed.post Aggregate.key Variable.key (fun v => { target := v })
    fun d g => g.credit ops.aggregation d

/-- Inference as one pass over what the rules post. -/
def ledger (rules : List (Rule α)) : List (Aggregate α) :=
  ((rules.filter (·.enabled)).flatMap fun r =>
    r.postings ops.say (r.firing? ops.toNorms readings)).foldl ops.post []

variable {ops readings}

theorem step_eq_ok {r : Rule α} (h : r.fault? .mamdani = none) (out : List (Aggregate α)) :
    ops.step readings out r =
      .ok ((r.postings ops.say (r.firing? ops.toNorms readings)).foldl ops.post out) := by
  obtain ⟨hmode, s, hs⟩ := (Rule.fault?_eq_none_iff ops.toNorms readings).mp h
  have hfind : (r.consequents.find? fun c => c.mode != .mamdani) = none := by simpa using hmode
  rw [Rule.firing?_of_strength hs,
    Rule.foldl_postings ops.say (ops.conclude (ops.implication.apply s 1)), step, hfind, hs]
  · rfl
  · intro out c hc
    cases c with
    | fuzzy v s => rfl
    | crisp v x => cases hmode _ hc

/-- Inference succeeds if no enabled rule has a fault, and then answers its ledger. -/
theorem infer_eq_ok_iff {rules : List (Rule α)} {out : List (Aggregate α)} :
    ops.infer rules readings = .ok out ↔
      (∀ r ∈ rules.filter (·.enabled), r.fault? .mamdani = none) ∧
        out = ops.ledger readings rules := by
  rw [infer, foldlM_eq_ok_iff (ops.failure?_step readings) step_eq_ok, ledger, List.foldl_flatMap]

theorem key_blank (v : Variable α) : Aggregate.key ({ target := v } : Aggregate α) = v.key := rfl

theorem key_credit (d : FuzzySet α × α) (g : Aggregate α) :
    (g.credit ops.aggregation d).key = g.key := rfl

/-- The entry of an output: the variable of its first mention, with all that is said of it. -/
theorem get?_ledger (rules : List (Rule α)) (k : String) :
    Keyed.get? Aggregate.key k (ops.ledger readings rules) =
      (Keyed.get? Variable.key k (mentioned rules)).map fun v =>
        .ofCredits ops.aggregation v (ops.credits readings rules k) :=
  Rule.get?_postings ops.say key_blank key_credit _ _ k

theorem nodup_keys_ledger (rules : List (Rule α)) :
    ((ops.ledger readings rules).map Aggregate.key).Nodup :=
  Keyed.nodup_keys_posts key_blank key_credit _

/-- What is said of an output is said by a fuzzy conclusion of an enabled rule that fires. -/
theorem exists_conclusion_of_mem_credits {rules : List (Rule α)} {k : String} {d : FuzzySet α × α}
    (hd : d ∈ ops.credits readings rules k) :
    ∃ r ∈ rules.filter (·.enabled), ∃ v, .fuzzy v d.1 ∈ r.consequents ∧ v.key = k ∧
      ∃ s ∈ r.firing? ops.toNorms readings, d.2 = ops.implication.apply s 1 := by
  obtain ⟨r, hr, hd⟩ := List.mem_flatMap.mp hd
  obtain ⟨s, hs, c, hc, hkey, hsay⟩ := (Rule.mem_credits ops.say).mp hd
  cases c with
  | fuzzy v set =>
      cases hsay
      exact ⟨r, hr, v, hc, hkey, s, hs, rfl⟩
  | crisp v x => cases hsay

/-- Nothing is said of an output that is not mentioned. -/
theorem exists_mentioned_of_mem_credits {rules : List (Rule α)} {k : String} {d : FuzzySet α × α}
    (hd : d ∈ ops.credits readings rules k) :
    ∃ v, Keyed.get? Variable.key k (mentioned rules) = some v := by
  obtain ⟨r, hr, v, hc, rfl, -⟩ := exists_conclusion_of_mem_credits hd
  have htarget : v ∈ mentioned rules := List.mem_flatMap.mpr ⟨r, hr, List.mem_map_of_mem hc⟩
  rw [← Option.isSome_iff_exists, Keyed.isSome_get?_iff]
  exact List.mem_map_of_mem htarget

end MamdaniOperators

/-! ## Activations -/

/-- How often a rule concludes on the set with the label of the output with the key. -/
def Rule.occurrences (k label : String) (r : Rule α) : Nat :=
  r.consequents.countP fun
    | .fuzzy v s => decide (v.key = k) && decide (s.label = label)
    | .crisp .. => false

theorem Aggregate.sharesOf_flatMap (label : String) (rules : List (Rule α))
    (f : Rule α → List (FuzzySet α × α)) :
    sharesOf label (rules.flatMap f) = rules.flatMap fun r => sharesOf label (f r) := by
  simp only [sharesOf, List.filter_flatMap, List.map_flatMap]

/-- A rule that fires says the same of a set each time it concludes on it. -/
theorem MamdaniOperators.sharesOf_credits (ops : MamdaniOperators) (firing : Option α)
    (k label : String) (r : Rule α) :
    Aggregate.sharesOf label (r.credits ops.say firing k) =
      firing.elim [] fun s =>
        List.replicate (r.occurrences k label) (ops.implication.apply s 1) := by
  cases firing with
  | none => rfl
  | some s =>
      rw [Option.elim_some, Rule.credits, Rule.occurrences, Option.elim_some]
      induction r.consequents with
      | nil => rfl
      | cons c cs ih =>
          rw [Aggregate.sharesOf] at ih ⊢
          cases c with
          | fuzzy v t =>
              have htarget : (Consequent.fuzzy v t).target = v := rfl
              by_cases hv : v.key = k
              · by_cases ht : t.label = label <;>
                  simp [htarget, say, hv, ht, ih, List.replicate_succ]
              · simp [htarget, hv, ih]
          | crisp v x =>
              have hsay : ops.say s (.crisp v x) = none := rfl
              by_cases hv : (Consequent.crisp v x).target.key = k <;> simp [hsay, hv, ih]

/-- What inference says of a set of an output, zero where it says nothing. -/
def Aggregate.activationOf (out : List (Aggregate α)) (name label : String) : α :=
  ((find? out name).map (·.activation label)).getD 0

/-- A conclusion about a variable of the vocabulary; if it is fuzzy, it was made from a label of the
variable. -/
def Consequent.Over (w : Vocabulary α) : Consequent α → Prop
  | .fuzzy v s => w.get? v.name = some v ∧ v.set? s.label = some s
  | .crisp v _ => w.get? v.name = some v

theorem Consequent.Over.known {w : Vocabulary α} {c : Consequent α} (h : c.Over w) :
    w.get? c.target.name = some c.target := by
  cases c with
  | fuzzy v s => exact h.1
  | crisp v x => exact h

theorem known_of_mem_mentioned {w : Vocabulary α} {rules : List (Rule α)}
    (hknown : ∀ r ∈ rules, ∀ c ∈ r.consequents, w.get? c.target.name = some c.target)
    {v : Variable α} (hv : v ∈ mentioned rules) : w.get? v.name = some v := by
  obtain ⟨r, hr, hv⟩ := List.mem_flatMap.mp hv
  obtain ⟨c, hc, rfl⟩ := List.mem_map.mp hv
  exact hknown r (List.mem_of_mem_filter hr) c hc

section Over

variable {w : Vocabulary α} {rules : List (Rule α)}
  (hover : ∀ r ∈ rules, ∀ c ∈ r.consequents, c.Over w)

include hover

theorem MamdaniOperators.set?_of_mem_credits {ops : MamdaniOperators} {readings : Readings α}
    {v : Variable α} (hv : w.get? v.name = some v) {d : FuzzySet α × α}
    (hd : d ∈ ops.credits readings rules v.key) : v.set? d.1.label = some d.1 := by
  obtain ⟨r, hr, u, hc, hkey, -⟩ := exists_conclusion_of_mem_credits hd
  obtain ⟨hu, hset⟩ := hover r (List.mem_of_mem_filter hr) _ hc
  obtain rfl := Vocabulary.eq_of_key hu hv hkey
  exact hset

/-- The activation of a set gathers what the rules say of it, whatever their order. -/
theorem MamdaniOperators.activationOf_ledger (ops : MamdaniOperators) (readings : Readings α)
    (name label : String) : Aggregate.activationOf (ops.ledger readings rules) name label =
      ((w.get? name).bind (·.set? label)).elim 0 fun s =>
        (Aggregate.sharesOf s.label (ops.credits readings rules (Text.lowerCase name))).foldl
          ops.aggregation.apply 0 := by
  rw [Aggregate.activationOf, Aggregate.find?, get?_ledger]
  cases hmentioned : Keyed.get? Variable.key (Text.lowerCase name) (mentioned rules) with
  | some v =>
      have hv := known_of_mem_mentioned (fun r hr c hc => (hover r hr c hc).known)
        (List.mem_of_find?_eq_some hmentioned)
      have hkey : v.key = Text.lowerCase name := Keyed.get?_eq_some_key _ hmentioned
      have hname : w.get? name = some v := by rw [← hv, Vocabulary.get?_congr hkey]
      rw [hname, ← hkey]
      exact Aggregate.activation_ofCredits (fun d hd => set?_of_mem_credits hover hv hd) label
  | none =>
      have hcredits : ops.credits readings rules (Text.lowerCase name) = [] := by
        rw [List.eq_nil_iff_forall_not_mem]
        intro d hd
        obtain ⟨v, hv⟩ := exists_mentioned_of_mem_credits hd
        rw [hmentioned] at hv
        cases hv
      rw [hcredits]
      cases (w.get? name).bind (·.set? label) <;> rfl

end Over

/-! ## Crisp conclusions -/

namespace WeightedMean

def credit (d : α × α) (m : WeightedMean α) : WeightedMean α := m.add d.1 d.2

/-- The entry of an output of which the given things are said, one after the other. -/
def ofCredits (v : Variable α) (ds : List (α × α)) : WeightedMean α :=
  ds.foldl (fun m d => m.credit d) { target := v }

@[simp] theorem target_ofCredits (v : Variable α) (ds : List (α × α)) :
    (ofCredits v ds).target = v := by
  unfold ofCredits
  induction ds using List.reverseRec with
  | nil => rfl
  | append_singleton ds d ih =>
      rw [List.foldl_append]
      exact ih

end WeightedMean

namespace Norms

variable (norms : Norms) (readings : Readings α)

/-- What a rule that fires at a strength says of a value. -/
def say (strength : α) : Consequent α → Option (α × α)
  | .crisp _ x => some (strength, x)
  | .fuzzy .. => none

/-- All that the rules say of the output with the key. -/
def credits (rules : List (Rule α)) (k : String) : List (α × α) :=
  (rules.filter (·.enabled)).flatMap fun r => r.credits say (r.firing? norms readings) k

/-- Enters what a rule posts. -/
def post : List (WeightedMean α) → Variable α × Option (α × α) → List (WeightedMean α) :=
  Keyed.post WeightedMean.key Variable.key (fun v => { target := v }) fun d m => m.credit d

/-- Inference as one pass over what the rules post. -/
def ledger (rules : List (Rule α)) : List (WeightedMean α) :=
  ((rules.filter (·.enabled)).flatMap fun r =>
    r.postings say (r.firing? norms readings)).foldl post []

variable {norms readings}

theorem step_eq_ok {r : Rule α} (h : r.fault? .sugeno = none) (out : List (WeightedMean α)) :
    norms.step readings out r =
      .ok ((r.postings say (r.firing? norms readings)).foldl post out) := by
  obtain ⟨hmode, s, hs⟩ := (Rule.fault?_eq_none_iff norms readings).mp h
  have hfind : (r.consequents.find? fun c => c.mode != .sugeno) = none := by simpa using hmode
  rw [Rule.firing?_of_strength hs, Rule.foldl_postings say (conclude s), step, hfind, hs]
  · rfl
  · intro out c hc
    cases c with
    | fuzzy v s => cases hmode _ hc
    | crisp v x => rfl

/-- Inference succeeds if no enabled rule has a fault, and then answers its ledger. -/
theorem infer_eq_ok_iff {rules : List (Rule α)} {out : List (WeightedMean α)} :
    norms.infer rules readings = .ok out ↔
      (∀ r ∈ rules.filter (·.enabled), r.fault? .sugeno = none) ∧
        out = norms.ledger readings rules := by
  rw [infer, foldlM_eq_ok_iff (norms.failure?_step readings) step_eq_ok, ledger,
    List.foldl_flatMap]

theorem key_blank (v : Variable α) :
    WeightedMean.key ({ target := v } : WeightedMean α) = v.key := rfl

theorem key_credit (d : α × α) (m : WeightedMean α) : (m.credit d).key = m.key := rfl

/-- The entry of an output: the variable of its first mention, with all that is said of it. -/
theorem get?_ledger (rules : List (Rule α)) (k : String) :
    Keyed.get? WeightedMean.key k (norms.ledger readings rules) =
      (Keyed.get? Variable.key k (mentioned rules)).map fun v =>
        .ofCredits v (norms.credits readings rules k) :=
  Rule.get?_postings say key_blank key_credit _ _ k

theorem nodup_keys_ledger (rules : List (Rule α)) :
    ((norms.ledger readings rules).map WeightedMean.key).Nodup :=
  Keyed.nodup_keys_posts key_blank key_credit _

end Norms

end FuzzyInference

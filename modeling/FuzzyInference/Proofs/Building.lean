import FuzzyInference.Proofs.EngineSafety
import FuzzyInference.Proofs.Loading

/-! What a configuration is built into: an engine with the described variables, and with the rules
of the rule file and of the configuration itself, in the order in which they stand. -/

namespace FuzzyInference

/-! ## Rules -/

variable {α : Type} [Scalar α] [Numeral α]

namespace RuleBase

variable {l : RuleLanguage α}

theorem addText_eq_ok_iff {rules : List (Rule α)} {b : RuleBase α} {text : String} :
    addText text ⟨rules, some l⟩ = .ok b ↔
      ∃ r, l.parse text = .ok r ∧ b = ⟨rules ++ [r], some l⟩ := by
  simp only [addText]
  cases l.parse text with
  | error e => simp
  | ok r => simp [eq_comm]

/-- The lines of a text that are rules, in their order. -/
def parsable (l : RuleLanguage α) (content : String) : List (Rule α) :=
  (Text.lines content).filterMap fun raw => (l.parse (Text.trim raw)).toOption

/-- What says nothing is no rule either, as it does not begin with a word that opens one. -/
theorem not_parse_of_isIdle {line : String} (h : IsIdle line) (r : Rule α) :
    l.parse line ≠ .ok r := by
  intro hparse
  have htokens := mapError_eq_ok.mp hparse
  rcases h with rfl | hhash
  · cases htokens
  · obtain ⟨rest, hline⟩ := List.head?_eq_some_iff.mp hhash
    have hwords := Rule.words_reach line.toList
    rw [hline, Rule.reach_cons (by decide), ← hline, ← Rule.map_toList_tokenize] at hwords
    obtain ⟨word, _, _, htokenize, -⟩ := hwords.of_wordChar (by decide)
    obtain ⟨opening, words, hopening, hword, -⟩ := List.map_eq_cons_iff.mp htokenize
    have hif : RuleLanguage.isWord "IF" opening = false := by
      rw [Bool.eq_false_iff, RuleLanguage.isWord, Ne, Text.eqIgnoringCase_iff, Text.caseKey, hword]
      simp [Text.caseKey]
    rw [hopening, RuleLanguage.ofTokens, if_neg (by simp [hif])] at htokens
    cases htokens

theorem rules_readLines (content : String) : (readLines l content).1 = parsable l content := by
  rw [readLines, parsable, List.filterMap_map]
  refine List.filterMap_congr fun raw _ => ?_
  rw [Function.comp_apply]
  rcases Line.read_cases l raw with ⟨hidle, hread⟩ | ⟨-, ⟨r, hparse, hread⟩ | ⟨e, hparse, hread⟩⟩
  · rw [hread]
    cases hparse : l.parse (Text.trim raw) with
    | error e => rfl
    | ok r => exact absurd hparse (not_parse_of_isIdle hidle r)
  · rw [hread, hparse]
    rfl
  · rw [hread, hparse]
    rfl

end RuleBase

namespace Config

/-- All inline lines must be rules, and all of them are added. -/
theorem addInline_eq_ok_iff {l : RuleLanguage α} {lines : List String} {rules : List (Rule α)}
    {b : RuleBase α} : addInline ⟨rules, some l⟩ lines = .ok b ↔
      ∃ rs, List.Forall₂ (fun line r => l.parse line = .ok r) lines rs ∧
        b = ⟨rules ++ rs, some l⟩ := by
  unfold addInline
  induction lines generalizing rules with
  | nil =>
      rw [List.foldlM_nil]
      change Except.ok _ = .ok b ↔ _
      simp [eq_comm]
  | cons line lines ih =>
      simp only [List.foldlM_cons, bind_eq_ok, RuleBase.addText_eq_ok_iff,
        List.forall₂_cons_left_iff]
      constructor
      · rintro ⟨_, ⟨r, hr, rfl⟩, h⟩
        obtain ⟨rs, hrs, rfl⟩ := ih.mp h
        exact ⟨r :: rs, ⟨r, rs, hr, hrs, rfl⟩, by simp⟩
      · rintro ⟨_, ⟨r, rs, hr, hrs, rfl⟩, rfl⟩
        exact ⟨_, ⟨r, hr, rfl⟩, ih.mpr ⟨rs, hrs, by simp⟩⟩

/-- The text of the rule file, if there is one that can be read. -/
def ruleText? (files : Files) (c : Config α) : Option String :=
  c.rulesFile?.bind fun path => (files.readText path).toOption

/-- The rule file, if there is one, can be read as text. -/
def ReadsRules (files : Files) (c : Config α) : Prop :=
  ∀ path ∈ c.rulesFile?, ∃ content, files.readText path = .ok content

/-- Nothing but a rule file that cannot be read makes loading fail, and the rules are those of its
lines that are rules. -/
theorem fileRules_eq_ok_iff {files : Files} {c : Config α} {l : RuleLanguage α} {b : RuleBase α} :
    (∃ reply, (c.fileRules files { language := some l }).answer = .ok reply) ∧
        (c.fileRules files { language := some l }).base = b ↔
      c.ReadsRules files ∧ b = ⟨(c.ruleText? files).elim [] (RuleBase.parsable l), some l⟩ := by
  unfold fileRules ReadsRules ruleText?
  cases c.rulesFile? with
  | none => simp [eq_comm]
  | some path =>
      simp only [RuleBase.load, Option.bind_some, Option.mem_some_iff, forall_eq']
      cases files.readText path with
      | error e => simp
      | ok content =>
          simp [RuleBase.rules_readLines, Except.toOption, eq_comm]

/-! ## Engines -/

omit [Numeral α] in
theorem exists_assemble_iff {c : Config α} {w : Vocabulary α} {b : RuleBase α} :
    (∃ e, c.assemble w b = .ok e) ↔ (c.engine.mode = .mamdani → 3 ≤ c.engine.samples) := by
  simp only [assemble]
  cases c.engine.mode with
  | mamdani =>
      by_cases hsamples : 3 ≤ c.engine.samples
      · simp only [defuzzifier?, SampleCount.ofNat?, hsamples, implies_true, iff_true]
        exact ⟨_, rfl⟩
      · simp [defuzzifier?, SampleCount.ofNat?, hsamples]
  | sugeno => exact iff_of_true ⟨_, rfl⟩ nofun

/-- The conditions under which a configuration is an engine: its variables are valid and their names
differ by more than case, its rule file can be read, its own lines are rules about its variables in
the language of its mode, and fuzzy conclusions have enough samples. -/
structure Valid (files : Files) (c : Config α) : Prop where
  subjects : ∀ v ∈ c.subjects, v.Valid
  names : (c.subjects.map fun v => Text.lowerCase v.name).Nodup
  file : c.ReadsRules files
  inline : ∀ w : Vocabulary α, List.Forall₂ VariableSpec.Describes c.subjects w.members →
    ∀ line ∈ c.rules.inline, ∃ r, (c.language w).parse line = .ok r
  samples : c.engine.mode = .mamdani → 3 ≤ c.engine.samples

/-- Building an engine is reading the vocabulary, the rule file and the lines, and assembling it. -/
theorem build_eq_ok_iff {files : Files} {c : Config α} {e : Engine α} :
    (c.build files).result = .ok e ↔ ∃ w, c.vocabulary = .ok w ∧ c.ReadsRules files ∧
      ∃ rs, List.Forall₂ (fun line r => (c.language w).parse line = .ok r) c.rules.inline rs ∧
        c.assemble w ⟨(c.ruleText? files).elim [] (RuleBase.parsable (c.language w)) ++ rs,
          some (c.language w)⟩ = .ok e := by
  unfold build
  cases c.vocabulary with
  | error error => simp
  | ok w =>
      simp only [bind_eq_ok, mapError_eq_ok]
      constructor
      · rintro ⟨reply, hreply, base, hbase, hassemble⟩
        obtain ⟨hreads, hloaded⟩ := fileRules_eq_ok_iff.mp ⟨⟨reply, hreply⟩, rfl⟩
        rw [hloaded] at hbase
        obtain ⟨rs, hrs, rfl⟩ := addInline_eq_ok_iff.mp hbase
        exact ⟨w, rfl, hreads, rs, hrs, hassemble⟩
      · rintro ⟨_, ⟨⟩, hreads, rs, hrs, hassemble⟩
        obtain ⟨⟨reply, hreply⟩, hloaded⟩ := fileRules_eq_ok_iff.mpr ⟨hreads, rfl⟩
        refine ⟨reply, hreply, _, ?_, hassemble⟩
        rw [hloaded]
        exact addInline_eq_ok_iff.mpr ⟨rs, hrs, rfl⟩

/-- A configuration is built if and only if it is valid. The engine has the described variables in
the order of their descriptions, and the rules of the rule file before those of the configuration,
both in the order of their lines. -/
theorem build_valid (files : Files) (c : Config α) :
    ((∃ e, (c.build files).result = .ok e) ↔ c.Valid files) ∧
    ∀ e, (c.build files).result = .ok e →
      List.Forall₂ VariableSpec.Describes c.subjects e.vocabulary.members ∧
      ∃ rs, List.Forall₂ (fun line r => (c.language e.vocabulary).parse line = .ok r)
          c.rules.inline rs ∧
        e.base.rules =
          (c.ruleText? files).elim [] (RuleBase.parsable (c.language e.vocabulary)) ++ rs := by
  constructor
  · constructor
    · rintro ⟨e, h⟩
      obtain ⟨w, hw, hreads, rs, hrs, hassemble⟩ := build_eq_ok_iff.mp h
      obtain ⟨hsubjects, hnames⟩ := vocabulary_eq_ok_iff.mp hw
      have hsamples := exists_assemble_iff.mp ⟨e, hassemble⟩
      refine ⟨fun v hv => ?_, hnames, hreads, fun w' hw' => ?_, hsamples⟩
      · exact VariableSpec.exists_describes_iff.mp (exists_forall₂_iff.mp ⟨_, hsubjects⟩ v hv)
      · -- The variables that the configuration describes are those it was built into.
        have hsame := vocabulary_eq_ok_iff.mpr ⟨hw', hnames⟩
        obtain rfl := Except.ok.inj (hw.symm.trans hsame)
        exact exists_forall₂_iff.mp ⟨rs, hrs⟩
    · rintro ⟨hsubjects, hnames, hreads, hinline, hsamples⟩
      obtain ⟨vs, hvs⟩ := exists_forall₂_iff.mpr fun v hv =>
        VariableSpec.exists_describes_iff.mpr (hsubjects v hv)
      obtain ⟨rs, hrs⟩ := exists_forall₂_iff.mpr (hinline ⟨vs⟩ hvs)
      obtain ⟨e, hassemble⟩ := exists_assemble_iff.mpr hsamples
      have hw : c.vocabulary = .ok ⟨vs⟩ := vocabulary_eq_ok_iff.mpr ⟨hvs, hnames⟩
      exact ⟨e, build_eq_ok_iff.mpr ⟨_, hw, hreads, rs, hrs, hassemble⟩⟩
  · intro e h
    obtain ⟨w, hw, -, rs, hrs, hassemble⟩ := build_eq_ok_iff.mp h
    obtain ⟨hbase, rfl, -⟩ := assemble_eq_ok hassemble
    exact ⟨(vocabulary_eq_ok_iff.mp hw).1, rs, hrs, by rw [hbase]⟩

/-- A water level that may be high, and a sluice that is opened then. Numbers of samples are of no
account for crisp conclusions. -/
def dikeConfig : Config Float where
  engine := { mode := .sugeno, samples := 0 }
  subjects := [⟨"Level", 0, 8, [⟨"High", "Trapezoidal", [4, 6, 8, 8]⟩]⟩, ⟨"Sluice", 0, 1, []⟩]
  rules := { file := some "dike.rules", inline := ["IF level IS high THEN sluice = 1"] }

def dikeText : String := "# low water\nIF THEN Sluice = 0\nIF Level IS Low THEN Sluice = 0\n"

def dikeFiles : Files := (Files.bare []).put ["dike.rules"] (.file dikeText.toUTF8)

theorem build_valid_dike : dikeConfig.Valid dikeFiles ∧
    ∃ e, (dikeConfig.build dikeFiles).result = .ok e ∧ e.vocabulary.names = ["Level", "Sluice"] ∧
      e.base.rules.map Rule.text = ["IF THEN Sluice = 0", "IF Level IS High THEN Sluice = 1"] ∧
      ∃ own, e.base.rules =
        RuleBase.parsable (dikeConfig.language e.vocabulary) dikeText ++ [own] := by
  have hok : (dikeConfig.build dikeFiles).result.toOption.map (fun e =>
      (e.vocabulary.names, e.base.rules.map Rule.text)) = some (["Level", "Sluice"],
        ["IF THEN Sluice = 0", "IF Level IS High THEN Sluice = 1"]) := by decide +kernel
  have htext : dikeConfig.ruleText? dikeFiles = some dikeText := by decide +kernel
  cases hbuild : (dikeConfig.build dikeFiles).result with
  | error error =>
      rw [hbuild] at hok
      cases hok
  | ok e =>
      rw [hbuild] at hok
      obtain ⟨hnames, hrules⟩ := Prod.mk.inj (Option.some.inj hok)
      refine ⟨(build_valid dikeFiles dikeConfig).1.mp ⟨e, hbuild⟩, e, rfl, hnames, hrules, ?_⟩
      obtain ⟨-, rs, hrs, hbase⟩ := (build_valid dikeFiles dikeConfig).2 e hbuild
      obtain ⟨own, rfl⟩ := List.length_eq_one_iff.mp hrs.length_eq.symm
      rw [htext, Option.elim_some] at hbase
      exact ⟨own, hbase⟩

end Config

end FuzzyInference

import FuzzyInference.Decimal.Binary64
import FuzzyInference.RuleBase

/-! The rule base as a plain list. The rules of this module say, by the place where it happens, what
each edit does to the list and why an edit is refused; a session of edits is what they derive. -/

namespace FuzzyInference

variable {α : Type} [Scalar α]

namespace Edit

/-- The place of the one rule that an edit is about. -/
def index? : Edit α → Option Nat
  | .remove i | .enable i | .disable i | .setWeight i _ => some i
  | .add _ | .addText _ | .clear | .setLanguage _ | .load _ => none

variable [Numeral α]

/-- Why an edit fails. A file that cannot be read comes before a missing language. -/
inductive Refused (files : Files) (b : RuleBase α) : Edit α → RuleBaseError → Prop where
  | beyond {edit i} : edit.index? = some i → b.rules.length ≤ i →
      Refused files b edit (.indexOutOfRange i b.rules.length)
  | mute {text} : b.language = none → Refused files b (.addText text) .noLanguage
  | rejected {l text e} : b.language = some l → l.parse text = .error e →
      Refused files b (.addText text) (.rule e)
  | unreadable {path e} : files.readText path = .error e →
      Refused files b (.load path) (.file path e)
  | muteFile {path content} : files.readText path = .ok content → b.language = none →
      Refused files b (.load path) .noLanguage

/-- What an edit does that is not refused: the rule base after it, its answer and what it reports.
The rules before the place of the edit, and those behind it, stay as they are. -/
inductive Does (files : Files) :
    RuleBase α → Edit α → RuleBase α → Reply α → List (Diagnostic α) → Prop where
  | add {rules o r} : Does files ⟨rules, o⟩ (.add r) ⟨rules ++ [r], o⟩ .done []
  | addText {rules l text r} : l.parse text = .ok r →
      Does files ⟨rules, some l⟩ (.addText text) ⟨rules ++ [r], some l⟩ .done []
  | remove {before r after o i} : before.length = i →
      Does files ⟨before ++ r :: after, o⟩ (.remove i) ⟨before ++ after, o⟩ (.removed r) []
  | enable {before r after o i} : before.length = i →
      Does files ⟨before ++ r :: after, o⟩ (.enable i)
        ⟨before ++ { r with enabled := true } :: after, o⟩ .done []
  | disable {before r after o i} : before.length = i →
      Does files ⟨before ++ r :: after, o⟩ (.disable i)
        ⟨before ++ { r with enabled := false } :: after, o⟩ .done []
  | setWeight {before r after o i weight} : before.length = i →
      Does files ⟨before ++ r :: after, o⟩ (.setWeight i weight)
        ⟨before ++ { r with weight } :: after, o⟩ .done []
  | clear {rules o} : Does files ⟨rules, o⟩ .clear ⟨[], o⟩ .done []
  | setLanguage {rules o l} : Does files ⟨rules, o⟩ (.setLanguage l) ⟨rules, some l⟩ .done []
  | load {rules l path content loaded reported} : files.readText path = .ok content →
      RuleBase.readLines l content = (loaded, reported) →
      Does files ⟨rules, some l⟩ (.load path) ⟨loaded, some l⟩
        (.loaded ⟨loaded.length, reported.length⟩) reported

end Edit

/-! ## One edit -/

namespace RuleBase

variable {files : Files} {b b' : RuleBase α} {edit : Edit α}

theorem settle_update (before after : List (Rule α)) (r : Rule α) (o : Option (RuleLanguage α))
    (f : Rule α → Rule α) :
    settle ⟨before ++ r :: after, o⟩ (update before.length f ⟨before ++ r :: after, o⟩) =
      { base := ⟨before ++ f r :: after, o⟩, answer := .ok .done } := by
  have hlength : before.length < (before ++ r :: after).length := by simp
  rw [update, if_pos hlength, List.modify_eq_take_cons_drop hlength]
  simp [settle]

theorem settle_update_beyond {i : Nat} (h : b.rules.length ≤ i) (f : Rule α → Rule α) :
    b.settle (b.update i f) =
      { base := b, answer := .error (.indexOutOfRange i b.rules.length) } := by
  rw [update, if_neg (Nat.not_lt.mpr h), settle]

variable [Numeral α]

theorem apply_of_refused {error : RuleBaseError} (h : edit.Refused files b error) :
    b.apply files edit = { base := b, answer := .error error } := by
  cases h with
  | beyond hindex hlength =>
      cases edit with
      | remove i =>
          cases hindex
          simp [apply, hlength]
      | enable i | disable i | setWeight i =>
          cases hindex
          exact settle_update_beyond hlength _
      | add | addText | clear | setLanguage | load => cases hindex
  | mute hlanguage => simp [apply, addText, hlanguage, settle]
  | rejected hlanguage hparse => simp [apply, addText, hlanguage, hparse, settle]
  | unreadable hread => simp [apply, load, hread]
  | muteFile hread hlanguage => simp [apply, load, hread, hlanguage]

theorem apply_of_does {reply : Reply α} {reported : List (Diagnostic α)}
    (h : edit.Does files b b' reply reported) :
    b.apply files edit = ⟨b', .ok reply, reported⟩ := by
  cases h with
  | add => rfl
  | addText hparse => simp [apply, addText, hparse, settle]
  | remove hi =>
      subst hi
      simp [apply, List.eraseIdx_append_of_length_le]
  | enable hi | disable hi | setWeight hi =>
      subst hi
      exact settle_update ..
  | clear => rfl
  | setLanguage => rfl
  | load hread hlines => simp [apply, load, hread, hlines]

/-- A place is either beyond the rules or that of one of them. -/
theorem refused_or_does_at {i : Nat} (hindex : edit.index? = some i)
    (hdoes : ∀ before r after o, before.length = i →
      ∃ b' reply reported, edit.Does files ⟨before ++ r :: after, o⟩ b' reply reported) :
    (∃ error, edit.Refused files b error) ∨
      ∃ b' reply reported, edit.Does files b b' reply reported := by
  rcases Nat.lt_or_ge i b.rules.length with h | h
  · obtain ⟨before, r, after, hrules, hi, -⟩ := List.exists_of_modify id h
    have hb : b = ⟨before ++ r :: after, b.language⟩ := by rw [← hrules]
    exact .inr (hb ▸ hdoes before r after b.language hi)
  · exact .inl ⟨_, .beyond hindex h⟩

/-- Every edit is refused or does something. -/
theorem refused_or_does (files : Files) (b : RuleBase α) (edit : Edit α) :
    (∃ error, edit.Refused files b error) ∨
      ∃ b' reply reported, edit.Does files b b' reply reported := by
  cases edit with
  | add r => exact .inr ⟨_, _, _, .add⟩
  | addText text =>
      obtain ⟨rules, o⟩ := b
      cases o with
      | none => exact .inl ⟨_, .mute rfl⟩
      | some l =>
          cases hparse : l.parse text with
          | error e => exact .inl ⟨_, .rejected rfl hparse⟩
          | ok r => exact .inr ⟨_, _, _, .addText hparse⟩
  | remove i => exact refused_or_does_at rfl fun _ _ _ _ hi => ⟨_, _, _, .remove hi⟩
  | enable i => exact refused_or_does_at rfl fun _ _ _ _ hi => ⟨_, _, _, .enable hi⟩
  | disable i => exact refused_or_does_at rfl fun _ _ _ _ hi => ⟨_, _, _, .disable hi⟩
  | setWeight i => exact refused_or_does_at rfl fun _ _ _ _ hi => ⟨_, _, _, .setWeight hi⟩
  | clear => exact .inr ⟨_, _, _, .clear⟩
  | setLanguage l => exact .inr ⟨_, _, _, .setLanguage⟩
  | load path =>
      obtain ⟨rules, o⟩ := b
      cases hread : files.readText path with
      | error e => exact .inl ⟨_, .unreadable hread⟩
      | ok content =>
          cases o with
          | none => exact .inl ⟨_, .muteFile hread rfl⟩
          | some l => exact .inr ⟨_, _, _, .load hread rfl⟩

/-- The refusals are all failures. -/
theorem answer_eq_error_iff {error : RuleBaseError} :
    (b.apply files edit).answer = .error error ↔ edit.Refused files b error := by
  constructor
  · intro h
    rcases refused_or_does files b edit with ⟨error', hrefused⟩ | ⟨b', reply, reported, hdoes⟩
    · rw [apply_of_refused hrefused, Except.error.injEq] at h
      exact h ▸ hrefused
    · rw [apply_of_does hdoes] at h
      cases h
  · intro h
    rw [apply_of_refused h]

end RuleBase

/-! ## Sessions -/

/-- A rule base together with all that was reported so far. -/
structure Session (α : Type) [Scalar α] where
  base : RuleBase α
  sink : List (Diagnostic α) := []

namespace Session

variable [Numeral α]

/-- One edit: its answer, and the session after it. -/
def step (s : Session α) (files : Files) (edit : Edit α) :
    Except RuleBaseError (Reply α) × Session α :=
  let edited := s.base.apply files edit
  (edited.answer, ⟨edited.base, s.sink ++ edited.reported⟩)

/-- Edits one after the other, each with the files as they are then, and all their answers. -/
def run (s : Session α) :
    List (Files × Edit α) → List (Except RuleBaseError (Reply α)) × Session α
  | [] => ([], s)
  | (files, edit) :: steps =>
    let (answer, next) := s.step files edit
    let (answers, goal) := next.run steps
    (answer :: answers, goal)

/-- A step of the plain list: an edit does something, or it is refused and changes nothing. -/
inductive Acts (files : Files) (edit : Edit α) :
    Session α → Except RuleBaseError (Reply α) → Session α → Prop where
  | does {s b reply reported} : edit.Does files s.base b reply reported →
      Acts files edit s (.ok reply) ⟨b, s.sink ++ reported⟩
  | refused {s error} : edit.Refused files s.base error → Acts files edit s (.error error) s

/-- Steps of the plain list one after the other. -/
inductive Derivation : Session α → List (Files × Edit α) →
    List (Except RuleBaseError (Reply α)) → Session α → Prop where
  | nil (s) : Derivation s [] [] s
  | cons {s files edit answer next steps answers goal} : Acts files edit s answer next →
      Derivation next steps answers goal →
      Derivation s ((files, edit) :: steps) (answer :: answers) goal

variable {s goal : Session α} {files : Files} {edit : Edit α}

theorem step_of_refused {error : RuleBaseError} (h : edit.Refused files s.base error) :
    s.step files edit = (.error error, s) := by
  simp [step, RuleBase.apply_of_refused h]

theorem acts_iff {answer : Except RuleBaseError (Reply α)} :
    Acts files edit s answer goal ↔ s.step files edit = (answer, goal) := by
  constructor
  · intro h
    cases h with
    | does hdoes => simp [step, RuleBase.apply_of_does hdoes]
    | refused hrefused => exact step_of_refused hrefused
  · intro h
    rcases RuleBase.refused_or_does files s.base edit with ⟨error, hrefused⟩ | ⟨_, _, _, hdoes⟩
    · rw [step_of_refused hrefused] at h
      cases h
      exact .refused hrefused
    · rw [step, RuleBase.apply_of_does hdoes] at h
      cases h
      exact .does hdoes

/-- A session is what the steps of the plain list derive, and nothing else. -/
theorem derivation_iff {steps : List (Files × Edit α)}
    {answers : List (Except RuleBaseError (Reply α))} :
    Derivation s steps answers goal ↔ s.run steps = (answers, goal) := by
  constructor
  · intro h
    induction h with
    | nil s => rfl
    | cons hstep _ ih => simp [run, acts_iff.mp hstep, ih]
  · intro h
    -- Every step acts, as an edit that is not refused does something.
    induction steps generalizing s answers with
    | nil =>
        cases h
        exact .nil _
    | cons step steps ih =>
        cases h
        exact .cons (acts_iff.mpr rfl) (ih rfl)

/-! ## Failures on the way -/

/-- What makes the next edit fail, and that a failed one leaves rules, language and sink alone. -/
structure Guarded (s : Session α) : Prop where
  index : ∀ files edit i error, edit.index? = some i →
    ((s.step files edit).1 = .error error ↔
      s.base.rules.length ≤ i ∧ error = .indexOutOfRange i s.base.rules.length)
  addText : ∀ files text, (∃ error, (s.step files (.addText text)).1 = .error error) ↔
    s.base.language = none ∨ ∃ l e, s.base.language = some l ∧ l.parse text = .error e
  load : ∀ files path, (∃ error, (s.step files (.load path)).1 = .error error) ↔
    s.base.language = none ∨ ∃ e, files.readText path = .error e
  atomic : ∀ files edit error, (s.step files edit).1 = .error error → (s.step files edit).2 = s

theorem answer_eq_error_iff {error : RuleBaseError} :
    (s.step files edit).1 = .error error ↔ edit.Refused files s.base error :=
  RuleBase.answer_eq_error_iff

theorem refused_index_iff {i : Nat} {error : RuleBaseError} (hindex : edit.index? = some i) :
    edit.Refused files s.base error ↔
      s.base.rules.length ≤ i ∧ error = .indexOutOfRange i s.base.rules.length := by
  constructor
  · intro h
    cases h with
    | beyond hindex' hlength =>
        rw [hindex, Option.some.injEq] at hindex'
        subst hindex'
        exact ⟨hlength, rfl⟩
    | mute | rejected | unreadable | muteFile => cases hindex
  · rintro ⟨hlength, rfl⟩
    exact .beyond hindex hlength

theorem refused_addText_iff {text : String} :
    (∃ error, (Edit.addText text).Refused files s.base error) ↔
      s.base.language = none ∨ ∃ l e, s.base.language = some l ∧ l.parse text = .error e := by
  constructor
  · rintro ⟨error, h⟩
    cases h with
    | beyond hindex _ => cases hindex
    | mute hlanguage => exact .inl hlanguage
    | rejected hlanguage hparse => exact .inr ⟨_, _, hlanguage, hparse⟩
  · rintro (hlanguage | ⟨l, e, hlanguage, hparse⟩)
    · exact ⟨_, .mute hlanguage⟩
    · exact ⟨_, .rejected hlanguage hparse⟩

theorem refused_load_iff {path : String} :
    (∃ error, (Edit.load path).Refused files s.base error) ↔
      s.base.language = none ∨ ∃ e, files.readText path = .error e := by
  constructor
  · rintro ⟨error, h⟩
    cases h with
    | beyond hindex _ => cases hindex
    | unreadable hread => exact .inr ⟨_, hread⟩
    | muteFile _ hlanguage => exact .inl hlanguage
  · rintro (hlanguage | ⟨e, hread⟩)
    · cases hread : files.readText path with
      | error e => exact ⟨_, .unreadable hread⟩
      | ok content => exact ⟨_, .muteFile hread hlanguage⟩
    · exact ⟨_, .unreadable hread⟩

theorem guarded (s : Session α) : s.Guarded where
  index files edit i error hindex := answer_eq_error_iff.trans (refused_index_iff hindex)
  addText files text := by simp only [answer_eq_error_iff, refused_addText_iff]
  load files path := by simp only [answer_eq_error_iff, refused_load_iff]
  atomic files edit error h := by rw [step_of_refused (answer_eq_error_iff.mp h)]

/-- Edits one after the other, from any rule base on, are derived by the steps of the plain list and
by nothing else. Wherever they lead, the next edit fails for the stated reasons only, and then
changes nothing. -/
theorem run_derived_and_guarded (start : Session α) (steps : List (Files × Edit α)) :
    (∀ answers goal, Derivation start steps answers goal ↔ start.run steps = (answers, goal)) ∧
      (start.run steps).2.Guarded :=
  ⟨fun _ _ => derivation_iff, guarded _⟩

/-- Without a language no text is added, and there is no second rule to remove. -/
example (files : Files) :
    (run (α := Float) { base := {} } [(files, .addText "IF THEN Speed = 1"), (files, .add {}),
      (files, .remove 1), (files, .disable 0), (files, .clear)]).1.map Except.isOk =
        [false, true, false, true, true] := rfl

end Session

end FuzzyInference

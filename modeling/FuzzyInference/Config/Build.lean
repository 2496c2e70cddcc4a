import FuzzyInference.Config.Basic
import FuzzyInference.Engine.Assembly

/-! From a configuration to a system that runs. -/

namespace FuzzyInference

inductive BuildError (α : Type) where
  | shape (variableName label : String) (error : ShapeError α)
  | variable (error : VariableError α)
  | repeatedVariable (name : String)
  | rules (error : RuleBaseError)
  | sampleCount (samples : Nat)
  | missing (parts : List Part)

namespace BuildError

def fault {α : Type} [Numeral α] : BuildError α → Fault
  | .shape variableName label error =>
    (error.fault.withContext "variable" variableName).withContext "set" label
  | .variable error => error.fault
  | .repeatedVariable name =>
    { code := .invalidConfigValue
      message := s!"Invalid value for 'variables': variable '{name}' is defined more than once" }
  | .rules error => error.fault
  | .sampleCount samples => .invalidSamples samples
  | .missing parts => .missingFields (parts.map Part.name)

end BuildError

variable {α : Type} [Scalar α]

def SetSpec.build (s : SetSpec α) : Except (ShapeError α) (FuzzySet α) :=
  (Shape.ofName s.shape s.params).map (⟨s.label, ·⟩)

/-- The sets are made first, in order, and then the variable. -/
def VariableSpec.build (v : VariableSpec α) : Except (BuildError α) (Variable α) := do
  let sets ← v.sets.mapM fun s => s.build.mapError (.shape v.name s.label)
  (Variable.make v.name v.start v.stop sets).mapError .variable

/-- An engine, or the error in its place, with what was reported on the way. -/
structure Built (α : Type) [Scalar α] where
  reported : List (Diagnostic α)
  result : Except (BuildError α) (Engine α)

namespace Config

/-- One variable more, unless its name is taken. -/
def extend (w : Vocabulary α) (v : VariableSpec α) : Except (BuildError α) (Vocabulary α) := do
  let v ← v.build
  if w.contains v.name then .error (.repeatedVariable v.name) else .ok (w.register v)

/-- The variables of a configuration. Their names differ by more than case. -/
def vocabulary (c : Config α) : Except (BuildError α) (Vocabulary α) := c.subjects.foldlM extend {}

/-- The language in which the rules of a configuration are written. -/
def language (c : Config α) (w : Vocabulary α) : RuleLanguage α := ⟨w, c.engine.mode⟩

def defuzzifier? (s : InferenceSettings) : Option Defuzzifier :=
  (SampleCount.ofNat? s.samples).map fun n =>
    match s.sampling with
    | .centroid => .centroid n
    | .meanOfMax => .meanOfMax n

variable [Numeral α]

/-- The rules of the rule file, if there is one. -/
def fileRules (files : Files) (c : Config α) (base : RuleBase α) : Edited α :=
  match c.rulesFile? with
  | none => { base, answer := .ok .done }
  | some path => base.load files path

def addInline (base : RuleBase α) (lines : List String) : Except RuleBaseError (RuleBase α) :=
  lines.foldlM (fun base line => base.addText line) base

/-- Everything about a configuration but where its rules come from. -/
def assemble (c : Config α) (w : Vocabulary α) (base : RuleBase α) :
    Except (BuildError α) (Engine α) :=
  let parts : EngineParts α := { mode := some c.engine.mode, base := some base, vocabulary := some w }
  let build (parts : EngineParts α) : Except (BuildError α) (Engine α) :=
    parts.build.mapError .missing
  match c.engine.mode with
  | .mamdani =>
    match defuzzifier? c.engine with
    | none => .error (.sampleCount c.engine.samples)
    | some d => build { parts with mamdani := some c.engine.operators, defuzzifier := some d }
  | .sugeno => build { parts with sugeno := some c.engine.operators.toNorms }

/-- The engine of a configuration. The rules of the rule file come before those in the configuration;
bad lines of the file are left out, and none may be bad in the configuration itself. -/
def build (files : Files) (c : Config α) : Built α :=
  match c.vocabulary with
  | .error error => ⟨[], .error error⟩
  | .ok w =>
    let loaded := c.fileRules files { language := some (c.language w) }
    let result := do
      let _ ← loaded.answer.mapError .rules
      let base ← (addInline loaded.base c.rules.inline).mapError .rules
      c.assemble w base
    ⟨loaded.reported, result⟩

end Config

end FuzzyInference

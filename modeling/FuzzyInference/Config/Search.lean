import FuzzyInference.Config.Form
import FuzzyInference.Environment

/-! Where a configuration is found when none is named, and what the environment changes in it. -/

namespace FuzzyInference

namespace Environment

/-- The places of configurations, of which the first that exists is used: of the project, of the user,
of the user at its former place, and of the system. -/
def configPaths (e : Environment) : List String :=
  ["./fuzzylogic.toml"]
    ++ (e.configHome?.map fun d => Path.join (Path.join d "fuzzylogic") "config.toml").toList
    ++ (e.home?.map fun d => Path.join (Path.join d ".fuzzylogic") "config.toml").toList
    ++ ["/etc/fuzzylogic/config.toml"]

/-- A count that 64 bits hold. A plus sign may stand before the digits. -/
def count? (s : String) : Option Nat :=
  let ds := match s.toList with
    | '+' :: ds => ds
    | ds => ds
  if ds ≠ [] ∧ ds.all Char.isDigit ∧ Literal.digitsValue ds < Nat.pow 2 64 then
    some (Literal.digitsValue ds)
  else none

/-- The value of a setting. What cannot be read changes nothing. -/
def setting {β : Type} (e : Environment) (name : String) (read : String → Option β)
    (otherwise : β) : β :=
  ((e.get? name).bind read).getD otherwise

end Environment

namespace Config

def override {α : Type} (e : Environment) (c : Config α) : Config α :=
  { c with
    general :=
      { verbosity := e.setting "FUZZY_LOG_LEVEL" Verbosity.ofName? c.general.verbosity
        format := e.setting "FUZZY_FORMAT" ReportFormat.ofName? c.general.format }
    engine := { c.engine with
      mode := e.setting "FUZZY_MODE" Mode.ofName? c.engine.mode
      sampling := e.setting "FUZZY_DEFUZZIFIER" Sampling.ofName? c.engine.sampling
      samples := e.setting "FUZZY_SAMPLES" Environment.count? c.engine.samples } }

/-- The first configuration found, or the default one, with the changes of the environment. -/
def find (e : Environment) (files : Files) : Except ConfigError (Config Float) := do
  let found ← match e.configPaths.find? files.pathExists with
    | some path => load files path
    | none => .ok {}
  .ok (found.override e)

end Config

end FuzzyInference

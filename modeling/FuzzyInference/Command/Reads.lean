import FuzzyInference.Command.Run

/-! The files that a command looks at. Which rule file it is can depend on the configuration, so a
second look at more files may name more. -/

namespace FuzzyInference.Command

def Task.paths (files : Files) (c : Option (Config Float)) : Task → List String
  | .evaluate _ rules _ => (c.bind fun c => (withRules files rules c).rulesFile?).toList
  | .check path => [path]
  | .writeSample output _ => output.toList

/-- The paths that a command line leads to, as far as the files already known tell. -/
def paths (e : Environment) (files : Files) (arguments : List String) : List String :=
  match Request.ofArguments arguments with
  | .ok (.perform o task) =>
    let configs := match o.config with
      | some path => [path]
      | none => e.configPaths
    configs ++ task.paths files (o.configured e files).toOption
  | _ => []

end FuzzyInference.Command

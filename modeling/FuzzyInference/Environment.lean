import FuzzyInference.Files.Path

/-! The variables that a process is started with. -/

namespace FuzzyInference

structure Environment where
  bindings : List (String × String) := []

namespace Environment

def get? (e : Environment) (name : String) : Option String := e.bindings.lookup name

/-- The home directory, unless it is left empty. -/
def home? (e : Environment) : Option String :=
  match e.get? "HOME" with
  | some "" | none => none
  | some home => some home

/-- The directory of user configurations: a place of its own, if that is absolute, or one in the home
directory. -/
def configHome? (e : Environment) : Option String :=
  match e.get? "XDG_CONFIG_HOME" with
  | some place =>
    if Path.isAbsolute place then some place else e.home?.map fun home => Path.join home ".config"
  | none => e.home?.map fun home => Path.join home ".config"

end Environment

end FuzzyInference

import FuzzyInference.Config.Form

/-! An example of a configuration, to start from. -/

namespace FuzzyInference.Config

def sampleText : String := "\n".intercalate
  ["# fuzzylogic configuration file",
   "# Describes a complete fuzzy system: engine settings, variables and rules.",
   "",
   "[general]",
   "# Logging level: quiet, normal, verbose, debug",
   "log_level = \"normal\"",
   "# Output format for results: text, json",
   "format = \"text\"",
   "",
   "[engine]",
   "# Inference mode: mamdani, sugeno",
   "mode = \"mamdani\"",
   "# T-norm for AND: min, product, lukasiewicz",
   "and = \"min\"",
   "# S-norm for OR: max, bounded_sum, probabilistic_sum",
   "or = \"max\"",
   "# Mamdani implication: min, product",
   "implication = \"min\"",
   "# Mamdani aggregation across rules: max, bounded_sum, probabilistic_sum",
   "aggregation = \"max\"",
   "# Defuzzifier (mamdani only): centroid, mean_of_max",
   "defuzzifier = \"centroid\"",
   "# Domain samples for defuzzification (>= 3)",
   "samples = 1001",
   "",
   "# Variables: shape is triangular (3 params) or trapezoidal (4 params)",
   "[[variables]]",
   "name = \"Speed\"",
   "start = 0.0",
   "end = 200.0",
   "sets = [",
   "    \x7b label = \"Slow\", shape = \"trapezoidal\", params = [0.0, 0.0, 40.0, 60.0] \x7d,",
   "    \x7b label = \"Normal\", shape = \"triangular\", params = [50.0, 80.0, 110.0] \x7d,",
   "    \x7b label = \"Fast\", shape = \"trapezoidal\", params = [100.0, 140.0, 200.0, 200.0] \x7d,",
   "]",
   "",
   "[[variables]]",
   "name = \"RoadCondition\"",
   "start = 0.0",
   "end = 10.0",
   "sets = [",
   "    \x7b label = \"Bad\", shape = \"triangular\", params = [0.0, 0.0, 4.0] \x7d,",
   "    \x7b label = \"Wet\", shape = \"triangular\", params = [2.0, 5.0, 8.0] \x7d,",
   "    \x7b label = \"Good\", shape = \"triangular\", params = [6.0, 10.0, 10.0] \x7d,",
   "]",
   "",
   "[[variables]]",
   "name = \"Visibility\"",
   "start = 0.0",
   "end = 1000.0",
   "sets = [",
   "    \x7b label = \"Poor\", shape = \"trapezoidal\", params = [0.0, 0.0, 100.0, 300.0] \x7d,",
   "    \x7b label = \"Foggy\", shape = \"trapezoidal\", params = [200.0, 400.0, 600.0, 800.0] \x7d,",
   "    \x7b label = \"Clear\", shape = \"trapezoidal\", params = [700.0, 900.0, 1000.0, 1000.0] \x7d,",
   "]",
   "",
   "[[variables]]",
   "name = \"AccidentRisk\"",
   "start = 0.0",
   "end = 100.0",
   "sets = [",
   "    \x7b label = \"Low\", shape = \"triangular\", params = [0.0, 0.0, 25.0] \x7d,",
   "    \x7b label = \"Medium\", shape = \"triangular\", params = [20.0, 40.0, 60.0] \x7d,",
   "    \x7b label = \"High\", shape = \"triangular\", params = [50.0, 70.0, 90.0] \x7d,",
   "    \x7b label = \"Extreme\", shape = \"triangular\", params = [80.0, 100.0, 100.0] \x7d,",
   "]",
   "",
   "[rules]",
   "# Optional rule file, one rule per line (relative to this file)",
   "# file = \"driver_risk.rules\"",
   "inline = [",
   "    \"IF Speed IS Fast AND Visibility IS Poor THEN AccidentRisk IS Extreme\",",
   "    \"IF Speed IS Normal AND RoadCondition IS Good AND Visibility IS Clear THEN AccidentRisk IS Low\",",
   "    \"IF RoadCondition IS Wet AND Visibility IS Foggy THEN AccidentRisk IS Medium\",",
   "    \"IF Speed IS Fast AND RoadCondition IS Bad THEN AccidentRisk IS High\",",
   "]",
   ""]

/-- The configuration that the example describes. -/
def sample : Config Float :=
  match ofToml textPath sampleText with
  | .ok c => c
  | .error _ => {}

end FuzzyInference.Config

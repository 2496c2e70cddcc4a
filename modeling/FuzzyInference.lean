import FuzzyInference.Command.Arguments
import FuzzyInference.Command.Reads
import FuzzyInference.Command.Request
import FuzzyInference.Command.Run
import FuzzyInference.Command.Usage
import FuzzyInference.Config.Basic
import FuzzyInference.Config.Build
import FuzzyInference.Config.Form
import FuzzyInference.Config.Sample
import FuzzyInference.Config.Search
import FuzzyInference.Config.Setting
import FuzzyInference.Data.Basic
import FuzzyInference.Data.Decode
import FuzzyInference.Data.Json.Reader
import FuzzyInference.Data.Json.Writer
import FuzzyInference.Data.Toml.Number
import FuzzyInference.Data.Toml.Quoted
import FuzzyInference.Data.Toml.Reader
import FuzzyInference.Data.Toml.Table
import FuzzyInference.Data.Toml.Writer
import FuzzyInference.Decimal.Binary64
import FuzzyInference.Decimal.Literal
import FuzzyInference.Decimal.Shortest
import FuzzyInference.Decimal.Style
import FuzzyInference.Defuzzify
import FuzzyInference.Diagnostic
import FuzzyInference.Engine.Assembly
import FuzzyInference.Engine.Basic
import FuzzyInference.Environment
import FuzzyInference.Fault.Basic
import FuzzyInference.Fault.Code
import FuzzyInference.Fault.Document
import FuzzyInference.Files.Basic
import FuzzyInference.Files.Path
import FuzzyInference.Inference.Mamdani
import FuzzyInference.Inference.Strength
import FuzzyInference.Inference.Sugeno
import FuzzyInference.Keyed
import FuzzyInference.Main
import FuzzyInference.Mode
import FuzzyInference.Operator
import FuzzyInference.Proofs.Aggregation
import FuzzyInference.Proofs.Balance
import FuzzyInference.Proofs.Building
import FuzzyInference.Proofs.Checking
import FuzzyInference.Proofs.Conditions
import FuzzyInference.Proofs.Defects
import FuzzyInference.Proofs.Degrees
import FuzzyInference.Proofs.Descriptions
import FuzzyInference.Proofs.Editing
import FuzzyInference.Proofs.EngineSafety
import FuzzyInference.Proofs.Evaluation
import FuzzyInference.Proofs.Fallback
import FuzzyInference.Proofs.Fallible
import FuzzyInference.Proofs.Faults
import FuzzyInference.Proofs.Files
import FuzzyInference.Proofs.Grammar
import FuzzyInference.Proofs.Inference
import FuzzyInference.Proofs.InputNames
import FuzzyInference.Proofs.Joining
import FuzzyInference.Proofs.Keyed
import FuzzyInference.Proofs.Labels
import FuzzyInference.Proofs.Legibility
import FuzzyInference.Proofs.LetterCase
import FuzzyInference.Proofs.Lines
import FuzzyInference.Proofs.Literals
import FuzzyInference.Proofs.Loading
import FuzzyInference.Proofs.Lookup
import FuzzyInference.Proofs.LowerCase
import FuzzyInference.Proofs.Noninterference
import FuzzyInference.Proofs.OutputShape
import FuzzyInference.Proofs.Outputs
import FuzzyInference.Proofs.Partition
import FuzzyInference.Proofs.Paths
import FuzzyInference.Proofs.Positivity
import FuzzyInference.Proofs.Printing
import FuzzyInference.Proofs.Readings
import FuzzyInference.Proofs.Reports
import FuzzyInference.Proofs.Rescaling
import FuzzyInference.Proofs.RuleEquality
import FuzzyInference.Proofs.RuleFiles
import FuzzyInference.Proofs.RuleOrder
import FuzzyInference.Proofs.RuleText
import FuzzyInference.Proofs.Sampling
import FuzzyInference.Proofs.Session
import FuzzyInference.Proofs.Shapes
import FuzzyInference.Proofs.Vocabularies
import FuzzyInference.Proofs.WeightMonotonicity
import FuzzyInference.Proofs.WeightedMeans
import FuzzyInference.Proofs.Words
import FuzzyInference.Reading
import FuzzyInference.Rule.Basic
import FuzzyInference.Rule.Language
import FuzzyInference.Rule.Token
import FuzzyInference.RuleBase
import FuzzyInference.Scalar
import FuzzyInference.Scalar.Binary64
import FuzzyInference.Scalar.Rational
import FuzzyInference.Shape.Basic
import FuzzyInference.Shape.Segment
import FuzzyInference.Text.CaseTable
import FuzzyInference.Text.Hexadecimal
import FuzzyInference.Text.Line
import FuzzyInference.Text.LowerCase
import FuzzyInference.Variable
import FuzzyInference.Vocabulary

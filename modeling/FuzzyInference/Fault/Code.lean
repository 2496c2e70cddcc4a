/-! The catalogue of faults. A code has a number whose thousands give its category. -/

namespace FuzzyInference

inductive Category where
  | construction
  | parse
  | evaluation
  | io
  | config
  | internal
deriving DecidableEq, Repr

inductive Code where
  | constructionError
  | invalidShape
  | invalidSampleCount
  | missingBuilderField
  | invalidDomain
  | duplicateSet
  | parseError
  | missingIf
  | missingThen
  | missingIs
  | missingEquals
  | unknownVariable
  | unknownFuzzySet
  | invalidNumber
  | unknownOperator
  | unexpectedEnd
  | evaluationError
  | unknownSetAtEvaluation
  | consequentMismatch
  | unknownInput
  | modeMismatch
  | ruleIndexOutOfRange
  | ioError
  | fileNotFound
  | configError
  | invalidConfigSyntax
  | invalidConfigValue
  | internalError
deriving DecidableEq, Repr

namespace Category

def name : Category → String
  | .construction => "construction"
  | .parse => "parse"
  | .evaluation => "evaluation"
  | .io => "io"
  | .config => "config"
  | .internal => "internal"

end Category

namespace Code

def all : List Code :=
  [.constructionError, .invalidShape, .invalidSampleCount, .missingBuilderField, .invalidDomain,
   .duplicateSet, .parseError, .missingIf, .missingThen, .missingIs, .missingEquals,
   .unknownVariable, .unknownFuzzySet, .invalidNumber, .unknownOperator, .unexpectedEnd,
   .evaluationError, .unknownSetAtEvaluation, .consequentMismatch, .unknownInput, .modeMismatch,
   .ruleIndexOutOfRange, .ioError, .fileNotFound, .configError, .invalidConfigSyntax,
   .invalidConfigValue, .internalError]

def number : Code → Nat
  | .constructionError => 1000
  | .invalidShape => 1001
  | .invalidSampleCount => 1002
  | .missingBuilderField => 1003
  | .invalidDomain => 1004
  | .duplicateSet => 1005
  | .parseError => 2000
  | .missingIf => 2001
  | .missingThen => 2002
  | .missingIs => 2003
  | .missingEquals => 2004
  | .unknownVariable => 2005
  | .unknownFuzzySet => 2006
  | .invalidNumber => 2007
  | .unknownOperator => 2008
  | .unexpectedEnd => 2009
  | .evaluationError => 3000
  | .unknownSetAtEvaluation => 3001
  | .consequentMismatch => 3002
  | .unknownInput => 3003
  | .modeMismatch => 3004
  | .ruleIndexOutOfRange => 3005
  | .ioError => 4000
  | .fileNotFound => 4001
  | .configError => 7000
  | .invalidConfigSyntax => 7001
  | .invalidConfigValue => 7002
  | .internalError => 9000

/-- The name of a code in machine-readable reports. -/
def name : Code → String
  | .constructionError => "CONSTRUCTION_ERROR"
  | .invalidShape => "INVALID_SHAPE"
  | .invalidSampleCount => "INVALID_SAMPLE_COUNT"
  | .missingBuilderField => "MISSING_BUILDER_FIELD"
  | .invalidDomain => "INVALID_DOMAIN"
  | .duplicateSet => "DUPLICATE_SET"
  | .parseError => "PARSE_ERROR"
  | .missingIf => "MISSING_IF"
  | .missingThen => "MISSING_THEN"
  | .missingIs => "MISSING_IS"
  | .missingEquals => "MISSING_EQUALS"
  | .unknownVariable => "UNKNOWN_VARIABLE"
  | .unknownFuzzySet => "UNKNOWN_FUZZY_SET"
  | .invalidNumber => "INVALID_NUMBER"
  | .unknownOperator => "UNKNOWN_OPERATOR"
  | .unexpectedEnd => "UNEXPECTED_END"
  | .evaluationError => "EVALUATION_ERROR"
  | .unknownSetAtEvaluation => "UNKNOWN_SET_AT_EVALUATION"
  | .consequentMismatch => "CONSEQUENT_MISMATCH"
  | .unknownInput => "UNKNOWN_INPUT"
  | .modeMismatch => "MODE_MISMATCH"
  | .ruleIndexOutOfRange => "RULE_INDEX_OUT_OF_RANGE"
  | .ioError => "IO_ERROR"
  | .fileNotFound => "FILE_NOT_FOUND"
  | .configError => "CONFIG_ERROR"
  | .invalidConfigSyntax => "INVALID_CONFIG_SYNTAX"
  | .invalidConfigValue => "INVALID_CONFIG_VALUE"
  | .internalError => "INTERNAL_ERROR"

def description : Code → String
  | .constructionError => "Construction error"
  | .invalidShape => "Invalid membership function shape"
  | .invalidSampleCount => "Invalid sample count"
  | .missingBuilderField => "Missing required builder field"
  | .invalidDomain => "Invalid variable domain"
  | .duplicateSet => "Duplicate fuzzy set label"
  | .parseError => "Rule parse error"
  | .missingIf => "Rule must start with IF"
  | .missingThen => "Expected THEN keyword"
  | .missingIs => "Expected IS"
  | .missingEquals => "Expected ="
  | .unknownVariable => "Unknown variable"
  | .unknownFuzzySet => "Unknown fuzzy set"
  | .invalidNumber => "Invalid numeric value"
  | .unknownOperator => "Unknown logical operator"
  | .unexpectedEnd => "Unexpected end of rule"
  | .evaluationError => "Evaluation error"
  | .unknownSetAtEvaluation => "Unknown fuzzy set at evaluation"
  | .consequentMismatch => "Consequent does not match inference engine"
  | .unknownInput => "Unknown input variable"
  | .modeMismatch => "Inference mode mismatch"
  | .ruleIndexOutOfRange => "Rule index out of range"
  | .ioError => "I/O error"
  | .fileNotFound => "File not found"
  | .configError => "Configuration error"
  | .invalidConfigSyntax => "Invalid configuration syntax"
  | .invalidConfigValue => "Invalid configuration value"
  | .internalError => "Internal error"

def category (c : Code) : Category :=
  match c.number / 1000 with
  | 1 => .construction
  | 2 => .parse
  | 3 => .evaluation
  | 4 => .io
  | 7 => .config
  | _ => .internal

def ofName? (s : String) : Option Code := all.find? fun c => c.name == s

theorem mem_all (c : Code) : c ∈ all := by cases c <;> decide

theorem ofName?_name (c : Code) : ofName? c.name = some c := by cases c <;> decide +kernel

end Code

end FuzzyInference

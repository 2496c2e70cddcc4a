import FuzzyInference.Rule.Basic
import FuzzyInference.Rule.Token

/-! Reading rules. Keywords are positional and in any case; names are looked up in a vocabulary and
labels on their variable. -/

namespace FuzzyInference

/-- What a rule lacks where it stops or goes astray. -/
inductive Expected where
  | variableName
  | is
  | setLabel
  | outputName
  | equals
  | value
  | commaOrEnd
deriving DecidableEq, Repr

/-- What is wrong with the text of a rule. -/
inductive Defect where
  | missingIf
  | missingThen
  | missingIs (variableName found : String)
  | missingEquals (variableName found : String)
  | unexpectedEnd (expected : Expected)
  | unknownOperator (found : String)
  | invalidNumber (found : String)
  | unexpectedToken (found : String) (expected : Expected)
  | unknownVariable (name : String)
  | unknownSet (variableName label : String)
deriving DecidableEq, Repr

structure RuleError where
  defect : Defect
  line : String
deriving DecidableEq, Repr

namespace Expected

def text : Expected → String
  | .variableName => "variable name"
  | .is => "IS"
  | .setLabel => "fuzzy set label"
  | .outputName => "output variable name"
  | .equals => "="
  | .value => "numeric value"
  | .commaOrEnd => "',' or end of rule"

end Expected

namespace Defect

def code : Defect → Code
  | .missingIf => .missingIf
  | .missingThen => .missingThen
  | .missingIs .. => .missingIs
  | .missingEquals .. => .missingEquals
  | .unexpectedEnd _ => .unexpectedEnd
  | .unknownOperator _ => .unknownOperator
  | .invalidNumber _ => .invalidNumber
  | .unexpectedToken .. => .parseError
  | .unknownVariable _ => .unknownVariable
  | .unknownSet .. => .unknownFuzzySet

def message : Defect → String
  | .missingIf => "Rule must start with IF"
  | .missingThen => "Expected THEN keyword in rule"
  | .missingIs variableName found => s!"Expected 'IS' after '{variableName}', found '{found}'"
  | .missingEquals variableName found => s!"Expected '=' after '{variableName}', found '{found}'"
  | .unexpectedEnd expected => "Unexpected end of rule, expected " ++ expected.text
  | .unknownOperator found => s!"Unknown logical operator: {found}"
  | .invalidNumber found => s!"Invalid numeric value in Sugeno consequent: {found}"
  | .unexpectedToken found expected =>
    "Unexpected token '" ++ found ++ "', expected " ++ expected.text
  | .unknownVariable name => (Fault.unknownVariable name).message
  | .unknownSet variableName label => (Fault.unknownSet variableName label).message

def fault (d : Defect) : Fault := { code := d.code, message := d.message }

end Defect

def RuleError.fault (e : RuleError) : Fault := e.defect.fault.withContext "line" e.line

/-- The rules of one method of inference about the variables of one vocabulary. -/
structure RuleLanguage (α : Type) [Scalar α] where
  vocabulary : Vocabulary α
  mode : Mode

namespace Vocabulary

variable {α : Type} [Scalar α]

def resolve (w : Vocabulary α) (name : String) : Except Defect (Variable α) :=
  match w.get? name with
  | some v => .ok v
  | none => .error (.unknownVariable name)

theorem resolve_eq_ok_iff {w : Vocabulary α} {name : String} {v : Variable α} :
    w.resolve name = .ok v ↔ w.get? name = some v := by
  unfold resolve
  cases w.get? name <;> simp

end Vocabulary

namespace Consequent

variable {α : Type} [Scalar α]

/-- The conclusion that a variable is in the set of the given label. -/
def ofLabel (v : Variable α) (label : String) : Except Defect (Consequent α) :=
  match v.set? label with
  | some s => .ok (.fuzzy v s)
  | none => .error (.unknownSet v.name label)

end Consequent

namespace RuleLanguage

variable {α : Type} [Scalar α] [Numeral α] (l : RuleLanguage α)

def isWord (word token : String) : Bool := Text.eqIgnoringCase token word

/-- A condition takes the spelling of the set that its label means. -/
def antecedent (name label : String) : Except Defect (Antecedent α) := do
  let v ← l.vocabulary.resolve name
  match v.set? label with
  | some s => .ok ⟨v, s.label⟩
  | none => .error (.unknownSet v.name label)

/-- The finite number that a token writes. -/
def number? (token : String) : Option α :=
  ((Literal.read? token.toList).map Numeral.ofLiteral).filter Scalar.isFinite

def consequent (name value : String) : Except Defect (Consequent α) :=
  match l.mode with
  | .mamdani => do Consequent.ofLabel (← l.vocabulary.resolve name) value
  | .sugeno =>
    match number? value with
    | none => .error (.invalidNumber value)
    | some x => do .ok (.crisp (← l.vocabulary.resolve name) x)

/-- What stands between the name and the value of a conclusion. -/
def relation : Expected :=
  match l.mode with
  | .mamdani => .is
  | .sugeno => .equals

/-- What a conclusion says of its variable. -/
def conclusionValue : Expected :=
  match l.mode with
  | .mamdani => .setLabel
  | .sugeno => .value

def checkRelation (name token : String) : Except Defect Unit :=
  match l.mode with
  | .mamdani => if isWord "IS" token then .ok () else .error (.missingIs name token)
  | .sugeno => if token = "=" then .ok () else .error (.missingEquals name token)

/-- Conditions up to and including THEN, with what follows it. -/
def conditions : List String →
    Except Defect (List (Antecedent α) × List Connective × List String)
  | [] => .error (.unexpectedEnd .variableName)
  | [_] => .error (.unexpectedEnd .is)
  | name :: keyword :: rest =>
    if isWord "IS" keyword then
      match rest with
      | [] => .error (.unexpectedEnd .setLabel)
      | label :: rest => do
        let a ← l.antecedent name label
        match rest with
        | [] => .error .missingThen
        | token :: rest =>
          if isWord "THEN" token then .ok ([a], [], rest)
          else
            match Connective.ofKeyword? token with
            | none => .error (.unknownOperator token)
            | some c => do
              let (as, cs, tail) ← conditions rest
              .ok (a :: as, c :: cs, tail)
    else .error (.missingIs name keyword)

/-- Conclusions up to the end of the rule. -/
def conclusions : List String → Except Defect (List (Consequent α))
  | [] => .error (.unexpectedEnd .outputName)
  | [_] => .error (.unexpectedEnd l.relation)
  | name :: token :: rest => do
    l.checkRelation name token
    match rest with
    | [] => .error (.unexpectedEnd l.conclusionValue)
    | value :: rest => do
      let c ← l.consequent name value
      match rest with
      | [] => .ok [c]
      | token :: rest =>
        if token = "," then do
          let cs ← conclusions rest
          .ok (c :: cs)
        else .error (.unexpectedToken token .commaOrEnd)

/-- A rule may have no condition: THEN directly behind IF is the keyword. -/
def ofTokens : List String → Except Defect (Rule α)
  | [] => .error .missingIf
  | first :: rest =>
    if isWord "IF" first then do
      let (antecedents, connectives, tail) ←
        match rest with
        | token :: tail => if isWord "THEN" token then .ok ([], [], tail) else l.conditions rest
        | [] => l.conditions rest
      let consequents ← l.conclusions tail
      .ok { antecedents, connectives, consequents }
    else .error .missingIf

def parse (line : String) : Except RuleError (Rule α) :=
  (l.ofTokens (Rule.tokenize line)).mapError fun defect => ⟨defect, line⟩

end RuleLanguage

end FuzzyInference

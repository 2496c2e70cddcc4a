import FuzzyInference.Shape.Segment
import FuzzyInference.Fault.Basic
import FuzzyInference.Text.LowerCase

/-! Membership functions: triangles and trapezoids given by their corners. A shape is checked once,
when it is made, and carries what was checked. -/

namespace FuzzyInference

inductive Kind where
  | triangular
  | trapezoidal
deriving DecidableEq, Repr

/-- Where a membership function leaves zero, is one, and is back at zero, from left to right. -/
inductive Corners (α : Type) where
  | triangle (left peak right : α)
  | trapezoid (left leftTop rightTop right : α)

inductive ShapeError (α : Type) where
  | notFinite (corners : Corners α)
  | disordered (corners : Corners α)
  /-- All corners fall together. -/
  | degenerate (corners : Corners α)
  | wrongCount (kind : Kind) (given : Nat)
  | unknownKind (kind : String)

namespace Kind

def name : Kind → String
  | .triangular => "triangular"
  | .trapezoidal => "trapezoidal"

def title : Kind → String
  | .triangular => "Triangular"
  | .trapezoidal => "Trapezoidal"

def cornerCount : Kind → Nat
  | .triangular => 3
  | .trapezoidal => 4

def ofName? (s : String) : Option Kind :=
  match Text.lowerCase s with
  | "triangular" => some .triangular
  | "trapezoidal" => some .trapezoidal
  | _ => none

end Kind

namespace Corners

variable {α : Type}

def kind : Corners α → Kind
  | .triangle .. => .triangular
  | .trapezoid .. => .trapezoidal

def toList : Corners α → List α
  | .triangle a b c => [a, b, c]
  | .trapezoid a b c d => [a, b, c, d]

def ofList? : Kind → List α → Option (Corners α)
  | .triangular, [a, b, c] => some (.triangle a b c)
  | .trapezoidal, [a, b, c, d] => some (.trapezoid a b c d)
  | _, _ => none

/-- The interval outside which the degree is zero. -/
def support : Corners α → α × α
  | .triangle a _ c => (a, c)
  | .trapezoid a _ _ d => (a, d)

/-- The interval on which the degree is one, inside the support. -/
def core : Corners α → α × α
  | .triangle _ b _ => (b, b)
  | .trapezoid _ b c _ => (b, c)

/-- The corners separated by commas. -/
def text [Numeral α] (cs : Corners α) (separator : String) : String :=
  separator.intercalate (cs.toList.map Numeral.text)

variable [Scalar α]

def Ordered : Corners α → Prop
  | .triangle a b c => a ≤ b ∧ b ≤ c
  | .trapezoid a b c d => a ≤ b ∧ b ≤ c ∧ c ≤ d

instance : (cs : Corners α) → Decidable cs.Ordered
  | .triangle a b c => inferInstanceAs (Decidable (a ≤ b ∧ b ≤ c))
  | .trapezoid a b c d => inferInstanceAs (Decidable (a ≤ b ∧ b ≤ c ∧ c ≤ d))

def degenerate : Corners α → Bool
  | .triangle a b c => a == b && b == c
  | .trapezoid a b c d => a == b && b == c && c == d

def finite (cs : Corners α) : Bool := cs.toList.all Scalar.isFinite

end Corners

/-- A membership function with finite corners, in order and not all equal. -/
structure Shape (α : Type) [Scalar α] where
  corners : Corners α
  finite : corners.finite = true
  ordered : corners.Ordered
  spread : corners.degenerate = false

namespace Shape

variable {α : Type} [Scalar α]

def ofCorners (cs : Corners α) : Except (ShapeError α) (Shape α) :=
  if hf : cs.finite = true then
    if ho : cs.Ordered then
      if hs : cs.degenerate = false then .ok ⟨cs, hf, ho, hs⟩ else .error (.degenerate cs)
    else .error (.disordered cs)
  else .error (.notFinite cs)

/-- A shape given by the name of its kind, in any case, and its corners from left to right. -/
def ofName (kind : String) (corners : List α) : Except (ShapeError α) (Shape α) :=
  match Kind.ofName? kind with
  | none => .error (.unknownKind kind)
  | some k =>
    match Corners.ofList? k corners with
    | none => .error (.wrongCount k corners.length)
    | some cs => ofCorners cs

/-- The slopes; a vertical side has none. -/
def segments (s : Shape α) : List (Segment α) :=
  let (left, right) := s.corners.support
  let (leftTop, rightTop) := s.corners.core
  (if left < leftTop then [Segment.through left 0 leftTop 1] else [])
    ++ if rightTop < right then [Segment.through rightTop 1 right 0] else []

def onSlope (s : Shape α) (x : α) : α :=
  match s.segments.find? (·.covers x) with
  | some segment => Scalar.clamp 0 1 (segment.height x)
  | none => 0

/-- The degree to which `x` belongs. The ends of the support have degree zero, also where a side is
vertical. -/
def degree (s : Shape α) (x : α) : α :=
  match s.corners with
  | .triangle a b c => if x ≤ a ∨ c ≤ x then 0 else if x == b then 1 else s.onSlope x
  | .trapezoid a b c d => if x ≤ a ∨ d ≤ x then 0 else if b ≤ x ∧ x ≤ c then 1 else s.onSlope x

def text [Numeral α] (s : Shape α) : String :=
  s.corners.kind.title ++ "(" ++ s.corners.text "," ++ ")"

end Shape

namespace ShapeError

variable {α : Type} [Numeral α]

/-- Stands for the place of the check that a shape failed. -/
def checkLocation : String := "<loc>"

def fault : ShapeError α → Fault
  | .notFinite cs => .invalidShape
      ("Membership function parameters must be finite: ["
        ++ ", ".intercalate (cs.toList.map Numeral.memberText) ++ "]")
  | .disordered cs =>
    let order := match cs.kind with
      | .triangular => "a <= b <= c"
      | .trapezoidal => "a <= b <= c <= d"
    Fault.located (.invalidShape
      (cs.kind.title ++ " MF requires " ++ order ++ " (got " ++ cs.text ", " ++ ")")) checkLocation
  | .degenerate cs => Fault.located (.invalidShape
      ("Invalid " ++ cs.kind.name ++ " MF: all points equal (" ++ Numeral.text cs.support.1 ++ ")"))
      checkLocation
  | .wrongCount kind given => .invalidShape
      (kind.title ++ " MF requires " ++ toString kind.cornerCount ++ " parameters (got "
        ++ toString given ++ ")")
  | .unknownKind kind =>
    Fault.withHint (.invalidShape s!"Invalid MF type: {kind}")
      "Supported types: triangular, trapezoidal"

end ShapeError

end FuzzyInference

import Rebate.Decimal.Numeral
import Rebate.Text.Blank

/-!
Values are numbers, truth values and texts. A text stands for a number if it spells one between
blanks, and for a truth value if it is exactly `true` or `false`. Every value has a text.
-/

set_option autoImplicit false
set_option relaxedAutoImplicit false

namespace Rebate

inductive Kind where
  | number
  | boolean
  | text
deriving DecidableEq, Repr

instance : ToString Kind where
  toString
    | .number => "number"
    | .boolean => "boolean"
    | .text => "text"

inductive Value where
  | number (a : Decimal)
  | boolean (b : Bool)
  | text (s : String)
deriving DecidableEq

namespace Value

def kind : Value → Kind
  | number _ => .number
  | boolean _ => .boolean
  | text _ => .text

def truth? (s : String) : Option Bool :=
  if s = "true" then some true else if s = "false" then some false else none

/-- The number that a value stands for. A truth value stands for none. -/
def toDecimal? : Value → Option Decimal
  | number a => some a
  | boolean _ => none
  | text s => Decimal.ofChars? (Text.trim s.toList)

/-- The truth value that a value stands for. A number stands for none. -/
def toBool? : Value → Option Bool
  | number _ => none
  | boolean b => some b
  | text s => truth? s

def toText : Value → String
  | number a => toString a
  | boolean b => if b then "true" else "false"
  | text s => s

instance : ToString Value where
  toString
    | text s => "\"" ++ s ++ "\""
    | v => v.toText

def Equiv : Value → Value → Prop
  | number a, number b => a ≈ b
  | boolean a, boolean b => a = b
  | text s, text t => s = t
  | _, _ => False

instance : HasEquiv Value where
  Equiv := Equiv

instance (v w : Value) : Decidable (v ≈ w) := by
  show Decidable (Equiv v w)
  cases v <;> cases w <;> unfold Equiv <;> infer_instance

end Value

end Rebate

import Rebate.Decimal.Basic
import Rebate.Text.Keyword

/-!
The five relations that a condition can ask for between two operands.
-/

set_option autoImplicit false
set_option relaxedAutoImplicit false

namespace Rebate

inductive Relation where
  | gt
  | lt
  | eq
  | ge
  | le
deriving DecidableEq, Repr

namespace Relation

def symbol : Relation → Text.Keyword
  | gt => { word := ['>'] }
  | lt => { word := ['<'] }
  | eq => { word := ['='] }
  | ge => { word := ['>', '='] }
  | le => { word := ['<', '='] }

/-- The relations in the order in which a text is searched for them. The symbols of two characters
come before those they contain. -/
def searchOrder : List Relation :=
  [ge, le, gt, lt, eq]

instance : ToString Relation where
  toString r := String.ofList r.symbol.word

def Holds : Relation → Decimal → Decimal → Prop
  | gt, a, b => b < a
  | lt, a, b => a < b
  | eq, a, b => a ≈ b
  | ge, a, b => b ≤ a
  | le, a, b => a ≤ b

instance (r : Relation) (a b : Decimal) : Decidable (r.Holds a b) := by
  cases r <;> unfold Holds <;> infer_instance

end Relation

end Rebate

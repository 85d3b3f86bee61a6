import Rebate.Fault

/-!
The left value of a comparison decides how the two are compared. A number is compared with the
number that the right value stands for, a truth value with the truth value it stands for, and a
text with its text. Truth values and texts have no order.
-/

set_option autoImplicit false
set_option relaxedAutoImplicit false

namespace Rebate.Value

def requireEq (r : Relation) (kind : Kind) : Except Fault Unit :=
  if r = .eq then .ok () else .error (.unsupportedComparison r kind)

def compare (left : Value) (r : Relation) (right : Value) : Except Fault Bool :=
  match left with
  | number a =>
    match right.toDecimal? with
    | some b => .ok (r.Holds a b)
    | none => .error (.typeMismatch (.comparison r) .number right.kind)
  | boolean a => do
    requireEq r .boolean
    match right.toBool? with
    | some b => .ok (a = b)
    | none => .error (.typeMismatch (.comparison r) .boolean right.kind)
  | text s => do
    requireEq r .text
    .ok (s = right.toText)

end Rebate.Value

import Rebate.Condition.Basic
import Rebate.Purchase
import Rebate.Value.Compare

/-!
What a condition comes to for a purchase. Parts are evaluated from left to right and the first
fault is the answer. A connective leaves out its right part if the left one decides alone.
-/

set_option autoImplicit false
set_option relaxedAutoImplicit false

namespace Rebate.Condition

/-- Takes a truth value, and nothing that only stands for one. -/
def requireBool (site : Site) : Value → Except Fault Bool
  | .boolean b => .ok b
  | v => .error (.typeMismatch site .boolean v.kind)

def eval (p : Purchase) : Condition → Except Fault Value
  | const v => .ok v
  | var name =>
    match p.get? name with
    | some v => .ok v
    | none => .error (.unknownVariable name)
  | compare left r right => do
    let v ← left.eval p
    let w ← right.eval p
    return .boolean (← v.compare r w)
  | join left c right => do
    let decided ← requireBool (.joint c) (← left.eval p)
    if decided = c.neutral then
      return .boolean (← requireBool (.joint c) (← right.eval p))
    else
      return .boolean decided
  | negate part => do
    let b ← requireBool .negation (← part.eval p)
    return .boolean (!b)

end Rebate.Condition

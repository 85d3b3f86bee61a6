import Rebate.Condition.Eval
import Rebate.Condition.Printer

/-!
A rule grants a discount to every purchase for which its condition holds. It keeps the text that it
was read from, and that text is how it is shown.
-/

set_option autoImplicit false
set_option relaxedAutoImplicit false

namespace Rebate

structure Rule where
  condition : Condition
  discount : Decimal
  source : String
deriving DecidableEq

namespace Rule

def evaluate (rule : Rule) (p : Purchase) : Except Fault (Option Decimal) := do
  match ← rule.condition.eval p with
  | .boolean true => return some rule.discount
  | .boolean false => return none
  | v => throw (.nonBooleanCondition v.kind)

instance : ToString Rule where
  toString := source

/-- Rules are equivalent if they are equal up to the scales of their numbers. -/
instance : HasEquiv Rule where
  Equiv a b := a.condition ≈ b.condition ∧ a.discount ≈ b.discount ∧ a.source = b.source

instance (a b : Rule) : Decidable (a ≈ b) :=
  inferInstanceAs
    (Decidable (a.condition ≈ b.condition ∧ a.discount ≈ b.discount ∧ a.source = b.source))

end Rule

end Rebate

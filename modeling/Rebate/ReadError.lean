/-!
Read errors are the reasons why a text is no rule.
-/

set_option autoImplicit false
set_option relaxedAutoImplicit false

namespace Rebate

inductive ReadError where
  | missingThen (found : Nat)
  | invalidDiscount (text : String)
  | unsupportedOperator (token : String)
  | emptyOperand (fragment : String)
  | tooDeeplyNested (depth max : Nat)
deriving DecidableEq, Repr

def ReadError.message : ReadError → String
  | missingThen found => s!"rule must contain exactly one 'ENTAO' keyword, found {found}"
  | invalidDiscount text => s!"invalid discount percentage '{text}'"
  | unsupportedOperator token => s!"unsupported operator in '{token}'"
  | emptyOperand fragment => s!"empty operand in '{fragment}'"
  | tooDeeplyNested depth max => s!"condition nests {depth} levels deep, the limit is {max}"

end Rebate

import Rebate.Condition.Basic

/-!
The text of a condition. Joint conditions stand in parentheses, which no rule text may use for
grouping, so that the text shows the shape of the tree.
-/

set_option autoImplicit false
set_option relaxedAutoImplicit false

namespace Rebate.Condition

def render : Condition → String
  | const v => toString v
  | var name => name
  | compare left r right => left.render ++ " " ++ toString r ++ " " ++ right.render
  | join left c right => "(" ++ left.render ++ " " ++ toString c ++ " " ++ right.render ++ ")"
  | negate part => String.ofList Negation.opening.word ++ part.render

instance : ToString Condition where
  toString := render

end Rebate.Condition

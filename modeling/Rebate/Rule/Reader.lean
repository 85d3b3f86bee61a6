import Rebate.Condition.Reader
import Rebate.Rule.Basic

/-!
Reading a rule. Its text is a condition and a percentage with one word between them. The number of
those words is looked at first, then the percentage, and the condition last.
-/

set_option autoImplicit false
set_option relaxedAutoImplicit false

namespace Rebate.Rule

open Text

def thenWord : Keyword where
  word := ['E', 'N', 'T', 'A', 'O']

def read (source : String) : Except ReadError Rule :=
  match thenWord.split source.toList with
  | [head, tail] =>
    let percentage := trim tail
    match Decimal.ofChars? percentage with
    | some discount => do
      let outline ← Outline.read (trim head)
      return { condition := outline.toCondition, discount, source }
    | none => .error (.invalidDiscount (String.ofList percentage))
  | pieces => .error (.missingThen (pieces.length - 1))

end Rebate.Rule

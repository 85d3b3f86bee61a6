import Rebate.Connective
import Rebate.Relation
import Rebate.Value.Basic

/-!
Faults are the reasons why a condition has no answer for a purchase.
-/

set_option autoImplicit false
set_option relaxedAutoImplicit false

namespace Rebate

/-- The part of a condition that asks for a value of one kind. -/
inductive Site where
  | comparison (relation : Relation)
  | joint (connective : Connective)
  | negation
deriving DecidableEq, Repr

instance : ToString Site where
  toString
    | .comparison relation => s!"comparison '{relation}'"
    | .joint connective => s!"'{connective}'"
    | .negation => "'" ++ String.ofList Negation.word ++ "'"

inductive Fault where
  | unknownVariable (name : String)
  | typeMismatch (site : Site) (expected found : Kind)
  | unsupportedComparison (relation : Relation) (kind : Kind)
  | nonBooleanCondition (found : Kind)
deriving DecidableEq, Repr

def Fault.message : Fault → String
  | unknownVariable name => s!"unknown variable '{name}'"
  | typeMismatch site expected found =>
    s!"type mismatch in {site}: expected {expected}, found {found}"
  | unsupportedComparison relation kind =>
    s!"operator '{relation}' is not supported for {kind} values"
  | nonBooleanCondition found => s!"rule condition must be boolean, found {found}"

end Rebate

import Rebate.Connective
import Rebate.Relation
import Rebate.Value.Basic

/-!
Conditions are trees of constants, variables, comparisons, connectives and negations. A tree may
have any shape and depth; the trees that are read from text have a normal form and bounded depth.
-/

set_option autoImplicit false
set_option relaxedAutoImplicit false

namespace Rebate

inductive Condition where
  | const (value : Value)
  | var (name : String)
  | compare (left : Condition) (relation : Relation) (right : Condition)
  | join (left : Condition) (connective : Connective) (right : Condition)
  | negate (part : Condition)
deriving DecidableEq

namespace Condition

def against (left : Condition) (r : Relation) (value : Value) : Condition :=
  compare left r (const value)

def negateTimes (part : Condition) : Nat → Condition
  | 0 => part
  | n + 1 => negate (part.negateTimes n)

/-- The parts joined by one connective, each one with the joint condition of all that follow it. -/
def chain (c : Connective) : List Condition → Condition
  | [] => const (.boolean c.neutral)
  | [part] => part
  | part :: next :: parts => join part c (chain c (next :: parts))

/-- Conditions are equivalent if they are equal up to the scales of their constants. -/
def Equiv : Condition → Condition → Prop
  | const v, const w => v ≈ w
  | var m, var n => m = n
  | compare a r b, compare a' r' b' => r = r' ∧ Equiv a a' ∧ Equiv b b'
  | join a c b, join a' c' b' => c = c' ∧ Equiv a a' ∧ Equiv b b'
  | negate a, negate a' => Equiv a a'
  | _, _ => False

instance : HasEquiv Condition where
  Equiv := Equiv

def decidableEquiv : (a b : Condition) → Decidable (Equiv a b)
  | const _, b => by cases b <;> unfold Equiv <;> infer_instance
  | var _, b => by cases b <;> unfold Equiv <;> infer_instance
  | compare left _ right, b => by
    have := decidableEquiv left
    have := decidableEquiv right
    cases b <;> unfold Equiv <;> infer_instance
  | join left _ right, b => by
    have := decidableEquiv left
    have := decidableEquiv right
    cases b <;> unfold Equiv <;> infer_instance
  | negate part, b => by
    have := decidableEquiv part
    cases b <;> unfold Equiv <;> infer_instance

instance (a b : Condition) : Decidable (a ≈ b) :=
  decidableEquiv a b

end Condition

end Rebate

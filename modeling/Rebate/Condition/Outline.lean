import Rebate.Condition.Basic

/-!
An outline is what the text of a condition says before it becomes a tree: groups joined by `OU`,
leaves of a group joined by `E`, and each leaf an operand or a comparison of two operands under a
number of negations. So an outline has no parentheses, and comparisons do not nest.
-/

set_option autoImplicit false
set_option relaxedAutoImplicit false

namespace Rebate

inductive Operand where
  | const (value : Value)
  | var (name : String)
deriving DecidableEq

def Operand.toCondition : Operand → Condition
  | const v => .const v
  | var name => .var name

inductive Atom where
  | single (operand : Operand)
  | comparison (left : Operand) (relation : Relation) (right : Operand)
deriving DecidableEq

def Atom.toCondition : Atom → Condition
  | single a => a.toCondition
  | comparison a r b => .compare a.toCondition r b.toCondition

structure Leaf where
  negations : Nat
  atom : Atom
deriving DecidableEq

def Leaf.toCondition (leaf : Leaf) : Condition :=
  leaf.atom.toCondition.negateTimes leaf.negations

abbrev Group := List Leaf

namespace Group

def toCondition (group : Group) : Condition :=
  .chain .and (group.map Leaf.toCondition)

/-- The nesting of a group: its most negations, and one level for each connective. -/
def nesting (group : Group) : Nat :=
  (group.map Leaf.negations).foldl max 0 + (group.length - 1)

end Group

abbrev Outline := List Group

namespace Outline

def toCondition (outline : Outline) : Condition :=
  .chain .or (outline.map Group.toCondition)

/-- The nesting of an outline: its most nested group, and one level for each connective. -/
def nesting (outline : Outline) : Nat :=
  (outline.map Group.nesting).foldl max 0 + (outline.length - 1)

def maxNesting : Nat :=
  256

end Outline

end Rebate

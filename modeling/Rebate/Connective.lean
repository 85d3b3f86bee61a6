import Rebate.Text.Keyword

/-!
The words that join and negate conditions. A connective separates two conditions only with a space
on either side of its word, and a negation has one space after its word.
-/

set_option autoImplicit false
set_option relaxedAutoImplicit false

namespace Rebate

inductive Connective where
  | and
  | or
deriving DecidableEq, Repr

namespace Connective

def word : Connective → List Char
  | and => ['E']
  | or => ['O', 'U']

def separator (c : Connective) : Text.Keyword where
  word := ' ' :: c.word ++ [' ']
  word_ne_nil := by simp

instance : ToString Connective where
  toString c := String.ofList c.word

/-- The truth value of a joint condition without parts. A part with the other truth value decides
the joint condition alone. -/
def neutral : Connective → Bool
  | and => true
  | or => false

end Connective

namespace Negation

def word : List Char :=
  ['N', 'Ã', 'O']

def opening : Text.Keyword where
  word := word ++ [' ']

end Negation

end Rebate

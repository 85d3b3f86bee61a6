import Rebate.ReadError
import Rebate.Rule.Basic
import Rebate.Text.Line

/-!
A book is an ordered collection of rules. It also keeps the lines that were meant as rules and
could not be read, in the order in which they were met.
-/

set_option autoImplicit false
set_option relaxedAutoImplicit false

namespace Rebate

structure Rejection where
  line : Line
  error : ReadError
deriving DecidableEq, Repr

structure Book where
  rules : List Rule := []
  rejected : List Rejection := []
deriving DecidableEq

namespace Book

def empty : Book := {}

def size (book : Book) : Nat :=
  book.rules.length

def isEmpty (book : Book) : Bool :=
  book.rules.isEmpty

def push (book : Book) (rule : Rule) : Book :=
  { book with rules := book.rules ++ [rule] }

def reject (book : Book) (rejection : Rejection) : Book :=
  { book with rejected := book.rejected ++ [rejection] }

instance : ToString Book where
  toString book :=
    let rules := book.size
    let rejected := book.rejected.length
    s!"RuleBook({rules} rules, {rejected} rejected)"

end Book

end Rebate

import Rebate.Book.Basic
import Rebate.Book.Report

/-!
Notices tell an operator what happened while a book was loaded or evaluated. A computation that
gives notices returns them beside its value, in the order in which it gave them.
-/

set_option autoImplicit false
set_option relaxedAutoImplicit false

namespace Rebate

inductive Notice where
  | skipped (rejection : Rejection)
  | failed (source : String) (fault : Fault)
  | evaluated (source : String) (outcome : Outcome)
deriving DecidableEq

inductive Notice.Level where
  | warn
  | debug
deriving DecidableEq, Repr

instance : ToString Notice.Level where
  toString
    | .warn => "warn"
    | .debug => "debug"

namespace Notice

def level : Notice → Level
  | skipped _ => .warn
  | failed _ _ => .warn
  | evaluated _ _ => .debug

def message : Notice → String
  | skipped _ => "skipping unparsable rule"
  | failed _ _ => "rule evaluation failed"
  | evaluated _ _ => "evaluated rule"

end Notice

/-- A value and the notices given on the way to it. -/
structure Noted (α : Type) where
  value : α
  notices : List Notice

namespace Noted

instance : Monad Noted where
  pure a := { value := a, notices := [] }
  bind x f :=
    let y := f x.value
    { value := y.value, notices := x.notices ++ y.notices }

instance : LawfulMonad Noted :=
  .mk' Noted
    (fun _ => by simp [Functor.map])
    (fun _ _ => by simp [bind, pure])
    (fun _ _ _ => by simp [bind, List.append_assoc])

def note (n : Notice) : Noted Unit :=
  { value := (), notices := [n] }

end Noted

end Rebate

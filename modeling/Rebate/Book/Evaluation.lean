import Rebate.Book.Notice
import Rebate.Book.Report

/-!
Evaluating the rules of a book for a purchase. A report goes on after a rule that fails; the strict
answer stops at it.
-/

set_option autoImplicit false
set_option relaxedAutoImplicit false

namespace Rebate

def Rule.outcome (rule : Rule) (p : Purchase) : Outcome :=
  match rule.evaluate p with
  | .ok (some discount) => if 0 < discount then .applied discount else .notApplied
  | .ok none => .notApplied
  | .error fault => .failed fault

namespace Book

/-- The verdict on a rule. A failure is told, and after it the outcome of every rule. -/
def judge (p : Purchase) (rule : Rule) : Noted Verdict := do
  let outcome := rule.outcome p
  if let .failed fault := outcome then
    Noted.note (.failed rule.source fault)
  Noted.note (.evaluated rule.source outcome)
  return { source := rule.source, outcome }

def evaluate (book : Book) (p : Purchase) : Noted Report := do
  let verdicts ← book.rules.mapM (judge p)
  return { verdicts }

def improve (p : Purchase) (best : Decimal) (rule : Rule) : Except Fault Decimal := do
  match ← rule.evaluate p with
  | some discount => return max best discount
  | none => return best

/-- The largest discount that a rule grants, or zero. The first fault is the answer. -/
def bestDiscount (book : Book) (p : Purchase) : Except Fault Decimal :=
  book.rules.foldlM (improve p) 0

end Book

end Rebate

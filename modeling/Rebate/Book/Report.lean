import Rebate.Fault

/-!
A report says what became of every rule of a book for one purchase. Discounts do not add up: the
best one is the largest that applied.
-/

set_option autoImplicit false
set_option relaxedAutoImplicit false

namespace Rebate

/-- What became of a rule. -/
inductive Outcome where
  | applied (discount : Decimal)
  | notApplied
  | failed (fault : Fault)
deriving DecidableEq

structure Verdict where
  source : String
  outcome : Outcome
deriving DecidableEq

instance : ToString Verdict where
  toString v :=
    let source := v.source
    match v.outcome with
    | .applied discount => s!"[applied] {source} -> {discount}%"
    | .notApplied => s!"[not applied] {source}"
    | .failed fault =>
      let reason := fault.message
      s!"[failed] {source}: {reason}"

structure Report where
  verdicts : List Verdict
deriving DecidableEq

namespace Report

def applied (report : Report) : List Decimal :=
  report.verdicts.filterMap fun v =>
    match v.outcome with
    | .applied discount => some discount
    | _ => none

def failures (report : Report) : List (String × Fault) :=
  report.verdicts.filterMap fun v =>
    match v.outcome with
    | .failed fault => some (v.source, fault)
    | _ => none

/-- The largest discount that applied, or zero. Of several equivalent ones it is the first. -/
def best (report : Report) : Decimal :=
  report.applied.foldl max 0

/-- One line for each verdict, and a last line with the best discount. -/
def lines (report : Report) : List String :=
  let best := report.best
  report.verdicts.map toString ++ [s!"best discount: {best}%"]

instance : ToString Report where
  toString report := "\n".intercalate report.lines

end Report

end Rebate

import Rebate.Book.Evaluation
import Rebate.Proofs.Decimal.Order

/-!
The strict answer and the report. The strict answer compares every discount that a rule grants with
the best one so far and stops at the first fault, while the report compares only the positive ones
and collects the faults. The best discount so far is never negative, so that a discount which is
not positive changes nothing, not even the scale.
-/

set_option autoImplicit false
set_option relaxedAutoImplicit false

namespace Rebate

def Rule.verdict (p : Purchase) (rule : Rule) : Verdict where
  source := rule.source
  outcome := rule.outcome p

namespace Report

theorem applied_cons (v : Verdict) (verdicts : List Verdict) :
    (mk (v :: verdicts)).applied =
      match v.outcome with
      | .applied discount => discount :: (mk verdicts).applied
      | _ => (mk verdicts).applied := by
  simp only [applied, List.filterMap_cons]
  cases v.outcome <;> rfl

private theorem failures_cons (v : Verdict) (verdicts : List Verdict) :
    (mk (v :: verdicts)).failures =
      match v.outcome with
      | .failed fault => (v.source, fault) :: (mk verdicts).failures
      | _ => (mk verdicts).failures := by
  simp only [failures, List.filterMap_cons]
  cases v.outcome <;> rfl

end Report

private theorem Noted.value_mapM {α β : Type} (f : α → Noted β) (xs : List α) :
    (xs.mapM f).value = xs.map fun x => (f x).value := by
  induction xs with
  | nil => rfl
  | cons x xs ih =>
    rw [List.mapM_cons, List.map_cons, ← ih]
    rfl

namespace Book

variable {p : Purchase} {best : Decimal}

private theorem value_judge (p : Purchase) (rule : Rule) :
    (judge p rule).value = rule.verdict p := by
  rw [judge, Rule.verdict]
  cases rule.outcome p <;> rfl

theorem value_evaluate (book : Book) (p : Purchase) :
    (book.evaluate p).value = { verdicts := book.rules.map (Rule.verdict p) } := by
  have hverdicts := Noted.value_mapM (judge p) book.rules
  simp only [value_judge] at hverdicts
  rw [← hverdicts]
  rfl

private theorem improve_eq_outcome (hbest : 0 ≤ best) (rule : Rule) :
    improve p best rule =
      match rule.outcome p with
      | .applied discount => .ok (max best discount)
      | .notApplied => .ok best
      | .failed fault => .error fault := by
  rw [improve, Rule.outcome]
  cases rule.evaluate p with
  | error fault => rfl
  | ok granted =>
    cases granted with
    | none => rfl
    | some discount =>
      by_cases hpositive : 0 < discount
      · simp only [if_pos hpositive]
        rfl
      · have hkept : max best discount = best :=
          Decimal.max_of_le (Decimal.le_trans (Decimal.not_lt_iff.mp hpositive) hbest)
        simp only [if_neg hpositive, bind, Except.bind, hkept]
        rfl

/-- From a best discount that is not negative, the strict answer is the first failure that the
verdicts tell, and without one the largest of that discount and all that applied. -/
theorem foldlM_improve (hbest : 0 ≤ best) (rules : List Rule) :
    rules.foldlM (improve p) best =
      match (Report.mk (rules.map (Rule.verdict p))).failures with
      | [] => .ok ((Report.mk (rules.map (Rule.verdict p))).applied.foldl max best)
      | (_, fault) :: _ => .error fault := by
  -- The invariant is that the best discount so far is not negative.
  induction rules generalizing best with
  | nil => rfl
  | cons rule rules ih =>
    rw [List.foldlM_cons, List.map_cons, improve_eq_outcome hbest, Report.failures_cons,
      Report.applied_cons, Rule.verdict]
    cases rule.outcome p with
    | applied discount =>
      have hnext : 0 ≤ max best discount :=
        Decimal.le_trans hbest (Decimal.le_max_left best discount)
      exact ih hnext
    | notApplied => exact ih hbest
    | failed fault => rfl

/-- The strict answer is the best discount of the report, or else its first failure. -/
theorem bestDiscount_eq_report (book : Book) (p : Purchase) :
    book.bestDiscount p =
      match (book.evaluate p).value.failures with
      | [] => .ok (book.evaluate p).value.best
      | (_, fault) :: _ => .error fault := by
  rw [value_evaluate]
  exact foldlM_improve (Decimal.le_refl 0) book.rules

end Book

end Rebate

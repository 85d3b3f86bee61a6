import Rebate.Proofs.Book.BestDiscount

/-!
The best discount of a report. It is that of the first rule of the book which holds with a positive
discount and which no other such rule exceeds, so rules that grant nothing may be added anywhere
without a change, not even of its scale. The order of the rules decides between equal discounts
only, and one rule more never makes the best discount smaller.
-/

set_option autoImplicit false
set_option relaxedAutoImplicit false

namespace Rebate

/-- For the purchase the condition of the rule holds, and the discount is positive. -/
def Rule.Applies (p : Purchase) (rule : Rule) : Prop :=
  rule.condition.eval p = .ok (.boolean true) ∧ 0 < rule.discount

instance (p : Purchase) : DecidablePred (Rule.Applies p) := fun rule =>
  match h : rule.condition.eval p with
  | .ok v =>
    decidable_of_iff (v = .boolean true ∧ 0 < rule.discount)
      (by rw [Rule.Applies, h, Except.ok.injEq])
  | .error _ => isFalse fun happlies => nomatch h.symm.trans happlies.1

/-- The rule stands in the list and applies. All rules before it that apply have smaller discounts,
and those after it that apply have no larger ones. -/
def Rule.FirstGreatest (p : Purchase) (rules : List Rule) (rule : Rule) : Prop :=
  ∃ before after, rules = before ++ rule :: after ∧ rule.Applies p ∧
    (∀ other ∈ before, other.Applies p → other.discount < rule.discount) ∧
    ∀ other ∈ after, other.Applies p → other.discount ≤ rule.discount

/-- For the purchase the rule has no answer, or it does not hold, or its discount is not
positive. -/
def Rule.Idle (p : Purchase) (rule : Rule) : Prop :=
  (∃ fault, rule.evaluate p = .error fault) ∨ rule.evaluate p = .ok none ∨ rule.discount ≤ 0

/-- The second list is the first one with any number of idle rules put in, at any places. -/
inductive Rule.Padded (p : Purchase) : List Rule → List Rule → Prop
  | nil : Padded p [] []
  | keep {rule : Rule} {rules padded : List Rule} (h : Padded p rules padded) :
      Padded p (rule :: rules) (rule :: padded)
  | idle {rule : Rule} {rules padded : List Rule} (hidle : rule.Idle p)
      (h : Padded p rules padded) : Padded p rules (rule :: padded)

namespace Rule

variable {p : Purchase} {rule : Rule}

private theorem Applies.evaluate (h : rule.Applies p) :
    rule.evaluate p = .ok (some rule.discount) := by
  rw [Rule.evaluate, h.1]
  rfl

private theorem FirstGreatest.applies {rules : List Rule} (h : rule.FirstGreatest p rules) :
    rule.Applies p := by
  obtain ⟨before, after, -, happlies, -⟩ := h
  exact happlies

private theorem Idle.not_applies (h : rule.Idle p) : ¬rule.Applies p := by
  intro happlies
  rcases h with ⟨fault, hfault⟩ | hnone | hdiscount
  · cases hfault.symm.trans happlies.evaluate
  · cases hnone.symm.trans happlies.evaluate
  · exact Decimal.not_lt_iff.mpr hdiscount happlies.2

private theorem outcome_of_applies (h : rule.Applies p) :
    rule.outcome p = .applied rule.discount := by
  rw [outcome, h.evaluate]
  exact if_pos h.2

private theorem holds_of_evaluate {granted : Decimal} (h : rule.evaluate p = .ok (some granted)) :
    rule.condition.eval p = .ok (.boolean true) ∧ granted = rule.discount := by
  rw [Rule.evaluate] at h
  cases hcondition : rule.condition.eval p with
  | error fault => simp [hcondition, bind, Except.bind] at h
  | ok v =>
    rw [hcondition] at h
    cases v with
    | number a => cases h
    | text s => cases h
    | boolean holds =>
      cases holds with
      | false => cases h
      | true =>
        cases h
        exact ⟨rfl, rfl⟩

private theorem outcome_of_not_applies (h : ¬rule.Applies p) (discount : Decimal) :
    rule.outcome p ≠ .applied discount := by
  intro hout
  rw [outcome] at hout
  split at hout
  · next granted hgranted =>
    obtain ⟨hholds, rfl⟩ := holds_of_evaluate hgranted
    split at hout
    · next hpositive => exact h ⟨hholds, hpositive⟩
    · cases hout
  · cases hout
  · cases hout

end Rule

namespace Report

private theorem best_nonneg (report : Report) : 0 ≤ report.best :=
  Decimal.le_foldl_max 0 report.applied

private theorem best_le_of_subset {report other : Report} (h : report.applied ⊆ other.applied) :
    report.best ≤ other.best := by
  rcases Decimal.foldl_max_cases 0 report.applied with ⟨heq, -⟩ |
    ⟨-, before, after, hsplit, -, -⟩
  · rw [best, heq]
    exact other.best_nonneg
  · have hmem : report.best ∈ before ++ report.best :: after :=
      List.mem_append_right before List.mem_cons_self
    rw [best, ← hsplit] at hmem
    exact Decimal.mem_le_foldl_max (h hmem)

end Report

namespace Book

variable {p : Purchase} {book other : Book}

private theorem applied_evaluate (book : Book) (p : Purchase) :
    (book.evaluate p).value.applied =
      (book.rules.filter (Rule.Applies p ·)).map Rule.discount := by
  rw [value_evaluate]
  induction book.rules with
  | nil => rfl
  | cons rule rules ih =>
    rw [List.map_cons, Report.applied_cons, ih, Rule.verdict]
    by_cases h : rule.Applies p
    · rw [List.filter_cons_of_pos (by simpa using h), Rule.outcome_of_applies h]
      rfl
    · rw [List.filter_cons_of_neg (by simpa using h)]
      cases hout : rule.outcome p with
      | applied discount => exact absurd hout (Rule.outcome_of_not_applies h discount)
      | notApplied => rfl
      | failed fault => rfl

private theorem exists_firstGreatest {rules : List Rule} {discount : Decimal}
    {before after : List Decimal}
    (h : (rules.filter (Rule.Applies p ·)).map Rule.discount = before ++ discount :: after)
    (hbefore : ∀ d ∈ before, d < discount) (hafter : ∀ d ∈ after, d ≤ discount) :
    ∃ rule : Rule, rule.FirstGreatest p rules ∧ rule.discount = discount := by
  obtain ⟨smaller, rest, hfilter, rfl, hrest⟩ := List.map_eq_append_iff.mp h
  obtain ⟨rule, later, rfl, rfl, rfl⟩ := List.map_eq_cons_iff.mp hrest
  obtain ⟨first, second, rfl, rfl, hsecond⟩ := List.filter_eq_append_iff.mp hfilter
  obtain ⟨skipped, third, rfl, hskipped, happlies, rfl⟩ := List.filter_eq_cons_iff.mp hsecond
  refine ⟨rule, ⟨first ++ skipped, third, by simp, by simpa using happlies, ?_, ?_⟩, rfl⟩
  · intro other hother hotherApplies
    rcases List.mem_append.mp hother with hfirst | hskip
    · exact hbefore _ (List.mem_map_of_mem (List.mem_filter.mpr ⟨hfirst, by simpa⟩))
    · exact absurd (by simpa using hotherApplies) (hskipped other hskip)
  · intro other hother hotherApplies
    exact hafter _ (List.mem_map_of_mem (List.mem_filter.mpr ⟨hother, by simpa⟩))

private theorem best_cases (book : Book) (p : Purchase) :
    (∀ rule ∈ book.rules, ¬rule.Applies p) ∧ (book.evaluate p).value.best = 0 ∨
      ∃ rule : Rule, rule.FirstGreatest p book.rules ∧
        rule.discount = (book.evaluate p).value.best := by
  rw [Report.best, applied_evaluate]
  rcases Decimal.foldl_max_cases 0 ((book.rules.filter (Rule.Applies p ·)).map Rule.discount) with
    ⟨hzero, hle⟩ | ⟨-, before, after, hsplit, hbefore, hafter⟩
  · left
    refine ⟨fun rule hrule happlies => ?_, hzero⟩
    have hmem : rule ∈ book.rules.filter (Rule.Applies p ·) :=
      List.mem_filter.mpr ⟨hrule, by simpa using happlies⟩
    exact Decimal.not_lt_iff.mpr (hle _ (List.mem_map_of_mem hmem)) happlies.2
  · exact Or.inr (exists_firstGreatest hsplit hbefore hafter)

private theorem filter_padded {rules padded : List Rule} (h : Rule.Padded p rules padded) :
    padded.filter (Rule.Applies p ·) = rules.filter (Rule.Applies p ·) := by
  induction h with
  | nil => rfl
  | @keep rule rules padded h ih => rw [List.filter_cons, List.filter_cons, ih]
  | @idle rule rules padded hidle h ih =>
    rw [List.filter_cons_of_neg (by simpa using hidle.not_applies), ih]

/-- The best discount of a report is that of the first greatest rule of the book, and zero without
fraction digits if no rule applies. The discounts that applied are those of the rules that apply, in
their order. The best one is never negative. Whatever the order of the rules it is the same number,
rules that grant nothing make no difference at all, and one rule more does not make it smaller. -/
theorem best_firstGreatest (book : Book) (p : Purchase) :
    ((∀ rule ∈ book.rules, ¬rule.Applies p) ∧ (book.evaluate p).value.best = 0 ∨
      ∃ rule : Rule, rule.FirstGreatest p book.rules ∧
        rule.evaluate p = .ok (some rule.discount) ∧
        (book.evaluate p).value.best = rule.discount) ∧
    (book.evaluate p).value.applied =
      (book.rules.filter (Rule.Applies p ·)).map Rule.discount ∧
    0 ≤ (book.evaluate p).value.best ∧
    (∀ other : Book, other.rules.Perm book.rules →
      (other.evaluate p).value.best ≈ (book.evaluate p).value.best) ∧
    (∀ other : Book, Rule.Padded p book.rules other.rules →
      (other.evaluate p).value.best = (book.evaluate p).value.best ∧
        (other.evaluate p).value.applied = (book.evaluate p).value.applied) ∧
    ∀ rule : Rule, (book.evaluate p).value.best ≤ ((book.push rule).evaluate p).value.best := by
  refine ⟨?_, applied_evaluate book p, Report.best_nonneg _, ?_, ?_, ?_⟩
  · rcases best_cases book p with hnone | ⟨rule, hgreatest, hbest⟩
    · exact Or.inl hnone
    · exact Or.inr ⟨rule, hgreatest, hgreatest.applies.evaluate, hbest.symm⟩
  · intro other hperm
    have happlied : (other.evaluate p).value.applied.Perm (book.evaluate p).value.applied := by
      rw [applied_evaluate, applied_evaluate]
      exact (hperm.filter _).map Rule.discount
    exact Decimal.equiv_of_le (Report.best_le_of_subset happlied.subset)
      (Report.best_le_of_subset happlied.symm.subset)
  · intro other hpadded
    have happlied : (other.evaluate p).value.applied = (book.evaluate p).value.applied := by
      rw [applied_evaluate, applied_evaluate, filter_padded hpadded]
    refine ⟨?_, happlied⟩
    rw [Report.best, Report.best, happlied]
  · intro rule
    refine Report.best_le_of_subset ?_
    rw [applied_evaluate, applied_evaluate, push, List.filter_append, List.map_append]
    exact List.subset_append_left _ _

end Book

end Rebate

import Rebate.Decimal.Basic

/-!
The order of decimals is the order of the numbers they denote, so it is transitive, and of two
decimals one is at most the other. Of two equivalent decimals the first is taken for the larger.
-/

set_option autoImplicit false
set_option relaxedAutoImplicit false

namespace Rebate.Decimal

variable {a b c : Decimal}

theorem not_lt_iff : ¬ a < b ↔ b ≤ a :=
  Int.not_lt

theorem le_refl (a : Decimal) : a ≤ a :=
  Int.le_refl _

theorem le_trans (hab : a ≤ b) (hbc : b ≤ c) : a ≤ c := by
  rw [le_iff_toRat_le] at *
  exact Rat.le_trans hab hbc

private theorem le_of_lt (h : a < b) : a ≤ b :=
  Int.le_of_lt h

private theorem max_of_lt (h : a < b) : max a b = b :=
  if_pos h

theorem max_of_le (h : b ≤ a) : max a b = a :=
  if_neg (not_lt_iff.mpr h)

theorem le_max_left (a b : Decimal) : a ≤ max a b := by
  by_cases h : a < b
  · rw [max_of_lt h]
    exact le_of_lt h
  · rw [max_of_le (not_lt_iff.mp h)]
    exact le_refl a

private theorem lt_of_lt_of_le (hab : a < b) (hbc : b ≤ c) : a < c := by
  rw [lt_iff_toRat_lt] at hab ⊢
  exact Rat.not_le.mp fun h => Rat.not_le.mpr hab (Rat.le_trans (le_iff_toRat_le.mp hbc) h)

private theorem lt_of_le_of_lt (hab : a ≤ b) (hbc : b < c) : a < c := by
  rw [lt_iff_toRat_lt] at hbc ⊢
  exact Rat.not_le.mp fun h => Rat.not_le.mpr hbc (Rat.le_trans h (le_iff_toRat_le.mp hab))

theorem equiv_of_le (hab : a ≤ b) (hba : b ≤ a) : a ≈ b :=
  Int.le_antisymm hab hba

private theorem le_max_right (a b : Decimal) : b ≤ max a b := by
  by_cases h : a < b
  · rw [max_of_lt h]
    exact le_refl b
  · rw [max_of_le (not_lt_iff.mp h)]
    exact not_lt_iff.mp h

private theorem max_assoc (a b c : Decimal) : max (max a b) c = max a (max b c) := by
  by_cases hab : a < b
  · by_cases hbc : b < c
    · rw [max_of_lt hab, max_of_lt hbc, max_of_lt (lt_of_lt_of_le hab (le_of_lt hbc))]
    · rw [max_of_lt hab, max_of_le (not_lt_iff.mp hbc), max_of_lt hab]
  · by_cases hbc : b < c
    · rw [max_of_le (not_lt_iff.mp hab), max_of_lt hbc]
    · rw [max_of_le (not_lt_iff.mp hab), max_of_le (not_lt_iff.mp hbc),
        max_of_le (not_lt_iff.mp hab),
        max_of_le (le_trans (not_lt_iff.mp hbc) (not_lt_iff.mp hab))]

instance : Std.Associative (max : Decimal → Decimal → Decimal) where
  assoc := max_assoc

theorem le_foldl_max (start : Decimal) (discounts : List Decimal) :
    start ≤ discounts.foldl max start := by
  induction discounts generalizing start with
  | nil => exact le_refl start
  | cons d discounts ih => exact le_trans (le_max_left start d) (ih (max start d))

theorem mem_le_foldl_max {start d : Decimal} {discounts : List Decimal} (h : d ∈ discounts) :
    d ≤ discounts.foldl max start := by
  induction discounts generalizing start with
  | nil => cases h
  | cons next discounts ih =>
    rcases List.mem_cons.mp h with rfl | h
    · exact le_trans (le_max_right start d) (le_foldl_max (max start d) discounts)
    · exact ih h

/-- The largest of a start and some discounts is the start if no discount exceeds it, and else the
first of the discounts that no other one exceeds. -/
theorem foldl_max_cases (start : Decimal) (discounts : List Decimal) :
    discounts.foldl max start = start ∧ (∀ d ∈ discounts, d ≤ start) ∨
      start < discounts.foldl max start ∧
        ∃ before after, discounts = before ++ discounts.foldl max start :: after ∧
          (∀ d ∈ before, d < discounts.foldl max start) ∧
          ∀ d ∈ after, d ≤ discounts.foldl max start := by
  induction discounts generalizing start with
  | nil => exact Or.inl ⟨rfl, fun d hd => absurd hd List.not_mem_nil⟩
  | cons next discounts ih =>
    rw [List.foldl_cons]
    by_cases h : start < next
    · -- The next discount takes the place of the start, and stays the first of its size.
      rw [max_of_lt h]
      right
      rcases ih next with ⟨heq, hle⟩ | ⟨hlt, before, after, hsplit, hbefore, hafter⟩
      · rw [heq]
        exact ⟨h, [], discounts, rfl, fun d hd => absurd hd List.not_mem_nil, hle⟩
      · refine ⟨lt_of_lt_of_le h (le_of_lt hlt), next :: before, after, ?_, ?_, hafter⟩
        · rw [List.cons_append, ← hsplit]
        · exact List.forall_mem_cons.mpr ⟨hlt, hbefore⟩
    · have hnext : next ≤ start := not_lt_iff.mp h
      rw [max_of_le hnext]
      rcases ih start with ⟨heq, hle⟩ | ⟨hlt, before, after, hsplit, hbefore, hafter⟩
      · exact Or.inl ⟨heq, List.forall_mem_cons.mpr ⟨hnext, hle⟩⟩
      · refine Or.inr ⟨hlt, next :: before, after, ?_, ?_, hafter⟩
        · rw [List.cons_append, ← hsplit]
        · exact List.forall_mem_cons.mpr ⟨lt_of_le_of_lt hnext hlt, hbefore⟩

end Rebate.Decimal

import Rebate.Decimal.Digits

/-!
Decimals: an integer coefficient below `2 ^ 96` in size, divided by a power of ten up to `10 ^ 28`.
The exponent of that power, the scale, is part of a decimal, for it says how many fraction digits
are written. Two decimals are ordered by the numbers they denote, whatever their scales.
-/

set_option autoImplicit false
set_option relaxedAutoImplicit false

namespace Rebate

/-- The first coefficient that does not fit into ninety-six bits, two to the power of ninety-six. -/
def Decimal.limit : Nat :=
  79228162514264337593543950336

theorem Decimal.limit_pos : 0 < Decimal.limit := by
  decide

def Decimal.maxScale : Nat :=
  28

/-- The number `coeff / 10 ^ scale`. Zero has no sign. -/
structure Decimal where
  coeff : Int
  scale : Nat
  coeff_lt : coeff.natAbs < Decimal.limit
  scale_le : scale ≤ Decimal.maxScale
deriving DecidableEq

namespace Decimal

def zero : Decimal where
  coeff := 0
  scale := 0
  coeff_lt := limit_pos
  scale_le := Nat.zero_le _

instance : Zero Decimal where
  zero := zero

def ofInt64 (n : Int64) : Decimal where
  coeff := n.toInt
  scale := 0
  coeff_lt := by
    have := n.toInt_lt
    have := n.le_toInt
    unfold limit
    omega
  scale_le := Nat.zero_le _

def toRat (a : Decimal) : Rat :=
  mkRat a.coeff (powerOfTen a.scale)

instance : LT Decimal where
  lt a b := a.coeff * powerOfTen b.scale < b.coeff * powerOfTen a.scale

instance : LE Decimal where
  le a b := a.coeff * powerOfTen b.scale ≤ b.coeff * powerOfTen a.scale

instance : HasEquiv Decimal where
  Equiv a b := a.coeff * powerOfTen b.scale = b.coeff * powerOfTen a.scale

instance (a b : Decimal) : Decidable (a < b) :=
  inferInstanceAs (Decidable (a.coeff * powerOfTen b.scale < b.coeff * powerOfTen a.scale))

instance (a b : Decimal) : Decidable (a ≤ b) :=
  inferInstanceAs (Decidable (a.coeff * powerOfTen b.scale ≤ b.coeff * powerOfTen a.scale))

instance (a b : Decimal) : Decidable (a ≈ b) :=
  inferInstanceAs (Decidable (a.coeff * powerOfTen b.scale = b.coeff * powerOfTen a.scale))

private theorem mkRat_lt_mkRat_iff {m n : Int} {s t : Nat} (hs : 0 < s) (ht : 0 < t) :
    mkRat m s < mkRat n t ↔ m * t < n * s := by
  rw [Rat.mkRat_eq_div, Rat.mkRat_eq_div, Rat.div_lt_iff (by exact_mod_cast hs), Rat.div_def,
    Rat.mul_assoc, Rat.mul_comm _ (s : Rat), ← Rat.mul_assoc, ← Rat.div_def,
    Rat.lt_div_iff (by exact_mod_cast ht)]
  exact_mod_cast Iff.rfl

theorem lt_iff_toRat_lt {a b : Decimal} : a < b ↔ a.toRat < b.toRat :=
  (mkRat_lt_mkRat_iff (powerOfTen_pos _) (powerOfTen_pos _)).symm

theorem le_iff_toRat_le {a b : Decimal} : a ≤ b ↔ a.toRat ≤ b.toRat := by
  rw [← Rat.not_lt, ← lt_iff_toRat_lt]
  exact Int.not_lt.symm

theorem equiv_iff_toRat_eq {a b : Decimal} : a ≈ b ↔ a.toRat = b.toRat := by
  have h : a ≈ b ↔ a ≤ b ∧ b ≤ a :=
    ⟨fun h => ⟨Int.le_of_eq h, Int.le_of_eq h.symm⟩, fun h => Int.le_antisymm h.1 h.2⟩
  rw [h, le_iff_toRat_le, le_iff_toRat_le]
  exact ⟨fun h => Rat.le_antisymm h.1 h.2, fun h => ⟨h ▸ Rat.le_refl, h ▸ Rat.le_refl⟩⟩

/-- The larger of two decimals. Of two that are equivalent it is the first. -/
instance : Max Decimal where
  max a b := if a < b then b else a

end Decimal

end Rebate

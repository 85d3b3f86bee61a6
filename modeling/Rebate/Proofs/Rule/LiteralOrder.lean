import Rebate.Proofs.Decimal.Monotone
import Rebate.Proofs.Decimal.Order
import Rebate.Proofs.Rule.NumericComparison

/-!
Rules that compare two numbers written out. Either may have more digits than a decimal holds, and
is rounded then; but what the rule says of the rounded numbers is never against the exact order.
-/

set_option autoImplicit false
set_option relaxedAutoImplicit false

namespace Rebate

open Text

/-- A token that is read as a number, and the exact number that its digits denote. -/
structure Literal (token : List Char) (x : Rat) : Prop where
  spelled : ∃ n : Numeral, n.Spelled token ∧ n.toRat = x
  accepted : ∃ d, Decimal.ofChars? token = some d

namespace Literal

variable {token other : List Char} {x y : Rat} {d e : Decimal}

private theorem exists_ofNumeral? (h : Literal token x) (hd : Decimal.ofChars? token = some d) :
    ∃ n : Numeral, n.toRat = x ∧ Decimal.ofNumeral? n = some d := by
  obtain ⟨n, hspelled, hx⟩ := h.spelled
  refine ⟨n, hx, ?_⟩
  rw [Decimal.ofChars?, Numeral.ofChars?_eq_some_iff.mpr hspelled] at hd
  exact hd

private theorem le_of_le (h : Literal token x) (hd : Decimal.ofChars? token = some d)
    (h' : Literal other y) (he : Decimal.ofChars? other = some e) (hxy : x ≤ y) : d ≤ e := by
  obtain ⟨m, rfl, hm⟩ := h.exists_ofNumeral? hd
  obtain ⟨n, rfl, hn⟩ := h'.exists_ofNumeral? he
  exact Decimal.le_of_ofNumeral? hm hn hxy

end Literal

namespace Rule

def comparisonText (left : List Char) (r : Relation) (right number : List Char) : String :=
  String.ofList (left ++ [' '] ++ r.symbol.word ++ ([' '] ++ right ++ [' ']) ++
    thenWord.word ++ ([' '] ++ number))

def AlwaysGrants (source : String) (granted : Option Decimal) : Prop :=
  ∃ rule, read source = .ok rule ∧ ∀ p, rule.evaluate p = .ok granted

variable {left right number : List Char} {r : Relation} {d e discount : Decimal}

theorem written_comparisonText {a b : Operand} (hleft : a.Spelled left) (hright : b.Spelled right)
    (hnumber : Decimal.ofChars? number = some discount) :
    Written [[⟨0, .comparison a r b⟩]] discount (comparisonText left r right number).toList := by
  have hspace : AllBlank [' '] := by decide
  have hatom : Atom.Written (.comparison a r b) _ :=
    .comparison (.between .nil hleft hspace) (.between hspace hright hspace)
  have hwritten : Written [[⟨0, .comparison a r b⟩]] discount _ :=
    .intro (.one (.one (.plain hatom))) hspace hnumber .nil
  rw [comparisonText, String.toList_ofList]
  simpa using hwritten

private theorem alwaysGrants_of_holds (hleft : Decimal.ofChars? left = some d)
    (hright : Decimal.ofChars? right = some e)
    (hnumber : Decimal.ofChars? number = some discount) (h : r.Holds d e) :
    AlwaysGrants (comparisonText left r right number) (some discount) := by
  have hwritten := written_comparisonText (r := r) (.number hleft) (.number hright) hnumber
  refine ⟨_, hwritten.read_comparison, fun p => ?_⟩
  rw [evaluate_comparison rfl rfl rfl, if_pos h]

private theorem alwaysGrants_of_not_holds (hleft : Decimal.ofChars? left = some d)
    (hright : Decimal.ofChars? right = some e)
    (hnumber : Decimal.ofChars? number = some discount) (h : ¬ r.Holds d e) :
    AlwaysGrants (comparisonText left r right number) none := by
  have hwritten := written_comparisonText (r := r) (.number hleft) (.number hright) hnumber
  refine ⟨_, hwritten.read_comparison, fun p => ?_⟩
  rw [evaluate_comparison rfl rfl rfl, if_neg h]

/-- A number that is not greater than another one is nowhere taken for the greater one, and equal
numbers are taken for equal, however many digits they are written with. -/
theorem comparison_respects_order {a b number : List Char} {x y : Rat} {discount : Decimal}
    (ha : Literal a x) (hb : Literal b y) (hnumber : Decimal.ofChars? number = some discount)
    (hxy : x ≤ y) :
    AlwaysGrants (comparisonText a .le b number) (some discount) ∧
      AlwaysGrants (comparisonText b .ge a number) (some discount) ∧
      AlwaysGrants (comparisonText a .gt b number) none ∧
      AlwaysGrants (comparisonText b .lt a number) none ∧
      (x = y → AlwaysGrants (comparisonText a .eq b number) (some discount)) := by
  obtain ⟨d, hd⟩ := ha.accepted
  obtain ⟨e, he⟩ := hb.accepted
  have hle : d ≤ e := ha.le_of_le hd hb he hxy
  have hnot : ¬ e < d := Decimal.not_lt_iff.mpr hle
  refine ⟨alwaysGrants_of_holds hd he hnumber hle, alwaysGrants_of_holds he hd hnumber hle,
    alwaysGrants_of_not_holds hd he hnumber hnot, alwaysGrants_of_not_holds he hd hnumber hnot, ?_⟩
  rintro rfl
  have hge : e ≤ d := hb.le_of_le he ha hd hxy
  exact alwaysGrants_of_holds hd he hnumber (Decimal.equiv_of_le hle hge)

def loweredNumeral : Numeral where
  negative := false
  whole := .ofNatFixed 28 7922816251426433759354395033
  fraction := .ofNatFixed 3 549

def carriedNumeral : Numeral where
  negative := false
  whole := .ofNatFixed 28 7922816251426433759354395033
  fraction := .ofNatFixed 2 55

theorem comparison_respects_order_carry :
    Literal "7922816251426433759354395033.549".toList loweredNumeral.toRat ∧
      Literal "7922816251426433759354395033.55".toList carriedNumeral.toRat ∧
      Decimal.ofChars? "10".toList = some (.ofInt64 10) ∧
      loweredNumeral.toRat ≤ carriedNumeral.toRat ∧
      AlwaysGrants
        "7922816251426433759354395033.549 <= 7922816251426433759354395033.55 ENTAO 10"
        (some (.ofInt64 10)) ∧
      AlwaysGrants
        "7922816251426433759354395033.549 > 7922816251426433759354395033.55 ENTAO 10" none := by
  have hlowered : Literal "7922816251426433759354395033.549".toList loweredNumeral.toRat :=
    ⟨⟨_, Numeral.ofChars?_eq_some_iff.mp (by decide +kernel), rfl⟩,
      Option.isSome_iff_exists.mp (by decide +kernel)⟩
  have hcarried : Literal "7922816251426433759354395033.55".toList carriedNumeral.toRat :=
    ⟨⟨_, Numeral.ofChars?_eq_some_iff.mp (by decide +kernel), rfl⟩,
      Option.isSome_iff_exists.mp (by decide +kernel)⟩
  have hnumber : Decimal.ofChars? "10".toList = some (.ofInt64 10) := by decide +kernel
  have hle : loweredNumeral.toRat ≤ carriedNumeral.toRat := by decide +kernel
  obtain ⟨hatMost, -, hgreater, -⟩ := comparison_respects_order hlowered hcarried hnumber hle
  exact ⟨hlowered, hcarried, hnumber, hle, hatMost, hgreater⟩

end Rule

end Rebate

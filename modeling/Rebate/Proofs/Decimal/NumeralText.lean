import Rebate.Condition.Reader
import Rebate.Proofs.Decimal.NumeralGrammar

/-!
The characters of numerals. Only signs, points and digits occur in the text of a number, so that a
number holds no blank, no operator and no letter.
-/

set_option autoImplicit false
set_option relaxedAutoImplicit false

namespace Rebate

open Text

variable {chars : List Char} {c : Char}

namespace Numeral

def isPart (c : Char) : Bool :=
  c == '+' || c == '-' || c == '.' || (Digit.ofChar? c).isSome

private theorem isPart_of_mem_digits {digits : Digits} (hc : c ∈ digits.toChars) :
    isPart c = true := by
  obtain ⟨d, -, rfl⟩ := List.mem_map.mp hc
  simp [isPart, Digit.ofChar?_toChar]

private theorem Unsigned.isPart_of_mem {whole fraction : Digits} (h : Unsigned whole fraction chars)
    (hc : c ∈ chars) : isPart c = true := by
  have hfraction : c ∈ '.' :: fraction.toChars → isPart c = true := by
    intro hc
    rcases List.mem_cons.mp hc with rfl | hc
    · rfl
    · exact isPart_of_mem_digits hc
  cases h with
  | whole hne => exact isPart_of_mem_digits hc
  | point hne =>
    rcases List.mem_append.mp hc with hc | hc
    · exact isPart_of_mem_digits hc
    · exact hfraction hc
  | fraction hne => exact hfraction hc

private theorem Signed.isPart_of_mem {negative : Bool} (h : Signed negative chars)
    (hc : c ∈ chars) : isPart c = true := by
  cases h with
  | none => cases hc
  | plus =>
    rw [List.mem_singleton.mp hc]
    rfl
  | minus =>
    rw [List.mem_singleton.mp hc]
    rfl

private theorem isPart_of_mem {n : Numeral} (h : ofChars? chars = some n) (hc : c ∈ chars) :
    isPart c = true := by
  obtain ⟨sign, body, rfl, hsign, hbody⟩ := ofChars?_eq_some_iff.mp h
  rcases List.mem_append.mp hc with hc | hc
  · exact hsign.isPart_of_mem hc
  · exact hbody.isPart_of_mem hc

theorem isBlank_of_isPart (h : isPart c = true) : isBlank c = false := by
  simp only [isPart, Bool.or_eq_true, beq_iff_eq] at h
  rcases h with ((rfl | rfl) | rfl) | h
  · decide
  · decide
  · decide
  · have hrange : 48 ≤ c.toNat ∧ c.toNat ≤ 57 := by
      rw [Digit.ofChar?] at h
      split at h
      · next hle => exact hle
      · simp at h
    simp only [isBlank, blankRuns, List.any_cons, List.any_nil, Bool.or_false,
      Bool.or_eq_false_iff, Bool.and_eq_false_iff, decide_eq_false_iff_not]
    omega

theorem isOperatorChar_of_isPart (h : isPart c = true) : isOperatorChar c = false := by
  cases ho : isOperatorChar c with
  | false => rfl
  | true =>
    simp only [isOperatorChar, Bool.or_eq_true, beq_iff_eq] at ho
    rcases ho with ((rfl | rfl) | rfl) | rfl <;> exact absurd h (by decide)

end Numeral

theorem Decimal.isPart_of_mem {a : Decimal} (h : Decimal.ofChars? chars = some a)
    (hc : c ∈ chars) : Numeral.isPart c = true := by
  obtain ⟨n, hn, -⟩ := Option.bind_eq_some_iff.mp h
  exact Numeral.isPart_of_mem hn hc

theorem Decimal.ne_nil_of_ofChars? {a : Decimal} (h : Decimal.ofChars? chars = some a) :
    chars ≠ [] := by
  rintro rfl
  have hnone : Decimal.ofChars? [] = none := by decide
  exact absurd (hnone.symm.trans h) (by simp)

theorem Decimal.ofChars?_eq_none_of_mem (hc : c ∈ chars) (hpart : Numeral.isPart c = false) :
    Decimal.ofChars? chars = none := by
  cases h : Decimal.ofChars? chars with
  | none => rfl
  | some a => exact absurd (Decimal.isPart_of_mem h hc) (by simp [hpart])

end Rebate

import Mathlib.Data.List.Infix
import Rebate.Proofs.Text.Occurrence

/-!
How often a keyword occurs. A split counts without overlap; a word whose first character does not
come back in it cannot overlap itself, so that the split counts every place where it begins.
-/

set_option autoImplicit false
set_option relaxedAutoImplicit false

namespace Rebate.Text.Keyword

/-- The number of places in a text at which the word begins. -/
def occurrences (k : Keyword) (text : List Char) : Nat :=
  text.tails.countP fun rest => k.word <+: rest

variable {k : Keyword} {text before rest : List Char}

private theorem occurrences_cons (k : Keyword) (c : Char) (text : List Char) :
    k.occurrences (c :: text) =
      k.occurrences text + if k.word <+: c :: text then 1 else 0 := by
  simp [occurrences, List.countP_cons]

private theorem occurrences_eq_zero (h : ¬ k.word <:+: text) : k.occurrences text = 0 := by
  rw [occurrences, List.countP_eq_zero]
  intro tail htail hstart
  have hsuffix : tail <:+ text := (List.mem_tails tail text).mp htail
  exact h ((of_decide_eq_true hstart).isInfix.trans hsuffix.isInfix)

private theorem occurrences_append {c : Char} (hhead : k.word.head? = some c) (hc : c ∉ before) :
    k.occurrences (before ++ rest) = k.occurrences rest := by
  induction before with
  | nil => rfl
  | cons d before ih =>
    have hd : ¬ k.word <+: d :: (before ++ rest) := by
      rintro ⟨behind, hbehind⟩
      have hfirst := congrArg List.head? hbehind
      rw [List.head?_append, hhead] at hfirst
      simp only [Option.some_or, List.head?_cons, Option.some.injEq] at hfirst
      exact hc (hfirst ▸ List.mem_cons_self)
    rw [List.cons_append, occurrences_cons, if_neg hd, Nat.add_zero,
      ih fun hmem => hc (List.mem_cons_of_mem d hmem)]

private theorem occurrences_of_cut? (h : k.cut? text = some (before, rest)) :
    k.occurrences text = k.occurrences (k.word.tail ++ rest) + 1 := by
  induction text generalizing before with
  | nil => simp [cut?_nil] at h
  | cons c text ih =>
    rw [cut?_cons] at h
    cases hafter : k.after? (c :: text) with
    | some behind =>
      obtain ⟨-, rfl⟩ : [] = before ∧ behind = rest := by simpa [hafter] using h
      have htext : c :: text = k.word ++ behind := after?_eq_some_iff.mp hafter
      have hstart : k.word <+: c :: text := ⟨behind, htext.symm⟩
      have htail : text = k.word.tail ++ behind := by
        rw [← List.tail_append_of_ne_nil k.word_ne_nil, ← htext, List.tail_cons]
      rw [occurrences_cons, if_pos hstart, ← htail]
    | none =>
      simp only [hafter] at h
      obtain ⟨⟨before', rest'⟩, hcut, he⟩ := Option.map_eq_some_iff.mp h
      obtain ⟨rfl, rfl⟩ : c :: before' = before ∧ rest' = rest := by simpa using he
      rw [occurrences_cons, if_neg (after?_eq_none_iff.mp hafter), Nat.add_zero]
      exact ih hcut

/-- The pieces of a split are one more than the occurrences. -/
theorem length_split {c : Char} (hhead : k.word.head? = some c) (hc : c ∉ k.word.tail)
    (text : List Char) : (k.split text).length = k.occurrences text + 1 := by
  induction text using split_induction k with
  | whole text hcut =>
    rw [split_of_cut?_eq_none hcut, occurrences_eq_zero (cut?_eq_none_iff.mp hcut)]
    rfl
  | cut text before rest hcut ih =>
    rw [split_of_cut?_eq_some hcut, occurrences_of_cut? hcut, occurrences_append hhead hc,
      List.length_cons, ih]

end Rebate.Text.Keyword

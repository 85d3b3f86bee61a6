import Mathlib.Data.List.DropRight
import Rebate.Text.Blank

/-!
What trimming takes off a text. A tight text neither begins nor ends with a blank, so that trimming
gives it back from between any blanks.
-/

set_option autoImplicit false
set_option relaxedAutoImplicit false

namespace Rebate.Text

def AllBlank (text : List Char) : Prop :=
  ∀ c ∈ text, isBlank c = true

instance (text : List Char) : Decidable (AllBlank text) :=
  List.decidableBAll _ text

theorem AllBlank.nil : AllBlank [] :=
  fun _ hc => absurd hc List.not_mem_nil

/-- A text that is not empty and has no blank at either end. -/
structure Tight (text : List Char) : Prop where
  ne_nil : text ≠ []
  trimStart_eq : trimStart text = text
  trimEnd_eq : trimEnd text = text

variable {text blanks left right : List Char}

theorem trimStart_append_of_allBlank (h : AllBlank blanks) :
    trimStart (blanks ++ text) = trimStart text :=
  List.dropWhile_append_of_pos h

theorem trimStart_append (h : trimStart left ≠ []) :
    trimStart (left ++ right) = trimStart left ++ right := by
  have hleft : (left.dropWhile isBlank).isEmpty = false := by
    simpa [trimStart] using h
  simp [trimStart, List.dropWhile_append, hleft]

private theorem trimEnd_eq_reverse (text : List Char) :
    trimEnd text = (trimStart text.reverse).reverse := rfl

theorem infix_trim (text : List Char) : trim text <:+: text := by
  have hstart : trimStart text <:+ text := List.dropWhile_suffix isBlank
  have hend : (trim text).reverse <:+ (trimStart text).reverse := by
    rw [trim, trimEnd, List.reverse_reverse]
    exact List.dropWhile_suffix isBlank
  exact (List.reverse_suffix.mp hend).isInfix.trans hstart.isInfix

private theorem trimStart_eq_nil_iff : trimStart text = [] ↔ AllBlank text :=
  List.dropWhile_eq_nil_iff

theorem trimEnd_eq_nil_iff : trimEnd text = [] ↔ AllBlank text :=
  List.rdropWhile_eq_nil_iff

theorem allBlank_of_trim_eq_nil (h : trim text = []) : AllBlank text := by
  have hnil : trimStart (trimStart text) = [] := trimStart_eq_nil_iff.mpr (trimEnd_eq_nil_iff.mp h)
  rw [trimStart, trimStart, List.dropWhile_idempotent] at hnil
  exact trimStart_eq_nil_iff.mp hnil

private theorem trimStart_trim (text : List Char) : trimStart (trim text) = trim text := by
  have hstart : trim text <+: trimStart text := List.rdropWhile_prefix isBlank _
  rw [trimStart, List.dropWhile_eq_self_iff]
  intro hlength
  -- What is left begins like the text without the blanks at its start.
  rw [hstart.getElem hlength]
  exact List.dropWhile_eq_self_iff.mp (List.dropWhile_idempotent isBlank text) _

theorem trim_trim (text : List Char) : trim (trim text) = trim text := by
  rw [trim, trimStart_trim]
  exact List.rdropWhile_idempotent isBlank (trimStart text)

private theorem trimEnd_append_of_allBlank (h : AllBlank blanks) :
    trimEnd (text ++ blanks) = trimEnd text := by
  have hreverse : AllBlank blanks.reverse := fun c hc => h c (List.mem_reverse.mp hc)
  rw [trimEnd_eq_reverse, List.reverse_append, trimStart_append_of_allBlank hreverse,
    ← trimEnd_eq_reverse]

theorem trimEnd_append (h : trimEnd right ≠ []) :
    trimEnd (left ++ right) = left ++ trimEnd right := by
  have hreverse : trimStart right.reverse ≠ [] := by
    simpa [trimEnd_eq_reverse] using h
  rw [trimEnd_eq_reverse, List.reverse_append, trimStart_append hreverse, List.reverse_append,
    List.reverse_reverse, ← trimEnd_eq_reverse]

namespace Tight

theorem of_ends {c d : Char} (hc : isBlank c = false) (hd : isBlank d = false) :
    Tight (c :: text ++ [d]) where
  ne_nil := by simp
  trimStart_eq := by simp [trimStart, hc]
  trimEnd_eq := by simp [trimEnd, hd]

theorem of_no_blank (hne : text ≠ []) (h : ∀ c ∈ text, isBlank c = false) : Tight text := by
  have hstart : trimStart text = text := by
    cases text with
    | nil => rfl
    | cons c text => simp [trimStart, h c List.mem_cons_self]
  have hend : trimEnd text = text := by
    obtain ⟨text', d, rfl⟩ := List.eq_nil_or_concat text |>.resolve_left hne
    simp [trimEnd, h d (by simp)]
  exact ⟨hne, hstart, hend⟩

theorem of_trim (h : trim text ≠ []) : Tight (trim text) where
  ne_nil := h
  trimStart_eq := trimStart_trim text
  trimEnd_eq := List.rdropWhile_idempotent isBlank (trimStart text)

theorem trimStart_blanks_append (h : Tight text) (hblanks : AllBlank blanks) :
    trimStart (blanks ++ text ++ right) = text ++ right := by
  have hne : trimStart text ≠ [] := h.trimStart_eq.symm ▸ h.ne_nil
  rw [List.append_assoc, trimStart_append_of_allBlank hblanks, trimStart_append hne,
    h.trimStart_eq]

theorem trimEnd_append_blanks (h : Tight text) (hblanks : AllBlank blanks) :
    trimEnd (left ++ text ++ blanks) = left ++ text := by
  have hne : trimEnd text ≠ [] := h.trimEnd_eq.symm ▸ h.ne_nil
  rw [trimEnd_append_of_allBlank hblanks, trimEnd_append hne, h.trimEnd_eq]

theorem trim_eq (h : Tight text) (hleft : AllBlank left) (hright : AllBlank right) :
    trim (left ++ text ++ right) = text := by
  rw [trim, h.trimStart_blanks_append hleft, ← List.nil_append text,
    h.trimEnd_append_blanks hright]

theorem prefix_trim (h : Tight text) (hleft : AllBlank left) :
    text <+: trim (left ++ text ++ right) := by
  rw [trim, h.trimStart_blanks_append hleft]
  by_cases hright : AllBlank right
  · have hend : trimEnd (text ++ right) = text := @trimEnd_append_blanks text right [] h hright
    exact ⟨[], by rw [hend, List.append_nil]⟩
  · rw [trimEnd_append (mt trimEnd_eq_nil_iff.mp hright)]
    exact List.prefix_append text _

theorem suffix_trim (h : Tight text) (hright : AllBlank right) :
    text <:+ trim (left ++ text ++ right) := by
  by_cases hleft : AllBlank left
  · exact ⟨[], (h.trim_eq hleft hright).symm⟩
  · rw [trim, List.append_assoc, trimStart_append (mt trimStart_eq_nil_iff.mp hleft),
      ← List.append_assoc, h.trimEnd_append_blanks hright]
    exact List.suffix_append _ text

end Tight

end Rebate.Text

import Rebate.Text.Keyword

/-!
Where a keyword occurs in a text. A cut finds the first occurrence, and a split leaves no occurrence
in any of its pieces. An occurrence in two texts set side by side lies in one of them or runs over
the seam; a character that the keyword does not hold, or holds at its ends only, keeps it from that.
-/

set_option autoImplicit false
set_option relaxedAutoImplicit false

namespace Rebate.Text

theorem infix_append_cons {word left right : List Char} {c : Char} (hc : c ∉ word.tail.dropLast)
    (h : word <:+: left ++ c :: right) : word <:+: left ++ [c] ∨ word <:+: c :: right := by
  have hsplit : left ++ c :: right = (left ++ [c]) ++ right := by simp
  rw [hsplit, List.infix_append_iff_ne_nil] at h
  rcases h with h | h | ⟨u, v, hu, hv, rfl, hleft, hright⟩
  · exact Or.inl h
  · exact Or.inr (h.trans (List.suffix_cons c right).isInfix)
  · -- The part before the seam ends in the character, so it is nothing but the character.
    rw [List.suffix_concat_iff] at hleft
    rcases hleft with rfl | ⟨u', rfl, -⟩
    · exact absurd rfl hu
    · cases u' with
      | nil =>
        right
        have hstart : [] ++ [c] ++ v <+: c :: right := by
          simpa using hright
        exact hstart.isInfix
      | cons a u' =>
        obtain ⟨v', b, rfl⟩ := List.eq_nil_or_concat v |>.resolve_left hv
        have hinner : (a :: u' ++ [c] ++ v'.concat b).tail.dropLast = u' ++ c :: v' := by
          rw [show a :: u' ++ [c] ++ v'.concat b = a :: ((u' ++ c :: v') ++ [b]) by simp,
            List.tail_cons, List.dropLast_concat]
        exact absurd (hinner ▸ List.mem_append_right u' List.mem_cons_self) hc

theorem infix_append_cons_of_not_mem {word left right : List Char} {c : Char}
    (hword : word ≠ []) (hc : c ∉ word) (h : word <:+: left ++ c :: right) :
    word <:+: left ∨ word <:+: right := by
  have hinner : c ∉ word.tail.dropLast :=
    fun hmem => hc (List.mem_of_mem_tail (List.dropLast_subset _ hmem))
  rcases infix_append_cons hinner h with h | h
  · left
    rw [List.infix_concat_iff] at h
    rcases h with h | h
    · rw [List.suffix_concat_iff] at h
      rcases h with rfl | ⟨u, rfl, -⟩
      · exact absurd rfl hword
      · exact absurd (by simp) hc
    · exact h
  · right
    rw [List.infix_cons_iff] at h
    rcases h with h | h
    · rw [List.prefix_cons_iff] at h
      rcases h with rfl | ⟨u, rfl, -⟩
      · exact absurd rfl hword
      · exact absurd (by simp) hc
    · exact h

theorem infix_enclosed {word left inner right : List Char} {mark : Char} (hword : word ≠ [])
    (hmark : mark ∉ word) (h : word <:+: left ++ mark :: (inner ++ mark :: right)) :
    word <:+: left ∨ word <:+: inner ∨ word <:+: right := by
  rcases infix_append_cons_of_not_mem hword hmark h with h | h
  · exact Or.inl h
  · exact Or.inr (infix_append_cons_of_not_mem hword hmark h)

namespace Keyword

variable {k : Keyword} {text before rest : List Char}

theorem after?_eq_none_iff : k.after? text = none ↔ ¬ k.word <+: text := by
  rw [after?]
  split
  · next h => simp [h]
  · next h => simp [h]

theorem cut?_eq_none_iff : k.cut? text = none ↔ ¬ k.word <:+: text := by
  induction text with
  | nil => simp [cut?_nil, k.word_ne_nil]
  | cons c text ih =>
    rw [cut?_cons, List.infix_cons_iff, not_or, ← after?_eq_none_iff, ← ih]
    cases k.after? (c :: text) <;> simp

theorem cut?_eq_none_of_not_mem {c : Char} (hc : c ∈ k.word) (htext : c ∉ text) :
    k.cut? text = none :=
  cut?_eq_none_iff.mpr fun h => htext (h.subset hc)

theorem not_infix_of_cut? (h : k.cut? text = some (before, rest)) : ¬ k.word <:+: before := by
  induction text generalizing before with
  | nil => simp [cut?_nil] at h
  | cons c text ih =>
    rw [cut?_cons] at h
    cases ha : k.after? (c :: text) with
    | some rest' =>
      obtain ⟨rfl, rfl⟩ : [] = before ∧ rest' = rest := by simpa [ha] using h
      simpa using k.word_ne_nil
    | none =>
      simp only [ha] at h
      obtain ⟨⟨before', rest'⟩, ht, he⟩ := Option.map_eq_some_iff.mp h
      obtain ⟨rfl, rfl⟩ : c :: before' = before ∧ rest' = rest := by simpa using he
      rw [List.infix_cons_iff, not_or]
      -- An occurrence at the very start would have been cut at.
      refine ⟨fun hstart => ?_, ih ht⟩
      apply after?_eq_none_iff.mp ha
      have htext := eq_of_cut?_eq_some ht
      rw [htext, List.append_assoc]
      exact hstart.trans (List.prefix_append (c :: before') _)

theorem cut?_append (h : ¬ k.word <:+: before ++ k.word.dropLast) :
    k.cut? (before ++ k.word ++ rest) = some (before, rest) := by
  induction before with
  | nil =>
    have ha : k.after? (k.word ++ rest) = some rest := after?_eq_some_iff.mpr rfl
    obtain ⟨c, word, hword⟩ := List.exists_cons_of_ne_nil k.word_ne_nil
    rw [hword] at ha
    rw [hword, List.nil_append, List.cons_append, cut?_cons, ← List.cons_append, ha]
  | cons c before ih =>
    rw [List.cons_append, List.infix_cons_iff, not_or] at h
    -- An occurrence here would end before the last character of the word that follows.
    have ha : k.after? (c :: (before ++ k.word ++ rest)) = none := by
      rw [after?_eq_none_iff]
      intro hstart
      apply h.1
      have hsame : c :: (before ++ k.word.dropLast) <+: c :: (before ++ k.word ++ rest) := by
        rw [List.cons_prefix_cons, List.append_assoc, List.prefix_append_right_inj]
        exact ⟨rfl, (List.dropLast_prefix k.word).trans (List.prefix_append k.word rest)⟩
      refine List.prefix_of_prefix_length_le hstart hsame ?_
      simp only [List.length_cons, List.length_append, List.length_dropLast]
      omega
    rw [List.cons_append, List.cons_append, cut?_cons, ha, ih h.2]
    rfl

theorem length_before_lt_of_cut? (h : k.cut? text = some (before, rest)) :
    before.length < text.length := by
  have hword := List.length_pos_iff.mpr k.word_ne_nil
  rw [eq_of_cut?_eq_some h]
  simp only [List.length_append]
  omega

@[elab_as_elim]
theorem split_induction (k : Keyword) {motive : List Char → Prop}
    (whole : ∀ text, k.cut? text = none → motive text)
    (cut : ∀ text before rest, k.cut? text = some (before, rest) → motive rest → motive text)
    (text : List Char) : motive text := by
  induction hn : text.length using Nat.strongRecOn generalizing text with
  | _ n ih =>
    cases h : k.cut? text with
    | none => exact whole text h
    | some parts =>
      obtain ⟨before, rest⟩ := parts
      exact cut text before rest h (ih rest.length (hn ▸ length_lt_of_cut? h) rest rfl)

theorem split_of_cut?_eq_none (h : k.cut? text = none) : k.split text = [text] := by
  rw [split_eq, h]

theorem split_of_cut?_eq_some (h : k.cut? text = some (before, rest)) :
    k.split text = before :: k.split rest := by
  rw [split_eq, h]

theorem infix_of_mem_split {piece : List Char} (h : piece ∈ k.split text) : piece <:+: text := by
  induction text using split_induction k with
  | whole text hcut =>
    rw [split_of_cut?_eq_none hcut, List.mem_singleton] at h
    exact h ▸ List.infix_rfl
  | cut text before rest hcut ih =>
    rw [split_of_cut?_eq_some hcut, List.mem_cons] at h
    rw [eq_of_cut?_eq_some hcut]
    rcases h with rfl | h
    · rw [List.append_assoc]
      exact (List.prefix_append piece _).isInfix
    · exact (ih h).trans (List.suffix_append _ rest).isInfix

theorem not_infix_of_mem_split {piece : List Char} (h : piece ∈ k.split text) :
    ¬ k.word <:+: piece := by
  induction text using split_induction k with
  | whole text hcut =>
    rw [split_of_cut?_eq_none hcut, List.mem_singleton] at h
    exact h ▸ cut?_eq_none_iff.mp hcut
  | cut text before rest hcut ih =>
    rw [split_of_cut?_eq_some hcut, List.mem_cons] at h
    rcases h with rfl | h
    · exact not_infix_of_cut? hcut
    · exact ih h

theorem eq_of_split_eq_singleton (h : k.split text = [before]) : text = before := by
  cases hcut : k.cut? text with
  | none =>
    rw [split_of_cut?_eq_none hcut] at h
    exact (List.cons.inj h).1
  | some parts =>
    rw [split_of_cut?_eq_some hcut] at h
    exact absurd (List.cons.inj h).2 (k.split_ne_nil _)

theorem eq_of_split_eq_pair (h : k.split text = [before, rest]) :
    text = before ++ k.word ++ rest := by
  cases hcut : k.cut? text with
  | none =>
    rw [split_of_cut?_eq_none hcut] at h
    cases (List.cons.inj h).2
  | some parts =>
    rw [split_of_cut?_eq_some hcut] at h
    obtain ⟨hbefore, hrest⟩ := List.cons.inj h
    rw [← hbefore, ← eq_of_split_eq_singleton hrest]
    exact eq_of_cut?_eq_some hcut

theorem split_eq_singleton (h : ¬ k.word <:+: text) : k.split text = [text] :=
  split_of_cut?_eq_none (cut?_eq_none_iff.mpr h)

theorem split_append (h : ¬ k.word <:+: before ++ k.word.dropLast) :
    k.split (before ++ k.word ++ rest) = before :: k.split rest :=
  split_of_cut?_eq_some (cut?_append h)

end Keyword

end Rebate.Text

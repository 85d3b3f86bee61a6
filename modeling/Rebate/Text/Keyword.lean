/-!
Keywords cut texts. A text is cut around the first occurrence of a keyword, or split at all of its
occurrences, from left to right and without overlap. The scans carry what they have passed in
reverse, so that they run in constant stack; the equations `cut?_nil`, `cut?_cons` and `split_eq`
give the same functions by plain recursion.
-/

set_option autoImplicit false
set_option relaxedAutoImplicit false

namespace Rebate.Text

/-- A word that a text can be cut at. An empty one would occur everywhere, and a split at it would
have no end. -/
structure Keyword where
  word : List Char
  word_ne_nil : word ≠ [] := by decide

namespace Keyword

def after? (k : Keyword) (text : List Char) : Option (List Char) :=
  if k.word <+: text then some (text.drop k.word.length) else none

theorem after?_eq_some_iff {k : Keyword} {text rest : List Char} :
    k.after? text = some rest ↔ text = k.word ++ rest := by
  rw [after?]
  split
  · next h =>
    obtain ⟨rest', rfl⟩ := h
    simp
  · next h =>
    simp only [reduceCtorEq, false_iff]
    exact fun he => h ⟨rest, he.symm⟩

theorem length_lt_of_after? {k : Keyword} {text rest : List Char}
    (h : k.after? text = some rest) : rest.length < text.length := by
  have := List.length_pos_iff.mpr k.word_ne_nil
  rw [after?_eq_some_iff.mp h, List.length_append]
  omega

/-- What stands before and after the first occurrence of the word, if there is one. -/
def cut? (k : Keyword) (text : List Char) : Option (List Char × List Char) :=
  scan [] text
where
  -- The characters already passed stand in `passed`, the last one first.
  scan (passed : List Char) : List Char → Option (List Char × List Char)
    | [] => none
    | c :: text =>
      match k.after? (c :: text) with
      | some rest => some (passed.reverse, rest)
      | none => scan (c :: passed) text

private theorem scan_eq (k : Keyword) (passed text : List Char) :
    cut?.scan k passed text =
      (cut?.scan k [] text).map fun (before, rest) => (passed.reverse ++ before, rest) := by
  induction text generalizing passed with
  | nil => rfl
  | cons c text ih =>
    simp only [cut?.scan]
    cases k.after? (c :: text) with
    | some rest => simp
    | none =>
      simp only
      rw [ih (c :: passed), ih [c]]
      cases cut?.scan k [] text <;> simp

theorem cut?_nil (k : Keyword) : k.cut? [] = none := rfl

theorem cut?_cons (k : Keyword) (c : Char) (text : List Char) :
    k.cut? (c :: text) =
      match k.after? (c :: text) with
      | some rest => some ([], rest)
      | none => (k.cut? text).map fun (before, rest) => (c :: before, rest) := by
  simp only [cut?, cut?.scan]
  cases k.after? (c :: text) with
  | some rest => rfl
  | none => simp only; rw [scan_eq]; simp

theorem eq_of_cut?_eq_some {k : Keyword} {text before rest : List Char}
    (h : k.cut? text = some (before, rest)) : text = before ++ k.word ++ rest := by
  induction text generalizing before with
  | nil => simp [cut?_nil] at h
  | cons c text ih =>
    rw [cut?_cons] at h
    split at h
    · next rest' ha =>
      obtain ⟨rfl, rfl⟩ : [] = before ∧ rest' = rest := by simpa using h
      simpa using after?_eq_some_iff.mp ha
    · obtain ⟨⟨before', rest'⟩, ht, he⟩ := Option.map_eq_some_iff.mp h
      obtain ⟨rfl, rfl⟩ : c :: before' = before ∧ rest' = rest := by simpa using he
      simp [ih ht]

theorem length_lt_of_cut? {k : Keyword} {text before rest : List Char}
    (h : k.cut? text = some (before, rest)) : rest.length < text.length := by
  have := List.length_pos_iff.mpr k.word_ne_nil
  rw [eq_of_cut?_eq_some h]
  simp only [List.length_append]
  omega

/-- The pieces between the occurrences of the word: one piece more than there are occurrences. -/
def split (k : Keyword) (text : List Char) : List (List Char) :=
  collect [] text
where
  -- The pieces already found stand in `done`, the last one first.
  collect (done : List (List Char)) (text : List Char) : List (List Char) :=
    match h : k.cut? text with
    | none => (text :: done).reverse
    | some (before, rest) =>
      have := length_lt_of_cut? h
      collect (before :: done) rest
  termination_by text.length

private theorem collect_eq (k : Keyword) (done : List (List Char)) (text : List Char) :
    split.collect k done text = done.reverse ++ split.collect k [] text := by
  -- The rest after a cut is shorter, and the claim holds of it whatever was found before.
  induction hn : text.length using Nat.strongRecOn generalizing done text with
  | _ n ih =>
    rw [split.collect, split.collect]
    split
    · simp
    · next before rest h =>
      have hlt := hn ▸ length_lt_of_cut? h
      rw [ih _ hlt (before :: done) rest rfl, ih _ hlt [before] rest rfl]
      simp

theorem split_eq (k : Keyword) (text : List Char) :
    k.split text =
      match k.cut? text with
      | none => [text]
      | some (before, rest) => before :: k.split rest := by
  rw [split, split.collect]
  split
  · next h => simp [h]
  · next before rest h =>
    rw [collect_eq]
    simp [h, split]

theorem split_ne_nil (k : Keyword) (text : List Char) : k.split text ≠ [] := by
  rw [split_eq]
  split <;> simp

end Keyword

end Rebate.Text

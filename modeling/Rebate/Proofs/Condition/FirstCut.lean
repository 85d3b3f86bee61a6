import Rebate.Proofs.Condition.ReaderSteps

/-!
Reading a condition by first cuts. The recursive reader cuts a text at its first `OU`, else at its
first `E`, else takes off one negation, and reads what is left and right of the cut by itself. It
has no limit on nesting. Splitting at all occurrences at once and joining from the right gives the
same trees and the same errors, unless the nesting goes past the limit.
-/

set_option autoImplicit false
set_option relaxedAutoImplicit false

namespace Rebate

open Text

namespace Condition

/-- Reads the two sides of the first of some relations whose symbol occurs, or else the whole text
as one operand. -/
def readComparison (text : List Char) : List Relation → Except ReadError Condition
  | [] => do
    let a ← Operand.read text text
    return a.toCondition
  | r :: later =>
    match r.symbol.cut? text with
    | some (left, right) => do
      let a ← Operand.read text left
      let b ← Operand.read text right
      return .compare a.toCondition r b.toCondition
    | none => readComparison text later

/-- Reads a condition by its first cut. -/
def readFirstCut (text : List Char) : Except ReadError Condition :=
  match hor : Connective.or.separator.cut? text with
  | some (left, right) => do
    have := Keyword.length_before_lt_of_cut? hor
    have := Keyword.length_lt_of_cut? hor
    let a ← readFirstCut left
    let b ← readFirstCut right
    return .join a .or b
  | none =>
    match hand : Connective.and.separator.cut? text with
    | some (left, right) => do
      have := Keyword.length_before_lt_of_cut? hand
      have := Keyword.length_lt_of_cut? hand
      let a ← readFirstCut left
      let b ← readFirstCut right
      return .join a .and b
    | none =>
      match hnot : Negation.opening.after? (trimStart text) with
      | some rest => do
        have := Keyword.length_lt_of_after? hnot
        have := length_trimStart_le text
        let part ← readFirstCut rest
        return .negate part
      | none => readComparison text [.ge, .le, .gt, .lt, .eq]
termination_by text.length

variable {text left right rest : List Char}

private theorem readFirstCut_or (h : Connective.or.separator.cut? text = some (left, right)) :
    readFirstCut text = do
      let a ← readFirstCut left
      let b ← readFirstCut right
      return .join a .or b := by
  rw [readFirstCut]
  split
  · next left' right' h' =>
    obtain ⟨rfl, rfl⟩ : left' = left ∧ right' = right := by simpa [h] using h'.symm
    rfl
  · next h' => exact absurd (h.symm.trans h') (by simp)

private theorem readFirstCut_and (hor : Connective.or.separator.cut? text = none)
    (h : Connective.and.separator.cut? text = some (left, right)) :
    readFirstCut text = do
      let a ← readFirstCut left
      let b ← readFirstCut right
      return .join a .and b := by
  rw [readFirstCut]
  split
  · next hor' => exact absurd (hor.symm.trans hor') (by simp)
  · split
    · next left' right' h' =>
      obtain ⟨rfl, rfl⟩ : left' = left ∧ right' = right := by simpa [h] using h'.symm
      rfl
    · next h' => exact absurd (h.symm.trans h') (by simp)

private theorem readFirstCut_negation (hjoint : Unjoined text)
    (h : Negation.opening.after? (trimStart text) = some rest) :
    readFirstCut text = do
      let part ← readFirstCut rest
      return .negate part := by
  rw [readFirstCut]
  split
  · next hor => exact absurd (hor.symm.trans (hjoint.cut?_eq_none .or)) (by simp)
  · split
    · next hand => exact absurd (hand.symm.trans (hjoint.cut?_eq_none .and)) (by simp)
    · split
      · next rest' h' =>
        obtain rfl : rest' = rest := Option.some.inj (h'.symm.trans h)
        rfl
      · next h' => exact absurd (h.symm.trans h') (by simp)

private theorem readFirstCut_comparison (hjoint : Unjoined text)
    (h : Negation.opening.after? (trimStart text) = none) :
    readFirstCut text = readComparison text [.ge, .le, .gt, .lt, .eq] := by
  rw [readFirstCut]
  split
  · next hor => exact absurd (hor.symm.trans (hjoint.cut?_eq_none .or)) (by simp)
  · split
    · next hand => exact absurd (hand.symm.trans (hjoint.cut?_eq_none .and)) (by simp)
    · split
      · next h' => exact absurd (h'.symm.trans h) (by simp)
      · rfl

private theorem chain_mapM_cons {read : List Char → Except ReadError Condition} {c : Connective}
    {piece : List Char} {pieces : List (List Char)} (hne : pieces ≠ []) :
    chain c <$> (piece :: pieces).mapM read = do
      let a ← read piece
      let b ← chain c <$> pieces.mapM read
      return .join a c b := by
  obtain ⟨next, pieces, rfl⟩ := List.exists_cons_of_ne_nil hne
  simp only [List.mapM_cons]
  cases read piece with
  | error e => rfl
  | ok a =>
    cases read next with
    | error e => rfl
    | ok b => cases pieces.mapM read <;> rfl

/-- A reader that joins what it reads left and right of the first cut joins all pieces. -/
theorem chain_mapM_split {read : List Char → Except ReadError Condition} {c : Connective}
    {P : List Char → Prop}
    (hrest : ∀ {text left right}, c.separator.cut? text = some (left, right) → P text → P right)
    (hread : ∀ {text left right}, c.separator.cut? text = some (left, right) → P text →
      read text = do
        let a ← read left
        let b ← read right
        return .join a c b)
    (h : P text) : read text = chain c <$> (c.separator.split text).mapM read := by
  induction text using Keyword.split_induction c.separator with
  | whole text hcut =>
    rw [Keyword.split_of_cut?_eq_none hcut, List.mapM_cons, List.mapM_nil]
    cases read text <;> rfl
  | cut text before rest hcut ih =>
    rw [Keyword.split_of_cut?_eq_some hcut, chain_mapM_cons (Keyword.split_ne_nil _ rest),
      ← ih (hrest hcut h)]
    exact hread hcut h

theorem readFirstCut_eq_or (text : List Char) :
    readFirstCut text =
      chain .or <$> (Connective.or.separator.split text).mapM readFirstCut :=
  chain_mapM_split (P := fun _ => True) (fun _ _ => trivial) (fun h _ => readFirstCut_or h) trivial

theorem readFirstCut_eq_and (hor : ¬ Connective.or.separator.word <:+: text) :
    readFirstCut text =
      chain .and <$> (Connective.and.separator.split text).mapM readFirstCut := by
  refine chain_mapM_split (P := fun text => ¬ Connective.or.separator.word <:+: text) ?_ ?_ hor
  · intro text left right hcut h hright
    have hsuffix : right <:+ text := by
      rw [Keyword.eq_of_cut?_eq_some hcut]
      exact List.suffix_append _ right
    exact h (hright.trans hsuffix.isInfix)
  · intro text left right hcut h
    exact readFirstCut_and (Keyword.cut?_eq_none_iff.mpr h) hcut

private theorem negateTimes_negate (part : Condition) (n : Nat) :
    (negate part).negateTimes n = part.negateTimes (n + 1) := by
  induction n with
  | zero => rfl
  | succ n ih => rw [negateTimes, ih, ← negateTimes]

theorem readFirstCut_eq_strip (hjoint : Unjoined text) (counted : Nat) :
    (fun part => part.negateTimes counted) <$> readFirstCut text =
      (fun part => part.negateTimes (Negation.strip counted text).1) <$>
        readComparison (Negation.strip counted text).2 [.ge, .le, .gt, .lt, .eq] := by
  -- The count grows with each negation, so that it has to be free in the induction.
  induction text using Negation.strip_induction generalizing counted with
  | plain text h => rw [Negation.strip_of_none h, readFirstCut_comparison hjoint h]
  | negated text rest h ih =>
    have hrest : Unjoined rest :=
      fun c hmem => hjoint c (hmem.trans (Negation.suffix_of_after? h).isInfix)
    rw [Negation.strip_of_some h, ← ih hrest (counted + 1), readFirstCut_negation hjoint h]
    cases readFirstCut rest with
    | error e => rfl
    | ok part => exact congrArg Except.ok (negateTimes_negate part counted)

private theorem readComparison_eq (text : List Char) (order : List Relation) :
    readComparison text order =
      match order.findSome? fun r => (r.symbol.cut? text).map (r, ·) with
      | some (r, left, right) => do
        let a ← Operand.read text left
        let b ← Operand.read text right
        return .compare a.toCondition r b.toCondition
      | none => do
        let a ← Operand.read text text
        return a.toCondition := by
  induction order with
  | nil => rfl
  | cons r order ih =>
    rw [readComparison, List.findSome?_cons]
    cases r.symbol.cut? text with
    | some parts => rfl
    | none => exact ih

theorem atom_read_eq (text : List Char) :
    Atom.toCondition <$> Atom.read text = readComparison text [.ge, .le, .gt, .lt, .eq] := by
  rw [readComparison_eq, Atom.read]
  show Atom.toCondition <$> _ = match Relation.cut? text with
    | some (r, left, right) => _
    | none => _
  cases Relation.cut? text with
  | none => cases Operand.read text text <;> rfl
  | some parts =>
    obtain ⟨r, left, right⟩ := parts
    simp only
    cases Operand.read text left with
    | error e => rfl
    | ok a => cases Operand.read text right <;> rfl

def UnlessNested {α : Type} (result expected : Except ReadError α) : Prop :=
  result = expected ∨ ∃ depth, result = .error (.tooDeeplyNested depth Outline.maxNesting)

namespace UnlessNested

variable {α β : Type} {result expected : Except ReadError α}

private theorem map (f : α → β) (h : UnlessNested result expected) :
    UnlessNested (f <$> result) (f <$> expected) := by
  rcases h with rfl | ⟨depth, rfl⟩
  · exact Or.inl rfl
  · exact Or.inr ⟨depth, rfl⟩

private theorem requireNesting (depth : α → Nat) (result : Except ReadError α) :
    UnlessNested
      (do
        let a ← result
        Outline.requireNesting (depth a)
        return a)
      result := by
  cases result with
  | error e => exact Or.inl rfl
  | ok a =>
    by_cases h : depth a ≤ Outline.maxNesting
    · left
      simp only [bind, Except.bind, Outline.requireNesting_of_le h]
      rfl
    · right
      refine ⟨depth a, ?_⟩
      simp only [bind, Except.bind, Outline.requireNesting, if_neg h]

private theorem trans {middle : Except ReadError α} (h : UnlessNested result middle)
    (h' : UnlessNested middle expected) : UnlessNested result expected := by
  rcases h with rfl | ⟨depth, rfl⟩
  · exact h'
  · exact Or.inr ⟨depth, rfl⟩

private theorem mapM {read : List Char → Except ReadError α} {tree : α → β}
    {readTree : List Char → Except ReadError β} {pieces : List (List Char)}
    (h : ∀ piece ∈ pieces, UnlessNested (tree <$> read piece) (readTree piece)) :
    UnlessNested (List.map tree <$> pieces.mapM read) (pieces.mapM readTree) := by
  induction pieces with
  | nil => exact Or.inl rfl
  | cons piece pieces ih =>
    have hhead := h piece List.mem_cons_self
    have htail := ih fun p hp => h p (List.mem_cons_of_mem piece hp)
    simp only [List.mapM_cons]
    cases hread : read piece with
    | error e =>
      rw [hread] at hhead
      rcases hhead with heq | ⟨depth, heq⟩
      · left
        rw [← heq]
        rfl
      · right
        obtain rfl : e = .tooDeeplyNested depth Outline.maxNesting := Except.error.inj heq
        exact ⟨depth, rfl⟩
    | ok a =>
      rw [hread] at hhead
      rcases hhead with heq | ⟨depth, heq⟩
      · rw [← heq]
        have hcons := htail.map (tree a :: ·)
        revert hcons
        cases pieces.mapM read <;> cases pieces.mapM readTree <;> exact id
      · exact absurd heq (by simp [Functor.map, Except.map])

end UnlessNested

private theorem leaf_read_unlessNested {text : List Char} (hjoint : Unjoined text) :
    UnlessNested (Leaf.toCondition <$> Leaf.read text) (readFirstCut text) := by
  have hstrip := readFirstCut_eq_strip hjoint 0
  have hzero : (fun part => part.negateTimes 0) <$> readFirstCut text = readFirstCut text := by
    cases readFirstCut text <;> rfl
  rw [← hzero, hstrip, ← atom_read_eq]
  by_cases h : (Negation.strip 0 text).1 ≤ Outline.maxNesting
  · left
    simp only [Leaf.read, bind, Except.bind, Outline.requireNesting_of_le h]
    cases Atom.read (Negation.strip 0 text).2 <;> rfl
  · right
    refine ⟨(Negation.strip 0 text).1, ?_⟩
    simp only [Leaf.read, bind, Except.bind, Outline.requireNesting, if_neg h]
    rfl

private theorem joined_unlessNested {α : Type} {read : List Char → Except ReadError α}
    {tree : α → Condition} {pieces : List (List Char)} (c : Connective) (depth : List α → Nat)
    (h : ∀ piece ∈ pieces, UnlessNested (tree <$> read piece) (readFirstCut piece)) :
    UnlessNested
      ((fun parts => chain c (parts.map tree)) <$> do
        let parts ← pieces.mapM read
        Outline.requireNesting (depth parts)
        return parts)
      (chain c <$> pieces.mapM readFirstCut) := by
  have hcheck := (UnlessNested.requireNesting depth (pieces.mapM read)).map
    fun parts => chain c (parts.map tree)
  have hpieces := (UnlessNested.mapM h).map (chain c)
  have hmap : chain c <$> List.map tree <$> pieces.mapM read =
      (fun parts => chain c (parts.map tree)) <$> pieces.mapM read := by
    cases pieces.mapM read <;> rfl
  rw [hmap] at hpieces
  -- The nesting is looked at after all pieces, so that an error in a piece comes first.
  exact hcheck.trans hpieces

private theorem group_read_unlessNested {text : List Char}
    (hor : ¬ Connective.or.separator.word <:+: text) :
    UnlessNested (Group.toCondition <$> Group.read text) (readFirstCut text) := by
  rw [readFirstCut_eq_and hor]
  refine joined_unlessNested .and Group.nesting fun piece hpiece => ?_
  exact leaf_read_unlessNested (Unjoined.of_mem_split hor hpiece)

private theorem outline_read_unlessNested (text : List Char) :
    UnlessNested (Outline.toCondition <$> Outline.read text) (readFirstCut text) := by
  rw [readFirstCut_eq_or]
  refine joined_unlessNested .or Outline.nesting fun piece hpiece => ?_
  exact group_read_unlessNested (Keyword.not_infix_of_mem_split hpiece)

/-- Reading is reading by first cuts as long as the nesting is within the limit: all trees and all
errors are the same. -/
theorem read_eq_readFirstCut (text : String) :
    ((∀ depth, read text ≠ .error (.tooDeeplyNested depth Outline.maxNesting)) →
      read text = readFirstCut text.toList) ∧
    ∀ tree, readFirstCut text.toList = .ok tree →
      read text = .ok tree ∨
        ∃ depth, read text = .error (.tooDeeplyNested depth Outline.maxNesting) := by
  have hread : UnlessNested (read text) (readFirstCut text.toList) :=
    outline_read_unlessNested text.toList
  constructor
  · intro hlimit
    exact hread.resolve_right fun ⟨depth, h⟩ => hlimit depth h
  · intro tree htree
    rw [← htree]
    exact hread

theorem read_eq_readFirstCut_mixed :
    (∀ depth, read "NÃO a E b OU c" ≠ .error (.tooDeeplyNested depth Outline.maxNesting)) ∧
      read "NÃO a E b OU c" = readFirstCut "NÃO a E b OU c".toList ∧
      readFirstCut "NÃO a E b OU c".toList =
        .ok (.join (.join (.negate (.var "a")) .and (.var "b")) .or (.var "c")) ∧
      (read "NÃO a E b OU c" =
          .ok (.join (.join (.negate (.var "a")) .and (.var "b")) .or (.var "c")) ∨
        ∃ depth, read "NÃO a E b OU c" = .error (.tooDeeplyNested depth Outline.maxNesting)) := by
  have hread : read "NÃO a E b OU c" =
      .ok (.join (.join (.negate (.var "a")) .and (.var "b")) .or (.var "c")) := by
    cbv
  have hlimit : ∀ depth,
      read "NÃO a E b OU c" ≠ .error (.tooDeeplyNested depth Outline.maxNesting) := by
    intro depth
    rw [hread]
    exact fun h => by cases h
  have hsame := (read_eq_readFirstCut "NÃO a E b OU c").1 hlimit
  have htree := hsame.symm.trans hread
  exact ⟨hlimit, hsame, htree, (read_eq_readFirstCut "NÃO a E b OU c").2 _ htree⟩

end Condition

end Rebate

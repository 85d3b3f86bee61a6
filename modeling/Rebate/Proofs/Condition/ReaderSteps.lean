import Rebate.Condition.Reader
import Rebate.Proofs.Text.Occurrence
import Mathlib.Data.List.Forall2

/-!
The steps of the reader, one equation each: negations are taken off one by one, a nesting is within
a bound if every part is, and a text is read if every piece of it is and the nesting is in bounds.
-/

set_option autoImplicit false
set_option relaxedAutoImplicit false

namespace Rebate

open Text

def Unjoined (text : List Char) : Prop :=
  ∀ c : Connective, ¬ c.separator.word <:+: text

namespace Unjoined

variable {text piece : List Char}

theorem cut?_eq_none (h : Unjoined text) (c : Connective) : c.separator.cut? text = none :=
  Keyword.cut?_eq_none_iff.mpr (h c)

theorem of_mem_split (hor : ¬ Connective.or.separator.word <:+: text)
    (h : piece ∈ Connective.and.separator.split text) : Unjoined piece := by
  intro c
  cases c with
  | and => exact Keyword.not_infix_of_mem_split h
  | or => exact fun hmem => hor (hmem.trans (Keyword.infix_of_mem_split h))

end Unjoined

namespace Negation

variable {text rest : List Char} {counted : Nat}

theorem strip_of_none (h : opening.after? (trimStart text) = none) :
    strip counted text = (counted, text) := by
  rw [strip]
  split
  · next rest hrest => exact absurd (h.symm.trans hrest) (by simp)
  · rfl

theorem strip_of_some (h : opening.after? (trimStart text) = some rest) :
    strip counted text = strip (counted + 1) rest := by
  rw [strip]
  split
  · next rest' hrest =>
    obtain rfl : rest' = rest := Option.some.inj (hrest.symm.trans h)
    rfl
  · next hnone => exact absurd (hnone.symm.trans h) (by simp)

theorem suffix_of_after? (h : opening.after? (trimStart text) = some rest) : rest <:+ text := by
  have hword : rest <:+ trimStart text :=
    ⟨opening.word, (Keyword.after?_eq_some_iff.mp h).symm⟩
  exact hword.trans (List.dropWhile_suffix isBlank)

@[elab_as_elim]
theorem strip_induction {motive : List Char → Prop}
    (plain : ∀ text, opening.after? (trimStart text) = none → motive text)
    (negated : ∀ text rest, opening.after? (trimStart text) = some rest → motive rest →
      motive text)
    (text : List Char) : motive text := by
  induction hn : text.length using Nat.strongRecOn generalizing text with
  | _ n ih =>
    cases h : opening.after? (trimStart text) with
    | none => exact plain text h
    | some rest =>
      have hshort : rest.length < (trimStart text).length := Keyword.length_lt_of_after? h
      have hle : (trimStart text).length ≤ text.length := length_trimStart_le text
      exact negated text rest h (ih rest.length (by omega) rest rfl)

theorem suffix_strip (counted : Nat) (text : List Char) : (strip counted text).2 <:+ text := by
  induction text using strip_induction generalizing counted with
  | plain text h =>
    have hrest : (strip counted text).2 = text := congrArg Prod.snd (strip_of_none h)
    exact hrest.symm ▸ List.suffix_rfl
  | negated text rest h ih =>
    rw [strip_of_some h]
    exact (ih (counted + 1)).trans (suffix_of_after? h)

end Negation

private theorem foldl_max_le_iff {depths : List Nat} {start bound : Nat} :
    depths.foldl max start ≤ bound ↔ start ≤ bound ∧ ∀ depth ∈ depths, depth ≤ bound := by
  induction depths generalizing start with
  | nil => simp
  | cons depth depths ih =>
    rw [List.foldl_cons, ih, Nat.max_le, List.forall_mem_cons, and_assoc]

theorem deepest_add_le_iff {α : Type} {depth : α → Nat} {parts : List α} {levels bound : Nat} :
    (parts.map depth).foldl max 0 + levels ≤ bound ↔
      levels ≤ bound ∧ ∀ part ∈ parts, depth part + levels ≤ bound := by
  have hfold : (parts.map depth).foldl max 0 ≤ bound - levels ↔ _ := foldl_max_le_iff
  simp only [Nat.zero_le, true_and, List.forall_mem_map] at hfold
  constructor
  · intro h
    refine ⟨by omega, fun part hpart => ?_⟩
    have := hfold.mp (by omega) part hpart
    omega
  · rintro ⟨hlevels, h⟩
    have := hfold.mpr fun part hpart => by
      have := h part hpart
      omega
    omega

theorem Group.nesting_le_iff {group : Group} {bound : Nat} :
    group.nesting ≤ bound ↔
      group.length - 1 ≤ bound ∧ ∀ leaf ∈ group, leaf.negations + (group.length - 1) ≤ bound :=
  deepest_add_le_iff

theorem Outline.nesting_le_iff {outline : Outline} {bound : Nat} :
    outline.nesting ≤ bound ↔
      outline.length - 1 ≤ bound ∧
        ∀ group ∈ outline, group.nesting + (outline.length - 1) ≤ bound :=
  deepest_add_le_iff

theorem Outline.requireNesting_of_le {depth : Nat} (h : depth ≤ maxNesting) :
    requireNesting depth = .ok () := by
  rw [requireNesting, if_pos h]

theorem mapM_eq_ok_iff {ε α β : Type} {read : α → Except ε β} {pieces : List α} {parts : List β} :
    pieces.mapM read = .ok parts ↔
      List.Forall₂ (fun piece part => read piece = .ok part) pieces parts := by
  induction pieces generalizing parts with
  | nil => simp [pure, Except.pure, eq_comm]
  | cons piece pieces ih =>
    rw [List.mapM_cons, List.forall₂_cons_left_iff]
    simp only [← ih]
    cases read piece with
    | error e => simp [bind, Except.bind]
    | ok part =>
      cases pieces.mapM read with
      | error e => simp [bind, Except.bind]
      | ok later => simp [bind, Except.bind, pure, Except.pure, eq_comm]

private theorem bind_requireNesting_eq_ok_iff {α : Type} {depth : α → Nat}
    {result : Except ReadError α} {a : α} :
    (do
      let a ← result
      Outline.requireNesting (depth a)
      return a) = .ok a ↔ result = .ok a ∧ depth a ≤ Outline.maxNesting := by
  cases result with
  | error e => simp [bind, Except.bind]
  | ok b =>
    by_cases h : depth b ≤ Outline.maxNesting
    · simp only [bind, Except.bind, Outline.requireNesting_of_le h]
      constructor
      · intro hb
        obtain rfl : b = a := Except.ok.inj hb
        exact ⟨rfl, h⟩
      · exact fun ⟨hb, _⟩ => hb
    · simp only [bind, Except.bind, Outline.requireNesting, if_neg h, reduceCtorEq, false_iff]
      rintro ⟨hb, ha⟩
      obtain rfl : b = a := Except.ok.inj hb
      exact h ha

theorem Operand.read_eq_ok {fragment text : List Char} {a : Operand}
    (h : Operand.read fragment text = .ok a) :
    (∃ v, Value.ofToken? (trim text) = some v ∧ a = .const v) ∨
      trim text ≠ [] ∧ Value.ofToken? (trim text) = none ∧
        (∀ c ∈ trim text, isBlank c = false ∧ isOperatorChar c = false) ∧
        a = .var (String.ofList (trim text)) := by
  rw [Operand.read] at h
  split at h
  · cases h
  · next hne =>
    split at h
    · next v hv => exact Or.inl ⟨v, hv, (Except.ok.inj h).symm⟩
    · next hv =>
      split at h
      · cases h
      · next hany =>
        right
        refine ⟨hne, hv, ?_, (Except.ok.inj h).symm⟩
        simp only [List.any_eq_true, Bool.or_eq_true, not_exists, not_and, not_or,
          Bool.not_eq_true] at hany
        intro c hc
        exact ⟨(hany c hc).2, (hany c hc).1⟩

theorem Atom.read_eq_ok {text : List Char} {atom : Atom} (h : Atom.read text = .ok atom) :
    (∃ r left right a b, Relation.cut? text = some (r, left, right) ∧
      Operand.read text left = .ok a ∧ Operand.read text right = .ok b ∧
      atom = .comparison a r b) ∨
    ∃ a, Relation.cut? text = none ∧ Operand.read text text = .ok a ∧ atom = .single a := by
  rw [Atom.read] at h
  split at h
  · next r left right hcut =>
    cases ha : Operand.read text left with
    | error e => simp [ha, bind, Except.bind] at h
    | ok a =>
      cases hb : Operand.read text right with
      | error e => simp [ha, hb, bind, Except.bind] at h
      | ok b =>
        simp only [ha, hb] at h
        exact Or.inl ⟨r, left, right, a, b, hcut, ha, hb, (Except.ok.inj h).symm⟩
  · next hcut =>
    cases ha : Operand.read text text with
    | error e => simp [ha, bind, Except.bind] at h
    | ok a =>
      simp only [ha] at h
      exact Or.inr ⟨a, hcut, rfl, (Except.ok.inj h).symm⟩

theorem Leaf.read_eq_ok {text : List Char} {leaf : Leaf} (h : Leaf.read text = .ok leaf) :
    leaf.negations ≤ Outline.maxNesting ∧
      Atom.read (Negation.strip 0 text).2 = .ok leaf.atom := by
  by_cases hle : (Negation.strip 0 text).1 ≤ Outline.maxNesting
  · simp only [Leaf.read, bind, Except.bind, Outline.requireNesting_of_le hle] at h
    cases hatom : Atom.read (Negation.strip 0 text).2 with
    | error e => simp [hatom] at h
    | ok atom =>
      simp only [hatom] at h
      obtain rfl : _ = leaf := Except.ok.inj h
      exact ⟨hle, rfl⟩
  · simp [Leaf.read, bind, Except.bind, Outline.requireNesting, if_neg hle] at h

theorem Group.read_eq_ok_iff {text : List Char} {group : Group} :
    Group.read text = .ok group ↔
      List.Forall₂ (fun piece leaf => Leaf.read piece = .ok leaf)
        (Connective.and.separator.split text) group ∧ group.nesting ≤ Outline.maxNesting := by
  rw [← mapM_eq_ok_iff]
  exact bind_requireNesting_eq_ok_iff

theorem Outline.read_eq_ok_iff {text : List Char} {outline : Outline} :
    Outline.read text = .ok outline ↔
      List.Forall₂ (fun piece group => Group.read piece = .ok group)
        (Connective.or.separator.split text) outline ∧ outline.nesting ≤ maxNesting := by
  rw [← mapM_eq_ok_iff]
  exact bind_requireNesting_eq_ok_iff

end Rebate

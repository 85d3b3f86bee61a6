import Rebate.Proofs.Condition.ReaderSteps

/-!
The layers of a tree that comes from an outline. From the root down there are first the `OU`, then
the `E`, then the negations, then a comparison, and operands below all of them. No way down from the
root passes more connectives and negations than the nesting of the outline.
-/

set_option autoImplicit false
set_option relaxedAutoImplicit false

namespace Rebate

namespace Condition

def parts : Condition → List Condition
  | const v => [const v]
  | var name => [var name]
  | compare left r right => compare left r right :: (left.parts ++ right.parts)
  | join left c right => join left c right :: (left.parts ++ right.parts)
  | negate part => negate part :: part.parts

/-- The ways from a condition down to its operands, each as the conditions that it passes. -/
def paths : Condition → List (List Condition)
  | const v => [[const v]]
  | var name => [[var name]]
  | compare left r right => (left.paths ++ right.paths).map (compare left r right :: ·)
  | join left c right => (left.paths ++ right.paths).map (join left c right :: ·)
  | negate part => part.paths.map (negate part :: ·)

def nests : Condition → Bool
  | join _ _ _ => true
  | negate _ => true
  | _ => false

def layer : Condition → Nat
  | const _ => 0
  | var _ => 0
  | compare _ _ _ => 1
  | negate _ => 2
  | join _ .and _ => 3
  | join _ .or _ => 4

/-- No part stands above its layer: only operands are compared, only comparisons and negations are
negated, and to the left of a connective stands a lower layer than that of the connective. -/
def Layered : Condition → Prop
  | const _ => True
  | var _ => True
  | compare left _ right =>
    (∃ a : Operand, left = a.toCondition) ∧ ∃ b : Operand, right = b.toCondition
  | negate part => part.layer ≤ 2 ∧ part.Layered
  | join left c right =>
    left.layer < (join left c right).layer ∧ right.layer ≤ (join left c right).layer ∧
      left.Layered ∧ right.Layered

variable {e part left right : Condition} {c : Connective}

theorem parts_operand (a : Operand) : a.toCondition.parts = [a.toCondition] := by
  cases a <;> rfl

private theorem mem_parts_compare {a b : Operand} {r : Relation}
    (h : part ∈ (compare a.toCondition r b.toCondition).parts) :
    part = compare a.toCondition r b.toCondition ∨ part = a.toCondition ∨
      part = b.toCondition := by
  rw [parts, parts_operand, parts_operand] at h
  simpa using h

private theorem layered_operand (a : Operand) :
    a.toCondition.Layered ∧ a.toCondition.layer = 0 := by
  cases a <;> exact ⟨trivial, rfl⟩

theorem Layered.of_mem_parts (h : e.Layered) (hmem : part ∈ e.parts) :
    part.Layered ∧ part.layer ≤ e.layer := by
  induction e with
  | const v =>
    obtain rfl := List.mem_singleton.mp hmem
    exact ⟨h, Nat.le_refl _⟩
  | var name =>
    obtain rfl := List.mem_singleton.mp hmem
    exact ⟨h, Nat.le_refl _⟩
  | compare left r right _ _ =>
    obtain ⟨⟨a, rfl⟩, b, rfl⟩ := id h
    rcases mem_parts_compare hmem with rfl | rfl | rfl
    · exact ⟨h, Nat.le_refl _⟩
    · obtain ⟨hlayered, hlayer⟩ := layered_operand a
      exact ⟨hlayered, by omega⟩
    · obtain ⟨hlayered, hlayer⟩ := layered_operand b
      exact ⟨hlayered, by omega⟩
  | join left c right ihleft ihright =>
    obtain ⟨hleft, hright, hlayeredLeft, hlayeredRight⟩ := id h
    rw [parts, List.mem_cons, List.mem_append] at hmem
    rcases hmem with rfl | hmem | hmem
    · exact ⟨h, Nat.le_refl _⟩
    · obtain ⟨hlayered, hlayer⟩ := ihleft hlayeredLeft hmem
      exact ⟨hlayered, by omega⟩
    · obtain ⟨hlayered, hlayer⟩ := ihright hlayeredRight hmem
      exact ⟨hlayered, by omega⟩
  | negate inner ih =>
    obtain ⟨hinner, hlayeredInner⟩ := id h
    rw [parts, List.mem_cons] at hmem
    rcases hmem with rfl | hmem
    · exact ⟨h, Nat.le_refl _⟩
    · obtain ⟨hlayered, hlayer⟩ := ih hlayeredInner hmem
      have htwo : (negate inner).layer = 2 := rfl
      exact ⟨hlayered, by omega⟩

theorem chain_induction {motive : Condition → Prop} {items : List Condition}
    (hitem : ∀ item ∈ items, motive item) (hneutral : motive (const (.boolean c.neutral)))
    (hjoin : ∀ item ∈ items, ∀ rest, motive rest → motive (join item c rest)) :
    motive (chain c items) := by
  induction items with
  | nil => exact hneutral
  | cons item items ih =>
    obtain ⟨hhead, htail⟩ := List.forall_mem_cons.mp hitem
    obtain ⟨hjoinHead, hjoinTail⟩ := List.forall_mem_cons.mp hjoin
    cases items with
    | nil => exact hhead
    | cons next items => exact hjoinHead _ (ih htail hjoinTail)

private theorem layered_chain {items : List Condition} {bound : Nat}
    (hbound : ∀ left right, (join left c right).layer = bound)
    (h : ∀ item ∈ items, item.Layered ∧ item.layer < bound) :
    (chain c items).Layered ∧ (chain c items).layer ≤ bound := by
  apply chain_induction (motive := fun e => e.Layered ∧ e.layer ≤ bound)
  · intro item hitem
    obtain ⟨hlayered, hlayer⟩ := h item hitem
    exact ⟨hlayered, Nat.le_of_lt hlayer⟩
  · exact ⟨trivial, Nat.zero_le _⟩
  · intro item hitem rest ⟨hrest, hlayerRest⟩
    obtain ⟨hlayered, hlayer⟩ := h item hitem
    have hjoin := hbound item rest
    exact ⟨⟨by omega, by omega, hlayered, hrest⟩, by omega⟩

private theorem layered_negateTimes (h : e.Layered) (hlayer : e.layer ≤ 2) (n : Nat) :
    (e.negateTimes n).Layered ∧ (e.negateTimes n).layer ≤ 2 := by
  induction n with
  | zero => exact ⟨h, hlayer⟩
  | succ n ih => exact ⟨⟨ih.2, ih.1⟩, Nat.le_refl 2⟩

/-- No way down from the root passes more connectives and negations than the bound. -/
def NestsWithin (e : Condition) (bound : Nat) : Prop :=
  ∀ path ∈ e.paths, path.countP nests ≤ bound

private theorem nestsWithin_operand (a : Operand) : a.toCondition.NestsWithin 0 := by
  intro path hpath
  cases a <;> obtain rfl := List.mem_singleton.mp hpath <;> exact Nat.le_refl 0

private theorem nestsWithin_compare {r : Relation} {bound : Nat} (hleft : left.NestsWithin bound)
    (hright : right.NestsWithin bound) : (compare left r right).NestsWithin bound := by
  intro path hpath
  obtain ⟨rest, hrest, rfl⟩ := List.mem_map.mp hpath
  rw [List.countP_cons_of_neg (by simp [nests])]
  rcases List.mem_append.mp hrest with hrest | hrest
  · exact hleft rest hrest
  · exact hright rest hrest

private theorem nestsWithin_join {bound : Nat} (hleft : left.NestsWithin bound)
    (hright : right.NestsWithin bound) : (join left c right).NestsWithin (bound + 1) := by
  intro path hpath
  obtain ⟨rest, hrest, rfl⟩ := List.mem_map.mp hpath
  rw [List.countP_cons_of_pos rfl, Nat.add_le_add_iff_right]
  rcases List.mem_append.mp hrest with hrest | hrest
  · exact hleft rest hrest
  · exact hright rest hrest

private theorem nestsWithin_negateTimes {bound : Nat} (h : e.NestsWithin bound) (n : Nat) :
    (e.negateTimes n).NestsWithin (bound + n) := by
  induction n with
  | zero => exact h
  | succ n ih =>
    intro path hpath
    obtain ⟨rest, hrest, rfl⟩ := List.mem_map.mp hpath
    rw [List.countP_cons_of_pos rfl, ← Nat.add_assoc, Nat.add_le_add_iff_right]
    exact ih rest hrest

theorem nestsWithin_chain {items : List Condition} {bound : Nat}
    (h : ∀ item ∈ items, item.NestsWithin bound) :
    (chain c items).NestsWithin (bound + (items.length - 1)) := by
  induction items with
  | nil =>
    intro path hpath
    obtain rfl := List.mem_singleton.mp hpath
    exact Nat.zero_le _
  | cons item items ih =>
    obtain ⟨hhead, htail⟩ := List.forall_mem_cons.mp h
    cases items with
    | nil => exact hhead
    | cons next items =>
      have hitem : item.NestsWithin (bound + items.length) :=
        fun path hpath => Nat.le_add_right_of_le (hhead path hpath)
      exact nestsWithin_join hitem (ih htail)

private theorem nestsWithin_chain_map {α : Type} {parts : List α} {tree : α → Condition}
    {depth : α → Nat} (h : ∀ part ∈ parts, (tree part).NestsWithin (depth part)) :
    (chain c (parts.map tree)).NestsWithin
      ((parts.map depth).foldl max 0 + (parts.length - 1)) := by
  have hdepth := (deepest_add_le_iff.mp (Nat.le_refl ((parts.map depth).foldl max 0 + 0))).2
  have hpart : ∀ item ∈ parts.map tree, item.NestsWithin ((parts.map depth).foldl max 0) := by
    rw [List.forall_mem_map]
    intro part hmem path hpath
    exact Nat.le_trans (h part hmem path hpath) (hdepth part hmem)
  have hchain := nestsWithin_chain (c := c) hpart
  rwa [List.length_map] at hchain

theorem Layered.length_path_le (h : e.Layered) {path : List Condition} (hpath : path ∈ e.paths) :
    path.length ≤ path.countP nests + 2 := by
  induction e generalizing path with
  | const v =>
    obtain rfl := List.mem_singleton.mp hpath
    exact Nat.le_add_left 1 1
  | var name =>
    obtain rfl := List.mem_singleton.mp hpath
    exact Nat.le_add_left 1 1
  | compare left r right _ _ =>
    obtain ⟨rest, hrest, rfl⟩ := List.mem_map.mp hpath
    obtain ⟨⟨a, rfl⟩, b, rfl⟩ := h
    have hlength : rest.length = 1 := by
      rcases List.mem_append.mp hrest with hrest | hrest
      · cases a <;> obtain rfl := List.mem_singleton.mp hrest <;> rfl
      · cases b <;> obtain rfl := List.mem_singleton.mp hrest <;> rfl
    rw [List.length_cons]
    omega
  | join left c right ihleft ihright =>
    obtain ⟨rest, hrest, rfl⟩ := List.mem_map.mp hpath
    obtain ⟨-, -, hlayeredLeft, hlayeredRight⟩ := h
    rw [List.countP_cons_of_pos rfl, List.length_cons]
    rcases List.mem_append.mp hrest with hrest | hrest
    · have hle := ihleft hlayeredLeft hrest
      omega
    · have hle := ihright hlayeredRight hrest
      omega
  | negate inner ih =>
    obtain ⟨rest, hrest, rfl⟩ := List.mem_map.mp hpath
    have hle := ih h.2 hrest
    rw [List.countP_cons_of_pos rfl, List.length_cons]
    omega

end Condition

private theorem Atom.layered (atom : Atom) :
    atom.toCondition.Layered ∧ atom.toCondition.layer ≤ 1 := by
  cases atom with
  | single a =>
    obtain ⟨hlayered, hlayer⟩ := Condition.layered_operand a
    exact ⟨hlayered, Nat.le_trans (Nat.le_of_eq hlayer) (Nat.zero_le 1)⟩
  | comparison a r b => exact ⟨⟨⟨a, rfl⟩, b, rfl⟩, Nat.le_refl 1⟩

theorem Leaf.layered (leaf : Leaf) :
    leaf.toCondition.Layered ∧ leaf.toCondition.layer ≤ 2 := by
  obtain ⟨hlayered, hlayer⟩ := leaf.atom.layered
  exact Condition.layered_negateTimes hlayered (Nat.le_succ_of_le hlayer) leaf.negations

theorem Group.layered (group : Group) :
    group.toCondition.Layered ∧ group.toCondition.layer ≤ 3 := by
  apply Condition.layered_chain (fun _ _ => rfl)
  rw [List.forall_mem_map]
  intro leaf _
  obtain ⟨hlayered, hlayer⟩ := leaf.layered
  exact ⟨hlayered, Nat.lt_succ_of_le hlayer⟩

theorem Outline.layered (outline : Outline) : outline.toCondition.Layered := by
  have hgroup : ∀ part ∈ outline.map Group.toCondition, part.Layered ∧ part.layer < 4 := by
    rw [List.forall_mem_map]
    intro group _
    obtain ⟨hlayered, hlayer⟩ := group.layered
    exact ⟨hlayered, Nat.lt_succ_of_le hlayer⟩
  exact (Condition.layered_chain (fun _ _ => rfl) hgroup).1

theorem Leaf.nestsWithin (leaf : Leaf) : leaf.toCondition.NestsWithin leaf.negations := by
  have hatom : leaf.atom.toCondition.NestsWithin 0 := by
    cases leaf.atom with
    | single a => exact Condition.nestsWithin_operand a
    | comparison a r b =>
      exact Condition.nestsWithin_compare (Condition.nestsWithin_operand a)
        (Condition.nestsWithin_operand b)
  have hleaf := Condition.nestsWithin_negateTimes hatom leaf.negations
  rwa [Nat.zero_add] at hleaf

theorem Group.nestsWithin (group : Group) : group.toCondition.NestsWithin group.nesting :=
  Condition.nestsWithin_chain_map fun leaf _ => leaf.nestsWithin

theorem Outline.nestsWithin (outline : Outline) :
    outline.toCondition.NestsWithin outline.nesting :=
  Condition.nestsWithin_chain_map fun group _ => group.nestsWithin

end Rebate

import Mathlib.Data.Nat.Basic
import Mathlib.Order.Basic
import Rebate.Proofs.Condition.Layers

/-!
How deep a condition nests. In a chain each part hangs one connective lower than the part before it,
and only the last two hang side by side. So a chain is as deep as its deepest part with all its
connectives on top of it just if that part is one of the last two, and else it is less deep.
-/

set_option autoImplicit false
set_option relaxedAutoImplicit false

namespace Rebate

def lastTwo {α : Type} (xs : List α) : List α :=
  xs.drop (xs.length - 2)

private theorem lastTwo_cons {α : Type} (x : α) {xs : List α} (h : 2 ≤ xs.length) :
    lastTwo (x :: xs) = lastTwo xs := by
  rw [lastTwo, lastTwo, List.length_cons, Nat.sub_add_comm h, List.drop_succ_cons]

theorem mem_of_mem_lastTwo {α : Type} {x : α} {xs : List α} (h : x ∈ lastTwo xs) : x ∈ xs :=
  List.mem_of_mem_drop h

private theorem deepest_le_iff {α : Type} {count : α → Nat} {xs : List α} {bound : Nat} :
    (xs.map count).foldl max 0 ≤ bound ↔ ∀ x ∈ xs, count x ≤ bound := by
  have h := @deepest_add_le_iff α count xs 0 bound
  simp only [Nat.add_zero, Nat.zero_le, true_and] at h
  exact h

theorem le_deepest {α : Type} {count : α → Nat} {xs : List α} {x : α} (hx : x ∈ xs) :
    count x ≤ (xs.map count).foldl max 0 :=
  deepest_le_iff.mp (Nat.le_refl _) x hx

private theorem deepest_eq_iff {α : Type} {count : α → Nat} {xs : List α} {x : α} (hx : x ∈ xs) :
    (xs.map count).foldl max 0 = count x ↔ ∀ y ∈ xs, count y ≤ count x := by
  rw [← deepest_le_iff]
  have hle := @le_deepest α count xs x hx
  omega

namespace Condition

/-- The most connectives and negations on a way down from the root to an operand. -/
def depth (e : Condition) : Nat :=
  (e.paths.map (List.countP nests)).foldl max 0

variable {e part left right : Condition} {c : Connective} {paths more : List (List Condition)}

private theorem deepest_append :
    ((paths ++ more).map (List.countP nests)).foldl max 0 =
      max ((paths.map (List.countP nests)).foldl max 0)
        ((more.map (List.countP nests)).foldl max 0) := by
  apply eq_of_forall_ge_iff
  intro bound
  rw [Nat.max_le, deepest_le_iff, deepest_le_iff, deepest_le_iff, List.forall_mem_append]

private theorem deepest_map_cons (hne : paths ≠ []) (h : nests e = true) :
    ((paths.map (e :: ·)).map (List.countP nests)).foldl max 0 =
      (paths.map (List.countP nests)).foldl max 0 + 1 := by
  apply eq_of_forall_ge_iff
  intro bound
  rw [deepest_le_iff, List.forall_mem_map]
  simp only [List.countP_cons_of_pos h]
  cases bound with
  | zero =>
    obtain ⟨path, hpath⟩ := List.exists_mem_of_ne_nil paths hne
    constructor
    · intro hle
      have := hle path hpath
      omega
    · omega
  | succ bound =>
    simp only [Nat.add_le_add_iff_right]
    exact deepest_le_iff.symm

private theorem paths_ne_nil (e : Condition) : e.paths ≠ [] := by
  induction e with
  | const v => simp [Condition.paths]
  | var name => simp [Condition.paths]
  | compare left r right ihleft _ => simp [Condition.paths, ihleft]
  | join left c right ihleft _ => simp [Condition.paths, ihleft]
  | negate part ih => simp [Condition.paths, ih]

private theorem depth_join : (join left c right).depth = max left.depth right.depth + 1 := by
  have hne : left.paths ++ right.paths ≠ [] := by simp [paths_ne_nil]
  rw [depth, Condition.paths, deepest_map_cons hne rfl, deepest_append]
  rfl

private theorem depth_negate : (negate part).depth = part.depth + 1 :=
  deepest_map_cons part.paths_ne_nil rfl

theorem depth_negateTimes (n : Nat) : (e.negateTimes n).depth = e.depth + n := by
  induction n with
  | zero => rfl
  | succ n ih => rw [negateTimes, depth_negate, ih, Nat.add_assoc]

theorem depth_le_of_nestsWithin {bound : Nat} (h : e.NestsWithin bound) : e.depth ≤ bound :=
  deepest_le_iff.mpr h

private theorem nestsWithin_depth (e : Condition) : e.NestsWithin e.depth :=
  deepest_le_iff.mp (Nat.le_refl e.depth)

variable {items : List Condition} {most : Nat}

private theorem depth_chain_le (h : ∀ item ∈ items, item.depth ≤ most) :
    (chain c items).depth ≤ most + (items.length - 1) := by
  apply depth_le_of_nestsWithin
  apply nestsWithin_chain
  intro item hitem path hpath
  exact Nat.le_trans (item.nestsWithin_depth path hpath) (h item hitem)

/-- A chain reaches the bound of its parts and its connectives only with one of the last two. -/
theorem depth_chain_eq_iff (hne : items ≠ []) (h : ∀ item ∈ items, item.depth ≤ most) :
    (chain c items).depth = most + (items.length - 1) ↔
      ∃ item ∈ lastTwo items, item.depth = most := by
  induction items with
  | nil => exact absurd rfl hne
  | cons item items ih =>
    obtain ⟨hitem, hitems⟩ := List.forall_mem_cons.mp h
    cases items with
    | nil => simp [chain, lastTwo]
    | cons next items =>
      have hrest := @depth_chain_le c (next :: items) most hitems
      have hjoin : (chain c (item :: next :: items)).depth =
          max item.depth (chain c (next :: items)).depth + 1 := depth_join
      rw [hjoin]
      cases items with
      | nil =>
        have hnext := hitems next List.mem_cons_self
        simp only [chain, lastTwo, List.length_cons, List.length_nil, Nat.reduceAdd, Nat.sub_self,
          List.drop_zero, List.mem_cons, List.not_mem_nil, or_false, exists_eq_or_imp,
          exists_eq_left]
        omega
      | cons third items =>
        rw [lastTwo_cons item (by simp), ← ih (by simp) hitems]
        simp only [List.length_cons] at hrest ⊢
        omega

theorem depth_chain_eq_count_iff {count : Condition → Nat} (hne : items ≠ [])
    (h : ∀ item ∈ items, item.depth ≤ count item) :
    (chain c items).depth = (items.map count).foldl max 0 + (items.length - 1) ↔
      ∃ item ∈ lastTwo items, item.depth = count item ∧
        ∀ other ∈ items, count other ≤ count item := by
  rw [depth_chain_eq_iff hne fun item hitem => Nat.le_trans (h item hitem) (le_deepest hitem)]
  constructor
  · rintro ⟨item, hlast, hdepth⟩
    have hitem := mem_of_mem_lastTwo hlast
    have := h item hitem
    have := @le_deepest _ count items item hitem
    exact ⟨item, hlast, by omega, (deepest_eq_iff hitem).mp (by omega)⟩
  · rintro ⟨item, hlast, hdepth, hcount⟩
    have heq := (deepest_eq_iff (mem_of_mem_lastTwo hlast)).mpr hcount
    exact ⟨item, hlast, by omega⟩

end Condition

end Rebate

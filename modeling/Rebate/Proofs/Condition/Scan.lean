import Rebate.Condition.Eval

/-!
Parts joined by one connective are tested from left to right. The first part without the neutral
truth value decides, and no part behind it is evaluated. The nested tree of such a chain does
nothing else, however many parts it has.
-/

set_option autoImplicit false
set_option relaxedAutoImplicit false

namespace Rebate

namespace Connective

variable {α β : Type} {test test' : α → Except Fault Bool}

/-- Tests parts in order, up to the first one that decides or has no answer. -/
def scan (c : Connective) (test : α → Except Fault Bool) : List α → Except Fault Bool
  | [] => .ok c.neutral
  | part :: parts => do
    if (← test part) = c.neutral then
      c.scan test parts
    else
      return !c.neutral

private theorem scan_singleton (c : Connective) (part : α) : c.scan test [part] = test part := by
  rw [scan]
  cases test part with
  | error fault => rfl
  | ok b => cases c <;> cases b <;> rfl

theorem scan_map (c : Connective) (f : β → α) (parts : List β) :
    c.scan test (parts.map f) = c.scan (fun part => test (f part)) parts := by
  induction parts with
  | nil => rfl
  | cons part parts ih => rw [List.map_cons, scan, scan, ih]

theorem scan_congr {c : Connective} {parts : List α}
    (h : ∀ part ∈ parts, test part = test' part) : c.scan test parts = c.scan test' parts := by
  induction parts with
  | nil => rfl
  | cons part parts ih =>
    have hhead := h part List.mem_cons_self
    have htail := ih fun later hlater => h later (List.mem_cons_of_mem part hlater)
    rw [scan, scan, hhead, htail]

/-- The fault of a part that has no truth value: the connective asks for one only if there are
several parts, and else what stands around the chain does. -/
def misfit (c : Connective) (parts : Nat) (outer : Kind → Fault) (found : Kind) : Fault :=
  if 2 ≤ parts then .typeMismatch (.joint c) .boolean found else outer found

end Connective

namespace Condition

def truth (misfit : Kind → Fault) (p : Purchase) (e : Condition) : Except Fault Bool := do
  match ← e.eval p with
  | .boolean b => return b
  | v => throw (misfit v.kind)

private theorem requireBool_eval (site : Site) (p : Purchase) (e : Condition) :
    (e.eval p >>= requireBool site) = e.truth (.typeMismatch site .boolean) p := by
  rw [truth]
  cases e.eval p with
  | error fault => rfl
  | ok v => cases v <;> rfl

private theorem truth_join (misfit : Kind → Fault) (p : Purchase) (left right : Condition)
    (c : Connective) :
    (join left c right).truth misfit p = do
      if (← left.truth (.typeMismatch (.joint c) .boolean) p) = c.neutral then
        right.truth (.typeMismatch (.joint c) .boolean) p
      else
        return !c.neutral := by
  rw [← requireBool_eval, ← requireBool_eval, truth, eval]
  cases left.eval p with
  | error fault => rfl
  | ok v =>
    cases v with
    | number a => rfl
    | text s => rfl
    | boolean b =>
      by_cases hb : b = c.neutral
      · simp only [requireBool, bind, Except.bind, if_pos hb]
        cases right.eval p with
        | error fault => rfl
        | ok w => cases w <;> rfl
      · have hnot : (!c.neutral) = b := by
          cases b <;> cases hc : c.neutral <;> simp_all
        simp only [requireBool, bind, Except.bind, if_neg hb, hnot]
        rfl

/-- A chain is a scan of its parts. -/
theorem truth_chain {parts : List Condition} (hne : parts ≠ []) (c : Connective)
    (outer : Kind → Fault) (p : Purchase) :
    (chain c parts).truth outer p =
      c.scan (truth (c.misfit parts.length outer) p) parts := by
  induction parts generalizing outer with
  | nil => exact absurd rfl hne
  | cons part parts ih =>
    cases parts with
    | nil =>
      rw [Connective.scan_singleton]
      rfl
    | cons next parts =>
      -- Inside a chain it is always the connective that asks for a truth value.
      have hmany : c.misfit (part :: next :: parts).length outer =
          .typeMismatch (.joint c) .boolean := by
        funext found
        exact if_pos (by simp)
      have hlater : c.misfit (next :: parts).length (.typeMismatch (.joint c) .boolean) =
          .typeMismatch (.joint c) .boolean := by
        funext found
        exact ite_self _
      rw [chain, truth_join, ih (by simp), hlater, hmany]
      rfl

end Condition

end Rebate

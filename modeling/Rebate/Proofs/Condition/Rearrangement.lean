import Mathlib.Logic.Relation
import Rebate.Proofs.Condition.Inquiry
import Rebate.Proofs.Condition.Kinds

/-!
What a connective leaves out is never missed. The eager evaluation evaluates both parts of every
connective and asks both for a truth value. An answer that it gives is the answer of the evaluation
that leaves parts out, and it stays the answer when the parts of connectives are swapped, or those
of one connective are grouped in another way, at any depth and as often as one likes.
-/

set_option autoImplicit false
set_option relaxedAutoImplicit false

namespace Rebate

def Connective.combine : Connective → Bool → Bool → Bool
  | and, a, b => a && b
  | or, a, b => a || b

private theorem Connective.combine_comm (c : Connective) (a b : Bool) :
    c.combine a b = c.combine b a := by
  cases c with
  | and => exact Bool.and_comm a b
  | or => exact Bool.or_comm a b

private theorem Connective.combine_assoc (c : Connective) (a b d : Bool) :
    c.combine (c.combine a b) d = c.combine a (c.combine b d) := by
  cases c with
  | and => exact Bool.and_assoc a b d
  | or => exact Bool.or_assoc a b d

private theorem Connective.combine_eq_ite (c : Connective) (a b : Bool) :
    c.combine a b = if a = c.neutral then b else a := by
  cases c <;> cases a <;> rfl

namespace Condition

/-- The value of a condition if both parts of every connective are evaluated, left before right. -/
def evalBoth (p : Purchase) : Condition → Except Fault Value
  | const v => .ok v
  | var name => p.fact name
  | compare left r right => do
    let v ← left.evalBoth p
    let w ← right.evalBoth p
    return .boolean (← v.compare r w)
  | join left c right => do
    let v ← left.evalBoth p
    let w ← right.evalBoth p
    let a ← requireBool (.joint c) v
    let b ← requireBool (.joint c) w
    return .boolean (c.combine a b)
  | negate part => do
    let b ← requireBool .negation (← part.evalBoth p)
    return .boolean (!b)

variable {p : Purchase} {e e' left right part : Condition} {v : Value} {c : Connective}

private theorem bind_eq_ok_iff {α β : Type} {x : Except Fault α} {f : α → Except Fault β} {b : β} :
    x >>= f = .ok b ↔ ∃ a, x = .ok a ∧ f a = .ok b := by
  cases x <;> simp [bind, Except.bind]

private theorem evalBoth_compare_iff {r : Relation} :
    (compare left r right).evalBoth p = .ok v ↔
      ∃ a b t, left.evalBoth p = .ok a ∧ right.evalBoth p = .ok b ∧ a.compare r b = .ok t ∧
        .boolean t = v := by
  simp only [evalBoth, bind_eq_ok_iff, pure, Except.pure, Except.ok.injEq]
  constructor
  · rintro ⟨a, ha, b, hb, t, ht, hv⟩
    exact ⟨a, b, t, ha, hb, ht, hv⟩
  · rintro ⟨a, b, t, ha, hb, ht, hv⟩
    exact ⟨a, ha, b, hb, t, ht, hv⟩

private theorem evalBoth_join_iff :
    (join left c right).evalBoth p = .ok v ↔
      ∃ a b, left.evalBoth p = .ok (.boolean a) ∧ right.evalBoth p = .ok (.boolean b) ∧
        .boolean (c.combine a b) = v := by
  simp only [evalBoth, bind_eq_ok_iff, requireBool_eq_ok_iff, pure, Except.pure, Except.ok.injEq]
  constructor
  · rintro ⟨_, hleft, _, hright, a, rfl, b, rfl, hv⟩
    exact ⟨a, b, hleft, hright, hv⟩
  · rintro ⟨a, b, hleft, hright, hv⟩
    exact ⟨_, hleft, _, hright, a, rfl, b, rfl, hv⟩

private theorem evalBoth_join {a b : Bool} (c : Connective)
    (hleft : left.evalBoth p = .ok (.boolean a)) (hright : right.evalBoth p = .ok (.boolean b)) :
    (join left c right).evalBoth p = .ok (.boolean (c.combine a b)) :=
  evalBoth_join_iff.mpr ⟨a, b, hleft, hright, rfl⟩

private theorem evalBoth_negate_iff :
    (negate part).evalBoth p = .ok v ↔
      ∃ b, part.evalBoth p = .ok (.boolean b) ∧ .boolean (!b) = v := by
  simp only [evalBoth, bind_eq_ok_iff, requireBool_eq_ok_iff, pure, Except.pure, Except.ok.injEq]
  constructor
  · rintro ⟨_, hpart, b, rfl, hv⟩
    exact ⟨b, hpart, hv⟩
  · rintro ⟨b, hpart, hv⟩
    exact ⟨_, hpart, b, rfl, hv⟩

private theorem eval_of_evalBoth (h : e.evalBoth p = .ok v) : e.eval p = .ok v := by
  induction e generalizing v with
  | const w => exact h
  | var name => exact h
  | compare left r right ihleft ihright =>
    obtain ⟨a, b, t, hleft, hright, hcompare, rfl⟩ := evalBoth_compare_iff.mp h
    exact eval_compare (ihleft hleft) (ihright hright) hcompare
  | join left c right ihleft ihright =>
    obtain ⟨a, b, hleft, hright, rfl⟩ := evalBoth_join_iff.mp h
    rw [c.combine_eq_ite]
    exact eval_join c (ihleft hleft) (ihright hright)
  | negate part ih =>
    obtain ⟨b, hpart, rfl⟩ := evalBoth_negate_iff.mp h
    exact eval_negate (ih hpart)

/-- One connective somewhere in a condition has its parts swapped, or is regrouped with the same
connective in one of its parts. -/
inductive Rearranges : Condition → Condition → Prop
  | swap (left : Condition) (c : Connective) (right : Condition) :
      Rearranges (join left c right) (join right c left)
  | groupRight (first : Condition) (c : Connective) (second third : Condition) :
      Rearranges (join (join first c second) c third) (join first c (join second c third))
  | groupLeft (first : Condition) (c : Connective) (second third : Condition) :
      Rearranges (join first c (join second c third)) (join (join first c second) c third)
  | compareLeft {left left' : Condition} (r : Relation) (right : Condition)
      (h : Rearranges left left') : Rearranges (compare left r right) (compare left' r right)
  | compareRight (left : Condition) (r : Relation) {right right' : Condition}
      (h : Rearranges right right') : Rearranges (compare left r right) (compare left r right')
  | joinLeft {left left' : Condition} (c : Connective) (right : Condition)
      (h : Rearranges left left') : Rearranges (join left c right) (join left' c right)
  | joinRight (left : Condition) (c : Connective) {right right' : Condition}
      (h : Rearranges right right') : Rearranges (join left c right) (join left c right')
  | negate {part part' : Condition} (h : Rearranges part part') :
      Rearranges (negate part) (negate part')

private theorem Rearranges.evalBoth (h : Rearranges e e') (hv : e.evalBoth p = .ok v) :
    e'.evalBoth p = .ok v := by
  induction h generalizing v with
  | swap left c right =>
    obtain ⟨a, b, hleft, hright, rfl⟩ := evalBoth_join_iff.mp hv
    rw [c.combine_comm]
    exact evalBoth_join c hright hleft
  | groupRight first c second third =>
    obtain ⟨_, d, hjoint, hthird, rfl⟩ := evalBoth_join_iff.mp hv
    obtain ⟨a, b, hfirst, hsecond, hab⟩ := evalBoth_join_iff.mp hjoint
    obtain rfl := Value.boolean.inj hab
    rw [c.combine_assoc]
    exact evalBoth_join c hfirst (evalBoth_join c hsecond hthird)
  | groupLeft first c second third =>
    obtain ⟨a, _, hfirst, hjoint, rfl⟩ := evalBoth_join_iff.mp hv
    obtain ⟨b, d, hsecond, hthird, hbd⟩ := evalBoth_join_iff.mp hjoint
    obtain rfl := Value.boolean.inj hbd
    rw [← c.combine_assoc]
    exact evalBoth_join c (evalBoth_join c hfirst hsecond) hthird
  | compareLeft r right _ ih =>
    obtain ⟨a, b, t, hleft, hright, hcompare, rfl⟩ := evalBoth_compare_iff.mp hv
    exact evalBoth_compare_iff.mpr ⟨a, b, t, ih hleft, hright, hcompare, rfl⟩
  | compareRight left r _ ih =>
    obtain ⟨a, b, t, hleft, hright, hcompare, rfl⟩ := evalBoth_compare_iff.mp hv
    exact evalBoth_compare_iff.mpr ⟨a, b, t, hleft, ih hright, hcompare, rfl⟩
  | joinLeft c right _ ih =>
    obtain ⟨a, b, hleft, hright, rfl⟩ := evalBoth_join_iff.mp hv
    exact evalBoth_join c (ih hleft) hright
  | joinRight left c _ ih =>
    obtain ⟨a, b, hleft, hright, rfl⟩ := evalBoth_join_iff.mp hv
    exact evalBoth_join c hleft (ih hright)
  | negate _ ih =>
    obtain ⟨b, hpart, rfl⟩ := evalBoth_negate_iff.mp hv
    exact evalBoth_negate_iff.mpr ⟨b, ih hpart, rfl⟩

private theorem evalBoth_of_rearranged (h : Relation.ReflTransGen Rearranges e e')
    (hv : e.evalBoth p = .ok v) : e'.evalBoth p = .ok v := by
  induction h with
  | refl => exact hv
  | tail _ hstep ih => exact hstep.evalBoth ih

/-- What the eager evaluation answers is the answer for the condition and for all its
rearrangements. -/
theorem eval_rearranged (p : Purchase) (e : Condition) (v : Value) (h : e.evalBoth p = .ok v) :
    e.eval p = .ok v ∧
      ∀ e', Relation.ReflTransGen Rearranges e e' → e'.eval p = .ok v :=
  ⟨eval_of_evalBoth h, fun _ hstep => eval_of_evalBoth (evalBoth_of_rearranged hstep h)⟩

def memberCondition : Condition :=
  .join (.join (.var "primeiraCompra") .or (.compare (.var "valor") .gt (.const (.text "50")))) .or
    (.negate (.join (.compare (.var "categoria") .eq (.const (.text "VIP"))) .and
      (.const (.boolean false))))

def memberRearranged : Condition :=
  .join (.var "primeiraCompra") .or
    (.join
      (.negate (.join (.const (.boolean false)) .and
        (.compare (.var "categoria") .eq (.const (.text "VIP")))))
      .or (.compare (.var "valor") .gt (.const (.text "50"))))

theorem eval_rearranged_member :
    memberCondition.evalBoth {} = .ok (.boolean true) ∧
      Relation.ReflTransGen Rearranges memberCondition memberRearranged ∧
      memberCondition.eval {} = .ok (.boolean true) ∧
      memberRearranged.eval {} = .ok (.boolean true) := by
  have hboth : memberCondition.evalBoth {} = .ok (.boolean true) := by
    rfl
  have hbelow : Rearranges memberCondition _ := .joinRight _ _ (.negate (.swap _ _ _))
  have hsteps : Relation.ReflTransGen Rearranges memberCondition memberRearranged :=
    ((Relation.ReflTransGen.single hbelow).tail (.groupRight _ _ _ _)).tail
      (.joinRight _ _ (.swap _ _ _))
  have heval := eval_rearranged {} memberCondition _ hboth
  exact ⟨hboth, hsteps, heval.1, heval.2 _ hsteps⟩

end Condition

end Rebate

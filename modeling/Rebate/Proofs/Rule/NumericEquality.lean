import Rebate.Proofs.Condition.Inquiry
import Rebate.Proofs.Rule.NumericComparison

/-!
Evaluation respects the equality of numbers, whatever their scales. Equivalent conditions come to
equivalent values, or to the same fault, for equivalent purchases. There is one exception: a text is
compared with the text of a number, and that text shows the scale.
-/

set_option autoImplicit false
set_option relaxedAutoImplicit false

namespace Rebate

/-- Two results agree if both are the same fault, or both are answers and these are related. -/
def Agree {α : Type} (R : α → α → Prop) : Except Fault α → Except Fault α → Prop
  | .ok a, .ok b => R a b
  | .error fault, .error fault' => fault = fault'
  | _, _ => False

namespace Agree

variable {α β : Type} {R : α → α → Prop} {S : β → β → Prop} {x y : Except Fault α}

private theorem refl (hR : ∀ a, R a a) (x : Except Fault α) : Agree R x x := by
  cases x with
  | ok a => exact hR a
  | error fault => rfl

private theorem bind {f g : α → Except Fault β} (h : Agree R x y)
    (hf : ∀ a b, x = .ok a → R a b → Agree S (f a) (g b)) : Agree S (x >>= f) (y >>= g) := by
  cases x with
  | ok a =>
    cases y with
    | ok b => exact hf a b rfl h
    | error fault => cases h
  | error fault =>
    cases y with
    | ok b => cases h
    | error fault' => exact h

end Agree

private theorem Decimal.equiv_refl (a : Decimal) : a ≈ a :=
  rfl

private theorem Relation.holds_congr {a a' b b' : Decimal} (r : Relation) (ha : a ≈ a')
    (hb : b ≈ b') : r.Holds a b ↔ r.Holds a' b' := by
  rw [r.holds_iff_relates, r.holds_iff_relates, Decimal.equiv_iff_toRat_eq.mp ha,
    Decimal.equiv_iff_toRat_eq.mp hb]

namespace Value

variable {v v' w w' : Value}

private theorem equiv_refl (v : Value) : v ≈ v := by
  cases v with
  | number a => exact a.equiv_refl
  | boolean b => rfl
  | text s => rfl

private theorem eq_or_number_of_equiv (h : v ≈ w) :
    v = w ∨ ∃ a b, v = .number a ∧ w = .number b ∧ a ≈ b := by
  cases v with
  | number a =>
    cases w with
    | number b => exact Or.inr ⟨a, b, rfl, rfl, h⟩
    | _ => cases h
  | boolean b =>
    cases w with
    | boolean d => exact Or.inl (congrArg _ h)
    | _ => cases h
  | text s =>
    cases w with
    | text t => exact Or.inl (congrArg _ h)
    | _ => cases h

private theorem compare_congr_left (r : Relation) (hv : v ≈ v') (w : Value) :
    v.compare r w = v'.compare r w := by
  rcases eq_or_number_of_equiv hv with rfl | ⟨a, a', rfl, rfl, ha⟩
  · rfl
  · rw [compare, compare]
    cases hw : w.toDecimal? with
    | none => rfl
    | some b => simp only [r.holds_congr ha b.equiv_refl]

private theorem compare_congr_right (r : Relation) (hw : w ≈ w')
    (htext : ¬ (v.kind = .text ∧ w.kind = .number)) : v.compare r w = v.compare r w' := by
  rcases eq_or_number_of_equiv hw with rfl | ⟨b, b', rfl, rfl, hb⟩
  · rfl
  · cases v with
    | number a => simp only [compare, toDecimal?, r.holds_congr a.equiv_refl hb]
    | boolean a => rfl
    | text s => exact absurd ⟨rfl, rfl⟩ htext

private theorem requireBool_congr (site : Site) (h : v ≈ w) :
    Condition.requireBool site v = Condition.requireBool site w := by
  rcases eq_or_number_of_equiv h with rfl | ⟨a, b, rfl, rfl, -⟩
  · rfl
  · rfl

end Value

private theorem Purchase.fact_agree {p q : Purchase} (h : p ≈ q) (name : String) :
    Agree (· ≈ ·) (p.fact name) (q.fact name) := by
  obtain ⟨hquantity, htotal, hcategory, hfirst⟩ := h
  by_cases hname : name = "valor"
  · subst hname
    exact htotal
  · -- All other facts are the same in both.
    have hget : q.get? name = p.get? name :=
      get?_congr (fun _ => hquantity.symm) (fun hvalor => absurd hvalor hname)
        (fun _ => hcategory.symm) (fun _ => hfirst.symm)
    rw [fact_congr hget]
    exact Agree.refl Value.equiv_refl _

structure Comparison where
  left : Value
  relation : Relation
  right : Value

/-- Whether the text of a number is compared. -/
def Comparison.ReadsText (x : Comparison) : Prop :=
  x.left.kind = .text ∧ x.right.kind = .number

instance (x : Comparison) : Decidable x.ReadsText :=
  inferInstanceAs (Decidable (_ ∧ _))

namespace Condition

/-- The comparisons that the evaluation of a condition comes to, in order. -/
def comparisons (p : Purchase) : Condition → List Comparison
  | const _ => []
  | var _ => []
  | compare left r right =>
    left.comparisons p ++
      match left.eval p with
      | .error _ => []
      | .ok v =>
        right.comparisons p ++
          match right.eval p with
          | .error _ => []
          | .ok w => [{ left := v, relation := r, right := w }]
  | join left c right =>
    left.comparisons p ++
      match left.eval p with
      | .ok (.boolean b) => if b = c.neutral then right.comparisons p else []
      | _ => []
  | negate part => part.comparisons p

variable {p p' : Purchase} {e e' left right : Condition} {r : Relation} {c : Connective} {v : Value}

private theorem comparisons_compare (h : left.eval p = .ok v) :
    (compare left r right).comparisons p = left.comparisons p ++ (right.comparisons p ++
      match right.eval p with
      | .error _ => []
      | .ok w => [{ left := v, relation := r, right := w }]) := by
  rw [comparisons, h]

private theorem comparisons_join (h : left.eval p = .ok (.boolean c.neutral)) :
    (join left c right).comparisons p = left.comparisons p ++ right.comparisons p := by
  rw [comparisons, h]
  simp only [if_true]

/-- Equivalent conditions agree for equivalent purchases, unless the text of a number is
compared. -/
theorem eval_agree (he : e ≈ e') (hp : p ≈ p') (h : ∀ x ∈ e.comparisons p, ¬ x.ReadsText) :
    Agree (· ≈ ·) (e.eval p) (e'.eval p') := by
  induction e generalizing e' with
  | const v =>
    cases e' with
    | const w => exact he
    | _ => cases he
  | var name =>
    cases e' with
    | var name' =>
      obtain rfl : name = name' := he
      exact Purchase.fact_agree hp name
    | _ => cases he
  | compare left r right ihleft ihright =>
    cases e' with
    | compare left' r' right' =>
      obtain ⟨rfl, heleft, heright⟩ := he
      refine Agree.bind (ihleft heleft fun x hx => h x (List.mem_append_left _ hx)) ?_
      intro v v' hv hequiv
      rw [comparisons_compare hv] at h
      simp only [List.forall_mem_append] at h
      refine Agree.bind (ihright heright h.2.1) ?_
      intro w w' hw hequiv'
      have hkinds := h.2.2 ⟨v, r, w⟩ (by simp [hw])
      rw [Value.compare_congr_right r hequiv' hkinds, Value.compare_congr_left r hequiv]
      exact Agree.refl Value.equiv_refl _
    | _ => cases he
  | join left c right ihleft ihright =>
    cases e' with
    | join left' c' right' =>
      obtain ⟨rfl, heleft, heright⟩ := he
      refine Agree.bind (ihleft heleft fun x hx => h x (List.mem_append_left _ hx)) ?_
      intro v v' hv hequiv
      rw [← Value.requireBool_congr _ hequiv]
      refine Agree.bind (Agree.refl (R := Eq) (fun _ => rfl) _) ?_
      rintro decided _ hdecided rfl
      by_cases hneutral : decided = c.neutral
      · obtain rfl := requireBool_eq_ok_iff.mp hdecided
        subst hneutral
        rw [comparisons_join hv, List.forall_mem_append] at h
        simp only [if_true]
        refine Agree.bind (ihright heright h.2) ?_
        intro w w' hw hequiv'
        rw [← Value.requireBool_congr _ hequiv']
        exact Agree.refl Value.equiv_refl _
      · simp only [if_neg hneutral]
        exact Value.equiv_refl _
    | _ => cases he
  | negate part ih =>
    cases e' with
    | negate part' =>
      refine Agree.bind (ih he h) ?_
      intro v v' hv hequiv
      rw [← Value.requireBool_congr _ hequiv]
      exact Agree.refl Value.equiv_refl _
    | _ => cases he

end Condition

namespace Rule

private theorem evaluate_agree {rule rule' : Rule} {p p' : Purchase}
    (hcondition : rule.condition ≈ rule'.condition) (hdiscount : rule.discount ≈ rule'.discount)
    (hp : p ≈ p') (h : ∀ x ∈ rule.condition.comparisons p, ¬ x.ReadsText) :
    Agree (Option.Rel (· ≈ ·)) (rule.evaluate p) (rule'.evaluate p') := by
  refine Agree.bind (Condition.eval_agree hcondition hp h) ?_
  intro v v' _ hequiv
  rcases Value.eq_or_number_of_equiv hequiv with rfl | ⟨a, b, rfl, rfl, -⟩
  · cases v with
    | number a => exact rfl
    | text s => exact rfl
    | boolean b =>
      cases b with
      | true => exact Option.Rel.some hdiscount
      | false => exact Option.Rel.none
  · exact rfl

def one : Decimal :=
  (Decimal.ofString? "1.0").getD 0

def spellingSource : String :=
  "\"1.0\" = valor ENTAO 5"

def spellingRule : Rule where
  condition := .compare (.const (.text "1.0")) .eq (.var "valor")
  discount := .ofInt64 5
  source := spellingSource

/-- Equivalent conditions and rules agree for equivalent purchases, as long as no text is compared
with a number. A rule that does compare the two can tell equivalent purchases apart. -/
theorem evaluate_respects_equiv :
    (∀ (e e' : Condition) (p p' : Purchase), e ≈ e' → p ≈ p' →
      (∀ x ∈ e.comparisons p, ¬ x.ReadsText) → Agree (· ≈ ·) (e.eval p) (e'.eval p')) ∧
    (∀ (rule rule' : Rule) (p p' : Purchase),
      rule.condition ≈ rule'.condition → rule.discount ≈ rule'.discount → p ≈ p' →
      (∀ x ∈ rule.condition.comparisons p, ¬ x.ReadsText) →
        Agree (Option.Rel (· ≈ ·)) (rule.evaluate p) (rule'.evaluate p')) ∧
    ∃ (p p' : Purchase) (source : String) (rule : Rule), p ≈ p' ∧ read source = .ok rule ∧
      ¬ Agree (Option.Rel (· ≈ ·)) (rule.evaluate p) (rule.evaluate p') := by
  refine ⟨fun _ _ _ _ he hp h => Condition.eval_agree he hp h,
    fun _ _ _ _ hcondition hdiscount hp h => evaluate_agree hcondition hdiscount hp h,
    { total := one }, { total := .ofInt64 1 }, spellingSource, spellingRule, ?_, ?_, ?_⟩
  · exact ⟨rfl, by decide, rfl, rfl⟩
  · cbv
  · have hone : spellingRule.evaluate { total := one } = .ok (some (.ofInt64 5)) := by
      decide +kernel
    have hother : spellingRule.evaluate { total := .ofInt64 1 } = .ok none := by
      decide +kernel
    rw [hone, hother]
    intro h
    cases h

def amountRule (amount discount : Decimal) : Rule where
  condition :=
    .join (.compare (.var "valor") .ge (.const (.number amount))) .and
      (.compare (.var "categoria") .eq (.const (.text "VIP")))
  discount := discount
  source := "amount"

def amountSpent (total : Decimal) : Purchase where
  total := total
  category := "VIP"

theorem evaluate_respects_equiv_amount :
    (amountRule one one).condition ≈ (amountRule (.ofInt64 1) (.ofInt64 1)).condition ∧
      amountSpent one ≈ amountSpent (.ofInt64 1) ∧
      (∀ x ∈ (amountRule one one).condition.comparisons (amountSpent one), ¬ x.ReadsText) ∧
      Agree (· ≈ ·) ((amountRule one one).condition.eval (amountSpent one))
        ((amountRule (.ofInt64 1) (.ofInt64 1)).condition.eval (amountSpent (.ofInt64 1))) ∧
      Agree (Option.Rel (· ≈ ·)) ((amountRule one one).evaluate (amountSpent one))
        ((amountRule (.ofInt64 1) (.ofInt64 1)).evaluate (amountSpent (.ofInt64 1))) := by
  have hone : one ≈ .ofInt64 1 := by
    decide
  have hcondition :
      (amountRule one one).condition ≈ (amountRule (.ofInt64 1) (.ofInt64 1)).condition := by
    decide
  have hspent : amountSpent one ≈ amountSpent (.ofInt64 1) := ⟨rfl, hone, rfl, rfl⟩
  have hnumbers :
      ∀ x ∈ (amountRule one one).condition.comparisons (amountSpent one), ¬ x.ReadsText := by
    decide +kernel
  exact ⟨hcondition, hspent, hnumbers,
    evaluate_respects_equiv.1 _ _ _ _ hcondition hspent hnumbers,
    evaluate_respects_equiv.2.1 _ _ _ _ hcondition hone hspent hnumbers⟩

end Rule

end Rebate

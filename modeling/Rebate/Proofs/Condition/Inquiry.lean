import Rebate.Rule.Basic

/-!
What evaluation asks for. Evaluation is stated once more, for any way of asking for a fact. Looking
the fact up gives the value of a condition; another way also keeps the names asked for, in their
order. Parts that a connective leaves out and whatever follows a fault ask for nothing. Purchases
that agree on the names cannot be told apart: for both, the condition asks the same questions and
comes to the same value or fault.
-/

set_option autoImplicit false
set_option relaxedAutoImplicit false

namespace Rebate

private theorem Value.compare_ne_unknownVariable (v : Value) (r : Relation) (w : Value)
    (name : String) : v.compare r w ≠ .error (.unknownVariable name) := by
  cases v with
  | number a =>
    rw [compare]
    cases w.toDecimal? <;> simp
  | boolean a =>
    rw [compare]
    by_cases hr : r = .eq
    · cases w.toBool? <;> simp [requireEq, hr, bind, Except.bind]
    · simp [requireEq, hr, bind, Except.bind]
  | text s =>
    rw [compare]
    by_cases hr : r = .eq
    · simp [requireEq, hr, bind, Except.bind]
    · simp [requireEq, hr, bind, Except.bind]

namespace Purchase

def names : List String :=
  ["quantidade", "valor", "categoria", "primeiraCompra"]

def fact (p : Purchase) (name : String) : Except Fault Value :=
  match p.get? name with
  | some v => .ok v
  | none => .error (.unknownVariable name)

variable {p q : Purchase} {name : String}

private theorem not_mem_names_of_get? (h : p.get? name = none) : name ∉ names := by
  intro hmem
  simp only [names, List.mem_cons, List.not_mem_nil, or_false] at hmem
  rcases hmem with rfl | rfl | rfl | rfl <;> cases h

theorem get?_congr (hquantity : name = "quantidade" → q.quantity = p.quantity)
    (htotal : name = "valor" → q.total = p.total)
    (hcategory : name = "categoria" → q.category = p.category)
    (hfirst : name = "primeiraCompra" → q.firstPurchase = p.firstPurchase) :
    q.get? name = p.get? name := by
  rw [get?, get?]
  split
  · next h => rw [hquantity h]
  · split
    · next h => rw [htotal h]
    · split
      · next h => rw [hcategory h]
      · split
        · next h => rw [hfirst h]
        · rfl

theorem fact_congr (h : q.get? name = p.get? name) : q.fact name = p.fact name := by
  rw [fact, fact, h]

private theorem get?_eq_none_of_fact {unknown : String}
    (h : p.fact name = .error (.unknownVariable unknown)) :
    unknown = name ∧ p.get? name = none := by
  rw [fact] at h
  cases hget : p.get? name with
  | some v => simp [hget] at h
  | none => simpa [hget, eq_comm] using h

end Purchase

namespace Condition

variable {m n : Type → Type} [Monad m] [Monad n] [MonadLiftT (Except Fault) m]
  [MonadLiftT (Except Fault) n]

/-- Evaluation with a way of asking for the fact of a name. -/
def evalBy (ask : String → m Value) : Condition → m Value
  | const v => return v
  | var name => ask name
  | compare left r right => do
    let v ← left.evalBy ask
    let w ← right.evalBy ask
    return .boolean (← v.compare r w)
  | join left c right => do
    let decided ← requireBool (.joint c) (← left.evalBy ask)
    if decided = c.neutral then
      return .boolean (← requireBool (.joint c) (← right.evalBy ask))
    else
      return .boolean decided
  | negate part => do
    let b ← requireBool .negation (← part.evalBy ask)
    return .boolean (!b)

private theorem evalBy_fact (p : Purchase) (e : Condition) : e.evalBy p.fact = e.eval p := by
  induction e with
  | const v => rfl
  | var name => rfl
  | compare left r right ihleft ihright =>
    rw [evalBy, eval, ihleft, ihright]
    rfl
  | join left c right ihleft ihright =>
    rw [evalBy, eval, ihleft, ihright]
    rfl
  | negate part ihpart =>
    rw [evalBy, eval, ihpart]
    rfl

private theorem requireBool_ne_unknownVariable (site : Site) (v : Value) (name : String) :
    requireBool site v ≠ .error (.unknownVariable name) := by
  cases v <;> simp [requireBool]

/-- What holds of two computations that take the same steps, and of two longer ones if it holds of
their parts. -/
structure Stepwise (R : ∀ {α : Type}, m α → n α → Prop) : Prop where
  pure : ∀ {α : Type} (a : α), R (pure a) (pure a)
  lift : ∀ {α : Type} {x : Except Fault α}, (∀ name, x ≠ .error (.unknownVariable name)) →
    R (liftM x) (liftM x)
  bind : ∀ {α β : Type} {x : m α} {y : n α} {f : α → m β} {g : α → n β},
    R x y → (∀ a, R (f a) (g a)) → R (x >>= f) (y >>= g)

/-- Two evaluations of a condition are related if their ways of asking are. -/
theorem Stepwise.evalBy {R : ∀ {α : Type}, m α → n α → Prop} (hR : Stepwise @R)
    {f : String → m Value} {g : String → n Value} (hask : ∀ name, R (f name) (g name))
    (e : Condition) : R (e.evalBy f) (e.evalBy g) := by
  have hbool (site : Site) (v : Value) :
      R (liftM (requireBool site v)) (liftM (requireBool site v)) :=
    hR.lift (requireBool_ne_unknownVariable site v)
  induction e with
  | const v => exact hR.pure v
  | var name => exact hask name
  | compare left r right ihleft ihright =>
    refine hR.bind ihleft fun v => hR.bind ihright fun w => hR.bind ?_ fun b => hR.pure _
    exact hR.lift (Value.compare_ne_unknownVariable v r w)
  | join left c right ihleft ihright =>
    refine hR.bind ihleft fun v => hR.bind (hbool _ v) fun decided => ?_
    by_cases hdecided : decided = c.neutral
    · simp only [if_pos hdecided]
      exact hR.bind ihright fun w => hR.bind (hbool _ w) fun b => hR.pure _
    · simp only [if_neg hdecided]
      exact hR.pure _
  | negate part ihpart =>
    exact hR.bind ihpart fun v => hR.bind (hbool _ v) fun b => hR.pure _

end Condition

/-- A computation that asks for facts by name. -/
structure Inquiry (α : Type) where
  names : List String
  result : Except Fault α

namespace Inquiry

instance : Monad Inquiry where
  pure a := { names := [], result := .ok a }
  bind x f :=
    match x.result with
    | .ok a => { names := x.names ++ (f a).names, result := (f a).result }
    | .error fault => { names := x.names, result := .error fault }

instance : MonadLift (Except Fault) Inquiry where
  monadLift result := { names := [], result }

def ask (p : Purchase) (name : String) : Inquiry Value where
  names := [name]
  result := p.fact name

variable {α : Type}

private theorem stepwise_result :
    Condition.Stepwise fun {α : Type} (x : Inquiry α) (y : Except Fault α) => x.result = y where
  pure _ := rfl
  lift _ := rfl
  bind := by
    intro α β x y f g hx hf
    simp only [Bind.bind, ← hx]
    cases x.result with
    | ok a => exact hf a
    | error fault => rfl

/-- Two computations are the same if every name that the first one asks for has a property. -/
def SameIf (P : String → Prop) (x y : Inquiry α) : Prop :=
  (∀ name ∈ x.names, P name) → y = x

private theorem stepwise_sameIf (P : String → Prop) :
    Condition.Stepwise fun {α : Type} (x y : Inquiry α) => SameIf P x y where
  pure _ := fun _ => rfl
  lift _ := fun _ => rfl
  bind := by
    intro α β x y f g hx hf hnames
    simp only [Bind.bind] at hnames ⊢
    cases hresult : x.result with
    | error fault =>
      simp only [hresult] at hnames
      rw [hx hnames, hresult]
    | ok a =>
      simp only [hresult, List.mem_append] at hnames
      rw [hx fun name hname => hnames name (Or.inl hname), hresult]
      simp only [hf a fun name hname => hnames name (Or.inr hname)]

/-- A fault about an unknown name is about one that was asked for in vain. -/
def Accounts (p : Purchase) (x : Inquiry α) : Prop :=
  ∀ name, x.result = .error (.unknownVariable name) → name ∈ x.names ∧ p.get? name = none

private theorem stepwise_accounts (p : Purchase) :
    Condition.Stepwise fun {α : Type} (x _ : Inquiry α) => Accounts p x where
  pure _ := fun name h => by cases h
  lift hknown := fun name h => absurd h (hknown name)
  bind := by
    intro α β x y f g hx hf name hname
    simp only [Bind.bind] at hname ⊢
    cases hresult : x.result with
    | error fault =>
      simp only [hresult] at hname ⊢
      obtain rfl := Except.error.inj hname
      exact hx name hresult
    | ok a =>
      simp only [hresult] at hname ⊢
      obtain ⟨hmem, hget⟩ := hf a name hname
      exact ⟨List.mem_append_right _ hmem, hget⟩

private theorem accounts_ask (p : Purchase) (name : String) : Accounts p (ask p name) := by
  intro unknown h
  obtain ⟨rfl, hget⟩ := Purchase.get?_eq_none_of_fact h
  exact ⟨List.mem_singleton.mpr rfl, hget⟩

end Inquiry

namespace Condition

/-- The value of a condition for a purchase, and the facts it asks for on the way. -/
def inquire (p : Purchase) (e : Condition) : Inquiry Value :=
  e.evalBy (Inquiry.ask p)

private theorem result_inquire (p : Purchase) (e : Condition) : (e.inquire p).result = e.eval p :=
  (Inquiry.stepwise_result.evalBy (fun _ => rfl) e).trans (evalBy_fact p e)

private theorem sameIf_inquire (p q : Purchase) (e : Condition) :
    Inquiry.SameIf (fun name => q.get? name = p.get? name) (e.inquire p) (e.inquire q) := by
  refine (Inquiry.stepwise_sameIf _).evalBy (fun name hnames => ?_) e
  have hget : q.get? name = p.get? name := hnames name (List.mem_singleton.mpr rfl)
  rw [Inquiry.ask, Inquiry.ask, Purchase.fact_congr hget]

private theorem accounts_inquire (p : Purchase) (e : Condition) :
    Inquiry.Accounts p (e.inquire p) :=
  (Inquiry.stepwise_accounts p).evalBy (g := Inquiry.ask p) (Inquiry.accounts_ask p) e

private theorem eval_congr {p q : Purchase} {e : Condition}
    (h : ∀ name ∈ (e.inquire p).names, q.get? name = p.get? name) : e.eval q = e.eval p := by
  rw [← result_inquire, ← result_inquire, sameIf_inquire p q e h]

theorem mem_names_of_unknownVariable {p : Purchase} {e : Condition} {name : String}
    (h : e.eval p = .error (.unknownVariable name)) :
    name ∈ (e.inquire p).names ∧ name ∉ Purchase.names := by
  obtain ⟨hmem, hget⟩ := accounts_inquire p e name ((result_inquire p e).trans h)
  exact ⟨hmem, Purchase.not_mem_names_of_get? hget⟩

end Condition

namespace Rule

def names (rule : Rule) (p : Purchase) : List String :=
  (rule.condition.inquire p).names

variable {p q : Purchase} {rule : Rule}

private theorem evaluate_congr (hquantity : "quantidade" ∈ rule.names p → q.quantity = p.quantity)
    (htotal : "valor" ∈ rule.names p → q.total = p.total)
    (hcategory : "categoria" ∈ rule.names p → q.category = p.category)
    (hfirst : "primeiraCompra" ∈ rule.names p → q.firstPurchase = p.firstPurchase) :
    rule.evaluate q = rule.evaluate p := by
  have hnames : ∀ name ∈ rule.names p, q.get? name = p.get? name := by
    intro name hname
    apply Purchase.get?_congr
    · exact fun h => hquantity (h ▸ hname)
    · exact fun h => htotal (h ▸ hname)
    · exact fun h => hcategory (h ▸ hname)
    · exact fun h => hfirst (h ▸ hname)
  rw [evaluate, evaluate, Condition.eval_congr hnames]

theorem eval_of_evaluate {name : String} (h : rule.evaluate p = .error (.unknownVariable name)) :
    rule.condition.eval p = .error (.unknownVariable name) := by
  rw [evaluate] at h
  cases heval : rule.condition.eval p with
  | error fault =>
    rw [heval] at h
    exact congrArg _ (Except.error.inj h)
  | ok v =>
    rw [heval] at h
    rcases v with a | (_ | _) | s <;> cases h

end Rule

namespace Condition

/-- Evaluation depends on nothing but the facts that are asked for. If another purchase agrees on
them, the same facts are asked for there, to the same end; so a fact that a rule does not ask for
may be changed at will. A name is only called unknown if it was asked for and names no fact. -/
theorem eval_of_inquire :
    (∀ (e : Condition) (p : Purchase),
      e.evalBy p.fact = e.eval p ∧ (e.inquire p).result = e.eval p) ∧
    (∀ (e : Condition) (p q : Purchase),
      (∀ name ∈ (e.inquire p).names, q.get? name = p.get? name) →
        (e.inquire q).names = (e.inquire p).names ∧ e.eval q = e.eval p) ∧
    (∀ (rule : Rule) (p q : Purchase),
      ("quantidade" ∈ rule.names p → q.quantity = p.quantity) →
      ("valor" ∈ rule.names p → q.total = p.total) →
      ("categoria" ∈ rule.names p → q.category = p.category) →
      ("primeiraCompra" ∈ rule.names p → q.firstPurchase = p.firstPurchase) →
        rule.evaluate q = rule.evaluate p) ∧
    (∀ (e : Condition) (p : Purchase) (name : String),
      e.eval p = .error (.unknownVariable name) →
        name ∈ (e.inquire p).names ∧ name ∉ Purchase.names) ∧
    ∀ (rule : Rule) (p : Purchase) (name : String),
      rule.evaluate p = .error (.unknownVariable name) →
        name ∈ rule.names p ∧ name ∉ Purchase.names := by
  refine ⟨fun e p => ⟨evalBy_fact p e, result_inquire p e⟩, fun e p q h => ?_, ?_, ?_, ?_⟩
  · exact ⟨congrArg Inquiry.names (sameIf_inquire p q e h), eval_congr h⟩
  · intro rule p q hquantity htotal hcategory hfirst
    exact Rule.evaluate_congr hquantity htotal hcategory hfirst
  · exact fun e p name h => mem_names_of_unknownVariable h
  · exact fun rule p name h => mem_names_of_unknownVariable (Rule.eval_of_evaluate h)

def couponRule : Rule where
  condition :=
    .join (.compare (.var "valor") .gt (.const (.number (.ofInt64 100)))) .or
      (.join (.compare (.var "categoria") .eq (.const (.text "VIP"))) .and (.var "cupom"))
  discount := .ofInt64 5
  source := "coupon"

theorem eval_of_inquire_coupon :
    couponRule.names { total := .ofInt64 200 } = ["valor"] ∧
      (∀ category, couponRule.evaluate { total := .ofInt64 200, category } =
        couponRule.evaluate { total := .ofInt64 200 }) ∧
      (couponRule.condition.inquire { category := "VIP", quantity := 3 }).names =
        ["valor", "categoria", "cupom"] ∧
      "cupom" ∉ Purchase.names := by
  have hlarge : couponRule.names { total := .ofInt64 200 } = ["valor"] := by
    decide +kernel
  have hsmall : (couponRule.condition.inquire { category := "VIP" }).names =
      ["valor", "categoria", "cupom"] := by
    decide +kernel
  have hfault : couponRule.condition.eval { category := "VIP" } =
      .error (.unknownVariable "cupom") := rfl
  refine ⟨hlarge, fun category => ?_, ?_, ?_⟩
  · apply eval_of_inquire.2.2.1 <;> rw [hlarge] <;> simp
  · rw [← hsmall]
    apply (eval_of_inquire.2.1 _ _ _ _).1
    rw [hsmall]
    simp [Purchase.get?]
  · exact (eval_of_inquire.2.2.2.1 _ _ _ hfault).2

end Condition

end Rebate

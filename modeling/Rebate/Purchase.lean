import Rebate.Value.Basic

/-!
What a shop knows of a purchase. Each fact has a name by which conditions ask for it.
-/

set_option autoImplicit false
set_option relaxedAutoImplicit false

namespace Rebate

structure Purchase where
  quantity : Int64 := 0
  total : Decimal := 0
  category : String := ""
  firstPurchase : Bool := false
deriving DecidableEq

namespace Purchase

def get? (p : Purchase) (name : String) : Option Value :=
  if name = "quantidade" then some (.number (.ofInt64 p.quantity))
  else if name = "valor" then some (.number p.total)
  else if name = "categoria" then some (.text p.category)
  else if name = "primeiraCompra" then some (.boolean p.firstPurchase)
  else none

instance : HasEquiv Purchase where
  Equiv p q :=
    p.quantity = q.quantity ∧ p.total ≈ q.total ∧ p.category = q.category ∧
      p.firstPurchase = q.firstPurchase

end Purchase

end Rebate

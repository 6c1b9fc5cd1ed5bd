/-
  NumericMethods/Formula/Derivative.lean
  ======================================
  **The derivative of a formula.**

  The rules of sum, product, quotient and chain, and three rules for powers: one for an
  exponent in which the variable does not occur, one for such a base, and the general one.
-/
import NumericMethods.Formula

namespace NumericMethods

variable {α : Type} [Scalar α]

namespace Elementary

open Formula in
/-- The derivative of an elementary function, at the argument `u`. -/
def derivative (u : Formula α) : Elementary → Formula α
  | .exp => .apply .exp u
  | .ln => .div (.const 1) u
  | .sin => .apply .cos u
  | .cos => .neg (.apply .sin u)
  | .tan => .div (.const 1) (.pow (.apply .cos u) (.const (Scalar.ofNat 2)))
  | .sqrt => .div (.const 1) (.mul (.const (Scalar.ofNat 2)) (.apply .sqrt u))
  | .asin =>
    .div (.const 1) (.apply .sqrt (.sub (.const 1) (.pow u (.const (Scalar.ofNat 2)))))
  | .acos =>
    .div (.const (-1)) (.apply .sqrt (.sub (.const 1) (.pow u (.const (Scalar.ofNat 2)))))
  | .atan => .div (.const 1) (.add (.const 1) (.pow u (.const (Scalar.ofNat 2))))

end Elementary

namespace Formula

/-- The derivative with respect to the variable `name`, as the rules give it. -/
def derivative (name : String) : Formula α → Formula α
  | .var n => if n == name then .const 1 else .const 0
  | .const _ => .const 0
  | .add l r => .add (l.derivative name) (r.derivative name)
  | .sub l r => .sub (l.derivative name) (r.derivative name)
  | .mul l r => .add (.mul (l.derivative name) r) (.mul l (r.derivative name))
  | .div l r =>
    .div (.sub (.mul (l.derivative name) r) (.mul l (r.derivative name)))
      (.pow r (.const (Scalar.ofNat 2)))
  | .pow b e =>
    if e.mentions name then
      if b.mentions name then
        .mul (.pow b e)
          (.add (.mul (e.derivative name) (.apply .ln b))
            (.div (.mul e (b.derivative name)) b))
      else .mul (.mul (.pow b e) (.apply .ln b)) (e.derivative name)
    else .mul (.mul e (.pow b (.sub e (.const 1)))) (b.derivative name)
  | .neg u => .neg (u.derivative name)
  | .apply f u => .mul (f.derivative u) (u.derivative name)

end Formula

end NumericMethods

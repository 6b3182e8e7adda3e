import Mathlib.Data.Int.Init

set_option autoImplicit false

/-!
# The C type `int`

Arithmetic that leaves the 32-bit range is undefined behaviour, written `none`; a conversion
from a wider or unsigned type wraps.
-/

namespace CInt

def intMin : Int := -2147483648
def intMax : Int := 2147483647

def checked : Int → Option Int
  | .ofNat value => if value ≤ 2147483647 then some (.ofNat value) else none
  | .negSucc value => if value ≤ 2147483647 then some (.negSucc value) else none

theorem checked_correct (value : Int) :
    checked value = if intMin ≤ value ∧ value ≤ intMax then some value else none := by
  cases value with
  | ofNat value =>
    have same : (value ≤ 2147483647) ↔
        intMin ≤ Int.ofNat value ∧ Int.ofNat value ≤ intMax := by
      unfold intMin intMax
      simp only [Int.ofNat_eq_natCast]
      omega
    simp only [checked, same]
  | negSucc value =>
    have same : (value ≤ 2147483647) ↔
        intMin ≤ Int.negSucc value ∧ Int.negSucc value ≤ intMax := by
      unfold intMin intMax
      omega
    simp only [checked, same]

theorem checked_eq_some {value result : Int} :
    checked value = some result ↔ (intMin ≤ value ∧ value ≤ intMax) ∧ value = result := by
  by_cases within : intMin ≤ value ∧ value ≤ intMax <;> simp [checked_correct, within]

theorem checked_of_le {value : Int} (low : 0 ≤ value) (high : value ≤ intMax) :
    checked value = some value :=
  checked_eq_some.2 ⟨⟨by unfold intMin; omega, high⟩, rfl⟩

theorem checked_eq_none {value : Int} : checked value = none ↔ value < intMin ∨ intMax < value := by
  rw [checked_correct]
  split
  next within =>
    simp only [reduceCtorEq, false_iff, not_or, Int.not_lt]
    omega
  next outside =>
    simp only [true_iff]
    omega

def wrap (value : Int) : Int :=
  let low := (value % 4294967296).toNat
  if low < 2147483648 then low else (low : Int) - 4294967296

theorem wrap_of_le {value : Int} (low : intMin ≤ value) (high : value ≤ intMax) :
    wrap value = value := by
  unfold intMin intMax at *
  simp only [wrap]
  split <;> omega

theorem wrap_le_self {value : Int} (nonneg : 0 ≤ value) : wrap value ≤ value := by
  simp only [wrap]
  split <;> omega

theorem wrap_le (value : Int) : wrap value ≤ intMax := by
  simp only [wrap, intMax]
  split <;> omega

theorem wrap_ge (value : Int) : intMin ≤ wrap value := by
  simp only [wrap, intMin]
  split <;> omega

theorem wrap_emod (value : Int) : wrap value % 4294967296 = value % 4294967296 := by
  simp only [wrap]
  split <;> omega

theorem wrap_congr {value other : Int} (same : value % 4294967296 = other % 4294967296) :
    wrap value = wrap other := by
  simp only [wrap, same]

theorem wrap_wrap_add (value added : Int) : wrap (wrap value + added) = wrap (value + added) := by
  have low := wrap_emod value
  exact wrap_congr (by omega)

end CInt

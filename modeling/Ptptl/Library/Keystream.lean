import Mathlib.Data.List.Basic

set_option autoImplicit false

/-!
# Additive stream ciphers

A mask that undoes itself, applied element by element along an indexed keystream.
-/

namespace Keystream

variable {α κ : Type} (mask : α → κ → α) (stream : Nat → κ)

def apply : Nat → List α → List α
  | _, [] => []
  | position, head :: tail => mask head (stream position) :: apply (position + 1) tail

@[simp] theorem apply_length (position : Nat) (data : List α) :
    (apply mask stream position data).length = data.length := by
  induction data generalizing position with
  | nil => rfl
  | cons head tail ih => simp [apply, ih]

theorem apply_append (position : Nat) (front back : List α) :
    apply mask stream position (front ++ back) =
      apply mask stream position front ++ apply mask stream (position + front.length) back := by
  induction front generalizing position with
  | nil => rfl
  | cons head tail ih =>
      simp only [List.cons_append, apply, ih, List.length_cons]
      rw [Nat.add_assoc, Nat.add_comm 1]

theorem apply_apply (involutive : ∀ value key, mask (mask value key) key = value)
    (position : Nat) (data : List α) :
    apply mask stream position (apply mask stream position data) = data := by
  induction data generalizing position with
  | nil => rfl
  | cons head tail ih => simp [apply, involutive, ih]

end Keystream

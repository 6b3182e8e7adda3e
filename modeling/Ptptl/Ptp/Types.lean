import Mathlib.Data.List.Basic

set_option autoImplicit false

namespace Ptp

abbrev Byte := UInt8
abbrev Bytes := List Byte

/-- A fixed-size array, `BYTE[size]`. -/
abbrev Block (size : Nat) := { bytes : Bytes // bytes.length = size }

def Block.zero (size : Nat) : Block size := ⟨List.replicate size 0, List.length_replicate⟩

/-- The first `size` bytes of a buffer, which callers make long enough. -/
def Block.ofBytes (size : Nat) (bytes : Bytes) : Block size :=
  ⟨bytes.take size ++ List.replicate (size - bytes.length) 0, by simp; omega⟩

theorem Block.ofBytes_append {size : Nat} (block : Block size) (rest : Bytes) :
    Block.ofBytes size (block.val ++ rest) = block := by
  apply Subtype.ext
  have filled : block.val.length = size := block.property
  have long : size - (block.val ++ rest).length = 0 := by simp [filled]
  simp only [ofBytes, long, List.replicate_zero, List.append_nil]
  exact List.take_left' filled

theorem Block.ofBytes_val {size : Nat} {bytes : Bytes} (long : size ≤ bytes.length) :
    (Block.ofBytes size bytes).val = bytes.take size := by
  simp [ofBytes, Nat.sub_eq_zero_of_le long]

/-- A block that `new BYTE[size + 1]` or `OPENSSL_malloc(size + 1)` can hold for an `int` size. -/
abbrev Buffer := { bytes : Bytes // bytes.length < 2147483647 }

/-- `PTP_DIGEST_SIZE`, of SHA-1. -/
def digestSize : Nat := 20

/-- `PTP_SESSION_IV_SIZE`, of Blowfish. -/
def ivSize : Nat := 8

def sessionKeySize : Nat := 16

/-- `PTP_PUBLIC_KEY_SIZE`: the RSA modulus and ciphertext size. -/
def publicKeySize : Nat := 128

abbrev Digest := Block digestSize
abbrev Iv := Block ivSize
abbrev SessionKey := Block sessionKeySize

def ascii (text : String) : Bytes := text.toList.map fun char => char.toNat.toUInt8

end Ptp

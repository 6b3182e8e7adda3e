import Ptptl.Library.CInt
import Ptptl.Library.Keystream
import Ptptl.Ptp.Types

set_option autoImplicit false

namespace Ptp

open CInt

/-- `EVP_bf_ofb` as the keystream it XORs, and `EVP_sha1`. -/
structure Cipher where
  keystream : SessionKey → Iv → Nat → Byte
  sha1 : Bytes → Digest

/-- `EVP_CIPHER_CTX` after `position` bytes. -/
structure CipherCtx where
  key : SessionKey
  iv : Iv
  position : Nat := 0

/-- `EVP_EncryptUpdate` and `EVP_DecryptUpdate`. -/
def Cipher.update (cipher : Cipher) (ctx : CipherCtx) (data : Bytes) : Bytes × CipherCtx :=
  (Keystream.apply (· ^^^ ·) (cipher.keystream ctx.key ctx.iv) ctx.position data,
    { ctx with position := ctx.position + data.length })

@[simp] theorem Cipher.update_length (cipher : Cipher) (ctx : CipherCtx) (data : Bytes) :
    (cipher.update ctx data).1.length = data.length := by
  simp [update]

@[simp] theorem Cipher.update_nil (cipher : Cipher) (ctx : CipherCtx) :
    cipher.update ctx [] = ([], ctx) := by
  simp [update, Keystream.apply]

theorem Cipher.update_append (cipher : Cipher) (ctx : CipherCtx) (front back : Bytes) :
    cipher.update ctx (front ++ back) =
      ((cipher.update ctx front).1 ++ (cipher.update (cipher.update ctx front).2 back).1,
        (cipher.update (cipher.update ctx front).2 back).2) := by
  simp [update, Keystream.apply_append, Nat.add_assoc]

theorem Cipher.update_append_fst (cipher : Cipher) (ctx : CipherCtx) (front back : Bytes) :
    (cipher.update ctx (front ++ back)).1 =
      (cipher.update ctx front).1 ++ (cipher.update (cipher.update ctx front).2 back).1 := by
  rw [update_append]

theorem Cipher.update_update (cipher : Cipher) (ctx : CipherCtx) (data : Bytes) :
    (cipher.update ctx (cipher.update ctx data).1).1 = data := by
  refine Keystream.apply_apply _ _ (fun value key => ?_) _ _
  rw [UInt8.xor_assoc, UInt8.xor_self, UInt8.xor_zero]

namespace Key

def encryptTotal (size : Int) (iv digest : Bool) : Option Int := do
  let total ← if iv then checked (size + ivSize) else some size
  if digest then checked (total + digestSize) else some total

/-- Result and the bytes stored in `*cipher`; `fill` is what `Random::Fill` returns. -/
def encrypt (evp : Cipher) (key : SessionKey) (plain : Option Bytes) (size : Int)
    (cipher iv digest : Bool) (fill : Iv) : Option (Int × Bytes) := do
  let total ← encryptTotal size iv digest
  if !cipher ∧ size > 0 then return (total, [])
  match plain with
  | none => return (-1, [])
  | some plain =>
    if size ≤ 0 then return (-1, [])
    -- the caller's buffer holds `size` bytes
    if plain.length < size then none
    let data := plain.take size.toNat
    let ivData := if iv then fill else Block.zero ivSize
    let (body, ctx) := evp.update { key := key, iv := ivData } data
    let tail := if digest then (evp.update ctx (evp.sha1 data).val).1 else []
    let buffer := (if iv then ivData.val else []) ++ body ++ tail
    return (buffer.length, buffer)

def decryptTotal (size : Int) (iv digest : Bool) : Option Int := do
  let total ← if iv then checked (size - ivSize) else some size
  if digest then checked (total - digestSize) else some total

/-- Result and the bytes stored in `*plain`. -/
def decrypt (evp : Cipher) (key : SessionKey) (cipher : Option Bytes) (size : Int)
    (plain iv digest : Bool) : Option (Int × Bytes) := do
  let total ← decryptTotal size iv digest
  if !plain ∧ total > 0 then return (total, [])
  match cipher with
  | none => return (-1, [])
  | some cipher =>
    if total ≤ 0 then return (-1, [])
    if cipher.length < size then none
    let src := cipher.take size.toNat
    let ivData := if iv then Block.ofBytes ivSize src else Block.zero ivSize
    let src := if iv then src.drop ivSize else src
    let buffer := (evp.update { key := key, iv := ivData } src).1
    let total := if digest then buffer.length - digestSize else buffer.length
    let data := buffer.take total
    if digest ∧ (evp.sha1 data).val ≠ (buffer.drop total).take digestSize then return (-1, [])
    return (total, data)

def overhead (iv digest : Bool) : Nat :=
  (if iv then ivSize else 0) + (if digest then digestSize else 0)

theorem overhead_split (iv digest : Bool) :
    overhead iv digest = overhead iv false + overhead false digest := by
  cases iv <;> cases digest <;> rfl

theorem encryptTotal_correct {size : Nat} {iv digest : Bool}
    (fits : (size + overhead iv digest : Nat) ≤ intMax) :
    encryptTotal size iv digest = some ((size + overhead iv digest : Nat) : Int) := by
  have within (added : Nat) (small : added ≤ overhead iv digest) :
      checked (size + added : Nat) = some ((size + added : Nat) : Int) :=
    checked_of_le (by omega) (by omega)
  unfold overhead at within
  cases iv with
  | false =>
    cases digest with
    | false => simp [encryptTotal, overhead]
    | true => simpa [encryptTotal, overhead] using within digestSize
  | true =>
    have first := within ivSize
    cases digest with
    | false => simpa [encryptTotal, overhead] using first
    | true =>
      have second := within (ivSize + digestSize)
      simp_all [encryptTotal, overhead, Int.add_assoc]

theorem decryptTotal_correct {size : Nat} (iv digest : Bool) (fits : (size : Int) ≤ intMax) :
    decryptTotal size iv digest = some ((size : Int) - overhead iv digest) := by
  have within (taken : Nat) (small : taken ≤ 28) :
      checked ((size : Int) - taken) = some ((size : Int) - taken) :=
    checked_eq_some.2 ⟨⟨by unfold intMin; omega, by omega⟩, rfl⟩
  cases iv with
  | false =>
    cases digest with
    | false => simp [decryptTotal, overhead]
    | true => simpa [decryptTotal, overhead] using within digestSize (by decide)
  | true =>
    have first := within ivSize (by decide)
    cases digest with
    | false => simpa [decryptTotal, overhead] using first
    | true =>
      have second := within (ivSize + digestSize) (by decide)
      simp_all [decryptTotal, overhead, Int.sub_sub]

def startCtx (key : SessionKey) (iv : Bool) (fill : Iv) : CipherCtx :=
  { key := key, iv := if iv then fill else Block.zero ivSize }

/-- The encoding the one-shot and the streaming functions share. -/
def cipherText (evp : Cipher) (key : SessionKey) (iv digest : Bool) (fill : Iv)
    (plain : Bytes) : Bytes :=
  let (body, ctx) := evp.update (startCtx key iv fill) plain
  (if iv then fill.val else []) ++ body ++
    if digest then (evp.update ctx (evp.sha1 plain).val).1 else []

@[simp] theorem cipherText_length (evp : Cipher) (key : SessionKey) (iv digest : Bool) (fill : Iv)
    (plain : Bytes) :
    (cipherText evp key iv digest fill plain).length = plain.length + overhead iv digest := by
  have ivLength : fill.val.length = ivSize := fill.property
  have digestLength : (evp.sha1 plain).val.length = digestSize := (evp.sha1 plain).property
  unfold cipherText overhead
  cases iv <;> cases digest <;> simp [ivLength, digestLength] <;> omega

theorem encrypt_total (evp : Cipher) (key : SessionKey) (iv digest : Bool) (fill : Iv)
    {plain : Bytes} (present : plain ≠ []) :
    encrypt evp key (some plain) plain.length true iv digest fill =
      (encryptTotal plain.length iv digest).map fun _ =>
        (((cipherText evp key iv digest fill plain).length : Int),
          cipherText evp key iv digest fill plain) := by
  have positive := List.length_pos_of_ne_nil present
  have nonempty : ¬ (plain.length : Int) ≤ 0 := by omega
  cases total : encryptTotal plain.length iv digest with
  | none => simp [encrypt, total]
  | some size =>
    simp only [encrypt, total, nonempty]
    cases iv <;> cases digest <;> simp [cipherText, startCtx]

theorem encrypt_correct (evp : Cipher) (key : SessionKey) (iv digest : Bool) (fill : Iv)
    {plain : Bytes} (present : plain ≠ [])
    (fits : (plain.length + overhead iv digest : Nat) ≤ intMax) :
    encrypt evp key (some plain) plain.length true iv digest fill =
      some (((cipherText evp key iv digest fill plain).length : Int),
        cipherText evp key iv digest fill plain) := by
  rw [encrypt_total evp key iv digest fill present, encryptTotal_correct fits]
  rfl

theorem encrypt_query (evp : Cipher) (key : SessionKey) (iv digest : Bool) (fill : Iv)
    (buffer : Option Bytes) {plain : Bytes} (present : plain ≠ [])
    (fits : (plain.length + overhead iv digest : Nat) ≤ intMax) :
    encrypt evp key buffer plain.length false iv digest fill =
      some (((plain.length + overhead iv digest : Nat) : Int), []) := by
  have positive : 0 < plain.length := List.length_pos_of_ne_nil present
  simp [encrypt, encryptTotal_correct fits, positive]

/-- What `decrypt` makes of a ciphertext before it looks at the digest. -/
def plainText (evp : Cipher) (key : SessionKey) (iv : Bool) (cipher : Bytes) : Bytes :=
  (evp.update (startCtx key iv (Block.ofBytes ivSize cipher))
    (if iv then cipher.drop ivSize else cipher)).1

@[simp] theorem plainText_length (evp : Cipher) (key : SessionKey) (iv : Bool) (cipher : Bytes) :
    (plainText evp key iv cipher).length = cipher.length - overhead iv false := by
  cases iv <;> simp [plainText, overhead]

theorem decrypt_short (evp : Cipher) (key : SessionKey) (iv digest : Bool) {cipher : Bytes}
    (short : cipher.length ≤ overhead iv digest) (fits : (cipher.length : Int) ≤ intMax) :
    decrypt evp key (some cipher) cipher.length true iv digest = some (-1, []) := by
  have empty : (cipher.length : Int) - overhead iv digest ≤ 0 := by omega
  simp only [decrypt, decryptTotal_correct iv digest fits, Option.bind_eq_bind, Option.bind_some]
  simp [empty]

theorem decrypt_correct (evp : Cipher) (key : SessionKey) (iv digest : Bool) {cipher : Bytes}
    (long : overhead iv digest < cipher.length) (fits : (cipher.length : Int) ≤ intMax) :
    decrypt evp key (some cipher) cipher.length true iv digest =
      let data := (plainText evp key iv cipher).take (cipher.length - overhead iv digest)
      let tail := (plainText evp key iv cipher).drop (cipher.length - overhead iv digest)
      if digest ∧ (evp.sha1 data).val ≠ tail then some (-1, [])
      else some ((data.length : Int), data) := by
  have positive : ¬ (cipher.length : Int) - overhead iv digest ≤ 0 := by omega
  have decrypted : (evp.update
      { key := key, iv := if iv then Block.ofBytes ivSize cipher else Block.zero ivSize }
      (if iv then cipher.drop ivSize else cipher)).1 = plainText evp key iv cipher := rfl
  simp only [decrypt, decryptTotal_correct iv digest fits, Option.bind_eq_bind, Option.bind_some,
    positive, if_false, Int.toNat_natCast, List.take_length, decrypted, Bool.not_true,
    Bool.false_eq_true, false_and, Int.lt_irrefl]
  have length := plainText_length evp key iv cipher
  cases digest with
  | false =>
    have whole : (plainText evp key iv cipher).take (cipher.length - overhead iv false) =
        plainText evp key iv cipher := by
      rw [← length, List.take_length]
    simp [whole]
  | true =>
    have split : overhead iv true = overhead iv false + digestSize := by simp [overhead]
    have total : (plainText evp key iv cipher).length - digestSize =
        cipher.length - overhead iv true := by omega
    have tail : ((plainText evp key iv cipher).drop (cipher.length - overhead iv true)).take
        digestSize = (plainText evp key iv cipher).drop (cipher.length - overhead iv true) := by
      apply List.take_of_length_le
      rw [List.length_drop]
      omega
    have kept : ((plainText evp key iv cipher).take (cipher.length - overhead iv true)).length =
        cipher.length - overhead iv true := by
      rw [List.length_take]
      omega
    simp only [if_true, total, true_and, tail, kept]
    split <;> rfl

theorem plainText_cipherText (evp : Cipher) (key : SessionKey) (iv digest : Bool) (fill : Iv)
    (plain : Bytes) :
    plainText evp key iv (cipherText evp key iv digest fill plain) =
      plain ++ if digest then (evp.sha1 plain).val else [] := by
  have ivLength : fill.val.length = ivSize := fill.property
  have stored (rest : Bytes) : (fill.val ++ rest).drop ivSize = rest := by
    exact List.drop_left' ivLength
  have body (ctx : CipherCtx) :
      (evp.update ctx ((evp.update ctx plain).1 ++
        if digest then (evp.update (evp.update ctx plain).2 (evp.sha1 plain).val).1 else [])).1 =
      plain ++ if digest then (evp.sha1 plain).val else [] := by
    cases digest with
    | false => simp [Cipher.update_update]
    | true =>
      simp only [if_true, ← Cipher.update_append_fst, Cipher.update_update]
  cases iv with
  | false => simpa [plainText, cipherText, startCtx] using body _
  | true =>
    simp only [plainText, cipherText, startCtx, if_true, List.append_assoc, stored,
      Block.ofBytes_append]
    exact body _

theorem decrypt_cipherText (evp : Cipher) (key : SessionKey) (iv digest : Bool) (fill : Iv)
    {plain : Bytes} (present : plain ≠ [])
    (fits : (plain.length + overhead iv digest : Nat) ≤ intMax) :
    decrypt evp key (some (cipherText evp key iv digest fill plain))
      (cipherText evp key iv digest fill plain).length true iv digest =
      some ((plain.length : Int), plain) := by
  have positive := List.length_pos_of_ne_nil present
  rw [decrypt_correct evp key iv digest (by rw [cipherText_length]; omega)
    (by rw [cipherText_length]; exact fits)]
  simp only [plainText_cipherText, cipherText_length, Nat.add_sub_cancel, List.take_left,
    List.drop_left]
  cases digest <;> simp

theorem cipherText_plainText (evp : Cipher) (key : SessionKey) (iv : Bool) {cipher : Bytes}
    (long : overhead iv true < cipher.length)
    (valid : (evp.sha1 ((plainText evp key iv cipher).take
        (cipher.length - overhead iv true))).val =
      (plainText evp key iv cipher).drop (cipher.length - overhead iv true)) :
    cipherText evp key iv true (Block.ofBytes ivSize cipher)
      ((plainText evp key iv cipher).take (cipher.length - overhead iv true)) = cipher := by
  simp only [cipherText, valid, if_true]
  rw [List.append_assoc, ← Cipher.update_append_fst, List.take_append_drop, plainText,
    Cipher.update_update]
  cases iv with
  | false => simp
  | true =>
    have stored : ivSize ≤ cipher.length := by
      simp only [overhead, if_true] at long
      omega
    simp [Block.ofBytes_val stored]

theorem decrypt_written (evp : Cipher) (key : SessionKey) (iv : Bool) {fill : Iv}
    {cipher plain : Bytes} (fits : (cipher.length : Int) ≤ intMax) (present : plain ≠ [])
    (written : encrypt evp key (some plain) plain.length true iv true fill =
      some ((cipher.length : Int), cipher)) :
    decrypt evp key (some cipher) cipher.length true iv true =
      some ((plain.length : Int), plain) := by
  rw [encrypt_total evp key iv true fill present, Option.map_eq_some_iff] at written
  obtain ⟨_, -, same⟩ := written
  obtain ⟨-, same⟩ := Prod.mk.injEq .. ▸ same
  have length := cipherText_length evp key iv true fill plain
  rw [same] at length
  have decrypted := decrypt_cipherText evp key iv true fill present (by rw [← length]; exact fits)
  rwa [same] at decrypted

theorem encrypt_rejected (evp : Cipher) (key : SessionKey) (iv : Bool) {cipher : Bytes}
    (fits : (cipher.length : Int) ≤ intMax)
    (rejected : decrypt evp key (some cipher) cipher.length true iv true = some (-1, []))
    (fill : Iv) (plain : Bytes) (present : plain ≠ []) :
    encrypt evp key (some plain) plain.length true iv true fill ≠
      some ((cipher.length : Int), cipher) := by
  intro written
  have accepted := decrypt_written evp key iv fits present written
  rw [rejected] at accepted
  simp only [Option.some.injEq, Prod.mk.injEq] at accepted
  omega

theorem encrypt_plainText (evp : Cipher) (key : SessionKey) (iv : Bool) {cipher : Bytes}
    (long : overhead iv true < cipher.length) (fits : (cipher.length : Int) ≤ intMax)
    (valid : (evp.sha1 ((plainText evp key iv cipher).take
      (cipher.length - overhead iv true))).val =
        (plainText evp key iv cipher).drop (cipher.length - overhead iv true)) :
    ∃ plain : Bytes, plain ≠ [] ∧
      decrypt evp key (some cipher) cipher.length true iv true =
        some ((plain.length : Int), plain) ∧
      encrypt evp key (some plain) plain.length true iv true (Block.ofBytes ivSize cipher) =
        some ((cipher.length : Int), cipher) := by
  have result := decrypt_correct evp key iv true long fits
  have same := cipherText_plainText evp key iv long valid
  have length := cipherText_length evp key iv true (Block.ofBytes ivSize cipher)
    ((plainText evp key iv cipher).take (cipher.length - overhead iv true))
  rw [same] at length
  have present : (plainText evp key iv cipher).take (cipher.length - overhead iv true) ≠ [] :=
    List.ne_nil_of_length_pos (by omega)
  refine ⟨_, present, by simpa [valid] using result, ?_⟩
  rw [encrypt_correct evp key iv true _ present (by rw [← length]; exact fits), same]

theorem oneShot_correct (evp : Cipher) (key : SessionKey) (iv digest : Bool) :
    (∀ (plain : Bytes) (fill : Iv), plain ≠ [] →
      (plain.length + overhead iv digest : Nat) ≤ intMax →
      ∃ cipher : Bytes,
        (∀ buffer, encrypt evp key buffer plain.length false iv digest fill =
          some ((cipher.length : Int), [])) ∧
        encrypt evp key (some plain) plain.length true iv digest fill =
          some ((cipher.length : Int), cipher) ∧
        decrypt evp key (some cipher) cipher.length true iv digest =
          some ((plain.length : Int), plain)) ∧
    (∀ cipher : Bytes, digest = true → (cipher.length : Int) ≤ intMax →
      (∃ plain : Bytes, plain ≠ [] ∧
        decrypt evp key (some cipher) cipher.length true iv digest =
          some ((plain.length : Int), plain) ∧
        encrypt evp key (some plain) plain.length true iv digest (Block.ofBytes ivSize cipher) =
          some ((cipher.length : Int), cipher)) ∨
      (decrypt evp key (some cipher) cipher.length true iv digest = some (-1, []) ∧
        ∀ plain : Bytes, plain ≠ [] →
          encrypt evp key (some plain) plain.length true iv digest
            (Block.ofBytes ivSize cipher) ≠ some ((cipher.length : Int), cipher))) := by
  refine ⟨?_, ?_⟩
  · intro plain fill present fits
    refine ⟨cipherText evp key iv digest fill plain, ?_,
      encrypt_correct evp key iv digest fill present fits,
      decrypt_cipherText evp key iv digest fill present fits⟩
    intro buffer
    rw [encrypt_query evp key iv digest fill buffer present fits, cipherText_length]
  · rintro cipher rfl fits
    by_cases long : overhead iv true < cipher.length
    · by_cases valid : (evp.sha1 ((plainText evp key iv cipher).take
          (cipher.length - overhead iv true))).val =
        (plainText evp key iv cipher).drop (cipher.length - overhead iv true)
      · left
        exact encrypt_plainText evp key iv long fits valid
      · right
        have result := decrypt_correct evp key iv true long fits
        have rejected : decrypt evp key (some cipher) cipher.length true iv true =
            some (-1, []) := by simpa [valid] using result
        exact ⟨rejected, encrypt_rejected evp key iv fits rejected _⟩
    · right
      have rejected := decrypt_short evp key iv true (by omega) fits
      exact ⟨rejected, encrypt_rejected evp key iv fits rejected _⟩

def zeroCipher : Cipher where
  keystream _ _ _ := 0
  sha1 _ := Block.zero digestSize

theorem encrypt_overflow (evp : Cipher) (key : SessionKey) (digest : Bool) (fill : Iv)
    {plain : Bytes} (length : plain.length = 2147483647) (cipher : Bool) :
    encrypt evp key (some plain) plain.length cipher true digest fill = none := by
  have overflow : encryptTotal plain.length true digest = none := by
    have first : checked ((2147483647 : Nat) + ivSize) = none := by rfl
    rw [length]
    simp only [encryptTotal, if_true, first, Option.bind_eq_bind, Option.bind_none]
  simp only [encrypt, overflow, Option.bind_eq_bind, Option.bind_none]

-- the plaintext size is the largest `int`, so `total += IV_SIZE` leaves the range
theorem oneShot_overflow : ∃ plain : Bytes, plain = List.replicate 2147483647 0 ∧ plain ≠ [] ∧
    ∀ cipher, encrypt zeroCipher (Block.zero _) (some plain) plain.length cipher true true
      (Block.zero _) = none := by
  refine ⟨_, rfl, ?_, encrypt_overflow _ _ _ _ List.length_replicate⟩
  apply List.ne_nil_of_length_pos
  rw [List.length_replicate]
  exact Nat.succ_pos _

end Key

end Ptp

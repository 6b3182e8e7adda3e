import Ptptl.Ptp.Authenticator

set_option autoImplicit false

/-! # A challenge that the holder of the private key answers -/

namespace Ptp

/-- RSA decryption inverts encryption. -/
def Decrypts {pki : Pki} (privateDecrypt : pki.PrivateKey → Bytes → Option Bytes)
    (publicKey : pki.PublicKey) (privateKey : pki.PrivateKey) : Prop :=
  ∀ plain : Block Identity.plaintextSize, ∃ cipher : Block Identity.ciphertextSize,
    pki.publicEncrypt publicKey plain.val = some cipher.val ∧
      privateDecrypt privateKey cipher.val = some plain.val

section

variable {pki : Pki} {privateDecrypt : pki.PrivateKey → Bytes → Option Bytes}
  {publicKey : pki.PublicKey} {privateKey : pki.PrivateKey}

theorem Decrypts.encrypt (decrypts : Decrypts privateDecrypt publicKey privateKey)
    {id : Identity pki} (sealed : id.cert.bind pki.publicKey = some publicKey)
    (plain : Block Identity.plaintextSize) : ∃ cipher : Block Identity.ciphertextSize,
      id.encrypt plain.val = ((Identity.ciphertextSize : Int), some cipher.val) ∧
        privateDecrypt privateKey cipher.val = some plain.val := by
  obtain ⟨cipher, encrypted, decrypted⟩ := decrypts plain
  refine ⟨cipher, ?_, decrypted⟩
  have allowed : ¬ (plain.val.length = 0 ∨ plain.val.length > Identity.plaintextSize) := by
    have nonempty : 0 < Identity.plaintextSize := by decide
    rw [plain.property]
    omega
  simp only [Identity.encrypt, sealed, if_neg allowed, encrypted]

theorem Decrypts.decrypt {holder : Identity pki} (certified : holder.cert.isSome)
    (held : holder.key = some privateKey) {plain : Block Identity.plaintextSize}
    {cipher : Block Identity.ciphertextSize}
    (decrypted : privateDecrypt privateKey cipher.val = some plain.val) :
    holder.decrypt privateDecrypt cipher.val = ((Identity.plaintextSize : Int), some plain.val) := by
  obtain ⟨cert, certified⟩ := Option.isSome_iff_exists.1 certified
  have whole : cipher.val.take Identity.ciphertextSize = cipher.val :=
    List.take_of_length_le (Nat.le_of_eq cipher.property)
  have nonempty : ¬ Identity.plaintextSize = 0 := by decide
  simp only [Identity.decrypt, certified, held, whole, decrypted, plain.property, if_neg nonempty]

theorem Decrypts.respond (decrypts : Decrypts privateDecrypt publicKey privateKey)
    {id holder : Identity pki} (sealed : id.cert.bind pki.publicKey = some publicKey)
    (certified : holder.cert.isSome) (held : holder.key = some privateKey) (sha1 : Bytes → Digest)
    (nonce : Block Identity.plaintextSize) (junk : Block Authenticator.challengeSize)
    (junk' : Digest) :
    Authenticator.responseData sha1 privateDecrypt (some holder)
      (Authenticator.challengeData id nonce junk) junk' = sha1 nonce.val := by
  obtain ⟨cipher, encrypted, decrypted⟩ := decrypts.encrypt sealed nonce
  have sent : Authenticator.challengeData id nonce junk = cipher := by
    have filled := Block.ofBytes_append cipher []
    rw [List.append_nil] at filled
    rw [Authenticator.challengeData, encrypted]
    exact filled
  have received := Decrypts.decrypt certified held decrypted
  simp [sent, Authenticator.responseData, Authenticator.respond, received]

end

namespace Authenticator

variable {pki : Pki} {Context : Type}

/-- The first pending response of its digest, which `Verify` finds while it is alive. -/
def Awaits (auth : Authenticator Context) (entry : Pending Context) : Prop :=
  auth.pending.find? (fun other => other.resp = entry.resp) = some entry

theorem challenge_pending {sha1 : Bytes → Digest} (ulong : Nat) (auth : Authenticator Context)
    {id : Identity pki} {nonce : Block Identity.plaintextSize}
    (encrypted : (id.encrypt nonce.val).1 = challengeSize) (expire : Nat)
    (context : Option Context) (now : Nat) :
    (auth.challenge sha1 ulong (some id) expire context true nonce now).2 =
      { pending := { serial := auth.allocated, resp := sha1 nonce.val,
                     expire := (now + expire) % ulong, context := context } :: auth.pending
        allocated := auth.allocated + 1 } := by
  simp [challenge, encrypted]

theorem verifyLoop_awaits {now : Nat} {resp other : Digest} {pending : List (Pending Context)}
    {entry : Pending Context} (found : pending.find? (fun entry => entry.resp = resp) = some entry)
    (alive : now < entry.expire) (differ : other ≠ resp) :
    (verifyLoop now other pending).2.find? (fun entry => entry.resp = resp) = some entry := by
  induction pending with
  | nil => simp at found
  | cons head rest ih =>
    by_cases matching : head.resp = resp
    next =>
      rw [List.find?_cons_of_pos (by simpa using matching)] at found
      cases found
      have unmatched : ¬ entry.resp = other := by
        intro same
        exact differ (same.symm.trans matching)
      simp only [verifyLoop, if_neg (Nat.not_le.2 alive), if_neg unmatched]
      exact List.find?_cons_of_pos (by simpa using matching)
    next =>
      rw [List.find?_cons_of_neg (by simpa using matching)] at found
      rw [verifyLoop]
      split
      next => exact ih found
      next =>
        split
        next => exact found
        next =>
          rw [List.find?_cons_of_neg (by simpa using matching)]
          exact ih found

theorem Awaits.verify {auth : Authenticator Context} {entry : Pending Context}
    (awaits : auth.Awaits entry) {now : Nat} (alive : now < entry.expire) :
    (auth.verify (some entry.resp) now).1 = some entry := by
  have first := verifyLoop_found now entry.resp auth.pending
  rw [List.find?_filter] at first
  rw [Authenticator.verify, first]
  obtain ⟨-, front, back, split, before⟩ := List.find?_eq_some_iff_append.1 awaits
  refine List.find?_eq_some_iff_append.2 ⟨?_, front, back, split, ?_⟩
  · simp [Pending.alive, alive]
  · intro other member
    have unmatched := before other member
    simp only [Bool.not_eq_true', decide_eq_false_iff_not] at unmatched
    simp [unmatched]

/-- Other challenges and other responses, while a response is awaited. -/
inductive Undisturbed (pki : Pki) (sha1 : Bytes → Digest) (ulong : Nat) (resp : Digest)
    (expire : Nat) (start : Authenticator Context) : Authenticator Context → Prop
  | refl : Undisturbed pki sha1 ulong resp expire start start
  | challenge {auth : Authenticator Context}
      (before : Undisturbed pki sha1 ulong resp expire start auth) (id : Option (Identity pki))
      (lifetime : Nat) (context : Option Context) (chal : Bool)
      (nonce : Block Identity.plaintextSize) (now : Nat) (other : sha1 nonce.val ≠ resp) :
      Undisturbed pki sha1 ulong resp expire start
        (auth.challenge sha1 ulong id lifetime context chal nonce now).2
  | verify {auth : Authenticator Context}
      (before : Undisturbed pki sha1 ulong resp expire start auth) (answer : Option Digest)
      (now : Nat) (other : answer ≠ some resp) (alive : now < expire) :
      Undisturbed pki sha1 ulong resp expire start (auth.verify answer now).2

theorem Undisturbed.awaits {sha1 : Bytes → Digest} {ulong : Nat}
    {start auth : Authenticator Context} {entry : Pending Context}
    (undisturbed : Undisturbed pki sha1 ulong entry.resp entry.expire start auth)
    (awaits : start.Awaits entry) : auth.Awaits entry := by
  induction undisturbed with
  | refl => exact awaits
  | @challenge auth before id lifetime context chal nonce now other ih =>
    cases id with
    | none => exact ih
    | some id =>
      cases chal with
      | false => exact ih
      | true =>
        by_cases encrypted : (id.encrypt nonce.val).1 = challengeSize
        next =>
          rw [challenge_pending ulong auth encrypted lifetime context now, Awaits,
            List.find?_cons_of_neg (by simpa using other)]
          exact ih
        next =>
          simp only [Authenticator.challenge, encrypted, ne_eq, not_false_eq_true, if_true]
          exact ih
  | verify before answer now other alive ih =>
    cases answer with
    | none => exact ih
    | some resp => exact verifyLoop_awaits ih alive fun same => other (congrArg some same)

end Authenticator

end Ptp

import Ptptl.Library.Pieces
import Ptptl.Ptp.Connection
import Ptptl.Ptp.Http
import Ptptl.Ptp.SessionKeys
import Ptptl.Trut.Groups

set_option autoImplicit false

/-! # The transfer of a group's key -/

namespace Trut

open Ptp Ptp.Identity Bounded Chunked

section

variable {pki : Pki} (privateDecrypt : pki.PrivateKey → Bytes → Option Bytes) (id : Identity pki)

/-- `Decrypt` of a buffer into itself; what it copies has a fixed size. -/
def decryptOver (buffer : Bytes) : Except Fault (Int × Bytes) :=
  if id.cert.isNone ∨ id.key.isNone then .ok (-1, buffer)
  else do
    access buffer.length 0 ciphertextSize
    id.decryptIn privateDecrypt buffer buffer

def arrived (size : Nat) (conn : Connection) : Bytes := filled Connection.read size conn

/-- `GetThread` for a key, with what its buffer holds: the size and the data for the callback. -/
def getThread {size : Nat} (conn : Connection) (buffer : Block size) : Except Fault (Int × Bytes) :=
  let received := arrived size conn
  -- the result of ReadAll is not looked at
  decryptOver privateDecrypt id (received ++ buffer.val.drop received.length)

/-- The end of `Get` with the status and the size of a header, and its thread. -/
def getKey (status announced : Int) (conn : Connection) (buffer : Block announced.toNat) :
    Except Fault (Int × Bytes) :=
  if status ≠ Http.ok ∨ announced ≤ 0 then .ok (-1, []) else getThread privateDecrypt id conn buffer

/-- `FetchKey`; a negative size is its GET_ERROR. -/
def deliver (ulong : Nat) (trut : Trut) (ref : Nat) (result : Int × Bytes) : Option Trut :=
  if result.1 < 0 then some trut else trut.fetchKey ulong ref result.2 result.1.toNat

def DecryptsKey (status announced : Int) : Prop :=
  status = Http.ok ∧ 0 < announced ∧ id.cert.isSome ∧ id.key.isSome

/-- Only a whole block is decrypted, inside of the buffer, and only a whole key is installed. -/
structure Validates (status announced : Int) (conn : Connection) (buffer : Block announced.toNat) :
    Prop where
  whole : DecryptsKey id status announced → (arrived announced.toNat conn).length = ciphertextSize
  inside : ∃ result, getKey privateDecrypt id status announced conn buffer = .ok result
  installs : ∀ result, getKey privateDecrypt id status announced conn buffer = .ok result →
    ∀ ulong trut ref next, deliver ulong trut ref result = some next → next ≠ trut →
      ∃ (block : Block ciphertextSize) (key : SessionKey), arrived announced.toNat conn = block.val ∧
        Plaintext privateDecrypt id block key.val ∧ (next.group ref).bind Group.key = some key

end

variable {pki : Pki} {privateDecrypt : pki.PrivateKey → Bytes → Option Bytes} {id : Identity pki}
  {conn : Connection} {status announced : Int}

theorem arrived_length (size : Nat) (conn : Connection) : (arrived size conn).length ≤ size :=
  filled_length (fun _ _ _ _ read => (Connection.read_some read).2.1) size conn

theorem decrypt_append (block : Block ciphertextSize) (rest : Bytes) :
    id.decrypt privateDecrypt (block.val ++ rest) = id.decrypt privateDecrypt block.val := by
  have front : (block.val ++ rest).take ciphertextSize = block.val.take ciphertextSize :=
    List.take_append_of_le_length (Nat.le_of_eq block.property.symm)
  simp only [decrypt, front]

theorem getKey_whole (buffer : Block announced.toNat) (decrypts : DecryptsKey id status announced)
    {block : Block ciphertextSize} (whole : arrived announced.toNat conn = block.val) :
    getKey privateDecrypt id status announced conn buffer =
      id.decryptIn privateDecrypt block.val (block.val ++ buffer.val.drop ciphertextSize) := by
  obtain ⟨accepted, positive, certified, held⟩ := decrypts
  have length : block.val.length = ciphertextSize := block.property
  have long := arrived_length announced.toNat conn
  have full : buffer.val.length = announced.toNat := buffer.property
  have inside : access ((block.val ++ buffer.val.drop ciphertextSize).length : Int) 0 ciphertextSize =
      .ok () := access_front (by omega) (by rw [List.length_append]; omega)
  have started : ¬ (status ≠ Http.ok ∨ announced ≤ 0) := by omega
  have able : ¬ (id.cert.isNone ∨ id.key.isNone) := by
    rw [Option.isNone_iff_eq_none, Option.isNone_iff_eq_none, ← Option.not_isSome_iff_eq_none,
      ← Option.not_isSome_iff_eq_none]
    simp [certified, held]
  rw [getKey, if_neg started, getThread, whole, length, decryptOver, if_neg able, inside]
  simp only [decryptIn, decrypt_append]
  rfl

theorem getKey_plaintext (buffer : Block announced.toNat) (decrypts : DecryptsKey id status announced)
    {block : Block ciphertextSize} (whole : arrived announced.toNat conn = block.val) {plain : Bytes}
    (plaintext : Plaintext privateDecrypt id block plain) (present : plain.length ≠ 0) :
    getKey privateDecrypt id status announced conn buffer =
      (store (block.val ++ buffer.val.drop ciphertextSize) plain).map
        fun data => ((plain.length : Int), data) := by
  have result := decrypt_plaintext plaintext
  rw [if_neg present] at result
  rw [getKey_whole buffer decrypts whole]
  simp only [decryptIn, result]

theorem getKey_sealed (buffer : Block announced.toNat) (decrypts : DecryptsKey id status announced)
    {block : Block ciphertextSize} (whole : arrived announced.toNat conn = block.val)
    (unreadable : ∀ plain, Plaintext privateDecrypt id block plain → plain.length = 0) :
    getKey privateDecrypt id status announced conn buffer =
      .ok (-1, block.val ++ buffer.val.drop ciphertextSize) := by
  have result : id.decrypt privateDecrypt block.val = (-1, none) := by
    by_cases readable : ∃ plain, Plaintext privateDecrypt id block plain
    next =>
      obtain ⟨plain, plaintext⟩ := readable
      rw [decrypt_plaintext plaintext, if_pos (unreadable plain plaintext)]
    next => exact decrypt_sealed (not_exists.1 readable)
  rw [getKey_whole buffer decrypts whole]
  simp only [decryptIn, result]

theorem getKey_refuses (privateDecrypt : pki.PrivateKey → Bytes → Option Bytes)
    (conn : Connection) (buffer : Block announced.toNat) (unable : ¬ DecryptsKey id status announced) :
    ∃ data, getKey privateDecrypt id status announced conn buffer = .ok (-1, data) := by
  unfold getKey
  split
  next => exact ⟨_, rfl⟩
  next started =>
    have missing : id.cert.isNone ∨ id.key.isNone := by
      by_contra able
      rw [not_or, Option.isNone_iff_eq_none, Option.isNone_iff_eq_none, ← ne_eq, ← ne_eq,
        Option.ne_none_iff_isSome, Option.ne_none_iff_isSome] at able
      exact unable ⟨by omega, by omega, able.1, able.2⟩
    simp only [getThread, decryptOver, if_pos missing]
    exact ⟨_, rfl⟩

theorem deliver_installs {ulong : Nat} {trut next : Trut} {ref : Nat} {size : Int} {data : Bytes}
    (delivered : deliver ulong trut ref (size, data) = some next) (changed : next ≠ trut) :
    0 ≤ size ∧ (next.group ref).bind Group.key = some (Block.ofBytes sessionKeySize data) := by
  unfold deliver at delivered
  split at delivered
  next => exact absurd (Option.some.inj delivered).symm changed
  next valid => exact ⟨by simp only at valid; omega, fetchKey_group delivered⟩

def waiting : Trut := { groups := [{ ref := 0, name := CString.ofBuffer [], accept := none }] }

theorem waiting_fetchKey (ulong : Nat) {data : Bytes} {size : Nat}
    (long : sessionKeySize ≤ data.length) (within : size ≤ data.length) :
    ∃ next, waiting.fetchKey ulong 0 data size = some next ∧ next ≠ waiting := by
  have found : waiting.group 0 = some { ref := 0, name := CString.ofBuffer [], accept := none } :=
    rfl
  have inside : ¬ (data.length < sessionKeySize ∨ data.length < size) := by omega
  refine ⟨_, by simp only [fetchKey, found, inside, if_false]; rfl, ?_⟩
  intro same
  have entries := congrArg (fun trut => trut.collect.entries.length) same
  simp [addKey, Collection.add, waiting] at entries

theorem validates_refused {buffer : Block announced.toNat} {data : Bytes}
    (whole : DecryptsKey id status announced →
      (arrived announced.toNat conn).length = ciphertextSize)
    (refused : getKey privateDecrypt id status announced conn buffer = .ok (-1, data)) :
    Validates privateDecrypt id status announced conn buffer := by
  refine ⟨whole, ⟨_, refused⟩, ?_⟩
  intro result got ulong trut ref next delivered changed
  rw [refused, Except.ok.injEq] at got
  subst got
  obtain ⟨valid, _⟩ := deliver_installs delivered changed
  omega

theorem validates_plaintext {buffer : Block announced.toNat}
    (decrypts : DecryptsKey id status announced) {block : Block ciphertextSize}
    (received : arrived announced.toNat conn = block.val) {plain : Bytes}
    (plaintext : Plaintext privateDecrypt id block plain) (size : plain.length = sessionKeySize) :
    Validates privateDecrypt id status announced conn buffer := by
  have length : block.val.length = ciphertextSize := block.property
  have longer : sessionKeySize ≤ ciphertextSize := by decide
  have positive : 0 < sessionKeySize := by decide
  have fits : plain.length ≤ (block.val ++ buffer.val.drop ciphertextSize).length := by
    rw [List.length_append]
    omega
  have got := getKey_plaintext buffer decrypts received plaintext (by omega)
  rw [store, if_pos fits] at got
  refine ⟨fun _ => by rw [received, length], ⟨_, got⟩, ?_⟩
  intro result other ulong trut ref next delivered changed
  rw [got] at other
  obtain rfl := Except.ok.inj other
  have installed := (deliver_installs delivered changed).2
  rw [Block.ofBytes_append ⟨plain, size⟩] at installed
  exact ⟨block, ⟨plain, size⟩, received, plaintext, installed⟩

theorem Validates.size {buffer : Block announced.toNat}
    (validates : Validates privateDecrypt id status announced conn buffer)
    (decrypts : DecryptsKey id status announced) {block : Block ciphertextSize}
    (received : arrived announced.toNat conn = block.val) {plain : Bytes}
    (plaintext : Plaintext privateDecrypt id block plain) (present : plain.length ≠ 0) :
    plain.length = sessionKeySize := by
  have length : block.val.length = ciphertextSize := block.property
  have longer : sessionKeySize ≤ ciphertextSize := by decide
  have got := getKey_plaintext buffer decrypts received plaintext present
  obtain ⟨result, inside⟩ := validates.inside
  have room : ciphertextSize ≤ (block.val ++ buffer.val.drop ciphertextSize).length := by
    rw [List.length_append]
    omega
  generalize block.val ++ buffer.val.drop ciphertextSize = held at got room
  have fits : plain.length ≤ held.length := by
    by_contra large
    rw [got, store, if_neg large] at inside
    contradiction
  rw [store, if_pos fits] at got
  have total : (plain ++ held.drop plain.length).length = held.length := by
    rw [List.length_append, List.length_drop]
    omega
  obtain ⟨next, fetched, changed⟩ :=
    waiting_fetchKey 0 (by omega : sessionKeySize ≤ (plain ++ held.drop plain.length).length)
      (by omega : plain.length ≤ _)
  have delivered : deliver 0 waiting 0 ((plain.length : Int), plain ++ held.drop plain.length) =
      some next := by
    rw [deliver, if_neg (by simp only; omega), Int.toNat_natCast]
    exact fetched
  obtain ⟨other, key, same, plaintext', _⟩ :=
    validates.installs _ got 0 waiting 0 next delivered changed
  obtain rfl : block = other := Subtype.ext (received.symm.trans same)
  rw [plaintext.unique plaintext']
  exact key.property

theorem validates_iff (status announced : Int) (conn : Connection)
    (buffer : Block announced.toNat) :
    Validates privateDecrypt id status announced conn buffer ↔
      (DecryptsKey id status announced → ∃ block : Block ciphertextSize,
        arrived announced.toNat conn = block.val ∧ ∀ plain, Plaintext privateDecrypt id block plain →
          plain.length = 0 ∨ plain.length = sessionKeySize) := by
  constructor
  next =>
    intro validates decrypts
    refine ⟨⟨_, validates.whole decrypts⟩, rfl, ?_⟩
    intro plain plaintext
    by_cases empty : plain.length = 0
    next => exact .inl empty
    next => exact .inr (validates.size decrypts rfl plaintext empty)
  next =>
    intro proper
    by_cases decrypts : DecryptsKey id status announced
    next =>
      obtain ⟨block, received, sized⟩ := proper decrypts
      by_cases readable : ∃ plain, Plaintext privateDecrypt id block plain ∧ plain.length ≠ 0
      next =>
        obtain ⟨plain, plaintext, present⟩ := readable
        exact validates_plaintext decrypts received plaintext
          ((sized plain plaintext).resolve_left present)
      next =>
        have length : block.val.length = ciphertextSize := block.property
        apply validates_refused (fun _ => by rw [received, length])
        apply getKey_sealed buffer decrypts received
        intro plain plaintext
        by_contra present
        exact readable ⟨plain, plaintext, present⟩
    next =>
      obtain ⟨data, refused⟩ := getKey_refuses privateDecrypt conn buffer decrypts
      exact validates_refused (fun able => absurd able decrypts) refused

def closed : Connection := ⟨[], [], ⟨[], []⟩⟩

/-- For a header with a size below that of a block the copy of `Decrypt` leaves the buffer. -/
theorem getKey_outside :
    (arrived 16 closed = [] ∧
      getKey (fun _ => unpad) paddedIdentity Http.ok 16 closed (Block.zero _) = .error .outside) ∧
    ¬ ∀ (status announced : Int) (conn : Connection) (buffer : Block announced.toNat),
      Validates (fun _ => unpad) paddedIdentity status announced conn buffer := by
  have nothing (size : Nat) : arrived size closed = [] := by
    have read : closed.read size = (some [], closed) := by
      simp [Connection.read, Connection.get, closed, Source.read]
    rw [arrived, filled, read]
    simp
  have outside : getKey (fun _ => unpad) paddedIdentity Http.ok 16 closed (Block.zero _) =
      .error .outside := by
    have length : (Block.zero (16 : Int).toNat).val.length = 16 := List.length_replicate
    have short : access ((Block.zero (16 : Int).toNat).val.length : Int) 0 ciphertextSize =
        .error .outside := access_outside (by decide) (by rw [length]; decide)
    have started : ¬ (Http.ok ≠ Http.ok ∨ (16 : Int) ≤ 0) := by simp
    have able : ¬ (paddedIdentity.cert.isNone ∨ paddedIdentity.key.isNone) := by
      simp [paddedIdentity]
    rw [getKey, if_neg started, getThread, nothing, List.nil_append, List.length_nil, List.drop_zero,
      decryptOver, if_neg able, short]
    rfl
  refine ⟨⟨nothing 16, outside⟩, ?_⟩
  intro all
  obtain ⟨result, inside⟩ := (all Http.ok 16 closed (Block.zero _)).inside
  rw [outside] at inside
  cases inside

end Trut

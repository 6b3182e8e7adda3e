import Ptptl.Library.Bounded
import Ptptl.Ptp.Identity

set_option autoImplicit false

/-! # Envelopes that a store opens -/

namespace Ptp

open Bounded

structure Pkcs7 (pki : Pki) where
  Message : Type
  -- d2i_PKCS7_bio
  parse : Bytes → Option Message
  octets : Message → Bytes
  -- PKCS7_dataDecode, and what is read from its bio
  dataDecode : Message → pki.PrivateKey → Option pki.Cert → Option Bytes
  -- whether there is a first signer and PKCS7_signatureVerify accepts it
  signatureVerify : Message → Option pki.Cert → Bool

namespace Pkcs7

variable {pki : Pki}

def content (lib : Pkcs7 pki) (envelope : Bytes) (recipient signer : Option (Identity pki)) :
    Option Bytes :=
  if envelope = [] then none
  else do
    let recipient ← recipient
    let key ← recipient.key
    let message ← lib.parse envelope
    let content ← lib.dataDecode message key recipient.cert
    match signer with
    | none => some content
    | some signer => if lib.signatureVerify message signer.cert then some content else none

/-- `ImportEnvelope`: its result, and the buffer then. -/
def importEnvelope (lib : Pkcs7 pki) (envelope : Bytes) (data : Option Bytes)
    (recipient signer : Option (Identity pki)) : Except Fault (Int × Option Bytes) :=
  match lib.content envelope recipient signer, data with
  | none, data => .ok (-1, data)
  | some [], data => .ok (-1, data)
  | some content, none => .ok (content.length, none)
  -- memcpy: the size of the buffer is not known here
  | some content, some data => (store data content).map fun data => (content.length, some data)

/-- A message is not longer than its encoding, and what is decrypted not longer than the message's
octets. -/
structure Shorter (lib : Pkcs7 pki) : Prop where
  octets : ∀ envelope message, lib.parse envelope = some message →
    (lib.octets message).length ≤ envelope.length
  content : ∀ message key cert content, lib.dataDecode message key cert = some content →
    content.length ≤ (lib.octets message).length

variable {lib : Pkcs7 pki} {envelope : Bytes} {recipient signer : Option (Identity pki)}

theorem Shorter.opened (shorter : lib.Shorter) {content : Bytes}
    (opened : lib.content envelope recipient signer = some content) :
    content.length ≤ envelope.length := by
  unfold Pkcs7.content at opened
  split at opened
  next => contradiction
  next =>
    simp only [Option.bind_eq_bind, Option.bind_eq_some_iff] at opened
    obtain ⟨_, _, _, _, message, parsed, decoded, decodes, accepted⟩ := opened
    have same : decoded = content := by
      cases signer with
      | none => exact Option.some.inj accepted
      | some signer =>
        simp only at accepted
        split at accepted
        next => exact Option.some.inj accepted
        next => contradiction
    subst same
    exact Nat.le_trans (shorter.content _ _ _ _ decodes) (shorter.octets _ _ parsed)

theorem importEnvelope_ok {data : Bytes} {result : Int × Option Bytes} :
    lib.importEnvelope envelope (some data) recipient signer = .ok result ↔
      match lib.content envelope recipient signer with
      | none => result = (-1, some data)
      | some content => content.length ≤ data.length ∧
        result = (if content = [] then -1 else (content.length : Int),
          some (content ++ data.drop content.length)) := by
  unfold importEnvelope
  cases lib.content envelope recipient signer with
  | none =>
    simp only [Except.ok.injEq]
    exact eq_comm
  | some content =>
    cases content with
    | nil =>
      simp only [Except.ok.injEq, List.length_nil, Nat.zero_le, true_and, if_true, List.nil_append,
        List.drop_zero]
      exact eq_comm
    | cons head tail =>
      by_cases fits : (head :: tail).length ≤ data.length
      next =>
        simp only [store, fits, if_true, Except.map, Except.ok.injEq, true_and, reduceCtorEq,
          if_false]
        exact eq_comm
      next => simp only [store, fits, if_false, Except.map, reduceCtorEq, false_and]

end Pkcs7

end Ptp

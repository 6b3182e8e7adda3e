import Ptptl.Library.Runs
import Ptptl.Ptp.Envelope
import Ptptl.Sfs.Auth
import Ptptl.Sfs.Certified

set_option autoImplicit false

/-! # Envelopes and the places for their content -/

namespace Sfs

open Ptp Bounded

variable {pki : Pki}

section

variable (env : Env pki) (lib : Pkcs7 pki)

def respEnvelope (data : Bytes) : Bytes := data.drop (responseSize + Authenticator.challengeSize)

def responder (server : Server pki) (now : Nat) (data : Bytes) : Option (Certified pki) :=
  if data.length ≤ responseSize + Authenticator.challengeSize then none
  else server.auth.verifyContext (some (Block.ofBytes digestSize data)) now

def respContent (remote : Certified pki) (data : Bytes) : Option Bytes :=
  lib.content (respEnvelope data) ((localId env).map toIdentity) (some (toIdentity remote))

/-- `HandleResp`; its variable `fl` is a block of one byte. -/
def handleRespIn (server : Server pki) (turn : Turn env) (data : Bytes) (fl : Byte) :
    Except Fault (Option (Server pki × List (Event pki))) :=
  if data.length ≤ responseSize + Authenticator.challengeSize then .ok (some (server, []))
  else
    let resp := Block.ofBytes digestSize data
    let (found, auth) := server.auth.verify (some resp) turn.now
    let server := { server with auth := auth }
    match found.bind Pending.context with
    | none => .ok (some (server, []))
    | some remote => do
      let (size, stored) ← lib.importEnvelope (respEnvelope data) (some [fl])
        ((localId env).map toIdentity) (some (toIdentity remote))
      if size ≠ 1 then return some (server, [])
      let flags := (stored.getD []).headD fl
      return (createKey env server remote turn flags).map fun created =>
        (created.2, [.issued turn.now remote created.1])

/-- The end of `Auth`, where the content goes to the start of the buffer that holds the answer. -/
def authFinishIn (keys : List Key) (localId remoteId : Certified pki)
    (auth : Authenticator (Certified pki)) (ip port : Nat) (flags : Byte) (data : Bytes)
    (now : Nat) : Except Fault (Option (Option Key × List Key)) :=
  if data.length ≤ responseSize then .ok (some (none, keys))
  else
    match auth.verifyContext (some (Block.ofBytes digestSize data)) now with
    | none => .ok (some (none, keys))
    | some _ => do
      let (size, stored) ← lib.importEnvelope (data.drop responseSize) (some data)
        (some (toIdentity localId)) (some (toIdentity remoteId))
      if size ≠ sharedSize then return some (none, keys)
      return (importKey env keys remoteId ip port flags
        (Shared.ofBytes (stored.getD []))).map fun imported => (some imported.1, imported.2)

/-- Nothing is stored behind `fl`, and what does not have one byte of content gets no key. -/
def RespFits (server : Server pki) (turn : Turn env) (data : Bytes) : Prop :=
  ∀ fl : Byte, ∃ result, handleRespIn env lib server turn data fl = .ok result ∧
    ∀ remote, responder server turn.now data = some remote →
      (∀ flags, respContent env lib remote data ≠ some [flags]) →
        ∃ next, result = some (next, []) ∧ next.keys = server.keys

def AuthFits (keys : List Key) (localId remoteId : Certified pki)
    (auth : Authenticator (Certified pki)) (ip port : Nat) (flags : Byte) (data : Bytes)
    (now : Nat) : Prop :=
  ∃ result, authFinishIn env lib keys localId remoteId auth ip port flags data now = .ok result

end

variable {env : Env pki} {lib : Pkcs7 pki}

theorem authFits (shorter : lib.Shorter) (keys : List Key) (localId remoteId : Certified pki)
    (auth : Authenticator (Certified pki)) (ip port : Nat) (flags : Byte) (data : Bytes)
    (now : Nat) : AuthFits env lib keys localId remoteId auth ip port flags data now := by
  unfold AuthFits authFinishIn
  split
  next => exact ⟨_, rfl⟩
  next =>
    split
    next => exact ⟨_, rfl⟩
    next =>
      have stored : ∃ result, lib.importEnvelope (data.drop responseSize) (some data)
          (some (toIdentity localId)) (some (toIdentity remoteId)) = .ok result := by
        simp only [Pkcs7.importEnvelope_ok]
        cases opened : lib.content (data.drop responseSize) (some (toIdentity localId))
            (some (toIdentity remoteId)) with
        | none => exact ⟨_, rfl⟩
        | some content =>
          have short := shorter.opened opened
          rw [List.length_drop] at short
          exact ⟨_, by omega, rfl⟩
      obtain ⟨⟨size, stored⟩, imported⟩ := stored
      simp only [imported, bind, Except.bind]
      split
      next => exact ⟨_, rfl⟩
      next => exact ⟨_, rfl⟩

theorem importEnvelope_flag {remote : Certified pki} {data : Bytes} {fl : Byte}
    {result : Int × Option Bytes} :
    lib.importEnvelope (respEnvelope data) (some [fl]) ((localId env).map toIdentity)
        (some (toIdentity remote)) = .ok result ↔
      match respContent env lib remote data with
      | none => result = (-1, some [fl])
      | some [] => result = (-1, some [fl])
      | some [flags] => result = (1, some [flags])
      | some (_ :: _ :: _) => False := by
  rw [Pkcs7.importEnvelope_ok]
  unfold respContent
  cases lib.content (respEnvelope data) ((localId env).map toIdentity) (some (toIdentity remote)) with
  | none => rfl
  | some content => rcases content with _ | ⟨flags, _ | ⟨more, rest⟩⟩ <;> simp

theorem respFits_iff {server : Server pki} {turn : Turn env} {data : Bytes} :
    RespFits env lib server turn data ↔
      ∀ remote, responder server turn.now data = some remote →
        ∀ content, respContent env lib remote data = some content → content.length ≤ 1 := by
  unfold RespFits handleRespIn responder
  by_cases short : data.length ≤ responseSize + Authenticator.challengeSize
  next => simp [short]
  next =>
    simp only [short, if_false, Authenticator.verifyContext]
    cases (server.auth.verify (some (Block.ofBytes digestSize data)) turn.now).1.bind
        Pending.context with
    | none => simp
    | some remote =>
      simp only [Option.some.injEq, forall_eq']
      have imported (fl : Byte) {result : Int × Option Bytes} :=
        @importEnvelope_flag _ env lib remote data fl result
      cases opened : respContent env lib remote data with
      | none =>
        simp only [opened] at imported
        simp [(imported _).2 rfl, bind, Except.bind, pure, Except.pure]
      | some content =>
        rcases content with _ | ⟨flags, _ | ⟨more, rest⟩⟩
        · simp only [opened] at imported
          simp [(imported _).2 rfl, bind, Except.bind, pure, Except.pure]
        · simp only [opened] at imported
          simp [(imported _).2 rfl, bind, Except.bind, pure, Except.pure]
        · simp only [opened, iff_false] at imported
          refine iff_of_false ?_ (by simp)
          intro fits
          obtain ⟨result, ran, _⟩ := fits 0
          obtain ⟨middle, stored, _⟩ := Runs.bind_ok.1 ran
          exact imported 0 stored

theorem envelopes_fit_iff (shorter : lib.Shorter) (server : Server pki) (turn : Turn env)
    (data : Bytes) :
    (RespFits env lib server turn data ∧
      ∀ keys localId remoteId auth ip port flags answer now,
        AuthFits env lib keys localId remoteId auth ip port flags answer now) ↔
      ∀ remote, responder server turn.now data = some remote →
        ∀ content, respContent env lib remote data = some content → content.length ≤ 1 := by
  rw [respFits_iff, and_iff_left_iff_imp]
  intro _ keys localId remoteId auth ip port flags answer now
  exact authFits shorter keys localId remoteId auth ip port flags answer now

section

def Opens (env : Env pki) (lib : Pkcs7 pki) : Prop :=
  ∀ envelope recipient signer, env.importEnvelope envelope recipient signer =
    lib.content envelope (some (toIdentity recipient)) (some (toIdentity signer))

theorem Opens.respContent (opens : Opens env lib) (remote : Certified pki) (data : Bytes) :
    respContent env lib remote data =
      (localId env).bind fun recipient => env.importEnvelope (respEnvelope data) recipient remote := by
  unfold Sfs.respContent
  cases localId env with
  | none => simp [Pkcs7.content]
  | some recipient => exact (opens _ recipient remote).symm

theorem handleRespIn_refines (opens : Opens env lib) (server : Server pki) (turn : Turn env)
    (data : Bytes) (fl : Byte) :
    handleResp env server turn data = (handleRespIn env lib server turn data fl).toOption.join := by
  unfold handleRespIn handleResp
  split
  next => rfl
  next =>
    dsimp only
    cases (server.auth.verify (some (Block.ofBytes digestSize data)) turn.now).1.bind
        Pending.context with
    | none => rfl
    | some remote =>
      dsimp only
      have same := opens.respContent remote data
      have imported {result : Int × Option Bytes} :=
        @importEnvelope_flag _ env lib remote data fl result
      unfold respEnvelope at same
      rw [← same]
      cases opened : respContent env lib remote data with
      | none =>
        simp only [opened] at imported
        simp only [imported.2 rfl]
        rfl
      | some content =>
        rcases content with _ | ⟨flags, _ | ⟨more, rest⟩⟩
        · simp only [opened] at imported
          simp only [imported.2 rfl]
          rfl
        · simp only [opened] at imported
          simp only [imported.2 rfl]
          change _ = Option.map _ (createKey env _ remote turn flags)
          cases createKey env _ remote turn flags <;> rfl
        · simp only [opened, iff_false] at imported
          cases failed : lib.importEnvelope (respEnvelope data) (some [fl])
              ((localId env).map toIdentity) (some (toIdentity remote)) with
          | error fault => rfl
          | ok result => exact absurd failed imported

theorem Shared.ofBytes_append {content : Bytes} (whole : content.length = sharedSize)
    (rest : Bytes) : Shared.ofBytes (content ++ rest) = Shared.ofBytes content := by
  have size : sharedSize = 24 := rfl
  have key : sessionKeySize = 16 := rfl
  have keyid : (content ++ rest).take 4 = content.take 4 := List.take_append_of_le_length (by omega)
  have behind (count : Nat) (within : count ≤ 24) :
      (content ++ rest).drop count = content.drop count ++ rest :=
    List.drop_append_of_le_length (by omega)
  have shadow : (content.drop 4 ++ rest).take 4 = (content.drop 4).take 4 :=
    List.take_append_of_le_length (by rw [List.length_drop]; omega)
  have length : (content.drop 8).length = sessionKeySize := by rw [List.length_drop]; omega
  have block := Block.ofBytes_append ⟨content.drop 8, length⟩ rest
  have alone := Block.ofBytes_append ⟨content.drop 8, length⟩ []
  rw [List.append_nil] at alone
  simp only [ofBytes, get32, keyid, behind 4 (by omega), behind 8 (by omega), shadow, block, alone]

theorem authFinishIn_refines (opens : Opens env lib) (shorter : lib.Shorter) (keys : List Key)
    (localId remoteId : Certified pki) (auth : Authenticator (Certified pki)) (ip port : Nat)
    (flags : Byte) (data : Bytes) (now : Nat) :
    authFinishIn env lib keys localId remoteId auth ip port flags data now =
      .ok (authFinish env keys localId remoteId auth ip port flags data now) := by
  unfold authFinishIn authFinish
  split
  next => rfl
  next =>
    cases auth.verifyContext (some (Block.ofBytes digestSize data)) now with
    | none => rfl
    | some context =>
      have same := opens (data.drop responseSize) localId remoteId
      have imported {result : Int × Option Bytes} :=
        @Pkcs7.importEnvelope_ok _ lib (data.drop responseSize) (some (toIdentity localId))
          (some (toIdentity remoteId)) data result
      rw [same]
      cases opened : lib.content (data.drop responseSize) (some (toIdentity localId))
          (some (toIdentity remoteId)) with
      | none =>
        simp only [opened] at imported
        simp only [imported.2 rfl]
        rfl
      | some content =>
        have short := shorter.opened opened
        rw [List.length_drop] at short
        simp only [opened] at imported
        simp only [imported.2 ⟨by omega, rfl⟩]
        by_cases whole : content.length = sharedSize
        next =>
          have present : content ≠ [] := by
            rintro rfl
            contradiction
          simp only [present, if_false, whole, bind, Except.bind, ne_eq, not_true, Option.getD_some,
            Shared.ofBytes_append whole, pure, Except.pure]
        next =>
          have other : ¬ (if content = [] then -1 else (content.length : Int)) = sharedSize := by
            split
            next => decide
            next => omega
          simp only [bind, Except.bind, ne_eq, other, not_false_eq_true, if_true, whole, pure,
            Except.pure]

end

def taggedPkcs7 : Pkcs7 duoPki where
  Message := Bytes
  parse envelope := if envelope.head? = some 48 then some envelope.tail else none
  octets message := message
  dataDecode message _ _ := some message
  signatureVerify _ _ := true

theorem taggedPkcs7_shorter : taggedPkcs7.Shorter := by
  constructor
  · intro envelope message parsed
    change (if envelope.head? = some 48 then some envelope.tail else none) = some message at parsed
    split at parsed
    next =>
      cases parsed
      simp [taggedPkcs7]
    next => contradiction
  · intro message key cert content decoded
    cases decoded
    exact Nat.le_refl _

def challenged : Server duoPki :=
  { auth := { pending := [⟨0, Block.zero _, 70, some ⟨(1 : Nat), none⟩⟩], allocated := 1 } }

def respBody (content : Bytes) : Bytes := List.replicate 148 0 ++ 48 :: content

theorem envelopes_fit_iff_flag :
    (RespFits duoEnv taggedPkcs7 challenged (duoTurn 20 .other) (respBody [3]) ∧
      ∀ keys localId remoteId auth ip port flags answer now,
        AuthFits duoEnv taggedPkcs7 keys localId remoteId auth ip port flags answer now) ↔
      ∀ remote, responder challenged 20 (respBody [3]) = some remote →
        ∀ content, respContent duoEnv taggedPkcs7 remote (respBody [3]) = some content →
          content.length ≤ 1 :=
  envelopes_fit_iff taggedPkcs7_shorter challenged (duoTurn 20 .other) (respBody [3])

set_option maxRecDepth 4000 in
/-- An envelope with two bytes, from a peer that answered its challenge. -/
theorem envelope_overflows :
    (handleAuth duoEnv {} (duoTurn 10 .other) (duoArchive 1) = some challenged ∧
      responder challenged 20 (respBody [1, 2]) = some ⟨(1 : Nat), none⟩ ∧
      handleRespIn duoEnv taggedPkcs7 challenged (duoTurn 20 .other) (respBody [1, 2]) 0 =
        .error .outside) ∧
    ¬ ∀ (server : Server duoPki) (turn : Turn duoEnv) (data : Bytes),
      RespFits duoEnv taggedPkcs7 server turn data := by
  have overflows : handleRespIn duoEnv taggedPkcs7 challenged (duoTurn 20 .other)
      (respBody [1, 2]) 0 = .error .outside := rfl
  refine ⟨⟨rfl, rfl, overflows⟩, ?_⟩
  intro all
  obtain ⟨result, ran, _⟩ := all challenged (duoTurn 20 .other) (respBody [1, 2]) 0
  rw [overflows] at ran
  contradiction

end Sfs

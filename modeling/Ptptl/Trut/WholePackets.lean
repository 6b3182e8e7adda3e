import Ptptl.Trut.Answers

set_option autoImplicit false

/-! # The packets that are sent whole -/

namespace Trut

open Ptp Ptp.Collection CInt Gnutella

/-- The packets of `Search` and of `HandleSearchRequest`, by their identifiers. -/
inductive Built (evp : Cipher) : Bytes → Bytes → Prop where
  | search {guid str pkt : Bytes} {group : Option Group} {iv : Iv} (whole : guid.length = 16)
      (made : searchPacket evp guid str group iv = some pkt) : Built evp guid pkt
  -- the identifier of the request is copied
  | answer {trut : Trut} {answering : Answering} {rqst pkt : Bytes}
      (trailer : answering.trailer.length = 16)
      (made : respond evp trut answering rqst = .ok (some pkt)) : Built evp (guid rqst) pkt

/-- Over a connection that takes what it is given, the header and as many bytes as the size field
says are written, and these are the packet. -/
def SendsWhole (pkt : Bytes) : Prop :=
  ∀ conn : Connection, conn.sent.Willing → ∃ next, Host.sendGnutella conn pkt = some next ∧
    next.sent.accepted = conn.sent.accepted ++ pkt ∧
    pkt.length = Gnutella.headerSize + get32 (sizeField pkt)

def quiet : Connection := ⟨[], [], ⟨[], []⟩⟩

theorem quiet_willing : quiet.sent.Willing := ⟨by simp [quiet], by simp [quiet]⟩

variable {evp : Cipher} {trut : Trut} {answering : Answering} {guid rqst pattern str pkt : Bytes}
  {key : Bool} {group : Option Group} {iv : Iv}

theorem packet_length (whole : guid.length = 16) (type : Byte) (payload : Bytes) :
    (packet guid type payload).length = Gnutella.headerSize + payload.length := by
  simp only [packet, List.length_append, whole, set32_length, List.length_cons, List.length_nil,
    Gnutella.headerSize]

theorem packet_wellFormed (whole : guid.length = 16) (type : Byte) {payload : Bytes}
    (small : payload.length < 4294967296) : WellFormed (packet guid type payload) where
  header := by
    rw [packet_length whole]
    exact Nat.le_add_right _ _
  payload := by
    rw [packet_length whole, sizeField_packet whole, get32_set32, Nat.mod_eq_of_lt small]

theorem cString_packet (whole : guid.length = 16) (type : Byte) (payload : Bytes) :
    (0 : Byte) ∈ packet guid type payload ∧
      (cString (packet guid type payload)).length < Gnutella.headerSize := by
  have split : packet guid type payload =
      (guid ++ [type, 7]) ++ 0 :: (set32 payload.length ++ payload) := by
    simp [packet]
  rw [split]
  constructor
  next => simp
  next =>
    -- the text is inside of what stands before the hops
    have front := cString_front ((guid ++ [type, 7]) ++ 0 :: (set32 payload.length ++ payload))
    by_contra long
    have inside : guid ++ [type, 7] ++ [0] <+:
        cString ((guid ++ [type, 7]) ++ 0 :: (set32 payload.length ++ payload)) := by
      apply List.prefix_of_prefix_length_le _ front
      · have length : (guid ++ [type, 7] ++ [0]).length = 19 := by simp [whole]
        rw [length]
        exact Nat.le_trans (by decide) (Nat.not_lt.1 long)
      · exact ⟨set32 payload.length ++ payload, by simp⟩
    apply cString_clean ((guid ++ [type, 7]) ++ 0 :: (set32 payload.length ++ payload))
    exact inside.subset (by simp)

theorem greets_packet (whole : guid.length = 16) (type : Byte) (payload : Bytes) :
    ascii "GNUTELLA" <+: packet guid type payload ↔ ascii "GNUTELLA" <+: guid := by
  have front : guid <+: packet guid type payload := by
    simp only [packet, List.append_assoc]
    exact List.prefix_append _ _
  constructor
  · intro text
    apply List.prefix_of_prefix_length_le text front
    rw [whole]
    decide
  · intro text
    exact text.trans front

theorem sendGnutella_cut (whole : guid.length = 16) (type : Byte) (payload : Bytes)
    (text : ascii "GNUTELLA" <+: guid) {conn : Connection} (willing : conn.sent.Willing) :
    ∃ next, Host.sendGnutella conn (packet guid type payload) = some next ∧
      next.sent.accepted = conn.sent.accepted ++ cString (packet guid type payload) := by
  have long : (ascii "GNUTELLA").length < (packet guid type payload).length := by
    rw [packet_length whole]
    exact Nat.lt_of_lt_of_le (by decide) (Nat.le_add_right _ _)
  have front := cString_front (packet guid type payload)
  have size : Host.sendSize (packet guid type payload) =
      some ((cString (packet guid type payload)).length : Int) := by
    simp [Host.sendSize, Host.strncmpConst_long long, (greets_packet whole type payload).2 text,
      (cString_packet whole type payload).1]
  obtain ⟨next, written, added, -⟩ := conn.writeAll_correct willing (packet guid type payload)
    (Int.ofNat_le.2 (cString_length_le (packet guid type payload)))
  refine ⟨next, by simp [Host.sendGnutella, size, written], ?_⟩
  rw [added, Int.toNat_natCast, ← List.prefix_iff_eq_take.1 front]

theorem sendsWhole_packet (whole : guid.length = 16) (type : Byte) {payload : Bytes}
    (small : ((Gnutella.headerSize + payload.length : Nat) : Int) ≤ intMax) :
    SendsWhole (packet guid type payload) ↔ ¬ ascii "GNUTELLA" <+: guid := by
  have length := packet_length whole type payload
  have wellFormed := packet_wellFormed whole type
    (by unfold intMax at small; omega : payload.length < 4294967296)
  constructor
  next =>
    intro sends text
    have short := (cString_packet whole type payload).2
    obtain ⟨next, sent, accepted, -⟩ := sends quiet quiet_willing
    obtain ⟨other, cut, added⟩ := sendGnutella_cut whole type payload text quiet_willing
    rw [sent, Option.some.injEq] at cut
    subst cut
    have same := List.append_cancel_left (accepted.symm.trans added)
    rw [← same, length] at short
    omega
  next =>
    intro plain conn willing
    obtain ⟨next, sent, accepted, -⟩ := Host.sendGnutella_whole willing wellFormed
      (mt (greets_packet whole type payload).1 plain) (length ▸ small)
    exact ⟨next, sent, accepted, wellFormed.payload⟩

theorem searchPacket_some (made : searchPacket evp guid str group iv = some pkt) :
    ∃ text : Bytes, pkt = searchRqst guid text ∧ ((27 + text.length : Nat) : Int) ≤ intMax := by
  -- the buffer holds the text
  have buffer (text : Bytes)
      (made : (if wrap (26 + (text.length : Int) + 1) < 26 + (text.length : Int) + 1 then
        none.bind fun _ : PUnit => pure (searchRqst guid text)
      else pure (searchRqst guid text)) = some pkt) :
      ∃ text : Bytes, pkt = searchRqst guid text ∧ ((27 + text.length : Nat) : Int) ≤ intMax := by
    split at made
    next => simp at made
    next fits =>
      have most := wrap_le (26 + (text.length : Int) + 1)
      exact ⟨text, by simpa using made.symm, by omega⟩
  unfold searchPacket at made
  cases group with
  | none => exact buffer str made
  | some group =>
    simp only at made
    cases held : group.key with
    | none =>
      rw [held] at made
      exact buffer str made
    | some key =>
      rw [held] at made
      obtain ⟨text, _, made⟩ := Option.bind_eq_some_iff.1 made
      exact buffer text made

theorem sendAnswer_keyed
    (sent : sendAnswer evp trut answering guid pattern key group = .ok (some pkt)) :
    HasKey group ∧ matching trut pattern (group.map Group.ref) ≠ [] := by
  simp only [sendAnswer] at sent
  split at sent
  next => simp at sent
  next present =>
    simp only [Runs.bind_ok] at sent
    obtain ⟨size, buffer, _⟩ := sent
    refine ⟨?_, by simpa using present⟩
    intro member same
    subst same
    simp only [answerBuffer, Runs.bind_ok, useKey_ok] at buffer
    obtain ⟨own, held, _⟩ := buffer
    simp [held]

theorem respond_some (trailer : answering.trailer.length = 16)
    (made : respond evp trut answering rqst = .ok (some pkt)) :
    (Gnutella.guid rqst).length = 16 ∧ ∃ payload : Bytes,
      pkt = packet (Gnutella.guid rqst) 0x81 payload ∧
        ((Gnutella.headerSize + payload.length : Nat) : Int) ≤ intMax := by
  simp only [respond, Runs.bind_ok] at made
  obtain ⟨query, asks, sent⟩ := made
  refine ⟨guid_of_asked asks, ?_⟩
  cases query with
  | none => simp at sent
  | some query =>
    obtain ⟨pattern, key, group⟩ := query
    obtain ⟨keyed, present⟩ := sendAnswer_keyed sent
    obtain ⟨small, made⟩ := (sendAnswer_some keyed trailer present).1 sent
    refine ⟨_, made, ?_⟩
    have length := answerPayload_length trailer
      ((matching trut pattern (group.map Group.ref)).map (searchEntry key))
    generalize answerPayload answering _ = payload at *
    cases group with
    | none =>
      simp only [neededSize, Option.isSome_none, Bool.false_eq_true, if_false] at small
      simp only [answerBody, Option.bind_none, Gnutella.headerSize]
      omega
    | some group =>
      obtain ⟨own, held⟩ := Option.isSome_iff_exists.1 (keyed group rfl)
      simp only [neededSize, Option.isSome_some, if_true] at small
      simp only [answerBody, Option.bind_some, held, Key.cipherText_length, Gnutella.headerSize]
      have overhead : Key.overhead true true = 28 := rfl
      omega

theorem sendsWhole_iff (built : Built evp guid pkt) :
    SendsWhole pkt ↔ ¬ ascii "GNUTELLA" <+: guid := by
  cases built with
  | search whole made =>
    obtain ⟨text, rfl, small⟩ := searchPacket_some made
    apply sendsWhole_packet whole
    simp only [List.length_append, set16, List.length_cons, List.length_nil, Gnutella.headerSize]
    omega
  | answer trailer made =>
    obtain ⟨whole, payload, rfl, small⟩ := respond_some trailer made
    exact sendsWhole_packet whole 0x81 small

def handshake : Bytes := ascii "GNUTELLA" ++ List.replicate 8 1

def greeted (guid : Bytes) : Bytes := searchRqst guid [42]

theorem greeted_tells {guid : Bytes} (whole : guid.length = 16) :
    respond Key.zeroCipher (Peer.crowded 1) Peer.home (greeted guid) =
      .ok (some (packet guid 0x81 (answerPayload Peer.home
        ((Peer.crowded 1).collect.entries.map (searchEntry false))))) := by
  have text : searchText (greeted guid) = some [42] := searchText_searchRqst whole (by decide)
  have plain : target (Peer.crowded 1) [42] = .all false := rfl
  have asks : asked Key.zeroCipher (Peer.crowded 1) (greeted guid) =
      .ok (some ([42], false, none)) := by
    simp only [asked, text, orUndefined, bind, Except.bind, plain]
    rfl
  have present : matching (Peer.crowded 1) [42] (Option.map Group.ref none) ≠ [] := by
    rw [Option.map_none, Peer.crowded_matching]
    decide
  have keyed : HasKey none := by simp [HasKey]
  have small : (neededSize ((matching (Peer.crowded 1) [42] (Option.map Group.ref none)).map
      (searchEntry false)) none : Int) ≤ intMax := by
    rw [Option.map_none, Peer.crowded_matching]
    decide
  have sent : sendAnswer Key.zeroCipher (Peer.crowded 1) Peer.home guid [42] false none =
      .ok (some _) := (sendAnswer_some keyed rfl present).2 ⟨small, rfl⟩
  have responds : respond Key.zeroCipher (Peer.crowded 1) Peer.home (greeted guid) =
      sendAnswer Key.zeroCipher (Peer.crowded 1) Peer.home guid [42] false none := by
    simp only [respond, asks, bind, Except.bind]
    rw [greeted, guid_searchRqst whole]
  rw [responds, sent, Option.map_none, Peer.crowded_matching]
  rfl

theorem greeted_answered {guid : Bytes} (whole : guid.length = 16) :
    ∃ payload, respond Key.zeroCipher (Peer.crowded 1) Peer.home (greeted guid) =
      .ok (some (packet guid 0x81 payload)) :=
  ⟨_, greeted_tells whole⟩

theorem sendsWhole_iff_request : Built Key.zeroCipher (List.replicate 16 2)
      (searchRqst (List.replicate 16 2) [42]) ∧
    (SendsWhole (searchRqst (List.replicate 16 2) [42]) ↔
      ¬ ascii "GNUTELLA" <+: List.replicate 16 2) :=
  have built : Built Key.zeroCipher (List.replicate 16 2)
      (searchRqst (List.replicate 16 2) [42]) :=
    @Built.search _ _ [42] _ none (Block.zero _) rfl (by decide)
  ⟨built, sendsWhole_iff built⟩

/-- Of the answer to a request whose identifier starts with "GNUTELLA", what stands before the
hops is sent. -/
theorem sendsWhole_cut : ∃ resp,
    respond Key.zeroCipher (Peer.crowded 1) Peer.home (greeted handshake) = .ok (some resp) ∧
      Built Key.zeroCipher handshake resp ∧ ¬ SendsWhole resp ∧
      ∃ next, Host.sendGnutella quiet resp = some next ∧
        next.sent.accepted = handshake ++ [0x81, 7] := by
  have whole : handshake.length = 16 := rfl
  obtain ⟨payload, sent⟩ := greeted_answered whole
  have built := Built.answer rfl sent
  rw [greeted, guid_searchRqst whole] at built
  have text : ascii "GNUTELLA" <+: handshake := ⟨_, rfl⟩
  obtain ⟨next, cut, accepted⟩ := sendGnutella_cut whole 0x81 payload text quiet_willing
  refine ⟨_, sent, built, ?_, next, cut, ?_⟩
  next =>
    intro sends
    obtain ⟨other, written, all, _⟩ := sends quiet quiet_willing
    rw [cut, Option.some.injEq] at written
    subst written
    have same := List.append_cancel_left (all.symm.trans accepted)
    have short := (cString_packet whole 0x81 payload).2
    rw [← same, packet_length whole] at short
    omega
  next =>
    have clean : (0 : Byte) ∉ handshake ++ [0x81, 7] := by decide
    have split : packet handshake 0x81 payload =
        (handshake ++ [0x81, 7]) ++ 0 :: (set32 payload.length ++ payload) := by
      simp [packet]
    rw [accepted, split, cString_ended clean]
    rfl

end Trut

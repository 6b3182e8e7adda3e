import Ptptl.Ptp.HttpSent
import Ptptl.Trut.Bounds
import Ptptl.Trut.Discovery
import Ptptl.Trut.WholePackets

set_option autoImplicit false

/-! # The thread of a host -/

namespace Trut

open Ptp CInt Gnutella

namespace Gnutella

/-- What `HostThread` takes a packet for. -/
inductive Kind where
  | connect
  | response
  | request
  | other
deriving DecidableEq

def kind (pkt : Bytes) : Option Kind :=
  -- in a block that is shorter, the type is read behind it
  match strncmpConst pkt connectRequest with
  | none => none
  | some true => some .connect
  | some false =>
    match pkt[16]? with
    | none => none
    | some type =>
      some (if type = 0x81 then .response else if type = 0x80 then .request else .other)

end Gnutella

namespace Host

/-- What `SendGnutella` writes of a packet. -/
def frame (pkt : Bytes) : Bytes :=
  match sendSize pkt with
  | none => []
  | some size => pkt.take size.toNat

/-- What is sent in one piece: a message of the connection, or a packet. -/
def Frame (text : Bytes) : Prop :=
  text = connectRequest ∨ text = connectResponse ∨
    (WellFormed text ∧ ¬ ascii "GNUTELLA" <+: text ∧ (text.length : Int) ≤ intMax)

/-- A read that starts with a message of the connection ends with it, and a packet is received to
its end. -/
def Tidy (conn : Connection) : Prop :=
  ∀ pkt next, receiveGnutella conn = some (some pkt, next) → pkt.missing = 0 ∧
    (Greeting pkt.bytes → pkt.bytes = connectRequest ∨ pkt.bytes = connectResponse)

variable {conn next : Connection} {pkt text rest : Bytes} {received : Received}

theorem sendGnutella_frame (willing : conn.sent.Willing)
    (sent : sendGnutella conn pkt = some next) :
    next.sent.accepted = conn.sent.accepted ++ frame pkt ∧ next.sent.Willing ∧
      next.remaining = conn.remaining ∧ next.arrivals = conn.arrivals := by
  simp only [sendGnutella, Option.bind_eq_bind, Option.bind_eq_some_iff] at sent
  obtain ⟨size, counted, ⟨result, other⟩, written, same⟩ := sent
  obtain rfl := Option.some.inj same
  -- WriteAll of more than the packet reads past its end
  have bound : size ≤ pkt.length := by
    by_contra large
    have positive : ¬ size ≤ 0 := by omega
    have short : (pkt.length : Int) < size := by omega
    simp [Connection.writeAll, positive, short] at written
  obtain ⟨last, again, added, kept⟩ := conn.writeAll_correct willing pkt bound
  obtain ⟨-, rfl⟩ := Prod.mk.inj (Option.some.inj (written.symm.trans again))
  obtain ⟨unget, socket⟩ := Connection.writeAll_reads written
  refine ⟨by rw [added, frame, counted], kept, ?_, ?_⟩
  · rw [Connection.remaining, Connection.remaining, unget, socket]
  · rw [Connection.arrivals, Connection.arrivals, unget, socket]

theorem receiveGnutella_sent {result : Option Received}
    (done : receiveGnutella conn = some (result, next)) : next.sent = conn.sent := by
  have first := conn.read_sent (bufferSize - 1)
  unfold receiveGnutella at done
  split at done
  next middle read =>
    obtain ⟨-, rfl⟩ := Prod.mk.inj (Option.some.inj done)
    rwa [read] at first
  next middle read =>
    obtain ⟨-, rfl⟩ := Prod.mk.inj (Option.some.inj done)
    rwa [read] at first
  next buffer middle present read =>
    obtain ⟨size, counted, done⟩ := Option.bind_eq_some_iff.1 done
    rw [read] at first
    have all := middle.readAll_sent (size.toNat - buffer.length)
    split at done
    next =>
      obtain ⟨-, rfl⟩ := Prod.mk.inj (Option.some.inj done)
      exact first
    next =>
      split at done
      next => simp at done
      next =>
        split at done
        all_goals
          rename_i gathered
          obtain ⟨-, rfl⟩ := Prod.mk.inj (Option.some.inj done)
          rw [gathered] at all
          exact all.trans first

theorem receiveGnutella_takes (done : receiveGnutella conn = some (some received, next)) :
    received.bytes ≠ [] ∧ received.bytes ++ next.remaining = conn.remaining := by
  unfold receiveGnutella at done
  split at done
  next => simp at done
  next => simp at done
  next buffer middle present read =>
    obtain ⟨size, counted, done⟩ := Option.bind_eq_some_iff.1 done
    split at done
    next => simp at done
    next =>
      split at done
      next => simp at done
      next =>
        split at done
        next => simp at done
        next more last gathered =>
          obtain ⟨same, rfl⟩ := Prod.mk.inj (Option.some.inj done)
          obtain rfl := Option.some.inj same
          have taken := (Connection.read_some read).1
          have tracked := middle.arrivals_readAll (size.toNat - buffer.length)
          rw [gathered] at tracked
          have rest := (Chunked.Source.gather_some tracked).1
          rw [Connection.arrivals_contents, Connection.arrivals_contents] at rest
          refine ⟨?_, by rw [List.append_assoc, rest, taken]⟩
          intro empty
          exact present (List.append_eq_nil_iff.1 empty).1

theorem prefix_message {buffer message : Bytes} {same : Bool}
    (compared : strncmpConst buffer message = some same) (start : buffer <+: message ++ rest) :
    message <+: buffer := by
  unfold strncmpConst at compared
  split at compared
  next here => exact here
  next =>
    split at compared
    next => simp at compared
    next longer =>
      by_contra other
      rcases List.prefix_or_prefix_of_prefix start (List.prefix_append message rest) with
        shorter | here
      · exact longer shorter
      · exact other here

theorem receiveSize_message {buffer message : Bytes} {size : Int}
    (counted : receiveSize buffer = some size) (start : buffer <+: message ++ rest)
    (whole : message = connectRequest ∨ message = connectResponse) : message <+: buffer := by
  cases compared : strncmpConst buffer connectRequest with
  | none => simp [receiveSize, greeting, compared] at counted
  | some equal =>
    rcases whole with rfl | rfl
    · exact prefix_message compared start
    · cases equal with
      | true =>
        -- the messages differ before the shorter one ends
        have both := ((strncmpConst_some compared).1 rfl).trans start
        exact absurd (List.prefix_of_prefix_length_le (List.prefix_append _ _) both (by decide))
          (by decide)
      | false =>
        cases compared' : strncmpConst buffer connectResponse with
        | none => simp [receiveSize, greeting, compared, compared'] at counted
        | some equal => exact prefix_message compared' start

theorem receiveSize_packet {buffer : Bytes} {size : Int} (counted : receiveSize buffer = some size)
    (start : buffer <+: text ++ rest) (wellFormed : WellFormed text)
    (plain : ¬ ascii "GNUTELLA" <+: text) (small : (text.length : Int) ≤ intMax) :
    size = text.length := by
  rcases receiveSize_some counted with ⟨greets, -⟩ | ⟨-, header, measured⟩
  next =>
    have eight : ascii "GNUTELLA" <+: text ++ rest :=
      greets.elim (fun here => List.IsPrefix.trans (by decide) (here.trans start))
        fun here => List.IsPrefix.trans (by decide) (here.trans start)
    exact absurd (List.prefix_of_prefix_length_le eight (List.prefix_append _ _)
      (Nat.le_trans (by decide) wellFormed.header)) plain
  next =>
    have field : sizeField buffer = sizeField text :=
      (sizeField_front start header).trans
        (sizeField_front (List.prefix_append text rest) wellFormed.header).symm
    rw [measured, field, ← Int.natCast_add, ← wellFormed.payload,
      wrap_of_le (by unfold intMin; omega) small]

theorem receiveGnutella_frame (tidy : Tidy conn) (whole : Frame text)
    (done : receiveGnutella conn = some (some received, next))
    (start : received.bytes <+: text ++ rest) : received = ⟨text, 0⟩ := by
  obtain ⟨ended, message⟩ := tidy _ _ done
  obtain ⟨buffer, middle, size, read, counted, fits, front, total⟩ := receiveGnutella_some done
  rw [ended, Nat.add_zero] at total
  have begins := front.trans start
  have same : received.bytes = text := by
    have greets (whole : text = connectRequest ∨ text = connectResponse) :
        received.bytes = text := by
      have here := (receiveSize_message counted begins whole).trans front
      rcases whole with rfl | rfl
      · rcases message (.inl here) with same | same
        · exact same
        · exact absurd (same ▸ here) (by decide)
      · rcases message (.inr here) with same | same
        · exact absurd (same ▸ here) (by decide)
        · exact same
    rcases whole with whole | whole | ⟨wellFormed, plain, small⟩
    · exact greets (.inl whole)
    · exact greets (.inr whole)
    · have size := receiveSize_packet counted begins wellFormed plain small
      -- as long as the piece, and both start what is on the way
      have short : received.bytes <+: text :=
        List.prefix_of_prefix_length_le start (List.prefix_append _ _) (by omega)
      exact short.eq_of_length (by omega)
  cases received
  simp_all

theorem frame_packet (wellFormed : WellFormed pkt) (plain : ¬ ascii "GNUTELLA" <+: pkt)
    (small : (pkt.length : Int) ≤ intMax) : frame pkt = pkt := by
  have long : (ascii "GNUTELLA").length < pkt.length :=
    Nat.lt_of_lt_of_le (by decide) wellFormed.header
  have value : wrap (pkt.length : Int) = pkt.length :=
    wrap_of_le (by unfold intMin; omega) small
  have size : sendSize pkt = some (pkt.length : Int) := by
    simp [sendSize, strncmpConst_long long, plain, wellFormed.header, ← Int.natCast_add,
      ← wellFormed.payload, value]
  rw [frame, size]
  simp

theorem frame_built {guid payload : Bytes} (whole : guid.length = 16)
    (plain : ¬ ascii "GNUTELLA" <+: guid) (type : Byte)
    (small : ((Gnutella.headerSize + payload.length : Nat) : Int) ≤ intMax) :
    frame (packet guid type payload) = packet guid type payload ∧
      Frame (packet guid type payload) := by
  have wellFormed := packet_wellFormed whole type
    (by unfold intMax at small; omega : payload.length < 4294967296)
  have other := mt (greets_packet whole type payload).1 plain
  rw [← packet_length whole type payload] at small
  exact ⟨frame_packet wellFormed other small, .inr (.inr ⟨wellFormed, other, small⟩)⟩

theorem kind_packet {guid : Bytes} (whole : guid.length = 16) (plain : ¬ ascii "GNUTELLA" <+: guid)
    (type : Byte) (payload : Bytes) : kind (packet guid type payload) =
      some (if type = 0x81 then .response else if type = 0x80 then .request else .other) := by
  have long : connectRequest.length < (packet guid type payload).length := by
    rw [packet_length whole]
    exact Nat.lt_of_lt_of_le (by decide) (Nat.le_add_right _ _)
  have other : ¬ connectRequest <+: packet guid type payload := fun here =>
    plain ((greets_packet whole type payload).1 (List.IsPrefix.trans (by decide) here))
  have field : (packet guid type payload)[16]? = some type := by
    simp [packet, List.append_assoc, whole]
  simp only [kind, strncmpConst_long long, other, decide_false, field]

end Host

end Trut

namespace Peer

open Ptp Trut Gnutella

section

variable (evp : Cipher)

/-- What `HostThread` does with a packet: the peer behind it, what is put out, and what is sent to
the host. -/
def hostThread (peer : Peer) (answering : Answering) (pkt : Bytes) :
    Except Fault (Peer × List Output × Option Bytes) := do
  match ← orUndefined (kind pkt) with
  | .connect => return (peer, [], some (connectResponse ++ [0]))
  | .response =>
    let (peer, outputs) ← peer.handleSearchResponse evp pkt
    return (peer, outputs, none)
  | .request =>
    let resp ← respond evp peer.trut answering pkt
    return (peer, (resp.map Output.answer).toList, resp)
  | .other => return (peer, [], none)

end

inductive Handled (evp : Cipher) (peer : Peer) (answering : Answering) (pkt : Bytes) :
    Peer → List Output → Option Bytes → Prop where
  | connect (told : kind pkt = some .connect) :
    Handled evp peer answering pkt peer [] (some (connectResponse ++ [0]))
  | response {next : Peer} {outputs : List Output} (told : kind pkt = some .response)
    (handled : peer.handleSearchResponse evp pkt = .ok (next, outputs)) :
    Handled evp peer answering pkt next outputs none
  | request {resp : Option Bytes} (told : kind pkt = some .request)
    (responded : respond evp peer.trut answering pkt = .ok resp) :
    Handled evp peer answering pkt peer (resp.map Output.answer).toList resp
  | other (told : kind pkt = some .other) : Handled evp peer answering pkt peer [] none

def arrival (answering : Answering) (pkt : Bytes) : Option Op :=
  match kind pkt with
  | some .response => some (.response pkt)
  | some .request => some (.request pkt answering)
  | _ => none

variable {ulong : Nat} {evp : Cipher} {peer next : Peer} {answering : Answering} {pkt : Bytes}
  {outputs : List Output} {reply : Option Bytes}

theorem hostThread_cases (done : peer.hostThread evp answering pkt = .ok (next, outputs, reply)) :
    Handled evp peer answering pkt next outputs reply := by
  simp only [hostThread, Runs.bind_ok, orUndefined_ok] at done
  obtain ⟨type, told, done⟩ := done
  cases type with
  | connect =>
    cases done
    exact .connect told
  | response =>
    simp only [Runs.bind_ok, Runs.pure_ok, Prod.mk.injEq] at done
    obtain ⟨⟨later, handled⟩, result, rfl, rfl, rfl⟩ := done
    exact .response told result
  | request =>
    simp only [Runs.bind_ok, Runs.pure_ok, Prod.mk.injEq] at done
    obtain ⟨resp, responded, rfl, rfl, rfl⟩ := done
    exact .request told responded
  | other =>
    cases done
    exact .other told

theorem Handled.step (handled : Handled evp peer answering pkt next outputs reply) :
    (arrival answering pkt = none ∧ next = peer ∧ outputs = []) ∨
      ∃ op, arrival answering pkt = some op ∧ peer.step ulong evp op = .ok (next, outputs) := by
  cases handled with
  | connect told | other told => exact .inl ⟨by simp [arrival, told], rfl, rfl⟩
  | response told handled => exact .inr ⟨.response pkt, by simp [arrival, told], handled⟩
  | request told responded =>
    refine .inr ⟨.request pkt answering, by simp [arrival, told], ?_⟩
    simp only [Peer.step, respond_refines responded]
    rfl

theorem Handled.sends {sent : Bytes} (whole : Host.Frame pkt)
    (trailer : answering.trailer.length = 16)
    (handled : Handled evp peer answering pkt next outputs (some sent)) :
    (kind pkt = some .connect ∧ Host.frame sent = connectResponse) ∨
      (kind pkt = some .request ∧ respond evp peer.trut answering pkt = .ok (some sent) ∧
        Host.frame sent = sent ∧ Host.Frame sent ∧ kind sent = some .response) := by
  generalize same : some sent = reply at handled
  cases handled with
  | connect told =>
    obtain rfl := Option.some.inj same
    exact .inl ⟨told, by decide⟩
  | response | other => contradiction
  | request told responded =>
    subst same
    obtain ⟨long, payload, rfl, small⟩ := respond_some trailer responded
    have plain : ¬ ascii "GNUTELLA" <+: guid pkt := by
      intro here
      have greets := here.trans (List.take_prefix 16 pkt)
      rcases whole with rfl | rfl | ⟨_, plain, _⟩
      · exact absurd told (by decide)
      · exact absurd told (by decide)
      · exact plain greets
    obtain ⟨sent, framed⟩ := Host.frame_built long plain 0x81 small
    exact .inr ⟨told, responded, sent, framed, Host.kind_packet long plain 0x81 payload⟩

variable {op : Op}

theorem callback_outputs {callback : Callback} (files : List File) :
    ∀ {peer next : Peer} {outputs : List Output},
      Peer.callback callback peer files = .ok (next, outputs) →
      ∀ output ∈ outputs, ∃ context file, callback = .user context ∧
        output = .found context file := by
  induction files with
  | nil =>
    intro peer next outputs handled
    cases handled
    simp
  | cons file files ih =>
    intro peer next outputs handled
    cases callback with
    | findKey ref =>
      simp only [Peer.callback, Runs.bind_ok] at handled
      obtain ⟨middle, _, handled⟩ := handled
      exact ih handled
    | user context =>
      simp only [Peer.callback, Runs.bind_ok, Runs.pure_ok, Prod.mk.injEq] at handled
      obtain ⟨⟨later, others⟩, handled, rfl, rfl⟩ := handled
      intro output member
      rcases List.mem_cons.1 member with rfl | member
      · exact ⟨context, file, rfl, rfl⟩
      · exact ih handled output member

theorem response_outputs {resp : Bytes}
    (handled : peer.handleSearchResponse evp resp = .ok (next, outputs)) :
    ∀ output ∈ outputs, ∃ context file, output = .found context file := by
  rw [handleSearchResponse_calls] at handled
  simp only [Runs.bind_ok] at handled
  obtain ⟨called, _, handled⟩ := handled
  cases called with
  | none =>
    cases handled
    simp
  | some called =>
    intro output member
    obtain ⟨context, file, _, same⟩ := callback_outputs called.2 handled output member
    exact ⟨context, file, same⟩

theorem Handled.found (handled : Handled evp peer answering pkt next outputs reply) {context : Nat}
    {file : File} (found : .found context file ∈ outputs) : kind pkt = some .response ∧
      ∃ search files, (peer.searches.find? fun search => search.guid = guid pkt) = some search ∧
        search.callback = .user context ∧
        peer.calls evp pkt = .ok (some (.user context, files)) ∧
        outputs = files.map (Output.found context) := by
  cases handled with
  | connect | other => simp at found
  | request told responded => cases reply <;> simp at found
  | response told handled =>
    refine ⟨told, ?_⟩
    rw [handleSearchResponse_calls] at handled
    simp only [Runs.bind_ok] at handled
    obtain ⟨called, calls, handled⟩ := handled
    rcases called with _ | ⟨callback, files⟩
    · cases handled
      simp at found
    · obtain ⟨context', file', user, same⟩ := callback_outputs files handled _ found
      obtain ⟨rfl, rfl⟩ := Output.found.inj same
      subst user
      obtain ⟨-, rfl⟩ := Prod.mk.inj (Except.ok.inj ((callback_user peer context files).symm.trans
        handled))
      cases waits : peer.searches.find? fun search => search.guid = guid pkt with
      | none => simp [Peer.calls, waits] at calls
      | some search =>
        refine ⟨search, files, rfl, ?_, calls, rfl⟩
        simp only [Peer.calls, waits, Runs.bind_ok] at calls
        obtain ⟨payload, _, calls⟩ := calls
        cases payload with
        | none => simp at calls
        | some payload =>
          simp only [Runs.bind_ok, Runs.pure_ok, Option.some.injEq, Prod.mk.injEq] at calls
          obtain ⟨_, _, same, _⟩ := calls
          exact same

theorem report_outputs {ref : Nat} {status : JoinStatus} {output : Output}
    (member : output ∈ peer.report ref status) : ∃ key, output = .joined ref status key := by
  simp only [report] at member
  split at member
  next => exact ⟨_, List.mem_singleton.1 member⟩
  next => simp at member

theorem step_search (stepped : peer.step ulong evp op = .ok (next, outputs)) {rqst : Bytes}
    (sent : .search rqst ∈ outputs) :
    (∃ name join accept guid, op = .joinGroup name join accept guid ∧
      rqst = searchRqst guid (keyName name).val) ∨
    ∃ str context group guid iv found text, op = .search str context group guid iv ∧
      peer.groupOf group = .ok found ∧ searchString evp str found iv = .ok text ∧
      rqst = searchRqst guid text := by
  cases step_cases stepped with
  | joinGroup name join accept guid =>
    exact .inl ⟨name, join, accept, guid, rfl, joinGroup_search sent⟩
  | wake woken =>
    rcases wake_cases woken with ⟨_, rfl⟩ | ⟨group, _, _, result⟩
    · simp at sent
    · split at result
      next => simp [result.2] at sent
      next =>
        rw [result.2] at sent
        obtain ⟨key, same⟩ := report_outputs sent
        contradiction
  | search str context group guid iv text =>
    simp only [Peer.step, Peer.search, Runs.bind_ok, Runs.pure_ok, Prod.mk.injEq,
      List.cons.injEq, Output.search.injEq] at stepped
    obtain ⟨found, own, text', made, _, packet, _⟩ := stepped
    refine .inr ⟨str, context, group, guid, iv, found, text', rfl, own, made, ?_⟩
    rw [packet]
    simpa using sent
  | response handled =>
    obtain ⟨context, file, same⟩ := response_outputs handled _ sent
    contradiction
  | request rqst' answering resp => cases resp <;> simp at sent
  | fetched fetched =>
    rcases fetchKey_cases fetched with ⟨_, rfl⟩ | ⟨_, _, rfl⟩ | ⟨_, _, _, _, _, _, _, rfl⟩
    · simp at sent
    · obtain ⟨key, same⟩ := report_outputs sent
      contradiction
    · obtain ⟨key, same⟩ := report_outputs sent
      contradiction
  | leaveGroup | searchStop | addShared | updateShared | removeShared => simp at sent

theorem step_searches (stepped : peer.step ulong evp op = .ok (next, outputs))
    {search : SearchContext} (member : search ∈ next.searches) : search ∈ peer.searches ∨
      (∃ name join accept ref, op = .joinGroup name join accept search.guid ∧
        search.callback = .findKey ref) ∨
      ∃ str context iv, op = .search str context search.group search.guid iv ∧
        search.callback = .user context := by
  cases step_cases stepped with
  | joinGroup name join accept guid =>
    have made (ref : Nat)
        (member : search ∈ (peer.searchKey ref name join accept guid).1.searches) :
        search ∈ peer.searches ∨
          (∃ name' join' accept' ref', Op.joinGroup name join accept guid =
            .joinGroup name' join' accept' search.guid ∧ search.callback = .findKey ref') ∨
          ∃ str context iv, Op.joinGroup name join accept guid =
            .search str context search.group search.guid iv ∧ search.callback = .user context := by
      rcases List.mem_cons.1 member with rfl | member
      · exact .inr (.inl ⟨name, join, accept, ref, rfl, rfl⟩)
      · exact .inl member
    cases found : peer.trut.findGroup name.val with
    | none =>
      simp only [joinGroup, found] at member
      exact made _ member
    | some group =>
      simp only [joinGroup, found] at member
      split at member
      next => exact made _ member
      next => exact .inl member
  | wake woken =>
    rcases wake_cases woken with ⟨rfl, _⟩ | ⟨group, _, _, result⟩
    · exact .inl member
    · split at result
      next =>
        rw [result.1] at member
        exact .inl member
      next =>
        rw [result.1] at member
        exact .inl (List.mem_filter.1 member).1
  | search str context group guid iv text =>
    rcases List.mem_cons.1 member with rfl | member
    · exact .inr (.inr ⟨str, context, iv, rfl, rfl⟩)
    · exact .inl member
  | searchStop context => exact .inl (List.mem_filter.1 member).1
  | leaveGroup _ same =>
    rw [same] at member
    exact .inl member
  | request | addShared => exact .inl member
  | updateShared shared ext group files =>
    simp only [updateShared] at member
    split at member <;> exact .inl member
  | removeShared shared files =>
    simp only [removeShared] at member
    split at member <;> exact .inl member
  | response handled =>
    have same := (response_invariant (fun later => later.searches = peer.searches)
      (fun _ _ holds => holds) handled rfl).1
    exact .inl (same ▸ member)
  | fetched fetched =>
    rcases fetchKey_cases fetched with ⟨rfl, _⟩ | ⟨_, rfl, _⟩ | ⟨_, _, _, _, _, _, rfl, _⟩
    · exact .inl member
    · exact .inl member
    · exact .inl member

end Peer

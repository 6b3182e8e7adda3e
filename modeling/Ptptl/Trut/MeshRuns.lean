import Ptptl.Trut.Mesh

set_option autoImplicit false

/-! # What any number of peers get of each other -/

open Ptp Trut Gnutella

namespace Mesh

inductive Moved (ulong : Nat) (evp : Cipher) (mesh : Mesh) :
    Op → Mesh → List Peer.Output → Prop where
  | idle {next : Mesh} {op : Op} (nothing : ∀ peer, mesh.handed peer op = none)
    (change : Change mesh next mesh.peers mesh.sent mesh.got) : Moved ulong evp mesh op next []
  | own {next : Mesh} {caller : Nat} {op : Peer.Op} {peer : Peer} {outputs : List Peer.Output}
    (own : op.arrives = false)
    (stepped : (mesh.peers caller).step ulong evp op = .ok (peer, outputs))
    (change : Change mesh next (Function.update mesh.peers caller peer)
      (fun e => mesh.sent e ++ if e ∈ mesh.hostsOf caller then searches outputs else []) mesh.got) :
    Moved ulong evp mesh (.own caller op) next outputs
  | dial {next : Mesh} (caller other : Nat) (near far : Connection)
    (change : Change mesh next mesh.peers
      (Function.update mesh.sent ⟨mesh.allocated, false⟩ [connectRequest]) mesh.got) :
    Moved ulong evp mesh (.dial caller other near far) next []
  | dialed {next : Mesh} {e : Endpoint} {text : Bytes} (heap : Nat → Byte)
    (order : mesh.got e ++ [text] <+: mesh.sent e.far)
    (change : Change mesh next mesh.peers mesh.sent
      (Function.update mesh.got e (mesh.got e ++ [text]))) :
    Moved ulong evp mesh (.dialed e heap) next []
  | turn {next : Mesh} {e : Endpoint} {answering : Answering} {text : Bytes} {peer : Peer}
    {outputs : List Peer.Output} {reply : Option Bytes} {heap : Nat → Byte}
    (receives : mesh.block e heap = some text) (made : e.conn < mesh.allocated) (framed : Host.Frame text)
    (order : mesh.got e ++ [text] <+: mesh.sent e.far)
    (handled : Peer.Handled evp (mesh.peers (mesh.owner e)) answering text peer outputs reply)
    (change : Change mesh next (Function.update mesh.peers (mesh.owner e) peer)
      (Function.update mesh.sent e (mesh.sent e ++ (reply.map Host.frame).toList))
      (Function.update mesh.got e (mesh.got e ++ [text]))) :
    Moved ulong evp mesh (.turn e heap answering) next outputs

section

variable {ulong : Nat} {evp : Cipher} {mesh next : Mesh} {e : Endpoint} {outputs : List Peer.Output}

theorem Change.refl (mesh : Mesh) : Change mesh mesh mesh.peers mesh.sent mesh.got :=
  ⟨rfl, rfl, rfl, fun _ _ => rfl, Nat.le_refl _⟩

theorem Wired.own (wired : mesh.Wired) {caller : Nat} {op : Peer.Op} (own : op.arrives = false)
    (proper : mesh.Proper (.own caller op))
    (stepped : mesh.own ulong evp caller op = .ok (next, outputs)) :
    next.Wired ∧ Moved ulong evp mesh (.own caller op) next outputs := by
  simp only [Mesh.own, Runs.bind_ok, Runs.pure_ok, Prod.mk.injEq] at stepped
  obtain ⟨⟨peer, outputs'⟩, called, middle, sent, rfl, rfl⟩ := stepped
  have whole : ∀ rqst ∈ searches outputs', (rqst.length : Int) ≤ CInt.intMax →
      Host.Frame rqst ∧ Host.frame rqst = rqst := by
    intro rqst member small
    obtain ⟨guid, text, asks, rfl⟩ := Peer.step_guid called (mem_searches.1 member)
    obtain ⟨long, plain⟩ := proper guid asks
    rw [searchRqst, packet_length long] at small
    exact (Host.frame_built long plain 0x80 small).symm
  obtain ⟨wired', change⟩ := sendSearches_spec (wired.setPeer caller peer) whole sent
  exact ⟨wired', .own own called ⟨change.peers, change.sent, change.got, change.owner, change.grown⟩⟩

theorem Wired.dial (wired : mesh.Wired) {caller other : Nat} {near far : Connection}
    (proper : mesh.Proper (.dial caller other near far))
    (stepped : mesh.dial caller other near far = .ok next) :
    next.Wired ∧ Moved ulong evp mesh (.dial caller other near far) next [] := by
  have message : Host.frame (connectRequest ++ [0]) = connectRequest := by decide
  have connected := wired.connect proper.1 proper.2 (Function.update (Function.update mesh.owner
    ⟨mesh.allocated, false⟩ caller) ⟨mesh.allocated, true⟩ other)
  have wired' := connected.send (Nat.lt_succ_self _) (.inl message) stepped
  obtain ⟨conn, -, rfl⟩ := send_spec stepped
  have none := (wired.unused ⟨mesh.allocated, false⟩ (Nat.le_refl _)).1
  refine ⟨wired', .dial caller other near far ⟨rfl, ?_, rfl, ?_, Nat.le_succ _⟩⟩
  · simp [none, message]
  · intro e below
    have old (accepted : Bool) : e ≠ ⟨mesh.allocated, accepted⟩ := by
      rintro rfl
      exact Nat.lt_irrefl _ below
    simp [Endpoint.far, Function.update_of_ne (old _)]

theorem block_whole (heap : Nat → Byte) (text : Bytes) :
    Host.block heap (text.length + 0) text = text := by
  simp [Host.block]

theorem Wired.ended (wired : mesh.Wired) (reads : e ∈ mesh.readers) {hosts dialing : List Endpoint}
    (fewer : (hosts ++ dialing).Subperm mesh.readers) (gone : e ∉ hosts ++ dialing)
    (done : mesh.receive e = .ok (some (none, next))) :
    Wired { next with hosts := hosts, dialing := dialing } ∧
      Change mesh { next with hosts := hosts, dialing := dialing } mesh.peers mesh.sent
        mesh.got := by
  obtain ⟨conn, taken, got, -, -, rfl⟩ := receive_spec done
  have result := @Wired.read mesh e wired conn taken [] hosts dialing (wired.alive e reads)
    (Host.receiveGnutella_sent got) fewer (by simpa using wired.order e)
    fun here => absurd here gone
  rw [List.append_nil, Function.update_eq_self] at result
  exact ⟨result, rfl, rfl, rfl, fun _ _ => rfl, Nat.le_refl _⟩

theorem Wired.dialed (wired : mesh.Wired) {heap : Nat → Byte}
    (proper : mesh.Proper (.dialed e heap)) (stepped : mesh.dialed e heap = .ok next) :
    next.Wired ∧ Moved ulong evp mesh (.dialed e heap) next [] := by
  unfold Mesh.dialed at stepped
  split at stepped
  next =>
    cases stepped
    exact ⟨wired, .idle (fun _ => rfl) (.refl _)⟩
  next waits =>
    rw [Decidable.not_not] at waits
    have reads : e ∈ mesh.readers := List.mem_append_right _ waits
    have once := List.nodup_append.1 wired.once
    have apart : e ∉ mesh.hosts := fun here => once.2.2 e here e waits rfl
    have gone : e ∉ mesh.hosts ++ mesh.dialing.erase e := by
      rw [List.mem_append, once.2.1.mem_erase_iff]
      simp [apart]
    have fewer : (mesh.hosts ++ mesh.dialing.erase e).Subperm mesh.readers :=
      (List.Sublist.append_left List.erase_sublist _).subperm
    rw [Runs.bind_ok] at stepped
    obtain ⟨received, done, stepped⟩ := stepped
    rcases received with _ | ⟨_ | received, middle⟩
    · cases stepped
      exact ⟨wired, .idle (fun _ => rfl) (.refl _)⟩
    · -- AddHost returns NULL
      cases stepped
      obtain ⟨conn, taken, -, -, -, rfl⟩ := receive_spec done
      obtain ⟨wired', change⟩ := wired.ended reads fewer gone done
      exact ⟨wired', .idle (fun _ => rfl) change⟩
    · obtain ⟨text, conn, rfl, framed, order, sent, rfl⟩ := wired.piece reads proper done
      simp only [block_whole, Runs.bind_ok, orUndefined_ok] at stepped
      obtain ⟨same, -, stepped⟩ := stepped
      -- the end that waited becomes a host
      have back : (e :: mesh.hosts ++ mesh.dialing.erase e).Subperm mesh.readers := by
        have perm := (List.perm_cons_erase waits).symm
        exact (List.perm_middle.symm.trans (List.Perm.append_left mesh.hosts perm)).subperm
      have result {hosts : List Endpoint}
          (fewer : (hosts ++ mesh.dialing.erase e).Subperm mesh.readers) := @Wired.read mesh e
        wired conn _ [text] hosts _ (wired.alive e reads) sent fewer order fun _ => rfl
      cases same with
      | true =>
        cases stepped
        exact ⟨result back, .dialed heap order ⟨rfl, rfl, rfl, fun _ _ => rfl, Nat.le_refl _⟩⟩
      | false =>
        cases stepped
        exact ⟨result fewer, .dialed heap order ⟨rfl, rfl, rfl, fun _ _ => rfl, Nat.le_refl _⟩⟩

theorem Wired.turn (wired : mesh.Wired) {heap : Nat → Byte} {answering : Answering}
    (proper : mesh.Proper (.turn e heap answering))
    (stepped : mesh.turn evp e heap answering = .ok (next, outputs)) :
    next.Wired ∧ Moved ulong evp mesh (.turn e heap answering) next outputs := by
  have nothing (none_ : mesh.block e heap = none) (peer : Nat) :
      mesh.handed peer (.turn e heap answering) = none := by
    simp [Mesh.handed, none_]
  unfold Mesh.turn at stepped
  split at stepped
  next absent =>
    cases stepped
    exact ⟨wired, .idle (nothing (by simp [Mesh.block, absent])) (.refl _)⟩
  next present =>
    rw [Decidable.not_not] at present
    have reads : e ∈ mesh.readers := List.mem_append_left _ present
    have made := wired.alive e reads
    have once := List.nodup_append.1 wired.once
    have apart : e ∉ mesh.dialing := fun here => once.2.2 e present e here rfl
    have gone : e ∉ mesh.hosts.erase e ++ mesh.dialing := by
      rw [List.mem_append, once.1.mem_erase_iff]
      simp [apart]
    have fewer : (mesh.hosts.erase e ++ mesh.dialing).Subperm mesh.readers :=
      (List.Sublist.append_right List.erase_sublist _).subperm
    rw [Runs.bind_ok] at stepped
    obtain ⟨received, done, stepped⟩ := stepped
    rcases received with _ | ⟨_ | received, middle⟩
    · cases stepped
      exact ⟨wired, .idle (nothing (by simp [Mesh.block, present, done])) (.refl _)⟩
    · -- the loop of HostThread ends
      cases stepped
      obtain ⟨conn, taken, -, -, -, rfl⟩ := receive_spec done
      obtain ⟨wired', change⟩ := wired.ended reads fewer gone done
      exact ⟨wired', .idle (nothing (by simp [Mesh.block, present, done])) change⟩
    · obtain ⟨text, conn, rfl, framed, order, sent, rfl⟩ := wired.piece reads proper.1 done
      have receives : mesh.block e heap = some text := by
        simpa [Mesh.block, present, done] using block_whole heap text
      simp only [block_whole, Runs.bind_ok] at stepped
      obtain ⟨⟨peer, outputs', reply⟩, handled, stepped⟩ := stepped
      have cases := Peer.hostThread_cases handled
      have result := (@Wired.read mesh e wired conn _ [text] mesh.hosts mesh.dialing made sent
        (List.Subperm.refl mesh.readers) order fun _ => rfl).setPeer (mesh.owner e) peer
      cases reply with
      | none =>
        cases stepped
        refine ⟨result, .turn receives made framed order cases
          ⟨rfl, ?_, rfl, fun _ _ => rfl, Nat.le_refl _⟩⟩
        simp [Mesh.setPeer, Mesh.record]
      | some reply =>
        simp only [Runs.bind_ok, Runs.pure_ok, Prod.mk.injEq] at stepped
        obtain ⟨last, replied, rfl, rfl⟩ := stepped
        have whole : Host.Frame (Host.frame reply) := by
          rcases cases.sends framed proper.2 with ⟨-, same⟩ | ⟨-, -, same, whole, -⟩
          · exact .inr (.inl same)
          · exact same.symm ▸ whole
        have wired' := result.send made whole replied
        obtain ⟨conn', -, rfl⟩ := send_spec replied
        exact ⟨wired', .turn receives made framed order cases
          ⟨rfl, rfl, rfl, fun _ _ => rfl, Nat.le_refl _⟩⟩

theorem Wired.step {op : Op} (wired : mesh.Wired) (proper : mesh.Proper op)
    (stepped : mesh.step ulong evp op = .ok (next, outputs)) :
    next.Wired ∧ Moved ulong evp mesh op next outputs := by
  cases op with
  | own caller op =>
    simp only [Mesh.step] at stepped
    split at stepped
    next arrives =>
      cases stepped
      exact ⟨wired, .idle (by simp [Mesh.handed, arrives]) (.refl _)⟩
    next own => exact wired.own (by simpa using own) proper stepped
  | dial caller other near far =>
    simp only [Mesh.step, Runs.bind_ok, Runs.pure_ok, Prod.mk.injEq] at stepped
    obtain ⟨_, dialed, rfl, rfl⟩ := stepped
    exact wired.dial proper dialed
  | dialed e heap =>
    simp only [Mesh.step, Runs.bind_ok, Runs.pure_ok, Prod.mk.injEq] at stepped
    obtain ⟨_, dialed, rfl, rfl⟩ := stepped
    exact wired.dialed proper dialed
  | turn e heap answering => exact wired.turn proper stepped
  | removeHost e =>
    cases stepped
    refine ⟨wired.fewer (List.Sublist.append_right List.erase_sublist _).subperm,
      .idle (fun _ => rfl) ?_⟩
    exact ⟨rfl, rfl, rfl, fun _ _ => rfl, Nat.le_refl _⟩

end

/-! ## A search that is answered, between two peers -/

def arriving (texts : List Bytes) (accepted : Bytes) : Connection :=
  ⟨[], texts.foldr Chunked.Source.prepend [], ⟨accepted, []⟩⟩

def Short (text : Bytes) : Prop :=
  text ≠ [] ∧ text.length < Host.bufferSize ∧ Host.receiveSize text = some (text.length : Int) ∧
    (Host.Greeting text → text = connectRequest ∨ text = connectResponse)

instance (text : Bytes) : Decidable (Short text) := inferInstanceAs (Decidable (_ ∧ _ ∧ _ ∧ _))

section

variable {ulong : Nat} {evp : Cipher} {mesh next : Mesh} {e : Endpoint} {text pkt accepted : Bytes}
  {texts : List Bytes}

theorem arriving_receives (short : Short text) :
    Host.receiveGnutella (arriving (text :: texts) accepted) =
      some (some ⟨text, 0⟩, arriving texts accepted) := by
  obtain ⟨present, below, counted, -⟩ := short
  obtain ⟨head, tail, rfl⟩ := List.exists_cons_of_ne_nil present
  have fits : tail.length ≤ 510 := by
    simp only [Host.bufferSize, List.length_cons] at below
    omega
  have read : (arriving ((head :: tail) :: texts) accepted).read (Host.bufferSize - 1) =
      (some (head :: tail), arriving texts accepted) := by
    simp [arriving, Connection.read, Connection.get, Chunked.Source.read, Chunked.Source.prepend,
      Host.bufferSize, fits, List.drop_eq_nil_of_le fits]
  have none : (arriving texts accepted).readAll 0 = (some [], arriving texts accepted) := by
    rw [Connection.readAll, Chunked.gather, if_pos rfl]
  simp only [Host.receiveGnutella, read, counted, Option.bind_eq_bind, Option.bind_some]
  rw [if_neg (by omega), if_neg (by omega), Int.toNat_natCast, Nat.sub_self, none]
  simp

theorem arriving_tidy (short : Short text) : Host.Tidy (arriving (text :: texts) accepted) := by
  intro pkt next done
  rw [arriving_receives short] at done
  obtain ⟨same, -⟩ := Prod.mk.inj (Option.some.inj done)
  obtain rfl := Option.some.inj same
  exact ⟨rfl, short.2.2.2⟩

theorem arriving_sends {size : Int} (counted : Host.sendSize pkt = some size) (some_ : 0 < size)
    (within : size ≤ pkt.length) : Host.sendGnutella (arriving texts accepted) pkt =
      some (arriving texts (accepted ++ Host.frame pkt)) := by
  have poured : (⟨accepted, []⟩ : Chunked.Sink Byte).pour (pkt.take size.toNat) =
      (some (pkt.take size.toNat).length, ⟨accepted ++ pkt.take size.toNat, []⟩) := by
    have length : (pkt.take size.toNat).length = (size.toNat - 1) + 1 := by
      rw [List.length_take]
      omega
    have present : pkt.take size.toNat ≠ [] := List.ne_nil_of_length_pos (by omega)
    rw [Chunked.Sink.pour, dif_neg present]
    simp only [Chunked.Sink.write, length]
    rw [← length, List.drop_length, Chunked.Sink.pour, dif_pos rfl]
    simp [length]
  simp only [Host.sendGnutella, counted, Option.bind_eq_bind, Option.bind_some, Connection.writeAll,
    if_neg (Int.not_le.2 some_), if_neg (Int.not_lt.2 within), arriving, poured, Host.frame]

def took (mesh : Mesh) (e : Endpoint) (text : Bytes) (texts : List Bytes) (accepted : Bytes) :
    Mesh :=
  { mesh with
    conns := Function.update mesh.conns e (arriving texts accepted)
    taken := Function.update mesh.taken e (mesh.taken e ++ text) }

def posted (mesh : Mesh) (e : Endpoint) (texts : List Bytes) (accepted piece : Bytes) : Mesh :=
  { mesh with
    conns := Function.update mesh.conns e (arriving texts (accepted ++ piece))
    sent := Function.update mesh.sent e (mesh.sent e ++ [piece]) }

theorem receive_arriving (conn : mesh.conns e = arriving (text :: texts) accepted)
    (short : Short text) (within : mesh.taken e ++ text <+: (mesh.conns e.far).sent.accepted) :
    mesh.receive e = .ok (some (some ⟨text, 0⟩, mesh.took e text texts accepted)) := by
  have before : (mesh.conns e).remaining = text ++ (arriving texts accepted).remaining := by
    simp [conn, arriving, Connection.remaining]
  have read : (mesh.conns e).remaining.take ((mesh.conns e).remaining.length -
      (arriving texts accepted).remaining.length) = text := by
    rw [before, List.length_append, Nat.add_sub_cancel]
    exact List.take_left' rfl
  have received := @arriving_receives text accepted texts short
  rw [← conn] at received
  simp only [receive, received, orUndefined, bind, Except.bind, read, if_pos within]
  rfl

def Sends (pkt piece : Bytes) : Prop :=
  Host.frame pkt = piece ∧ ∃ size, Host.sendSize pkt = some size ∧ 0 < size ∧ size ≤ pkt.length

theorem send_arriving (conn : mesh.conns e = arriving texts accepted) {piece : Bytes}
    (sends : Sends pkt piece) : mesh.send e pkt = .ok (mesh.posted e texts accepted piece) := by
  obtain ⟨rfl, size, counted, some_, within⟩ := sends
  have sent := @arriving_sends pkt accepted texts size counted some_ within
  rw [← conn] at sent
  simp only [send, sent, orUndefined, bind, Except.bind]
  rfl

def heard (mesh : Mesh) (e : Endpoint) (text : Bytes) (texts : List Bytes) (accepted : Bytes)
    (after : Peer) : Mesh :=
  ((mesh.took e text texts accepted).record e text).setPeer (mesh.owner e) after

structure Hears (mesh : Mesh) (e : Endpoint) (text : Bytes) (texts : List Bytes)
    (accepted : Bytes) : Prop where
  here : e ∈ mesh.hosts
  conn : mesh.conns e = arriving (text :: texts) accepted
  short : Short text
  within : mesh.taken e ++ text <+: (mesh.conns e.far).sent.accepted

variable {answering : Answering} {after : Peer} {outputs : List Peer.Output}

theorem Hears.proper (hears : mesh.Hears e text texts accepted) (heap : Nat → Byte)
    (trailer : answering.trailer.length = 16) : mesh.Proper (.turn e heap answering) := by
  refine ⟨?_, trailer⟩
  rw [hears.conn]
  exact arriving_tidy hears.short

theorem Hears.turn (hears : mesh.Hears e text texts accepted) (heap : Nat → Byte) :
    mesh.turn evp e heap answering = (do
      let (next, outputs, reply) ←
        (mesh.peers (mesh.owner e)).hostThread evp answering text
      match reply with
      | none => return (mesh.heard e text texts accepted next, outputs)
      | some reply =>
        let mesh ← (mesh.heard e text texts accepted next).send e reply
        return (mesh, outputs)) := by
  simp only [Mesh.turn, hears.here, not_true, if_false,
    receive_arriving hears.conn hears.short hears.within, bind, Except.bind, block_whole]
  rfl

theorem Hears.none (hears : mesh.Hears e text texts accepted) (heap : Nat → Byte)
    (handled : (mesh.peers (mesh.owner e)).hostThread evp answering text =
      .ok (after, outputs, none)) : mesh.step ulong evp (.turn e heap answering) =
        .ok (mesh.heard e text texts accepted after, outputs) := by
  simp only [Mesh.step, hears.turn, handled, bind, Except.bind]
  rfl

theorem Hears.reply (hears : mesh.Hears e text texts accepted) (heap : Nat → Byte)
    {reply piece : Bytes} (handled : (mesh.peers (mesh.owner e)).hostThread evp answering text =
      .ok (after, outputs, some reply)) (sends : Sends reply piece) :
    mesh.step ulong evp (.turn e heap answering) =
      .ok ((mesh.heard e text texts accepted after).posted e texts accepted piece, outputs) := by
  have conn : (mesh.heard e text texts accepted after).conns e = arriving texts accepted :=
    Function.update_self ..
  simp only [Mesh.step, hears.turn, handled, send_arriving conn sends, bind, Except.bind]
  rfl

end

namespace Pair

open Peer

def asks : Bytes := greeted (List.replicate 16 2)

def tells : Bytes := packet (List.replicate 16 2) 0x81
  (answerPayload home ((crowded 1).collect.entries.map (searchEntry false)))

def sharing : Nat → Peer := fun peer => if peer = 1 then { trut := crowded 1 } else {}

def near : Endpoint := ⟨0, false⟩

def far : Endpoint := ⟨0, true⟩

def waits : Peer := { searches := [⟨List.replicate 16 2, .user 0, none⟩] }

def shown : List Trut.File :=
  (crowded 1).collect.entries.map fun entry => (answerFile home false none entry).cut

theorem greets (peer : Peer) : peer.hostThread Key.zeroCipher home connectRequest =
    .ok (peer, [], some (connectResponse ++ [0])) := by
  have told : kind connectRequest = some .connect := by decide
  simp only [hostThread, told, orUndefined, bind, Except.bind]
  rfl

def opened : Mesh where
  peers := sharing
  owner := Function.update (Function.update (fun _ => 0) near 0) far 1
  conns := Function.update (Function.update (fun _ => quiet) near
    (arriving [connectResponse, tells] [])) far (arriving [connectRequest, asks] [])
  hosts := [far]
  dialing := [near]
  allocated := 1

def connected : Mesh := opened.posted near [connectResponse, tells] [] connectRequest

def greeting : Mesh := (connected.heard far connectRequest [asks] [] (sharing 1)).posted far
  [asks] [] connectResponse

def settled : Mesh := { (greeting.took near connectResponse [tells] connectRequest).record near
  connectResponse with hosts := [near, far], dialing := [] }

def searched : Mesh := (settled.setPeer 0 waits).posted near [tells] connectRequest asks

def answered : Mesh := (searched.heard far asks [] connectResponse (sharing 1)).posted far []
  connectResponse tells

def turns : List Turn :=
  [⟨apart sharing, .dial 0 1 (arriving [connectResponse, tells] [])
      (arriving [connectRequest, asks] []), []⟩,
    ⟨connected, .turn far (fun _ => 0) home, []⟩,
    ⟨greeting, .dialed near fun _ => 0, []⟩,
    ⟨settled, .own 0 (.search [42] 0 none (List.replicate 16 2) (Block.zero _)), [.search asks]⟩,
    ⟨searched, .turn far (fun _ => 0) home, [.answer tells]⟩]

def last : Turn := ⟨answered, .turn near (fun _ => 0) home, shown.map (Peer.Output.found 0)⟩

end Pair

section

variable {ulong : Nat} {evp : Cipher} {mesh next : Mesh} {e : Endpoint} {outputs : List Peer.Output}

theorem Moved.peer {op : Op} (moved : Moved ulong evp mesh op next outputs) (peer : Nat) :
    (mesh.handed peer op = none ∧ next.peers peer = mesh.peers peer) ∨
      ∃ own, mesh.handed peer op = some own ∧
        (mesh.peers peer).step ulong evp own = .ok (next.peers peer, outputs) := by
  cases moved with
  | idle nothing change => exact .inl ⟨nothing peer, congrFun change.peers peer⟩
  | @own _ caller op after _ own stepped change =>
    rw [change.peers]
    by_cases same : peer = caller
    · subst same
      rw [Function.update_self]
      exact .inr ⟨op, by simp [Mesh.handed, own], stepped⟩
    · rw [Function.update_of_ne same]
      exact .inl ⟨by simp [Mesh.handed, Ne.symm same], rfl⟩
  | dial _ _ _ _ change => exact .inl ⟨rfl, congrFun change.peers peer⟩
  | dialed _ _ change => exact .inl ⟨rfl, congrFun change.peers peer⟩
  | @turn _ e answering text after _ _ heap receives _ _ _ handled change =>
    rw [change.peers]
    by_cases same : peer = mesh.owner e
    · subst same
      rw [Function.update_self]
      rcases @Peer.Handled.step ulong _ _ _ _ _ _ _ handled with
        ⟨nothing, kept, -⟩ | ⟨own, given, stepped⟩
      · exact .inl ⟨by simp [Mesh.handed, receives, nothing], kept⟩
      · exact .inr ⟨own, by simp [Mesh.handed, receives, given], stepped⟩
    · rw [Function.update_of_ne same]
      exact .inl ⟨by simp [Mesh.handed, Ne.symm same], rfl⟩

/-- What the turns of the network are to a peer, with what they put out. -/
def handedIn (peer : Nat) (turns : List Turn) : List (Peer.Op × List Peer.Output) :=
  turns.filterMap fun turn => (turn.state.handed peer turn.op).map fun op => (op, turn.outputs)

/-- After these turns a peer is where a run of its own has led it. -/
def Alone (ulong : Nat) (evp : Cipher) (start : Peer) (peer : Nat) (past : List Turn) (mesh : Mesh) :
    Prop :=
  mesh.Wired ∧ ∃ steps, Peer.Run ulong evp start steps (mesh.peers peer) ∧
    steps.map (fun step => (step.op, step.outputs)) = handedIn peer past

end

end Mesh

import Mathlib.Data.List.Perm.Subperm
import Mathlib.Logic.Function.Basic
import Ptptl.Trut.Hosts

set_option autoImplicit false

/-! # Peers and the connections between their hosts -/

open Ptp Trut Gnutella

namespace Trut

/-- An end of a connection: that of `AddHost`, or the one that `Accept` returns. -/
structure Endpoint where
  conn : Nat
  accepted : Bool
deriving DecidableEq

def Endpoint.far (e : Endpoint) : Endpoint := { e with accepted := !e.accepted }

@[simp] theorem Endpoint.far_far (e : Endpoint) : e.far.far = e := by
  simp [far]

end Trut

def Peer.Op.arrives : Peer.Op → Bool
  | .response _ => true
  | .request _ _ => true
  | _ => false

def Peer.Op.guid : Peer.Op → Option Bytes
  | .joinGroup _ _ _ guid => some guid
  | .search _ _ _ guid _ => some guid
  | _ => none

theorem Peer.step_guid {ulong : Nat} {evp : Cipher} {peer next : Peer} {op : Peer.Op}
    {outputs : List Peer.Output} (stepped : peer.step ulong evp op = .ok (next, outputs))
    {rqst : Bytes} (sent : .search rqst ∈ outputs) :
    ∃ guid text, op.guid = some guid ∧ rqst = searchRqst guid text := by
  rcases Peer.step_search stepped sent with ⟨name, join, accept, guid, rfl, rfl⟩ |
    ⟨str, context, group, guid, iv, found, text, rfl, -, -, rfl⟩
  · exact ⟨guid, _, rfl, rfl⟩
  · exact ⟨guid, text, rfl, rfl⟩

structure Mesh where
  peers : Nat → Peer := fun _ => Peer.start
  owner : Endpoint → Nat := fun _ => 0
  -- `m_hosts` of all peers, and the hosts for which an `AddHost` waits
  hosts : List Endpoint := []
  dialing : List Endpoint := []
  conns : Endpoint → Connection := fun _ => quiet
  allocated : Nat := 0
  -- the bytes that were read at an end
  taken : Endpoint → Bytes := fun _ => []
  -- what `SendGnutella` wrote and `ReceiveGnutella` returned, one after another
  sent : Endpoint → List Bytes := fun _ => []
  got : Endpoint → List Bytes := fun _ => []

namespace Mesh

inductive Op where
  -- a call of the application, or a thread of the peer that goes on
  | own (peer : Nat) (op : Peer.Op)
  -- `AddHost` up to its `ReceiveGnutella`, and `PortThread` of the peer that is called
  | dial (peer other : Nat) (near far : Connection)
  -- the rest of `AddHost`; `heap` is what `new` finds in a block
  | dialed (e : Endpoint) (heap : Nat → Byte)
  -- a turn of `HostThread`
  | turn (e : Endpoint) (heap : Nat → Byte) (answering : Answering)
  | removeHost (e : Endpoint)

def apart (peers : Nat → Peer) : Mesh := { peers := peers }

def send (mesh : Mesh) (e : Endpoint) (pkt : Bytes) : Except Fault Mesh := do
  let conn ← orUndefined (Host.sendGnutella (mesh.conns e) pkt)
  return { mesh with
    conns := Function.update mesh.conns e conn
    sent := Function.update mesh.sent e (mesh.sent e ++ [Host.frame pkt]) }

def sendAll (pkt : Bytes) : Mesh → List Endpoint → Except Fault Mesh
  | mesh, [] => .ok mesh
  | mesh, e :: hosts => do
    let mesh ← mesh.send e pkt
    mesh.sendAll pkt hosts

def hostsOf (mesh : Mesh) (peer : Nat) : List Endpoint :=
  mesh.hosts.filter fun e => mesh.owner e = peer

/-- The loop of `Search` over the hosts; its packet has the size of an `int`. -/
def sendSearches (peer : Nat) : Mesh → List Peer.Output → Except Fault Mesh
  | mesh, [] => .ok mesh
  | mesh, .search rqst :: outputs => do
    if CInt.intMax < rqst.length then .error .undefined
    else
      let mesh ← mesh.sendAll rqst (mesh.hostsOf peer)
      mesh.sendSearches peer outputs
  | mesh, _ :: outputs => mesh.sendSearches peer outputs

def setPeer (mesh : Mesh) (peer : Nat) (next : Peer) : Mesh :=
  { mesh with peers := Function.update mesh.peers peer next }

/-- `ReceiveGnutella` at an end; `none` while it waits for bytes that the other end has not
written. -/
def receive (mesh : Mesh) (e : Endpoint) : Except Fault (Option (Option Host.Received × Mesh)) := do
  let (pkt, conn) ← orUndefined (Host.receiveGnutella (mesh.conns e))
  let before := (mesh.conns e).remaining
  let taken := mesh.taken e ++ before.take (before.length - conn.remaining.length)
  if taken <+: (mesh.conns e.far).sent.accepted then
    return some (pkt, { mesh with
      conns := Function.update mesh.conns e conn
      taken := Function.update mesh.taken e taken })
  else return none

def record (mesh : Mesh) (e : Endpoint) (block : Bytes) : Mesh :=
  { mesh with got := Function.update mesh.got e (mesh.got e ++ [block]) }

def dial (mesh : Mesh) (peer other : Nat) (near far : Connection) : Except Fault Mesh :=
  let e : Endpoint := ⟨mesh.allocated, false⟩
  { mesh with
    owner := Function.update (Function.update mesh.owner e peer) e.far other
    conns := Function.update (Function.update mesh.conns e near) e.far far
    hosts := e.far :: mesh.hosts
    dialing := e :: mesh.dialing
    allocated := mesh.allocated + 1 }.send e (connectRequest ++ [0])

def dialed (mesh : Mesh) (e : Endpoint) (heap : Nat → Byte) : Except Fault Mesh :=
  if e ∉ mesh.dialing then .ok mesh
  else do
    match ← mesh.receive e with
    | none => return mesh
    | some (none, mesh) => return { mesh with dialing := mesh.dialing.erase e }
    | some (some pkt, mesh) =>
      let block := Host.block heap (pkt.bytes.length + pkt.missing) pkt.bytes
      let mesh := { mesh.record e block with dialing := mesh.dialing.erase e }
      if ← orUndefined (strncmpConst block connectResponse) then
        return { mesh with hosts := e :: mesh.hosts }
      else return mesh

section

variable (ulong : Nat) (evp : Cipher)

def own (mesh : Mesh) (peer : Nat) (op : Peer.Op) : Except Fault (Mesh × List Peer.Output) := do
  let (next, outputs) ← (mesh.peers peer).step ulong evp op
  let mesh ← (mesh.setPeer peer next).sendSearches peer outputs
  return (mesh, outputs)

/-- A turn of the loop of `HostThread`; without a packet the host is removed. -/
def turn (mesh : Mesh) (e : Endpoint) (heap : Nat → Byte) (answering : Answering) :
    Except Fault (Mesh × List Peer.Output) :=
  if e ∉ mesh.hosts then .ok (mesh, [])
  else do
    match ← mesh.receive e with
    | none => return (mesh, [])
    | some (none, mesh) => return ({ mesh with hosts := mesh.hosts.erase e }, [])
    | some (some pkt, mesh) =>
      let block := Host.block heap (pkt.bytes.length + pkt.missing) pkt.bytes
      let (next, outputs, reply) ←
        (mesh.peers (mesh.owner e)).hostThread evp answering block
      let mesh := (mesh.record e block).setPeer (mesh.owner e) next
      match reply with
      | none => return (mesh, outputs)
      | some reply =>
        let mesh ← mesh.send e reply
        return (mesh, outputs)

def step (mesh : Mesh) : Op → Except Fault (Mesh × List Peer.Output)
  | .own peer op => if op.arrives then .ok (mesh, []) else mesh.own ulong evp peer op
  | .dial peer other near far => do
    let mesh ← mesh.dial peer other near far
    return (mesh, [])
  | .dialed e heap => do
    let mesh ← mesh.dialed e heap
    return (mesh, [])
  | .turn e heap answering => mesh.turn evp e heap answering
  | .removeHost e => .ok ({ mesh with hosts := mesh.hosts.erase e }, [])

abbrev Turn := Runs.Turn Mesh Op Peer.Output

abbrev Run : Mesh → List Turn → Mesh → Prop := Runs.Run (step ulong evp)

end

def block (mesh : Mesh) (e : Endpoint) (heap : Nat → Byte) : Option Bytes :=
  if e ∈ mesh.hosts then
    match mesh.receive e with
    | .ok (some (some pkt, _)) => some (Host.block heap (pkt.bytes.length + pkt.missing) pkt.bytes)
    | _ => none
  else none

/-- What an operation of the network is to a peer alone: a call or a thread of its own that goes on,
or a packet that a thread of one of its hosts receives. -/
def handed (mesh : Mesh) (peer : Nat) : Op → Option Peer.Op
  | .own caller op => if caller = peer ∧ op.arrives = false then some op else none
  | .turn e heap answering =>
    if mesh.owner e = peer then (mesh.block e heap).bind (Peer.arrival answering) else none
  | _ => none

def readers (mesh : Mesh) : List Endpoint := mesh.hosts ++ mesh.dialing

/-- What was sent lies on the connections in whole pieces, and what was got is the start of what
was sent at the other end. -/
structure Wired (mesh : Mesh) : Prop where
  alive : ∀ e ∈ mesh.readers, e.conn < mesh.allocated
  once : mesh.readers.Nodup
  unused : ∀ e, mesh.allocated ≤ e.conn →
    mesh.sent e = [] ∧ mesh.got e = [] ∧ mesh.taken e = []
  written : ∀ e, e.conn < mesh.allocated →
    (mesh.conns e).sent.accepted = (mesh.sent e).flatten ∧ (mesh.conns e).sent.Willing
  framed : ∀ e, ∀ text ∈ mesh.sent e, Host.Frame text
  order : ∀ e, mesh.got e <+: mesh.sent e.far
  whole : ∀ e ∈ mesh.readers, mesh.taken e = (mesh.got e).flatten

def Fresh (conn : Connection) : Prop := conn.sent.accepted = [] ∧ conn.sent.Willing

/-- The identifiers are whole and do not start like a message of the connection, connections are
made, and read one piece after another. -/
def Proper (mesh : Mesh) : Op → Prop
  | .own _ op => ∀ guid, op.guid = some guid → guid.length = 16 ∧ ¬ ascii "GNUTELLA" <+: guid
  | .dial _ _ near far => Fresh near ∧ Fresh far
  | .dialed e _ => Host.Tidy (mesh.conns e)
  | .turn e _ answering => Host.Tidy (mesh.conns e) ∧ answering.trailer.length = 16
  | .removeHost _ => True

section

variable {ulong : Nat} {evp : Cipher} {mesh next : Mesh} {e : Endpoint} {pkt : Bytes}

theorem Wired.setPeer (wired : mesh.Wired) (peer : Nat) (after : Peer) :
    (mesh.setPeer peer after).Wired :=
  ⟨wired.alive, wired.once, wired.unused, wired.written, wired.framed, wired.order, wired.whole⟩

theorem nodup_of_subperm {fewer more : List Endpoint} (subperm : fewer.Subperm more)
    (once : more.Nodup) : fewer.Nodup := by
  obtain ⟨middle, perm, sublist⟩ := subperm
  exact perm.nodup_iff.1 (once.sublist sublist)

theorem Wired.fewer (wired : mesh.Wired) {hosts dialing : List Endpoint}
    (fewer : (hosts ++ dialing).Subperm mesh.readers) :
    { mesh with hosts := hosts, dialing := dialing }.Wired where
  alive e here := wired.alive e (fewer.subset here)
  once := nodup_of_subperm fewer wired.once
  unused := wired.unused
  written := wired.written
  framed := wired.framed
  order := wired.order
  whole e here := wired.whole e (fewer.subset here)

theorem send_spec (sent : mesh.send e pkt = .ok next) : ∃ conn,
    Host.sendGnutella (mesh.conns e) pkt = some conn ∧ next = { mesh with
      conns := Function.update mesh.conns e conn
      sent := Function.update mesh.sent e (mesh.sent e ++ [Host.frame pkt]) } := by
  simp only [send, Runs.bind_ok, orUndefined_ok, Runs.pure_ok] at sent
  obtain ⟨conn, sent, same⟩ := sent
  exact ⟨conn, sent, same.symm⟩

theorem Wired.send (wired : mesh.Wired) (made : e.conn < mesh.allocated)
    (whole : Host.Frame (Host.frame pkt)) (sent : mesh.send e pkt = .ok next) : next.Wired := by
  obtain ⟨conn, wrote, rfl⟩ := send_spec sent
  obtain ⟨before, willing⟩ := wired.written e made
  obtain ⟨accepted, kept, -, -⟩ := Host.sendGnutella_frame willing wrote
  refine ⟨wired.alive, wired.once, ?_, ?_, ?_, ?_, wired.whole⟩
  · intro other unused
    have different : other ≠ e := by
      rintro rfl
      exact absurd made (Nat.not_lt.2 unused)
    simpa [Function.update_of_ne different] using wired.unused other unused
  · intro other made
    by_cases same : other = e
    · subst same
      simp [accepted, before, kept]
    · simpa [Function.update_of_ne same] using wired.written other made
  · intro other text member
    by_cases same : other = e
    · subst same
      simp only [Function.update_self, List.mem_append, List.mem_singleton] at member
      exact member.elim (wired.framed other text) fun equal => equal ▸ whole
    · simp only [Function.update_of_ne same] at member
      exact wired.framed other text member
  · intro other
    have before := wired.order other
    by_cases same : other.far = e
    · rw [same] at before
      simpa [same] using before.trans (List.prefix_append _ _)
    · simpa [Function.update_of_ne same] using before

theorem Wired.connect (wired : mesh.Wired) {near far : Connection} (fresh : Fresh near)
    (fresh' : Fresh far) (owner : Endpoint → Nat) : Wired { mesh with
      owner := owner
      conns := Function.update (Function.update mesh.conns ⟨mesh.allocated, false⟩ near)
        ⟨mesh.allocated, true⟩ far
      hosts := ⟨mesh.allocated, true⟩ :: mesh.hosts
      dialing := ⟨mesh.allocated, false⟩ :: mesh.dialing
      allocated := mesh.allocated + 1 } := by
  -- no end that was there is one of the new connection
  have old {other : Endpoint} (below : other.conn < mesh.allocated) (accepted : Bool) :
      other ≠ ⟨mesh.allocated, accepted⟩ := by
    rintro rfl
    exact Nat.lt_irrefl _ below
  have reader {other : Endpoint} (here : other ∈ (⟨mesh.allocated, true⟩ :: mesh.hosts) ++
      (⟨mesh.allocated, false⟩ :: mesh.dialing)) :
      other.conn = mesh.allocated ∨ other ∈ mesh.readers := by
    simp only [List.mem_append, List.mem_cons] at here
    rcases here with (rfl | here) | rfl | here
    · exact .inl rfl
    · exact .inr (List.mem_append_left _ here)
    · exact .inl rfl
    · exact .inr (List.mem_append_right _ here)
  refine ⟨?_, ?_, fun other unused => wired.unused other (Nat.le_of_succ_le unused), ?_,
    wired.framed, wired.order, ?_⟩
  · intro other here
    rcases reader here with new | here
    · exact new ▸ Nat.lt_succ_self _
    · exact Nat.lt_succ_of_lt (wired.alive other here)
  · have fresh (accepted : Bool) : (⟨mesh.allocated, accepted⟩ : Endpoint) ∉ mesh.readers :=
      fun here => old (wired.alive _ here) accepted rfl
    have order : ((⟨mesh.allocated, true⟩ :: mesh.hosts) ++
        (⟨mesh.allocated, false⟩ :: mesh.dialing)).Perm
          (⟨mesh.allocated, true⟩ :: ⟨mesh.allocated, false⟩ :: mesh.readers) :=
      .cons _ List.perm_middle
    refine order.nodup_iff.2 (List.nodup_cons.2 ⟨?_, List.nodup_cons.2 ⟨fresh false, wired.once⟩⟩)
    rw [List.mem_cons, not_or]
    exact ⟨by simp, fresh true⟩
  · intro other made
    by_cases below : other.conn < mesh.allocated
    · simpa [Function.update_of_ne (old below _)] using wired.written other below
    · obtain ⟨conn, accepted⟩ := other
      obtain rfl : conn = mesh.allocated := by
        simp only [Nat.not_lt] at below made
        omega
      have none := (wired.unused ⟨mesh.allocated, accepted⟩ (Nat.le_refl _)).1
      cases accepted with
      | true => simpa [none, Fresh] using fresh'
      | false => simpa [none, Fresh] using fresh
  · intro other here
    rcases reader here with new | here
    · obtain ⟨-, got, taken⟩ := wired.unused other (Nat.le_of_eq new.symm)
      simp [got, taken]
    · exact wired.whole other here

theorem receive_spec {result : Option Host.Received}
    (received : mesh.receive e = .ok (some (result, next))) : ∃ conn taken,
    Host.receiveGnutella (mesh.conns e) = some (result, conn) ∧
      taken = mesh.taken e ++ (mesh.conns e).remaining.take
        ((mesh.conns e).remaining.length - conn.remaining.length) ∧
      taken <+: (mesh.conns e.far).sent.accepted ∧
      next = { mesh with
        conns := Function.update mesh.conns e conn
        taken := Function.update mesh.taken e taken } := by
  simp only [receive, Runs.bind_ok, orUndefined_ok] at received
  obtain ⟨⟨result', conn⟩, done, received⟩ := received
  split at received
  next within =>
    simp only [Runs.pure_ok, Option.some.injEq, Prod.mk.injEq] at received
    obtain ⟨rfl, same⟩ := received
    exact ⟨conn, _, done, rfl, within, same.symm⟩
  next => simp at received

theorem Wired.read (wired : mesh.Wired) {conn : Connection} {taken : Bytes}
    {blocks : List Bytes} {hosts dialing : List Endpoint} (made : e.conn < mesh.allocated)
    (sent : conn.sent = (mesh.conns e).sent) (fewer : (hosts ++ dialing).Subperm mesh.readers)
    (order : mesh.got e ++ blocks <+: mesh.sent e.far)
    (whole : e ∈ hosts ++ dialing → taken = (mesh.got e ++ blocks).flatten) :
    { mesh with
      hosts := hosts
      dialing := dialing
      conns := Function.update mesh.conns e conn
      taken := Function.update mesh.taken e taken
      got := Function.update mesh.got e (mesh.got e ++ blocks) }.Wired := by
  refine ⟨fun other here => wired.alive other (fewer.subset here),
    nodup_of_subperm fewer wired.once, ?_, ?_, wired.framed, ?_, ?_⟩
  · intro other unused
    have different : other ≠ e := by
      rintro rfl
      exact absurd made (Nat.not_lt.2 unused)
    simpa [Function.update_of_ne different] using wired.unused other unused
  · intro other made
    by_cases same : other = e
    · subst same
      simpa [sent] using wired.written other made
    · simpa [Function.update_of_ne same] using wired.written other made
  · intro other
    by_cases same : other = e
    · subst same
      simpa using order
    · simpa [Function.update_of_ne same] using wired.order other
  · intro other here
    by_cases same : other = e
    · subst same
      simpa using whole here
    · simpa [Function.update_of_ne same] using wired.whole other (fewer.subset here)

theorem Wired.piece (wired : mesh.Wired) (reads : e ∈ mesh.readers)
    (tidy : Host.Tidy (mesh.conns e)) {received : Host.Received}
    (done : mesh.receive e = .ok (some (some received, next))) : ∃ text conn,
    received = ⟨text, 0⟩ ∧ Host.Frame text ∧ mesh.got e ++ [text] <+: mesh.sent e.far ∧
      conn.sent = (mesh.conns e).sent ∧ next = { mesh with
        conns := Function.update mesh.conns e conn
        taken := Function.update mesh.taken e (mesh.got e ++ [text]).flatten } := by
  obtain ⟨conn, taken, got, counted, within, rfl⟩ := receive_spec done
  obtain ⟨present, split⟩ := Host.receiveGnutella_takes got
  have bytes : (mesh.conns e).remaining.take
      ((mesh.conns e).remaining.length - conn.remaining.length) = received.bytes := by
    rw [← split, List.length_append, Nat.add_sub_cancel]
    exact List.take_left' rfl
  -- what is still on the way starts with the next piece that was sent
  obtain ⟨later, order⟩ := wired.order e
  have made := wired.alive e reads
  rw [bytes, wired.whole e reads] at counted
  rw [counted, (wired.written e.far made).1, ← order, List.flatten_append,
    List.prefix_append_right_inj] at within
  cases later with
  | nil => exact absurd (List.prefix_nil.1 within) present
  | cons text later =>
    have whole := wired.framed e.far text (by simp [← order])
    have same := Host.receiveGnutella_frame tidy whole got within
    subst same
    refine ⟨text, conn, rfl, whole, ⟨later, by rw [← order]; simp⟩,
      Host.receiveGnutella_sent got, ?_⟩
    rw [counted, List.flatten_append, List.flatten_singleton]

end

def searches (outputs : List Peer.Output) : List Bytes :=
  outputs.filterMap fun output =>
    match output with
    | .search rqst => some rqst
    | _ => none

theorem mem_searches {outputs : List Peer.Output} {rqst : Bytes} :
    rqst ∈ searches outputs ↔ .search rqst ∈ outputs := by
  simp only [searches, List.mem_filterMap]
  constructor
  next =>
    rintro ⟨output, member, same⟩
    split at same
    next => exact Option.some.inj same ▸ member
    next => contradiction
  next =>
    intro member
    exact ⟨_, member, rfl⟩

structure Change (mesh next : Mesh) (peers : Nat → Peer) (sent got : Endpoint → List Bytes) :
    Prop where
  peers : next.peers = peers
  sent : next.sent = sent
  got : next.got = got
  owner : ∀ e, e.conn < mesh.allocated → next.owner e = mesh.owner e
  grown : mesh.allocated ≤ next.allocated

section

variable {ulong : Nat} {evp : Cipher} {mesh next : Mesh} {e : Endpoint} {pkt : Bytes} {peer : Nat}

theorem sendAll_spec (wired : mesh.Wired) (whole : Host.Frame (Host.frame pkt))
    {hosts : List Endpoint} (made : ∀ e ∈ hosts, e.conn < mesh.allocated) (once : hosts.Nodup)
    (sent : mesh.sendAll pkt hosts = .ok next) : next.Wired ∧ next.hosts = mesh.hosts ∧
      next.owner = mesh.owner ∧ Change mesh next mesh.peers
        (fun e => mesh.sent e ++ if e ∈ hosts then [Host.frame pkt] else []) mesh.got := by
  induction hosts generalizing mesh with
  | nil =>
    cases sent
    exact ⟨wired, rfl, rfl, rfl, by simp, rfl, fun _ _ => rfl, Nat.le_refl _⟩
  | cons e hosts ih =>
    simp only [sendAll, Runs.bind_ok] at sent
    obtain ⟨middle, first, sent⟩ := sent
    obtain ⟨conn, -, rfl⟩ := send_spec first
    obtain ⟨apart, once⟩ := List.nodup_cons.1 once
    have wired' := wired.send (made e List.mem_cons_self) whole first
    obtain ⟨result, hosts', owner, change⟩ :=
      ih wired' (fun other member => made other (List.mem_cons_of_mem _ member)) once sent
    refine ⟨result, hosts', owner, change.peers, ?_, change.got, fun e _ => by rw [owner],
      change.grown⟩
    rw [change.sent]
    funext other
    by_cases same : other = e
    · subst same
      simp [apart]
    · simp [same]

theorem sendSearches_spec {outputs : List Peer.Output} (wired : mesh.Wired)
    (whole : ∀ rqst ∈ searches outputs, (rqst.length : Int) ≤ CInt.intMax →
      Host.Frame rqst ∧ Host.frame rqst = rqst)
    (sent : mesh.sendSearches peer outputs = .ok next) : next.Wired ∧
      Change mesh next mesh.peers (fun e => mesh.sent e ++
        if e ∈ mesh.hostsOf peer then searches outputs else []) mesh.got := by
  induction outputs generalizing mesh with
  | nil =>
    cases sent
    exact ⟨wired, rfl, by simp [searches], rfl, fun _ _ => rfl, Nat.le_refl _⟩
  | cons output outputs ih =>
    cases output with
    | search rqst =>
      simp only [sendSearches] at sent
      split at sent
      next => contradiction
      next small =>
        simp only [Runs.bind_ok] at sent
        obtain ⟨middle, all, sent⟩ := sent
        obtain ⟨framed, same⟩ := whole rqst (by simp [searches]) (by omega)
        have inside : ∀ e ∈ mesh.hostsOf peer, e ∈ mesh.readers := fun e member =>
          List.mem_append_left _ (List.mem_filter.1 member).1
        have once : (mesh.hostsOf peer).Nodup :=
          ((List.nodup_append.1 wired.once).1).filter _
        obtain ⟨wired', hosts, owner, change⟩ := sendAll_spec wired (same.symm ▸ framed)
          (fun e member => wired.alive e (inside e member)) once all
        obtain ⟨result, last⟩ := ih wired'
          (fun other member => whole other (by simp_all [searches])) sent
        -- writing to the hosts does not change which they are
        have hostsOf : middle.hostsOf peer = mesh.hostsOf peer := by
          simp only [Mesh.hostsOf, hosts, owner]
        refine ⟨result, last.peers.trans change.peers, ?_, last.got.trans change.got,
          fun e made => ?_, Nat.le_trans change.grown last.grown⟩
        · rw [last.sent, hostsOf, change.sent, same]
          funext e
          by_cases member : e ∈ mesh.hostsOf peer <;> simp [member, searches]
        · rw [last.owner e (Nat.lt_of_lt_of_le made change.grown), owner]
    | answer | found | joined =>
      simp only [sendSearches] at sent
      exact ih wired whole sent

end

end Mesh

import Ptptl.Library.Handles
import Ptptl.Ptp.Accept

set_option autoImplicit false

/-! # The sockets of connections, whatever the system answers -/

namespace Ptp.Sockets

open Handles

abbrev Address : Type := Nat × Nat

/-- A system call on sockets, or a load of one of the static members that `SetProxy` sets. -/
inductive Call where
  | proxyIp
  | proxyPort
  | proxyTimeout
  | socket
  | fcntl (s : Nat) (nonblock : Bool)
  | connect (s : Nat) (address : Address)
  | select (s : Nat) (write : Bool) (timeout : Int)
  | getsockopt (s : Nat)
  | setsockopt (s : Nat)
  | bind (s port : Nat)
  | getsockname (s : Nat)
  | listen (s : Nat)
  | accept (s : Nat)
  | read (s : Nat)
  | write (s : Nat)
  | close (s : Nat)

/-- What comes back; `none` is -1. -/
abbrev Call.Reply : Call → Type
  | .proxyIp | .proxyPort => Nat
  | .socket => Option Nat
  | .getsockname _ => Option Nat
  | .accept _ => Option (Nat × Address)
  | .fcntl _ _ | .setsockopt _ | .close _ => Unit
  | _ => Int

/-- The values that two of the static members were ever given. -/
structure Proxies where
  ips : List Nat := [0]
  ports : List Nat := [0]

/-- An address of which both parts were set, though not together. -/
def Proxies.Names (proxies : Proxies) (address : Address) : Prop :=
  address.1 ∈ proxies.ips ∧ address.2 ∈ proxies.ports

def Call.passed : Call → Option Nat
  | .proxyIp | .proxyPort | .proxyTimeout | .socket => none
  | .fcntl s _ | .connect s _ | .select s _ _ | .getsockopt s | .setsockopt s | .bind s _
  | .getsockname s | .listen s | .accept s | .read s | .write s | .close s => some s

/-- A socket stands for the addresses that it was to be connected to. -/
def system (proxies : Proxies) : Interface Call Call.Reply Nat (List Address) where
  answers
    | .proxyIp, ip => ip ∈ proxies.ips
    | .proxyPort, port => port ∈ proxies.ports
    | _, _ => True
  passed := Call.passed
  left
    | .connect _ address, _, peers => some (peers ++ [address])
    | .close _, _, _ => none
    | _, _, peers => some peers
  brought
    | .socket, some s => some (s, [])
    | .accept _, some (s, _) => some (s, [])
    | _, _ => none

abbrev Sys : Type → Type := Prog Call Call.Reply

def Call.run (request : Call) : Sys request.Reply := .call request .done

inductive ProxyState where
  | noProxy
  | proxy
  | unknown
deriving DecidableEq

/-- A connection without its queue; `s` is `none` for a negative `m_s`. -/
structure Conn where
  dir : Direction
  ip : Nat
  port : Nat
  s : Option Nat := none
  close : Bool := true
  proxy : ProxyState := .unknown
deriving DecidableEq

def Conn.outbound (ip port : Nat) : Conn := { dir := .outbound, ip := ip, port := port }

def Conn.inbound (port : Nat) : Conn := { dir := .inbound, ip := 0, port := port }

def Conn.ofSocket (dir : Direction) (s : Nat) (close : Bool) : Conn :=
  { dir := dir, ip := 0, port := 0, s := some s, close := close }

/-- `Wait`; tells whether 0 is returned. -/
def wait (s : Nat) (write : Bool) (timeout : Int) : Sys Bool := do
  let status ← (Call.select s write timeout).run
  if status = 1 then
    let status ← (Call.getsockopt s).run
    return status == 0
  else return false

def setMode (s : Nat) (timeout : Int) (nonblock : Bool) : Sys Unit :=
  -- the blocking mode is only changed for a timeout
  if timeout ≠ 0 then (Call.fcntl s nonblock).run else pure ()

/-- `Connect`; tells whether 0 is returned. -/
def connectTo (s : Nat) (address : Address) (timeout : Int) : Sys Bool := do
  setMode s timeout true
  let status ← (Call.connect s address).run
  let connected ← (if status ≠ 0 then wait s true timeout else pure true)
  setMode s timeout false
  return connected

namespace Conn

/-- The end of `Open` of an outbound connection. -/
def keep (conn : Conn) (s : Nat) (state : ProxyState) (connected : Bool) : Sys (Bool × Conn) :=
  if connected then pure (true, { conn with s := some s, proxy := state })
  else do
    (Call.close s).run
    return (false, conn)

def direct (conn : Conn) (timeout : Int) (s : Nat) : Sys Bool := do
  let proxyTimeout ← Call.proxyTimeout.run
  if proxyTimeout ≠ 0 then
    let limit ← (if timeout ≠ 0 then pure timeout else Call.proxyTimeout.run)
    connectTo s (conn.ip, conn.port) limit
  else return false

def proxied (conn : Conn) (timeout : Int) (s : Nat) : Sys (Bool × Conn) := do
  let ip ← Call.proxyIp.run
  let port ← Call.proxyPort.run
  let connected ← connectTo s (ip, port) timeout
  conn.keep s .proxy connected

def openState (conn : Conn) (timeout : Int) (s : Nat) : ProxyState → Sys (Bool × Conn)
  | .noProxy => do
    let connected ← connectTo s (conn.ip, conn.port) timeout
    conn.keep s .noProxy connected
  | .proxy => conn.proxied timeout s
  | .unknown => do
    if ← conn.direct timeout s then conn.keep s .noProxy true
    else
      -- the member is loaded once more, and may be another one by now
      let proxyTimeout ← Call.proxyTimeout.run
      if proxyTimeout ≠ 0 then
        (Call.close s).run
        match ← Call.socket.run with
        | none => return (false, conn)
        | some s => conn.proxied timeout s
      else conn.proxied timeout s

/-- `Open` of an outbound connection behind its `socket`. -/
def openOutbound (conn : Conn) (timeout : Int) (s : Nat) : Sys (Bool × Conn) := do
  if conn.ip = 0 ∨ conn.port = 0 then
    (Call.close s).run
    return (false, conn)
  else
    let ip ← Call.proxyIp.run
    if ip = 0 then openState { conn with proxy := .noProxy } timeout s .noProxy
    else openState conn timeout s conn.proxy

def loopback : Nat := 2130706433

/-- Whether something listens on a port of the loopback address; `none` without a socket. -/
def active (port : Nat) : Sys (Option Bool) := do
  if port = 0 then return some false
  else
    match ← Call.socket.run with
    | none => return none
    | some test =>
      -- the port is passed in 16 bits
      let connected ← connectTo test (loopback, port % 65536) 1
      (Call.close test).run
      return some connected

/-- The port that is bound, if `bind` and `getsockname` succeed. -/
def bound (s port : Nat) : Sys (Option Nat) := do
  (Call.setsockopt s).run
  let status ← (Call.bind s (port % 65536)).run
  if status = 0 then (Call.getsockname s).run
  else return none

/-- The loop of `Open` of an inbound connection, while `port` is an int: `none` leaves the
language, `some none` is the error with the socket closed. -/
def bindLoop (s : Nat) : Nat → Nat → Sys (Option (Option Nat))
  | 0, _ => return none
  | left + 1, port => do
    match ← active port with
    | none =>
      (Call.close s).run
      return some none
    | some active =>
      let found ← (if active then pure none else bound s port)
      match found with
      | some port => return some (some port)
      | none => bindLoop s left (port + 1)

def openInbound (conn : Conn) (s : Nat) : Sys (Option (Bool × Conn)) := do
  match ← bindLoop s (2147483648 - conn.port) conn.port with
  | none => return none
  | some none => return some (false, conn)
  | some (some port) =>
    let status ← (Call.listen s).run
    if status < 0 then
      (Call.close s).run
      return some (false, conn)
    else return some (true, { conn with s := some s, port := port })

/-- `Open`; tells whether 0 is returned. The outer `none` leaves the language. -/
def open_ (conn : Conn) (timeout : Int) : Sys (Option (Bool × Conn)) := do
  match conn.s with
  | some _ => return some (true, conn)
  | none =>
    match ← Call.socket.run with
    | none => return some (false, conn)
    | some s =>
      match conn.dir with
      | .outbound =>
        let result ← conn.openOutbound timeout s
        return some result
      | .inbound => conn.openInbound s

inductive Transfer where
  | wait (timeout : Int)
  | read
  | write

def transfer (s : Nat) : List Transfer → Sys Unit
  | [] => return ()
  | .wait timeout :: rest => do
    let _ ← Sockets.wait s false timeout
    transfer s rest
  | .read :: rest => do
    let _ ← (Call.read s).run
    transfer s rest
  | .write :: rest => do
    let _ ← (Call.write s).run
    transfer s rest

def closeSocket (conn : Conn) : Sys Conn := do
  match conn.s with
  | none => return conn
  | some s =>
    if conn.close then
      (Call.close s).run
      return { conn with s := none }
    else return conn

/-- `Accept`: the connection, and the one that is made. -/
def acceptClient (conn : Conn) (detType : Bool) : Sys (Option (Conn × Option Conn)) := do
  if conn.dir ≠ .inbound then return some (conn, none)
  else
    match ← conn.open_ 0 with
    | none => return none
    | some (_, conn) =>
      -- a failed `Open` leaves `m_s` negative
      match conn.s with
      | none => return some (conn, none)
      | some s =>
        match ← (Call.accept s).run with
        | none => return some (conn, none)
        | some (s, ip, port) =>
          let client := { ofSocket .inbound s true with ip := ip, port := port }
          if detType then
            let size ← (Call.read s).run
            if size ≤ 0 then
              let _ ← client.closeSocket
              return some (conn, none)
            else return some (conn, some client)
          else return some (conn, some client)

end Conn

inductive Operation where
  | open_ (timeout : Int)
  | transfer (calls : List Conn.Transfer)
  | accept (detType : Bool)
  | close
  | delete

/-- The connection after an operation and the one that was made, or the socket that a deleted
connection leaves open. -/
inductive Outcome where
  | kept (conn : Conn)
  | made (conn client : Conn)
  | deleted (left : Option Nat)
deriving DecidableEq

def Operation.run (conn : Conn) : Operation → Sys (Option Outcome)
  | .open_ timeout => do
    match ← conn.open_ timeout with
    | none => return none
    | some (_, conn) => return some (.kept conn)
  | .transfer calls => do
    match ← conn.open_ 0 with
    | none => return none
    | some (_, conn) =>
      match conn.s with
      | none => return some (.kept conn)
      | some s =>
        Conn.transfer s calls
        return some (.kept conn)
  | .accept detType => do
    match ← conn.acceptClient detType with
    | none => return none
    | some (conn, none) => return some (.kept conn)
    | some (conn, some client) => return some (.made conn client)
  | .close => do
    let conn ← conn.closeSocket
    return some (.kept conn)
  | .delete => do
    let conn ← conn.closeSocket
    return some (.deleted conn.s)

/-! ## What the calls of an operation need -/

variable {held : Heap Nat (List Address)} {s : Nat} {peers : List Address} {proxies : Proxies}

namespace Call

theorem safe_socket {post : Option Nat → Heap Nat (List Address) → Prop} (failed : post none held)
    (opened : ∀ s, held s = none → post (some s) (Function.update held s (some []))) :
    Call.socket.run.Safe (system proxies) post held := by
  apply safe_bring
  · intro handle same
    cases same
  · intro reply value
    rfl
  · intro reply held' _ brought
    cases reply with
    | none => cases brought; exact failed
    | some s =>
      change bring (some (s, [])) held = some held' at brought
      unfold bring at brought
      dsimp only at brought
      split at brought
      next fresh => cases brought; exact opened s fresh
      next => cases brought

theorem safe_accept {post : Option (Nat × Address) → Heap Nat (List Address) → Prop}
    (mine : (held s).isSome) (failed : post none held)
    (opened : ∀ client address, held client = none →
      post (some (client, address)) (Function.update held client (some []))) :
    (Call.accept s).run.Safe (system proxies) post held := by
  apply safe_bring
  · intro handle same
    cases same
    exact mine
  · intro reply value
    rfl
  · intro reply held' _ brought
    cases reply with
    | none => cases brought; exact failed
    | some entry =>
      obtain ⟨client, address⟩ := entry
      change bring (some (client, [])) held = some held' at brought
      unfold bring at brought
      dsimp only at brought
      split at brought
      next fresh => cases brought; exact opened client address fresh
      next => cases brought

theorem safe_connect {address : Address} {post : Int → Heap Nat (List Address) → Prop}
    (mine : held s = some peers)
    (right : ∀ status, post status (Function.update held s (some (peers ++ [address])))) :
    (Call.connect s address).run.Safe (system proxies) post held :=
  safe_change rfl mine (fun _ => rfl) right

theorem safe_close {post : Unit → Heap Nat (List Address) → Prop} (mine : held s = some peers)
    (right : post () (Function.update held s none)) : (Call.close s).run.Safe (system proxies) post held :=
  safe_change rfl mine (fun _ => rfl) fun _ => right

inductive Plain (s : Nat) : Call → Prop where
  | fcntl (nonblock : Bool) : Plain s (.fcntl s nonblock)
  | select (write : Bool) (timeout : Int) : Plain s (.select s write timeout)
  | getsockopt : Plain s (.getsockopt s)
  | setsockopt : Plain s (.setsockopt s)
  | bind (port : Nat) : Plain s (.bind s port)
  | getsockname : Plain s (.getsockname s)
  | listen : Plain s (.listen s)
  | read : Plain s (.read s)
  | write : Plain s (.write s)

theorem Plain.safe {request : Call} {post : request.Reply → Heap Nat (List Address) → Prop}
    (plain : Plain s request) (mine : (held s).isSome) (right : ∀ reply, post reply held) :
    request.run.Safe (system proxies) post held := by
  apply safe_keep _ _ _ fun reply _ => right reply
  · intro handle same
    have here : request.passed = some s := by cases plain <;> rfl
    obtain rfl := Option.some.inj (here.symm.trans same)
    exact mine
  · intro reply value
    cases plain <;> rfl
  · intro reply
    cases plain <;> rfl

theorem safe_load {request : Call} {post : request.Reply → Heap Nat (List Address) → Prop}
    (load : request = .proxyIp ∨ request = .proxyPort ∨ request = .proxyTimeout)
    (right : ∀ reply, (system proxies).answers request reply → post reply held) :
    request.run.Safe (system proxies) post held := by
  apply safe_keep _ _ _ right
  · intro handle same
    rcases load with rfl | rfl | rfl <;> cases same
  · intro reply value
    rcases load with rfl | rfl | rfl <;> rfl
  · intro reply
    rcases load with rfl | rfl | rfl <;> rfl

end Call

theorem wait_safe {write : Bool} {timeout : Int} {post : Bool → Heap Nat (List Address) → Prop}
    (mine : (held s).isSome) (right : ∀ ok, post ok held) :
    (wait s write timeout).Safe (system proxies) post held := by
  unfold wait
  rw [safe_bind]
  apply (Call.Plain.select write timeout).safe mine
  intro status
  split
  · rw [safe_bind]
    exact Call.Plain.getsockopt.safe mine fun status => right _
  · exact right false

theorem setMode_safe {timeout : Int} {nonblock : Bool}
    {post : Unit → Heap Nat (List Address) → Prop} (mine : (held s).isSome)
    (right : post () held) : (setMode s timeout nonblock).Safe (system proxies) post held := by
  unfold setMode
  split
  · exact (Call.Plain.fcntl nonblock).safe mine fun _ => right
  · exact right

theorem connectTo_safe {address : Address} {timeout : Int}
    {post : Bool → Heap Nat (List Address) → Prop} (mine : held s = some peers)
    (right : ∀ ok, post ok (Function.update held s (some (peers ++ [address])))) :
    (connectTo s address timeout).Safe (system proxies) post held := by
  have some_ : (held s).isSome := by simp [mine]
  have mine' : (Function.update held s (some (peers ++ [address])) s).isSome := by simp
  unfold connectTo
  rw [safe_bind]
  apply setMode_safe some_
  rw [safe_bind]
  apply Call.safe_connect mine
  intro status
  have rest (connected : Bool) : (setMode s timeout false >>= fun _ => pure connected).Safe (system proxies)
      post (Function.update held s (some (peers ++ [address]))) := by
    rw [safe_bind]
    exact setMode_safe mine' (right connected)
  rw [safe_bind]
  split
  · exact wait_safe mine' rest
  · exact rest true

/-! ## Opening -/

def one (s : Nat) (peers : List Address) : Heap Nat (List Address) :=
  Function.update (fun _ => none) s (some peers)

@[simp] theorem one_self : one s peers s = some peers := by simp [one]

@[simp] theorem one_isSome {other : Nat} : (one s peers other).isSome ↔ s = other := by
  by_cases same : other = s
  · simp [one, same]
  · simp [one, same, Ne.symm same]

@[simp] theorem one_update {next : List Address} :
    Function.update (one s peers) s (some next) = one s next := by
  simp [one]

@[simp] theorem one_close : Function.update (one s peers) s none = fun _ => none := by
  simp [one]

/-- What the socket of a connection that is open was connected to: its own address, or a proxy, if
it has to be after the own address did not answer. -/
inductive Reached (proxies : Proxies) (own : Address) : ProxyState → List Address → Prop where
  | direct {state : ProxyState} (past : state ≠ .proxy) : Reached proxies own state [own]
  | proxied {peer : Address} (named : proxies.Names peer) : Reached proxies own .proxy [peer]
  | retried {peer : Address} (named : proxies.Names peer) : Reached proxies own .proxy [own, peer]

/-- The descriptors of a connection: that of its socket, which stays for the connections that must
not close it, and which was connected to where the request lines say. -/
structure Conn.Holds (proxies : Proxies) (conn : Conn) (held : Heap Nat (List Address)) :
    Prop where
  only : ∀ s, (held s).isSome ↔ conn.s = some s
  stays : conn.close = false → conn.s.isSome
  peer : ∀ s, conn.s = some s → conn.dir = .outbound → conn.ip ≠ 0 → ∃ peers,
    held s = some peers ∧ Reached proxies (conn.ip, conn.port) conn.proxy peers

theorem Conn.holds_closed {conn : Conn} (closed : conn.s = none) (closes : conn.close = true) :
    conn.Holds proxies fun _ => none where
  only := by simp [closed]
  stays := by simp [closes]
  peer := by simp [closed]

section

variable {conn : Conn} {timeout : Int}

theorem Conn.keep_safe {state : ProxyState} {connected : Bool}
    (closed : conn.s = none) (closes : conn.close = true)
    (reached : Reached proxies (conn.ip, conn.port) state peers) :
    (conn.keep s state connected).Safe (system proxies)
      (fun result held => result.2.Holds proxies held) (one s peers) := by
  unfold Conn.keep
  split
  · rw [safe_pure]
    constructor
    · intro other
      simp
    · simp
    · intro other same outbound present
      cases same
      exact ⟨peers, one_self, reached⟩
  · rw [safe_bind]
    apply Call.safe_close one_self
    rw [one_close]
    exact Conn.holds_closed closed closes

theorem Conn.proxied_safe (closed : conn.s = none) (closes : conn.close = true)
    (before : peers = [] ∨ peers = [(conn.ip, conn.port)]) :
    (conn.proxied timeout s).Safe (system proxies)
      (fun result held => result.2.Holds proxies held) (one s peers) := by
  unfold Conn.proxied
  rw [safe_bind]
  apply Call.safe_load (.inl rfl)
  intro ip set
  rw [safe_bind]
  apply Call.safe_load (.inr (.inl rfl))
  intro port set'
  rw [safe_bind]
  apply connectTo_safe one_self
  intro connected
  rw [one_update]
  apply Conn.keep_safe closed closes
  rcases before with rfl | rfl
  · exact .proxied ⟨set, set'⟩
  · exact .retried ⟨set, set'⟩

theorem Conn.direct_safe {post : Bool → Heap Nat (List Address) → Prop}
    (skipped : post false (one s []))
    (tried : ∀ connected, post connected (one s [(conn.ip, conn.port)])) :
    (conn.direct timeout s).Safe (system proxies) post (one s []) := by
  have attempt (limit : Int) : (connectTo s (conn.ip, conn.port) limit).Safe (system proxies) post
      (one s []) := by
    apply connectTo_safe one_self
    intro connected
    rw [one_update]
    exact tried connected
  unfold Conn.direct
  rw [safe_bind]
  apply Call.safe_load (.inr (.inr rfl))
  intro proxyTimeout _
  split
  · rw [safe_bind]
    split
    · exact attempt timeout
    · exact Call.safe_load (.inr (.inr rfl)) fun limit _ => attempt limit
  · exact skipped

theorem Conn.openState_safe {state : ProxyState} (closed : conn.s = none)
    (closes : conn.close = true) :
    (conn.openState timeout s state).Safe (system proxies)
      (fun result held => result.2.Holds proxies held) (one s []) := by
  have direct (connected : Bool) : (conn.keep s .noProxy connected).Safe (system proxies)
      (fun result held => result.2.Holds proxies held) (one s [(conn.ip, conn.port)]) :=
    Conn.keep_safe closed closes (.direct (by decide))
  have failed {peers : List Address} (before : peers = [] ∨ peers = [(conn.ip, conn.port)]) :
      (do
        let proxyTimeout ← Call.proxyTimeout.run
        if proxyTimeout ≠ 0 then
          (Call.close s).run
          match ← Call.socket.run with
          | none => return (false, conn)
          | some s => conn.proxied timeout s
        else conn.proxied timeout s : Sys (Bool × Conn)).Safe (system proxies)
          (fun result held => result.2.Holds proxies held) (one s peers) := by
    rw [safe_bind]
    apply Call.safe_load (.inr (.inr rfl))
    intro proxyTimeout _
    split
    · -- the socket of the attempt is not used again
      rw [safe_bind]
      apply Call.safe_close one_self
      rw [one_close, safe_bind]
      apply Call.safe_socket
      · exact Conn.holds_closed closed closes
      · intro s fresh
        exact Conn.proxied_safe closed closes (.inl rfl)
    · exact Conn.proxied_safe closed closes before
  cases state with
  | noProxy =>
    rw [Conn.openState]
    rw [safe_bind]
    apply connectTo_safe one_self
    intro connected
    rw [one_update]
    exact direct connected
  | proxy => exact Conn.proxied_safe closed closes (.inl rfl)
  | unknown =>
    rw [Conn.openState]
    rw [safe_bind]
    apply Conn.direct_safe
    · exact failed (.inl rfl)
    · intro connected
      cases connected with
      | true => exact direct true
      | false => exact failed (.inr rfl)

theorem Conn.openOutbound_safe (closed : conn.s = none) (closes : conn.close = true) :
    (conn.openOutbound timeout s).Safe (system proxies)
      (fun result held => result.2.Holds proxies held) (one s []) := by
  unfold Conn.openOutbound
  split
  · rw [safe_bind]
    apply Call.safe_close one_self
    rw [one_close]
    exact Conn.holds_closed closed closes
  · rw [safe_bind]
    apply Call.safe_load (.inl rfl)
    intro ip _
    split
    · exact Conn.openState_safe closed closes
    · exact Conn.openState_safe closed closes

/-! An inbound connection tries its port before it binds, with a socket that it closes. -/

theorem Conn.active_safe {port : Nat} {post : Option Bool → Heap Nat (List Address) → Prop}
    (right : ∀ answer, post answer held) : (Conn.active port).Safe (system proxies) post held := by
  unfold Conn.active
  split
  · exact right _
  · rw [safe_bind]
    apply Call.safe_socket
    · exact right none
    · intro test fresh
      rw [safe_bind]
      apply connectTo_safe (Function.update_self test (some []) held)
      intro connected
      rw [safe_bind]
      apply Call.safe_close (by rw [Function.update_self])
      rw [Function.update_idem, Function.update_idem, ← fresh, Function.update_eq_self]
      exact right _

theorem Conn.bound_safe {port : Nat} {post : Option Nat → Heap Nat (List Address) → Prop}
    (mine : (held s).isSome) (right : ∀ answer, post answer held) :
    (Conn.bound s port).Safe (system proxies) post held := by
  unfold Conn.bound
  rw [safe_bind]
  apply Call.Plain.setsockopt.safe mine
  intro _
  rw [safe_bind]
  apply (Call.Plain.bind _).safe mine
  intro status
  split
  · exact Call.Plain.getsockname.safe mine right
  · exact right none

theorem Conn.bindLoop_safe {left port : Nat} : (Conn.bindLoop s left port).Safe (system proxies)
    (fun result held => (result = some none → held = fun _ => none) ∧
      ∀ port, result = some (some port) → held = one s []) (one s []) := by
  induction left generalizing port with
  | zero =>
    unfold Conn.bindLoop
    rw [safe_pure]
    simp
  | succ left ih =>
    unfold Conn.bindLoop
    rw [safe_bind]
    apply Conn.active_safe
    intro answer
    cases answer with
    | none =>
      rw [safe_bind]
      apply Call.safe_close one_self
      rw [one_close, safe_pure]
      simp
    | some active =>
      have go (found : Option Nat) : (match found with
          | some port => pure (some (some port))
          | none => Conn.bindLoop s left (port + 1) : Sys (Option (Option Nat))).Safe (system proxies)
          (fun result held => (result = some none → held = fun _ => none) ∧
            ∀ port, result = some (some port) → held = one s []) (one s []) := by
        cases found with
        | none => exact ih
        | some port => exact ⟨by simp, fun _ _ => rfl⟩
      rw [safe_bind]
      cases active with
      | false => exact Conn.bound_safe (by simp) go
      | true => exact go none

def Returns {A : Type} (right : A → Heap Nat (List Address) → Prop) (result : Option A)
    (held : Heap Nat (List Address)) : Prop := ∀ value, result = some value → right value held

theorem Conn.openInbound_safe (inbound : conn.dir = .inbound) (closed : conn.s = none)
    (closes : conn.close = true) :
    (conn.openInbound s).Safe (system proxies)
      (Returns fun result held => result.2.Holds proxies held) (one s []) := by
  unfold Conn.openInbound
  rw [safe_bind]
  apply Conn.bindLoop_safe.imp
  intro result held right
  cases result with
  | none => simp [Returns, safe_pure]
  | some found =>
    cases found with
    | none =>
      rw [right.1 rfl]
      simpa [Returns, safe_pure] using Conn.holds_closed closed closes
    | some port =>
      rw [right.2 port rfl, safe_bind]
      apply Call.Plain.listen.safe (by simp)
      intro status
      split
      · rw [safe_bind]
        apply Call.safe_close one_self
        rw [one_close]
        simpa [Returns, safe_pure] using Conn.holds_closed closed closes
      · simp only [Returns, safe_pure, Option.some.injEq, forall_eq']
        constructor
        · intro other
          simp
        · simp
        · simp [inbound]

theorem Conn.open_safe (holds : conn.Holds proxies held) :
    (conn.open_ timeout).Safe (system proxies)
      (Returns fun result held => result.2.Holds proxies held) held := by
  unfold Conn.open_
  split
  · simpa [Returns, safe_pure] using holds
  · next closed =>
    have closes : conn.close = true := by
      by_contra stays
      have some_ := holds.stays (by simpa using stays)
      simp [closed] at some_
    have nothing : held = fun _ => none := by
      funext s
      have only := holds.only s
      rw [closed] at only
      simpa using only
    rw [nothing, safe_bind]
    apply Call.safe_socket
    · simpa [Returns, safe_pure] using Conn.holds_closed closed closes
    · intro s _
      cases dir : conn.dir with
      | outbound =>
        rw [safe_bind]
        apply (Conn.openOutbound_safe closed closes).imp
        intro result held right
        simpa [Returns, safe_pure] using right
      | inbound => exact Conn.openInbound_safe dir closed closes

theorem Conn.transfer_safe {calls : List Conn.Transfer}
    {post : Unit → Heap Nat (List Address) → Prop} (mine : (held s).isSome)
    (right : post () held) : (Conn.transfer s calls).Safe (system proxies) post held := by
  induction calls with
  | nil => exact right
  | cons call rest ih =>
    cases call with
    | wait timeout =>
      unfold Conn.transfer
      rw [safe_bind]
      exact wait_safe mine fun _ => ih
    | read =>
      unfold Conn.transfer
      rw [safe_bind]
      exact Call.Plain.read.safe mine fun _ => ih
    | write =>
      unfold Conn.transfer
      rw [safe_bind]
      exact Call.Plain.write.safe mine fun _ => ih

theorem Conn.Holds.one (holds : conn.Holds proxies held) (opened : conn.s = some s) :
    ∃ peers, held = Sockets.one s peers := by
  have here := (holds.only s).2 opened
  obtain ⟨peers, found⟩ := Option.isSome_iff_exists.1 here
  refine ⟨peers, ?_⟩
  funext other
  by_cases same : other = s
  · rw [same, found, one_self]
  · have only := holds.only other
    rw [opened, Option.some.injEq] at only
    simp only [Sockets.one, Function.update_of_ne same]
    by_contra some_
    exact same (only.1 (Option.isSome_iff_ne_none.2 some_)).symm

theorem Conn.closeSocket_safe (holds : conn.Holds proxies held) :
    conn.closeSocket.Safe (system proxies) (fun conn held => conn.Holds proxies held) held := by
  unfold Conn.closeSocket
  split
  · exact holds
  · next s opened =>
    split
    · next closes =>
      obtain ⟨peers, rfl⟩ := holds.one opened
      rw [safe_bind]
      apply Call.safe_close one_self
      rw [one_close]
      exact Conn.holds_closed rfl closes
    · exact holds

def Made (proxies : Proxies) (conn client : Conn) (held : Heap Nat (List Address)) : Prop :=
  ∃ s, client.s = some s ∧ client.dir = .inbound ∧ client.close = true ∧ (held s).isSome ∧
    conn.Holds proxies (Function.update held s none)

def Outcome.Holds (proxies : Proxies) (held : Heap Nat (List Address)) : Outcome → Prop
  | .kept conn => conn.Holds proxies held
  | .made conn client => Made proxies conn client held
  | .deleted left => ∀ s, (held s).isSome ↔ left = some s

theorem Conn.acceptClient_safe {detType : Bool} (holds : conn.Holds proxies held) :
    (conn.acceptClient detType).Safe (system proxies)
      (Returns fun result held => match result with
        | (conn, none) => conn.Holds proxies held
        | (conn, some client) => Made proxies conn client held) held := by
  have kept {conn : Conn} {held : Heap Nat (List Address)} (holds : conn.Holds proxies held) :
      Returns (fun (result : Conn × Option Conn) held => match result with
        | (conn, none) => conn.Holds proxies held
        | (conn, some client) => Made proxies conn client held) (some (conn, none)) held := by
    intro result same
    cases same
    exact holds
  unfold Conn.acceptClient
  split
  · exact kept holds
  · rw [safe_bind]
    apply (Conn.open_safe holds).imp
    intro result held right
    cases result with
    | none => simp [Returns, safe_pure]
    | some opened =>
      obtain ⟨status, conn⟩ := opened
      have holds : conn.Holds proxies held := right _ rfl
      dsimp only
      split
      · exact kept holds
      · next s opened =>
        rw [safe_bind]
        apply Call.safe_accept ((holds.only s).2 opened) (kept holds)
        intro client address fresh
        have restored :
            Function.update (Function.update held client (some [])) client none = held := by
          rw [Function.update_idem, ← fresh, Function.update_eq_self]
        have made : Returns (fun (result : Conn × Option Conn) held => match result with
            | (conn, none) => conn.Holds proxies held
            | (conn, some client) => Made proxies conn client held)
            (some (conn, some { Conn.ofSocket .inbound client true with
              ip := address.1, port := address.2 }))
            (Function.update held client (some [])) := by
          intro result same
          cases same
          exact ⟨client, rfl, rfl, rfl, by simp, by rwa [restored]⟩
        dsimp only
        split
        · rw [safe_bind]
          apply Call.Plain.read.safe (by simp)
          intro size
          split
          · rw [safe_bind]
            apply Call.safe_close (by rw [Function.update_self])
            rw [restored]
            exact kept holds
          · exact made
        · exact made

theorem Operation.run_safe {operation : Operation} (holds : conn.Holds proxies held) :
    (operation.run conn).Safe (system proxies)
      (Returns fun outcome held => outcome.Holds proxies held) held := by
  cases operation with
  | open_ timeout =>
    unfold Operation.run
    rw [safe_bind]
    apply (Conn.open_safe holds).imp
    intro result held right
    cases result with
    | none => simp [Returns, safe_pure]
    | some opened => simpa [Returns, safe_pure, Outcome.Holds] using right
  | transfer calls =>
    unfold Operation.run
    rw [safe_bind]
    apply (Conn.open_safe holds).imp
    intro result held right
    cases result with
    | none => simp [Returns, safe_pure]
    | some opened =>
      obtain ⟨status, conn⟩ := opened
      have holds : conn.Holds proxies held := right _ rfl
      have kept : Returns (fun (outcome : Outcome) held => outcome.Holds proxies held)
          (some (.kept conn)) held := by
        intro outcome same
        cases same
        exact holds
      dsimp only
      split
      · exact kept
      · next s opened =>
        rw [safe_bind]
        exact Conn.transfer_safe ((holds.only s).2 opened) kept
  | accept detType =>
    unfold Operation.run
    rw [safe_bind]
    apply (Conn.acceptClient_safe holds).imp
    intro result held right
    cases result with
    | none => simp [Returns, safe_pure]
    | some accepted =>
      obtain ⟨conn, client⟩ := accepted
      cases client <;> simpa [Returns, safe_pure, Outcome.Holds] using right
  | close =>
    unfold Operation.run
    rw [safe_bind]
    apply (Conn.closeSocket_safe holds).imp
    intro conn held holds
    simpa [Returns, safe_pure, Outcome.Holds] using holds
  | delete =>
    unfold Operation.run
    rw [safe_bind]
    apply (Conn.closeSocket_safe holds).imp
    intro conn held holds
    simpa [Returns, safe_pure, Outcome.Holds] using holds.only

end

end Ptp.Sockets

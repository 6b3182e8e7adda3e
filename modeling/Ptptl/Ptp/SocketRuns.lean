import Ptptl.Ptp.Sockets

set_option autoImplicit false

/-! # Sockets of all connections, over the runs of any threads -/

namespace Ptp.Sockets

open Handles

inductive Activity where
  | idle (conn : Conn)
  | busy (rest : Sys (Option Outcome))

/-- The static members of `Connection`. -/
structure Settings where
  proxyIp : Nat := 0
  proxyPort : Nat := 0
  proxyTimeout : Int := 0

/-- One of the assignments of `SetProxy`. -/
inductive Store where
  | ip (ip : Nat)
  | port (port : Nat)
  | timeout (timeout : Int)

def Settings.store (settings : Settings) : Store → Settings
  | .ip ip => { settings with proxyIp := ip }
  | .port port => { settings with proxyPort := port }
  | .timeout timeout => { settings with proxyTimeout := timeout }

/-- A load gives what is stored. -/
def Settings.Answers (settings : Settings) : (request : Call) → request.Reply → Prop
  | .proxyIp, ip => ip = settings.proxyIp
  | .proxyPort, port => port = settings.proxyPort
  | .proxyTimeout, timeout => timeout = settings.proxyTimeout
  | _, _ => True

def setProxy (ip port : Nat) (timeout : Int) : List Store := [.ip ip, .port port, .timeout timeout]

def Proxies.store (proxies : Proxies) : Store → Proxies
  | .ip ip => { proxies with ips := proxies.ips ++ [ip] }
  | .port port => { proxies with ports := proxies.ports ++ [port] }
  | .timeout _ => proxies

structure State (C T : Type) where
  table : Heap Nat (List Address)
  user : Nat → Bool
  settings : Settings
  -- what the threads that are in `SetProxy` have left to do
  setting : T → List Store
  proxies : Proxies
  conns : C → Option Activity

variable {C T : Type} [DecidableEq C]

def State.start : State C T where
  table _ := none
  user _ := false
  settings := {}
  setting _ := []
  proxies := {}
  conns _ := none

def State.put (state : State C T) (conn : C) (activity : Activity) : State C T :=
  { state with conns := Function.update state.conns conn (some activity) }

section

variable [DecidableEq T]

/-- One thread makes one step: operations on different connections and calls of `SetProxy` go on by
single system calls, loads and stores, in any order and whatever the system answers. -/
inductive Step : State C T → State C T → Prop where
  | outbound {state : State C T} {new : C} (ip port : Nat) (absent : state.conns new = none) :
      Step state (state.put new (.idle (.outbound ip port)))
  | inbound {state : State C T} {new : C} (port : Nat) (absent : state.conns new = none) :
      Step state (state.put new (.idle (.inbound port)))
  | ofSocket {state : State C T} {new : C} {s : Nat} (dir : Direction) (close : Bool)
      (absent : state.conns new = none) (opened : state.user s = true) :
      Step state { state.put new (.idle (.ofSocket dir s close)) with
        user := Function.update state.user s false }
  | begin {state : State C T} {which : C} {conn : Conn} (operation : Operation)
      (idle : state.conns which = some (.idle conn)) :
      Step state (state.put which (.busy (operation.run conn)))
  | call {state : State C T} {which : C} {request : Call} {reply : request.Reply}
      {next : request.Reply → Sys (Option Outcome)} {table : Heap Nat (List Address)}
      (busy : state.conns which = some (.busy (.call request next)))
      (answered : state.settings.Answers request reply)
      (acted : (system state.proxies).act request reply state.table = some table) :
      Step state { state.put which (.busy (next reply)) with table := table }
  | kept {state : State C T} {which : C} {conn : Conn}
      (done : state.conns which = some (.busy (.done (some (.kept conn))))) :
      Step state (state.put which (.idle conn))
  | made {state : State C T} {which new : C} {conn client : Conn}
      (done : state.conns which = some (.busy (.done (some (.made conn client)))))
      (absent : state.conns new = none) :
      Step state ((state.put which (.idle conn)).put new (.idle client))
  | deleted {state : State C T} {which : C} {left : Option Nat}
      (done : state.conns which = some (.busy (.done (some (.deleted left))))) :
      Step state { state with
        conns := Function.update state.conns which none
        user := fun s => state.user s || left == some s }
  | setProxy {state : State C T} {thread : T} (ip port : Nat) (timeout : Int)
      (idle : state.setting thread = []) :
      Step state { state with
        setting := Function.update state.setting thread (setProxy ip port timeout) }
  | store {state : State C T} {thread : T} {store : Store} {rest : List Store}
      (left : state.setting thread = store :: rest) :
      Step state { state with
        settings := state.settings.store store
        proxies := state.proxies.store store
        setting := Function.update state.setting thread rest }
  -- the application does as it likes with its own descriptors and those that are not open
  | user {state : State C T} {mine : Heap Nat (List Address)}
      (apart : ∀ s, (mine s).isSome → state.user s = true ∨ state.table s = none) :
      Step state { state with
        table := fun s => if state.user s || (mine s).isSome then mine s else state.table s
        user := fun s => (mine s).isSome }

inductive Reachable : State C T → Prop where
  | start : Reachable .start
  | step {state next : State C T} (before : Reachable state) (step : Step state next) :
      Reachable next

end

/-! ## The share of each connection -/

variable {proxies more : Proxies} {held : Heap Nat (List Address)} {state next : State C T}

structure Proxies.Within (proxies more : Proxies) : Prop where
  ips : proxies.ips ⊆ more.ips
  ports : proxies.ports ⊆ more.ports

theorem Proxies.Within.refl (proxies : Proxies) : proxies.Within proxies :=
  ⟨List.Subset.refl _, List.Subset.refl _⟩

theorem Proxies.Within.trans {last : Proxies} (within : proxies.Within more)
    (within' : more.Within last) : proxies.Within last :=
  ⟨List.Subset.trans within.ips within'.ips, List.Subset.trans within.ports within'.ports⟩

theorem Proxies.within_store (proxies : Proxies) (store : Store) :
    proxies.Within (proxies.store store) := by
  cases store with
  | ip ip => exact ⟨List.subset_append_left _ _, List.Subset.refl _⟩
  | port port => exact ⟨List.Subset.refl _, List.subset_append_left _ _⟩
  | timeout timeout => exact .refl proxies

theorem Reached.mono {own : Address} {state : ProxyState} {peers : List Address}
    (reached : Reached proxies own state peers) (within : proxies.Within more) :
    Reached more own state peers := by
  cases reached with
  | direct past => exact .direct past
  | proxied named => exact .proxied ⟨within.ips named.1, within.ports named.2⟩
  | retried named => exact .retried ⟨within.ips named.1, within.ports named.2⟩

/-- What a connection holds while it is idle, in an operation or not there; the operation goes on
whatever is stored in between. -/
def Activity.Holds (proxies : Proxies) (held : Heap Nat (List Address)) :
    Option Activity → Prop
  | none => held = fun _ => none
  | some (.idle conn) => conn.Holds proxies held
  | some (.busy rest) => ∀ more, proxies.Within more →
    rest.Safe (system more) (Returns fun outcome held => outcome.Holds more held) held

/-- What is stored was stored. -/
structure Settings.Known (settings : Settings) (proxies : Proxies) : Prop where
  ip : settings.proxyIp ∈ proxies.ips
  port : settings.proxyPort ∈ proxies.ports

theorem Settings.Known.store {settings : Settings} (known : settings.Known proxies)
    (store : Store) : (settings.store store).Known (proxies.store store) := by
  cases store with
  | ip ip => exact ⟨List.mem_append_right _ (List.mem_singleton_self _), known.port⟩
  | port port => exact ⟨known.ip, List.mem_append_right _ (List.mem_singleton_self _)⟩
  | timeout timeout => exact ⟨known.ip, known.port⟩

theorem Settings.Known.mono {settings : Settings} (known : settings.Known proxies)
    (within : proxies.Within more) : settings.Known more :=
  ⟨within.ips known.ip, within.ports known.port⟩

theorem Settings.Known.answers {settings : Settings} (known : settings.Known proxies)
    {request : Call} {reply : request.Reply} (answered : settings.Answers request reply) :
    (system proxies).answers request reply := by
  cases request with
  | proxyIp => exact Eq.symm (answered : reply = settings.proxyIp) ▸ known.ip
  | proxyPort => exact Eq.symm (answered : reply = settings.proxyPort) ▸ known.port
  | _ => trivial

/-- Who holds what: the connections, and the application as `none`. -/
structure Sound (state : State C T) (share : Option C → Heap Nat (List Address)) : Prop where
  shares : Shares state.table share
  user : ∀ s, state.user s = (share none s).isSome
  known : state.settings.Known state.proxies
  conns : ∀ conn, Activity.Holds state.proxies (share (some conn)) (state.conns conn)

theorem Conn.Holds.mono {conn : Conn} (holds : conn.Holds proxies held)
    (within : proxies.Within more) : conn.Holds more held where
  only := holds.only
  stays := holds.stays
  peer s opened outbound present := by
    obtain ⟨peers, found, reached⟩ := holds.peer s opened outbound present
    exact ⟨peers, found, reached.mono within⟩

theorem Activity.Holds.mono {activity : Option Activity} (holds : Activity.Holds proxies held activity)
    (within : proxies.Within more) : Activity.Holds more held activity := by
  match activity, holds with
  | none, holds => exact holds
  | some (.idle conn), holds => exact Conn.Holds.mono holds within
  | some (.busy rest), holds => exact fun last within' => holds last (within.trans within')

namespace Sound

variable {share : Option C → Heap Nat (List Address)}

omit [DecidableEq C] in
theorem start : Sound (State.start : State C T) fun _ _ => none where
  shares := ⟨by simp, by simp, by simp [State.start]⟩
  user := by simp [State.start]
  known := ⟨List.mem_singleton_self _, List.mem_singleton_self _⟩
  conns := by simp [State.start, Activity.Holds]

theorem change {share' : Option C → Heap Nat (List Address)} {which : C}
    {activity : Option Activity} {table : Heap Nat (List Address)} {user : Nat → Bool}
    (sound : Sound state share) (shares : Shares table share')
    (own : ∀ s, user s = (share' none s).isSome)
    (others : ∀ other, other ≠ which → share' (some other) = share (some other))
    (here : Activity.Holds state.proxies (share' (some which)) activity) :
    Sound { state with
      table := table, user := user, conns := Function.update state.conns which activity } share' where
  shares := shares
  user := own
  known := sound.known
  conns other := by
    dsimp only
    by_cases same : other = which
    · subst same
      rw [Function.update_self]
      exact here
    · rw [Function.update_of_ne same, others other same]
      exact sound.conns other

theorem put {which : C} {activity : Activity} (sound : Sound state share)
    (here : Activity.Holds state.proxies (share (some which)) (some activity)) :
    Sound (state.put which activity) share :=
  sound.change sound.shares sound.user (fun _ _ => rfl) here

omit [DecidableEq C] in
theorem absent {new : C} (sound : Sound state share) (absent : state.conns new = none) :
    share (some new) = fun _ => none := by
  have holds := sound.conns new
  rw [absent] at holds
  exact holds

omit [DecidableEq C] in
theorem idle {which : C} {conn : Conn} (sound : Sound state share)
    (idle : state.conns which = some (.idle conn)) :
    conn.Holds state.proxies (share (some which)) := by
  have holds := sound.conns which
  rw [idle] at holds
  exact holds

omit [DecidableEq C] in
theorem busy {which : C} {rest : Sys (Option Outcome)} (sound : Sound state share)
    (busy : state.conns which = some (.busy rest)) (within : state.proxies.Within more) :
    rest.Safe (system more) (Returns fun outcome held => outcome.Holds more held)
      (share (some which)) := by
  have holds := sound.conns which
  rw [busy] at holds
  exact holds more within

omit [DecidableEq C] in
theorem done {which : C} {outcome : Outcome} (sound : Sound state share)
    (done : state.conns which = some (.busy (.done (some outcome)))) :
    outcome.Holds state.proxies (share (some which)) :=
  sound.busy done (.refl _) outcome rfl

theorem given {s : Nat} {value : Option (List Address)} {conn : Conn} (some_ : value.isSome)
    (opened : conn.s = some s) (connected : conn.dir = .outbound → conn.ip = 0) :
    conn.Holds proxies (Function.update (fun _ => none) s value) := by
  obtain ⟨peers, rfl⟩ := Option.isSome_iff_exists.1 some_
  constructor
  · intro other
    rw [opened]
    simpa [one] using (one_isSome : (one s peers other).isSome ↔ s = other)
  · intro stays
    rw [opened]
    rfl
  · intro other same outbound present
    exact absurd (connected outbound) present

theorem step [DecidableEq T] (sound : Sound state share) (step : Step state next) :
    ∃ share, Sound next share := by
  cases step with
  | outbound ip port absent =>
    refine ⟨share, sound.put ?_⟩
    rw [sound.absent absent]
    exact Conn.holds_closed rfl rfl
  | inbound port absent =>
    refine ⟨share, sound.put ?_⟩
    rw [sound.absent absent]
    exact Conn.holds_closed rfl rfl
  | @ofSocket new s dir close absent opened =>
    have mine : (share none s).isSome := by rw [← sound.user]; exact opened
    refine ⟨_, sound.change (sound.shares.give (Option.some_ne_none new) mine) ?_ ?_ ?_⟩
    · intro other
      rw [Function.update_of_ne (Option.some_ne_none new).symm, Function.update_self]
      by_cases same : other = s
      · simp [same]
      · simp [same, sound.user]
    · intro other different
      simp [different]
    · rw [Function.update_self, sound.absent absent]
      exact given mine rfl fun _ => rfl
  | begin operation idle =>
    exact ⟨share, sound.put fun more within =>
      Operation.run_safe ((sound.idle idle).mono within)⟩
  | call busy answered acted =>
    have passes := (sound.busy busy (.refl _)).1
    obtain ⟨mine, acted', shares⟩ := sound.shares.act passes acted
    refine ⟨_, sound.change shares ?_ ?_ ?_⟩
    · intro s
      rw [Function.update_of_ne (Option.some_ne_none _).symm]
      exact sound.user s
    · intro other different
      simp [different]
    · rw [Function.update_self]
      intro more within
      refine (sound.busy busy within).2 _ mine ?_ acted'
      exact (sound.known.mono within).answers answered
  | kept done => exact ⟨share, sound.put (sound.done done)⟩
  | @made which new conn client done absent =>
    obtain ⟨s, opened, dir, closes, here, kept⟩ := sound.done done
    have different : new ≠ which := by
      rintro rfl
      rw [absent] at done
      cases done
    have apart : (some new : Option C) ≠ some which := by simpa using different
    refine ⟨_, sound.shares.give apart here, ?_, sound.known, ?_⟩
    · intro other
      rw [Function.update_of_ne (Option.some_ne_none _).symm,
        Function.update_of_ne (Option.some_ne_none _).symm]
      exact sound.user other
    · intro other
      by_cases first : other = new
      · subst first
        simp only [State.put, Function.update_self]
        rw [sound.absent absent]
        exact given here opened fun outbound => by
          rw [dir] at outbound
          cases outbound
      · by_cases second : other = which
        · subst second
          simp only [State.put, Function.update_of_ne first, Function.update_self,
            Function.update_of_ne apart.symm]
          exact kept
        · have third : (some other : Option C) ≠ some which := by simpa using second
          have fourth : (some other : Option C) ≠ some new := by simpa using first
          simp only [State.put, Function.update_of_ne first, Function.update_of_ne second,
            Function.update_of_ne third, Function.update_of_ne fourth]
          exact sound.conns other
  | @deleted which left done =>
    have only : ∀ s, (share (some which) s).isSome ↔ left = some s := sound.done done
    cases left with
    | none =>
      refine ⟨share, sound.change sound.shares (by simp [sound.user]) (fun _ _ => rfl) ?_⟩
      funext s
      simpa using only s
    | some s =>
      have here : (share (some which) s).isSome := (only s).2 rfl
      refine ⟨_, sound.change (sound.shares.give (Option.some_ne_none which).symm here) ?_ ?_ ?_⟩
      · intro other
        rw [Function.update_self]
        by_cases same : other = s
        · subst same
          simp [here]
        · simp [same, sound.user, Ne.symm same]
      · intro other different
        simp [different]
      · rw [Function.update_of_ne (Option.some_ne_none which), Function.update_self]
        funext other
        by_cases same : other = s
        · simp [same]
        · simpa [same, Ne.symm same] using only other
  | setProxy ip port timeout idle =>
    exact ⟨share, sound.shares, sound.user, sound.known, sound.conns⟩
  | @store thread store rest left =>
    exact ⟨share, sound.shares, sound.user, sound.known.store store,
      fun conn => (sound.conns conn).mono (state.proxies.within_store store)⟩
  | @user mine apart =>
    have apart' : ∀ s, (mine s).isSome → (share none s).isSome ∨ state.table s = none := by
      intro s new
      rw [← sound.user]
      exact apart s new
    refine ⟨Function.update share none mine, ?_, ?_, sound.known, ?_⟩
    · have shares := sound.shares.replace apart'
      simpa only [sound.user] using shares
    · intro s
      rw [Function.update_self]
    · intro conn
      rw [Function.update_of_ne (Option.some_ne_none conn)]
      exact sound.conns conn

end Sound

theorem Reachable.sound [DecidableEq T] (reachable : Reachable state) : ∃ share, Sound state share := by
  induction reachable with
  | start => exact ⟨_, Sound.start⟩
  | step before step ih =>
    obtain ⟨share, sound⟩ := ih
    exact sound.step step

end Ptp.Sockets

import Mathlib.Logic.Function.Basic
import Ptptl.Library.Runs
import Ptptl.Library.Secrets
import Ptptl.Trut.Auth

set_option autoImplicit false

/-! # Who has been authenticated

Peers and one adversary, who owns a certificate, receives all that is sent and sends what it can
make of it. -/

namespace Trut

open Secrets

/-- An RSA ciphertext, or bytes that no one can decrypt. -/
inductive Sealed (Agent : Type) where
  | nonce (subject : Agent) (value : Nat)
  | junk

inductive Response where
  | digest (nonce : Nat)
  | junk

namespace Authentic

/-- What a peer does or has done with a challenge. -/
inductive Act (Agent : Type) where
  | secret (event : Event Agent)
  -- the answer, in `GetAuth` to an address or in `PutAuth`
  | get (client address : Agent) (nonce : Nat)
  | put (server : Agent) (nonce : Nat)
  -- `PutAuth` is 0 with an identity, by the answer to a challenge
  | accept (server id : Agent) (nonce : Nat)
deriving DecidableEq

variable {Agent : Type}

abbrev Header (Agent : Type) := Fields Agent (Sealed Agent) Response

abbrev Pendings (Agent : Type) := List (Nat × Agent)

structure World (Agent : Type) where
  pending : Agent → Pendings Agent := fun _ => []
  -- the calls of `GetAuth` that wait for their first and for their second answer
  asking : List (Agent × Agent) := []
  answering : List (Agent × Agent) := []
  fresh : Nat := 0
  history : List (Act Agent) := []

def World.trace (world : World Agent) : List (Event Agent) :=
  world.history.filterMap fun act =>
    match act with
    | .secret event => some event
    | _ => none

variable [DecidableEq Agent]

def decrypt (agent : Agent) : Sealed Agent → Option Nat
  | .nonce subject value => if subject = agent then some value else none
  | .junk => none

def peer (store : Agent → Agent → Bool) (agent : Agent) :
    Auth (Pendings Agent) Agent Agent Nat (Sealed Agent) Response where
  find name := if store agent name then some name else none
  challenge pending id nonce := ((nonce, id) :: pending, .nonce id nonce)
  respond chal :=
    match decrypt agent chal with
    | none => .junk
    | some nonce => .digest nonce
  verify pending resp :=
    match resp with
    | .junk => (pending, none)
    | .digest nonce =>
      match pending.find? fun entry => entry.1 = nonce with
      | none => (pending, none)
      | some entry => (pending.erase entry, some entry.2)

@[simp] theorem peer_challenge (store : Agent → Agent → Bool) (agent id : Agent)
    (pending : Pendings Agent) (nonce : Nat) :
    (peer store agent).challenge pending id nonce = ((nonce, id) :: pending, .nonce id nonce) :=
  rfl

def issued (agent : Agent) : Sealed Agent → List (Act Agent)
  | .nonce subject value => [.secret (.issue agent subject value)]
  | .junk => []

def answered (agent : Agent) (act : Nat → Act Agent) : Response → List (Act Agent)
  | .digest nonce => [act nonce, .secret (.answer agent nonce)]
  | .junk => []

def accepted (server id : Agent) : Option Response → List (Act Agent)
  | some (.digest nonce) => [.accept server id nonce]
  | _ => []

def World.sendable (world : World Agent) (hdr : Header Agent) : Bool :=
  (match hdr.challenge with
    | some (.nonce subject value) => knowsChallenge world.trace value subject
    | _ => true) &&
  (match hdr.response with
    | some (.digest nonce) => knowsResponse world.trace nonce
    | _ => true)

inductive Op (Agent : Type) where
  -- `PutAuth` on a header
  | put (server : Agent) (hdr : Header Agent)
  -- `GetAuth`: its first request, and what it does with the two answers
  | connect (client address : Agent)
  | get (client address : Agent) (hdr : Header Agent)
  | finish (client address : Agent) (hdr : Header Agent)
  | expire (agent : Agent) (entry : Nat × Agent)
  | invent
  | reveal (nonce : Nat)

section

variable (store : Agent → Agent → Bool) (adversary : Agent)

def World.put (world : World Agent) (server : Agent) (hdr : Header Agent) : World Agent :=
  let (pending, result) := putAuth (peer store server) (world.pending server) hdr world.fresh
  let world := { world with pending := Function.update world.pending server pending }
  match result with
  | .refused => world
  | .unsecured => world
  | .challenged chal =>
    { world with
      fresh := world.fresh + 1
      history := issued server chal ++ world.history }
  | .accepted id resp =>
    { world with
      history := answered server (.put server) resp ++ (accepted server id hdr.response ++
        world.history) }

def World.get (world : World Agent) (client address : Agent) (hdr : Header Agent) :
    World Agent :=
  let (pending, result) := getAuth (peer store client) (world.pending client) hdr world.fresh
  let world := { world with
    pending := Function.update world.pending client pending
    asking := world.asking.erase (client, address) }
  match result with
  | none => world
  | some (_, chal, resp) =>
    { world with
      answering := (client, address) :: world.answering
      fresh := world.fresh + 1
      history := answered client (.get client address) resp ++ (issued client chal ++
        world.history) }

def World.finish (world : World Agent) (client address : Agent) (hdr : Header Agent) :
    World Agent :=
  let (pending, _) := getAuthEnd (peer store client) (world.pending client) hdr
  { world with
    pending := Function.update world.pending client pending
    answering := world.answering.erase (client, address) }

def step (world : World Agent) : Op Agent → Except Unit (World Agent × List Unit)
  -- an operation that is not possible is an error
  | .put server hdr =>
    if server ≠ adversary ∧ world.sendable hdr then .ok (world.put store server hdr, [])
    else .error ()
  | .connect client address =>
    if client ≠ adversary then
      .ok ({ world with asking := (client, address) :: world.asking }, [])
    else .error ()
  | .get client address hdr =>
    if (client, address) ∈ world.asking ∧ world.sendable hdr then
      .ok (world.get store client address hdr, [])
    else .error ()
  | .finish client address hdr =>
    if (client, address) ∈ world.answering ∧ world.sendable hdr then
      .ok (world.finish store client address hdr, [])
    else .error ()
  | .expire agent entry =>
    .ok ({ world with
      pending := Function.update world.pending agent ((world.pending agent).erase entry) }, [])
  | .invent =>
    .ok ({ world with
      fresh := world.fresh + 1
      history := .secret (.invent world.fresh) :: world.history }, [])
  | .reveal nonce =>
    if knowsChallenge world.trace nonce adversary then
      .ok ({ world with history := .secret (.reveal nonce) :: world.history }, [])
    else .error ()

abbrev Run : World Agent → List (Runs.Turn (World Agent) (Op Agent) Unit) → World Agent → Prop :=
  Runs.Run (step store adversary)

end

/-- A response in the history was made by a call of `GetAuth` or `PutAuth`. -/
def Answers (history : List (Act Agent)) (agent : Agent) (nonce : Nat) : Prop :=
  (∃ address, .get agent address nonce ∈ history) ∨ .put agent nonce ∈ history

structure Sound (adversary : Agent) (world : World Agent) : Prop where
  valid : Valid adversary world.trace
  fresh : ∀ event ∈ world.trace, event.nonce < world.fresh
  pending : ∀ agent nonce id, (nonce, id) ∈ world.pending agent →
    .secret (.issue agent id nonce) ∈ world.history
  answers : ∀ agent nonce, .secret (.answer agent nonce) ∈ world.history →
    Answers world.history agent nonce
  accepts : ∀ server id nonce, .accept server id nonce ∈ world.history → id ≠ adversary →
    .secret (.issue server id nonce) ∈ world.history ∧
      .secret (.answer id nonce) ∈ world.history

omit [DecidableEq Agent] in
theorem mem_trace {world : World Agent} {event : Event Agent} :
    event ∈ world.trace ↔ .secret event ∈ world.history := by
  simp only [World.trace, List.mem_filterMap]
  constructor
  · rintro ⟨act, member, same⟩
    cases act with
    | secret other => exact Option.some.inj same ▸ member
    | get _ _ _ => simp at same
    | put _ _ => simp at same
    | accept _ _ _ => simp at same
  · exact fun member => ⟨_, member, rfl⟩

theorem verify_spec (store : Agent → Agent → Bool) (agent : Agent) (pending : Pendings Agent)
    (resp : Response) :
    (∀ entry ∈ ((peer store agent).verify pending resp).1, entry ∈ pending) ∧
      ∀ id, ((peer store agent).verify pending resp).2 = some id →
        ∃ nonce, resp = .digest nonce ∧ (nonce, id) ∈ pending := by
  cases resp with
  | junk => exact ⟨fun _ member => member, fun id same => by simp [peer] at same⟩
  | digest nonce =>
    cases found : pending.find? fun entry => entry.1 = nonce with
    | none => simp [peer, found]
    | some entry =>
      have named := List.find?_some found
      simp only [peer, found]
      refine ⟨fun other member => List.mem_of_mem_erase member, fun id same => ⟨nonce, rfl, ?_⟩⟩
      have equal : entry = (nonce, id) := Prod.ext (by simpa using named) (Option.some.inj same)
      exact equal ▸ List.mem_of_find?_eq_some found

theorem Sound.fewer {adversary : Agent} {world next : World Agent} (sound : Sound adversary world)
    (history : next.history = world.history) (fresh : next.fresh = world.fresh)
    (pending : ∀ agent, ∀ entry ∈ next.pending agent, entry ∈ world.pending agent) :
    Sound adversary next := by
  have trace : next.trace = world.trace := by simp only [World.trace, history]
  refine ⟨trace ▸ sound.valid, ?_, ?_, ?_, ?_⟩
  · rw [trace, fresh]
    exact sound.fresh
  · rw [history]
    exact fun agent nonce id member => sound.pending agent nonce id (pending agent _ member)
  · rw [history]
    exact sound.answers
  · rw [history]
    exact sound.accepts

theorem Sound.record {adversary : Agent} {world next : World Agent} (sound : Sound adversary world)
    (event : Event Agent) (nonce : event.nonce = world.fresh) (fresh : next.fresh = world.fresh + 1)
    (history : next.history = .secret event :: world.history)
    (other : ∀ agent value, event ≠ .answer agent value)
    (valid : Valid adversary (event :: world.trace))
    (pending : ∀ agent, ∀ entry ∈ next.pending agent, entry ∈ world.pending agent ∨
      event = .issue agent entry.2 entry.1) : Sound adversary next := by
  have trace : next.trace = event :: world.trace := by simp [World.trace, history]
  have grown : ∀ act ∈ world.history, act ∈ next.history := by
    rw [history]
    exact fun act member => List.mem_cons_of_mem _ member
  refine ⟨trace ▸ valid, ?_, ?_, ?_, ?_⟩
  · rw [trace, fresh]
    intro recorded member
    rcases List.mem_cons.1 member with rfl | member
    · omega
    · exact Nat.lt_succ_of_lt (sound.fresh recorded member)
  · intro agent value id member
    rcases pending agent _ member with old | issue
    · exact grown _ (sound.pending agent value id old)
    · rw [history, issue]
      exact List.mem_cons_self
  · intro agent value member
    rw [history] at member
    rcases List.mem_cons.1 member with same | member
    · exact absurd (Act.secret.inj same).symm (other agent value)
    · rcases sound.answers agent value member with ⟨address, get⟩ | put
      · exact .inl ⟨address, grown _ get⟩
      · exact .inr (grown _ put)
  · intro server id value member honest
    rw [history] at member
    have member := (List.mem_cons.1 member).resolve_left (by simp)
    obtain ⟨issue, answer⟩ := sound.accepts server id value member honest
    exact ⟨grown _ issue, grown _ answer⟩

theorem Sound.unused {adversary : Agent} {world : World Agent} (sound : Sound adversary world) :
    ∀ event ∈ world.trace, event.nonce ≠ world.fresh :=
  fun event member => Nat.ne_of_lt (sound.fresh event member)

theorem Sound.used {adversary agent : Agent} {world : World Agent} (sound : Sound adversary world)
    {nonce : Nat} (known : knowsChallenge world.trace nonce agent = true) : nonce < world.fresh := by
  rcases knowsChallenge_iff.1 known with known | ⟨_, member⟩
  · rcases knowsNonce_iff.1 known with member | member
    · exact sound.fresh _ member
    · exact sound.fresh _ member
  · exact sound.fresh _ member

theorem Sound.answer {adversary : Agent} {world : World Agent} (sound : Sound adversary world)
    {agent : Agent} {nonce : Nat} (known : knowsChallenge world.trace nonce agent = true)
    {act : Act Agent} (shown : Answers [act] agent nonce)
    (other : ∀ server id value, act ≠ .accept server id value)
    (plain : ∀ event, act ≠ .secret event) :
    Sound adversary { world with
      history := act :: .secret (.answer agent nonce) :: world.history } := by
  have trace : World.trace { world with
      history := act :: .secret (.answer agent nonce) :: world.history } =
        .answer agent nonce :: world.trace := by
    cases act with
    | secret event => exact absurd rfl (plain event)
    | get _ _ _ => simp [World.trace]
    | put _ _ => simp [World.trace]
    | accept server id value => exact absurd rfl (other server id value)
  have grown : ∀ old ∈ world.history,
      old ∈ act :: .secret (.answer agent nonce) :: world.history :=
    fun old member => List.mem_cons_of_mem _ (List.mem_cons_of_mem _ member)
  refine ⟨?_, ?_, ?_, ?_, ?_⟩
  · rw [trace]
    exact .answer sound.valid known
  · rw [trace]
    intro event member
    rcases List.mem_cons.1 member with rfl | member
    · exact sound.used known
    · exact sound.fresh event member
  · exact fun agent value id member => grown _ (sound.pending agent value id member)
  · intro subject value member
    have member := (List.mem_cons.1 member).resolve_left (Ne.symm (plain _))
    rcases List.mem_cons.1 member with same | member
    · obtain ⟨rfl, rfl⟩ := Event.answer.inj (Act.secret.inj same)
      rcases shown with ⟨address, get⟩ | put
      · exact .inl ⟨address, List.mem_singleton.1 get ▸ List.mem_cons_self⟩
      · exact .inr (List.mem_singleton.1 put ▸ List.mem_cons_self)
    · rcases sound.answers subject value member with ⟨address, get⟩ | put
      · exact .inl ⟨address, grown _ get⟩
      · exact .inr (grown _ put)
  · intro server id value member honest
    have member := (List.mem_cons.1 member).resolve_left (Ne.symm (other _ _ _))
    have member := (List.mem_cons.1 member).resolve_left (by simp)
    obtain ⟨issue, answer⟩ := sound.accepts server id value member honest
    exact ⟨grown _ issue, grown _ answer⟩

theorem Sound.accept {adversary : Agent} {world : World Agent} (sound : Sound adversary world)
    {server id : Agent} {nonce : Nat} (pending : (nonce, id) ∈ world.pending server)
    (known : knowsResponse world.trace nonce = true) :
    Sound adversary { world with history := .accept server id nonce :: world.history } := by
  have issue := sound.pending server nonce id pending
  have trace : World.trace { world with history := .accept server id nonce :: world.history } =
      world.trace := by simp [World.trace]
  have grown : ∀ old ∈ world.history, old ∈ Act.accept server id nonce :: world.history :=
    fun old member => List.mem_cons_of_mem _ member
  refine ⟨?_, ?_, ?_, ?_, ?_⟩
  · rw [trace]
    exact sound.valid
  · rw [trace]
    exact sound.fresh
  · exact fun agent value other member => grown _ (sound.pending agent value other member)
  · intro subject value member
    have member := (List.mem_cons.1 member).resolve_left (by simp)
    rcases sound.answers subject value member with ⟨address, get⟩ | put
    · exact .inl ⟨address, grown _ get⟩
    · exact .inr (grown _ put)
  · intro other subject value member honest
    rcases List.mem_cons.1 member with same | member
    · obtain ⟨rfl, rfl, rfl⟩ := Act.accept.inj same
      have answer := sound.valid.answered (mem_trace.2 issue) honest known
      exact ⟨grown _ issue, grown _ (mem_trace.1 answer)⟩
    · obtain ⟨issue, answer⟩ := sound.accepts other subject value member honest
      exact ⟨grown _ issue, grown _ answer⟩

theorem Sound.respond {adversary : Agent} {world : World Agent} (sound : Sound adversary world)
    (store : Agent → Agent → Bool) (agent : Agent) (chal : Sealed Agent)
    (known : ∀ subject value, chal = .nonce subject value →
      knowsChallenge world.trace value subject = true)
    (act : Nat → Act Agent) (shown : ∀ nonce, Answers [act nonce] agent nonce)
    (other : ∀ nonce server id value, act nonce ≠ .accept server id value)
    (plain : ∀ nonce event, act nonce ≠ .secret event) :
    Sound adversary { world with
      history := answered agent act ((peer store agent).respond chal) ++ world.history } := by
  cases chal with
  | junk => exact sound
  | nonce subject value =>
    by_cases mine : subject = agent
    · subst mine
      have same : (peer store subject).respond (.nonce subject value) = .digest value := by
        simp [peer, decrypt]
      rw [same]
      exact sound.answer (known subject value rfl) (shown value) (other value) (plain value)
    · have same : (peer store agent).respond (.nonce subject value) = .junk := by
        simp [peer, decrypt, mine]
      rw [same]
      exact sound

theorem sendable_iff {world : World Agent} {hdr : Header Agent} :
    world.sendable hdr = true ↔
      (∀ subject value, hdr.challenge = some (.nonce subject value) →
        knowsChallenge world.trace value subject = true) ∧
      ∀ nonce, hdr.response = some (.digest nonce) → knowsResponse world.trace nonce = true := by
  simp only [World.sendable, Bool.and_eq_true]
  refine and_congr ?_ ?_
  · cases hdr.challenge with
    | none => simp
    | some chal => cases chal <;> simp
  · cases hdr.response with
    | none => simp
    | some resp => cases resp <;> simp

variable {store : Agent → Agent → Bool} {adversary : Agent}

theorem update_fewer {world : World Agent} {agent : Agent} {pending : Pendings Agent}
    (fewer : ∀ entry ∈ pending, entry ∈ world.pending agent) (other : Agent) :
    ∀ entry ∈ Function.update world.pending agent pending other, entry ∈ world.pending other := by
  by_cases same : other = agent
  · subst same
    simpa using fewer
  · simp [same]

theorem update_issue {world : World Agent} {agent id : Agent} {nonce : Nat} (other : Agent) :
    ∀ entry ∈ Function.update world.pending agent ((nonce, id) :: world.pending agent) other,
      entry ∈ world.pending other ∨
        Event.issue agent id nonce = .issue other entry.2 entry.1 := by
  by_cases same : other = agent
  · subst same
    intro entry member
    simp only [Function.update_self] at member
    rcases List.mem_cons.1 member with rfl | member
    · exact .inr rfl
    · exact .inl member
  · intro entry member
    exact .inl (by simpa [same] using member)

theorem put_sound {world : World Agent} (sound : Sound adversary world) {server : Agent}
    {hdr : Header Agent} (sendable : world.sendable hdr = true) :
    Sound adversary (world.put store server hdr) := by
  have known := sendable_iff.1 sendable
  have same : Sound adversary { world with
      pending := Function.update world.pending server (world.pending server) } :=
    sound.fewer rfl rfl (update_fewer fun _ member => member)
  by_cases secure : hdr.secure
  · cases named : hdr.identity with
    | some rkey =>
      cases found : (peer store server).find rkey with
      | none => simpa [World.put, putAuth, secure, named, found] using same
      | some rid =>
        have issue : Sound adversary { world with
            pending := Function.update world.pending server
              ((world.fresh, rid) :: world.pending server)
            fresh := world.fresh + 1
            history := .secret (.issue server rid world.fresh) :: world.history } :=
          sound.record (.issue server rid world.fresh) rfl rfl rfl (by simp)
            (.issue sound.valid server rid sound.unused) update_issue
        simpa [World.put, putAuth, secure, named, found, issued] using issue
    | none =>
      cases response : hdr.response with
      | none => simpa [World.put, putAuth, secure, named, response] using same
      | some rresp =>
        cases challenge : hdr.challenge with
        | none => simpa [World.put, putAuth, secure, named, response, challenge] using same
        | some rchal =>
          obtain ⟨fewer, verified⟩ :=
            verify_spec store server (world.pending server) rresp
          cases verify : (peer store server).verify (world.pending server) rresp with
          | mk pending context =>
            rw [verify] at fewer verified
            cases context with
            | none =>
              have refused : Sound adversary { world with
                  pending := Function.update world.pending server pending } :=
                sound.fewer rfl rfl (update_fewer fewer)
              simpa [World.put, putAuth, secure, named, response, challenge, verify] using refused
            | some rid =>
              obtain ⟨nonce, rfl, member⟩ := verified rid rfl
              have accept := sound.accept member (known.2 nonce response)
              have respond := accept.respond store server rchal
                (fun subject value equal => by
                  simpa [World.trace] using known.1 subject value (challenge.trans (congrArg _ equal)))
                (.put server) (fun nonce => .inr List.mem_cons_self) (by simp) (by simp)
              have done : Sound adversary { world with
                  pending := Function.update world.pending server pending
                  history := answered server (.put server) ((peer store server).respond rchal) ++
                    (.accept server rid nonce :: world.history) } :=
                respond.fewer rfl rfl (update_fewer fewer)
              simpa [World.put, putAuth, secure, named, response, challenge, verify, accepted]
                using done
  · simpa [World.put, putAuth, secure] using same

theorem get_sound {world : World Agent} (sound : Sound adversary world) {client address : Agent}
    {hdr : Header Agent} (sendable : world.sendable hdr = true) :
    Sound adversary (world.get store client address hdr) := by
  have known := sendable_iff.1 sendable
  have dropped : Sound adversary { world with
      pending := Function.update world.pending client (world.pending client)
      asking := world.asking.erase (client, address) } :=
    sound.fewer rfl rfl (update_fewer fun _ member => member)
  cases named : hdr.identity with
  | none => simpa [World.get, getAuth, named] using dropped
  | some rkey =>
    cases challenge : hdr.challenge with
    | none => simpa [World.get, getAuth, named, challenge] using dropped
    | some rchal =>
      cases found : (peer store client).find rkey with
      | none => simpa [World.get, getAuth, named, challenge, found] using dropped
      | some rid =>
        have issue : Sound adversary { world with
            pending := Function.update world.pending client
              ((world.fresh, rid) :: world.pending client)
            asking := world.asking.erase (client, address)
            answering := (client, address) :: world.answering
            fresh := world.fresh + 1
            history := .secret (.issue client rid world.fresh) :: world.history } :=
          sound.record (.issue client rid world.fresh) rfl rfl rfl (by simp)
            (.issue sound.valid client rid sound.unused) update_issue
        have respond := issue.respond store client rchal
          (fun subject value equal => by
            have old := known.1 subject value (challenge.trans (congrArg _ equal))
            rcases knowsChallenge_iff.1 old with secret | ⟨issuer, member⟩
            · refine knowsChallenge_iff.2 (.inl (knowsNonce_iff.2 ?_))
              simpa [World.trace] using knowsNonce_iff.1 secret
            · refine knowsChallenge_iff.2 (.inr ⟨issuer, mem_trace.2 ?_⟩)
              exact List.mem_cons_of_mem _ (mem_trace.1 member))
          (.get client address) (fun nonce => .inl ⟨address, List.mem_cons_self⟩) (by simp)
          (by simp)
        simpa [World.get, getAuth, named, challenge, found, issued] using respond

theorem reveal_sound {world : World Agent} (sound : Sound adversary world) {nonce : Nat}
    (known : knowsChallenge world.trace nonce adversary = true) :
    Sound adversary { world with history := .secret (.reveal nonce) :: world.history } := by
  have trace : World.trace { world with history := .secret (.reveal nonce) :: world.history } =
      .reveal nonce :: world.trace := by simp [World.trace]
  have grown : ∀ old ∈ world.history, old ∈ Act.secret (.reveal nonce) :: world.history :=
    fun old member => List.mem_cons_of_mem _ member
  refine ⟨?_, ?_, ?_, ?_, ?_⟩
  · rw [trace]
    exact .reveal sound.valid known
  · rw [trace]
    intro event member
    rcases List.mem_cons.1 member with rfl | member
    · exact sound.used known
    · exact sound.fresh event member
  · exact fun agent value id member => grown _ (sound.pending agent value id member)
  · intro subject value member
    have member := (List.mem_cons.1 member).resolve_left (by simp)
    rcases sound.answers subject value member with ⟨address, get⟩ | put
    · exact .inl ⟨address, grown _ get⟩
    · exact .inr (grown _ put)
  · intro server id value member honest
    have member := (List.mem_cons.1 member).resolve_left (by simp)
    obtain ⟨issue, answer⟩ := sound.accepts server id value member honest
    exact ⟨grown _ issue, grown _ answer⟩

theorem getAuthEnd_fewer (store : Agent → Agent → Bool) (agent : Agent)
    (pending : Pendings Agent) (hdr : Header Agent) :
    ∀ entry ∈ (getAuthEnd (peer store agent) pending hdr).1, entry ∈ pending := by
  unfold getAuthEnd
  split
  next => exact fun _ member => member
  next rresp _ => exact (verify_spec store agent pending rresp).1

theorem finish_sound {world : World Agent} (sound : Sound adversary world)
    {client address : Agent} (hdr : Header Agent) :
    Sound adversary (world.finish store client address hdr) :=
  sound.fewer rfl rfl (update_fewer (getAuthEnd_fewer store client _ hdr))

theorem step_sound {world next : World Agent} {op : Op Agent} {outputs : List Unit}
    (sound : Sound adversary world) (stepped : step store adversary world op = .ok (next, outputs)) :
    Sound adversary next := by
  cases op with
  | put server hdr =>
    simp only [step] at stepped
    split at stepped
    next enabled =>
      simp only [Except.ok.injEq, Prod.mk.injEq] at stepped
      exact stepped.1 ▸ put_sound sound enabled.2
    next => simp at stepped
  | connect client address =>
    simp only [step] at stepped
    split at stepped
    next =>
      simp only [Except.ok.injEq, Prod.mk.injEq] at stepped
      exact stepped.1 ▸ sound.fewer rfl rfl fun _ _ member => member
    next => simp at stepped
  | get client address hdr =>
    simp only [step] at stepped
    split at stepped
    next enabled =>
      simp only [Except.ok.injEq, Prod.mk.injEq] at stepped
      exact stepped.1 ▸ get_sound sound enabled.2
    next => simp at stepped
  | finish client address hdr =>
    simp only [step] at stepped
    split at stepped
    next =>
      simp only [Except.ok.injEq, Prod.mk.injEq] at stepped
      exact stepped.1 ▸ finish_sound sound hdr
    next => simp at stepped
  | expire agent entry =>
    simp only [step, Except.ok.injEq, Prod.mk.injEq] at stepped
    exact stepped.1 ▸ sound.fewer rfl rfl (update_fewer fun _ => List.mem_of_mem_erase)
  | invent =>
    simp only [step, Except.ok.injEq, Prod.mk.injEq] at stepped
    exact stepped.1 ▸ sound.record (.invent world.fresh) rfl rfl rfl (by simp)
      (.invent sound.valid sound.unused) fun _ _ member => .inl member
  | reveal nonce =>
    simp only [step] at stepped
    split at stepped
    next known =>
      simp only [Except.ok.injEq, Prod.mk.injEq] at stepped
      exact stepped.1 ▸ reveal_sound sound known
    next => simp at stepped

theorem start_sound : Sound adversary ({} : World Agent) := by
  refine ⟨.nil, ?_, ?_, ?_, ?_⟩
  all_goals simp [World.trace]

theorem accepted_answered {world : World Agent}
    {turns : List (Runs.Turn (World Agent) (Op Agent) Unit)}
    (run : Run store adversary {} turns world) :
    ∀ server id nonce, .accept server id nonce ∈ world.history → id ≠ adversary →
      .secret (.issue server id nonce) ∈ world.history ∧ Answers world.history id nonce := by
  have sound := run.stable (Sound adversary) step_sound start_sound
  intro server id nonce member honest
  obtain ⟨issue, answer⟩ := sound.accepts server id nonce member honest
  exact ⟨issue, sound.answers id nonce answer⟩

def asked : Op Nat := .put 0 { secure := true, identity := some 1 }

def relayed : Op Nat :=
  .get 1 2 { secure := true, identity := some 2, challenge := some (.nonce 1 0) }

def presented : Op Nat :=
  .put 0 { secure := true, response := some (.digest 0), challenge := some .junk }

theorem accepted_answered_relayed : ∃ (turns : List (Runs.Turn (World Nat) (Op Nat) Unit))
    (world : World Nat), Run (fun _ _ => true) 2 {} turns world ∧
      .accept 0 1 0 ∈ world.history ∧
      .secret (.issue 0 1 0) ∈ world.history ∧ Answers world.history 1 0 := by
  have run : Run (fun _ _ => true) 2 {}
    [⟨_, asked, _⟩, ⟨_, .connect 1 2, _⟩, ⟨_, relayed, _⟩, ⟨_, presented, _⟩] _ :=
    .cons rfl (.cons rfl (.cons rfl (.cons rfl (.nil _))))
  exact ⟨_, _, run, List.mem_cons_self,
    accepted_answered run 0 1 0 List.mem_cons_self (by decide)⟩

/-- Agent 1 never asked agent 0 for anything. -/
theorem accepted_relayed : ¬ ∀ (turns : List (Runs.Turn (World Nat) (Op Nat) Unit))
    (world : World Nat), Run (fun _ _ => true) 2 {} turns world →
      ∀ server id nonce, .accept server id nonce ∈ world.history → id ≠ 2 →
        .get id server nonce ∈ world.history := by
  intro always
  have run : Run (fun _ _ => true) 2 {}
    [⟨_, asked, _⟩, ⟨_, .connect 1 2, _⟩, ⟨_, relayed, _⟩, ⟨_, presented, _⟩] _ :=
    .cons rfl (.cons rfl (.cons rfl (.cons rfl (.nil _))))
  have member := always _ _ run 0 1 0 List.mem_cons_self (by decide)
  exact absurd member (by decide)

end Authentic

end Trut

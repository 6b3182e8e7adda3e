import Mathlib.Data.List.Basic

set_option autoImplicit false

/-! # Challenges and responses under ideal encryption

A challenge is a nonce encrypted for an agent, a response the digest of the nonce. One agent is the
adversary, who gets everything that is sent. -/

namespace Secrets

inductive Event (Agent : Type) where
  | issue (issuer subject : Agent) (nonce : Nat)
  | answer (subject : Agent) (nonce : Nat)
  -- the adversary makes a nonce, or decrypts a challenge to it
  | invent (nonce : Nat)
  | reveal (nonce : Nat)
deriving DecidableEq

variable {Agent : Type} [DecidableEq Agent]

def Event.nonce : Event Agent → Nat
  | .issue _ _ nonce => nonce
  | .answer _ nonce => nonce
  | .invent nonce => nonce
  | .reveal nonce => nonce

section

variable (trace : List (Event Agent)) (nonce : Nat)

def knowsNonce : Bool := decide (.invent nonce ∈ trace) || decide (.reveal nonce ∈ trace)

def knowsChallenge (subject : Agent) : Bool :=
  knowsNonce trace nonce || trace.any fun event =>
    match event with
    | .issue _ whom other => decide (whom = subject ∧ other = nonce)
    | _ => false

def knowsResponse : Bool :=
  knowsNonce trace nonce || trace.any fun event =>
    match event with
    | .answer _ other => decide (other = nonce)
    | _ => false

end

inductive Valid (adversary : Agent) : List (Event Agent) → Prop where
  | nil : Valid adversary []
  | issue {trace : List (Event Agent)} (valid : Valid adversary trace) (issuer subject : Agent)
    {nonce : Nat} (fresh : ∀ event ∈ trace, event.nonce ≠ nonce) :
    Valid adversary (.issue issuer subject nonce :: trace)
  | answer {trace : List (Event Agent)} (valid : Valid adversary trace) {subject : Agent}
    {nonce : Nat} (received : knowsChallenge trace nonce subject = true) :
    Valid adversary (.answer subject nonce :: trace)
  | invent {trace : List (Event Agent)} (valid : Valid adversary trace) {nonce : Nat}
    (fresh : ∀ event ∈ trace, event.nonce ≠ nonce) : Valid adversary (.invent nonce :: trace)
  | reveal {trace : List (Event Agent)} (valid : Valid adversary trace) {nonce : Nat}
    (received : knowsChallenge trace nonce adversary = true) :
    Valid adversary (.reveal nonce :: trace)

theorem knowsNonce_iff {trace : List (Event Agent)} {nonce : Nat} :
    knowsNonce trace nonce = true ↔ .invent nonce ∈ trace ∨ .reveal nonce ∈ trace := by
  simp [knowsNonce]

theorem knowsChallenge_iff {trace : List (Event Agent)} {nonce : Nat} {subject : Agent} :
    knowsChallenge trace nonce subject = true ↔
      knowsNonce trace nonce = true ∨ ∃ issuer, .issue issuer subject nonce ∈ trace := by
  simp only [knowsChallenge, Bool.or_eq_true, List.any_eq_true]
  refine or_congr_right ⟨?_, ?_⟩
  · rintro ⟨event, member, same⟩
    cases event with
    | issue issuer whom other =>
      obtain ⟨rfl, rfl⟩ := of_decide_eq_true same
      exact ⟨issuer, member⟩
    | answer _ _ => simp at same
    | invent _ => simp at same
    | reveal _ => simp at same
  · rintro ⟨issuer, member⟩
    exact ⟨_, member, by simp⟩

theorem knowsResponse_iff {trace : List (Event Agent)} {nonce : Nat} :
    knowsResponse trace nonce = true ↔
      knowsNonce trace nonce = true ∨ ∃ subject, .answer subject nonce ∈ trace := by
  simp only [knowsResponse, Bool.or_eq_true, List.any_eq_true]
  refine or_congr_right ⟨?_, ?_⟩
  · rintro ⟨event, member, same⟩
    cases event with
    | issue _ _ _ => simp at same
    | answer subject other =>
      obtain rfl := of_decide_eq_true same
      exact ⟨subject, member⟩
    | invent _ => simp at same
    | reveal _ => simp at same
  · rintro ⟨subject, member⟩
    exact ⟨_, member, by simp⟩

variable {adversary subject : Agent} {trace : List (Event Agent)} {nonce : Nat}

/-- A nonce issued to one agent is issued to no other, and the adversary does not have it unless
it is for the adversary. -/
theorem Valid.secret (valid : Valid adversary trace) {issuer : Agent}
    (issued : .issue issuer subject nonce ∈ trace) :
    (∀ issuer' other, .issue issuer' other nonce ∈ trace → other = subject) ∧
      (subject ≠ adversary → ¬ knowsNonce trace nonce = true) := by
  induction valid with
  | nil => simp at issued
  | @issue trace valid issuer' whom new fresh ih =>
    rcases List.mem_cons.1 issued with same | issued
    · obtain ⟨rfl, rfl, rfl⟩ := Event.issue.inj same
      refine ⟨fun by' other member => ?_, fun _ known => ?_⟩
      · rcases List.mem_cons.1 member with same | member
        · exact (Event.issue.inj same).2.1
        · exact absurd rfl (fresh _ member)
      · rcases knowsNonce_iff.1 known with member | member
        · exact absurd rfl (fresh _ ((List.mem_cons.1 member).resolve_left (by simp)))
        · exact absurd rfl (fresh _ ((List.mem_cons.1 member).resolve_left (by simp)))
    · have different : nonce ≠ new := fun same => absurd same (fresh _ issued)
      refine ⟨fun by' other member => ?_, fun honest known => ?_⟩
      · rcases List.mem_cons.1 member with same | member
        · exact absurd (Event.issue.inj same).2.2 different
        · exact (ih issued).1 by' other member
      · refine (ih issued).2 honest ?_
        simpa [knowsNonce] using known
  | @answer trace valid by' other received ih =>
    have issued := (List.mem_cons.1 issued).resolve_left (by simp)
    refine ⟨fun issuer' whom member => ?_, fun honest known => ?_⟩
    · exact (ih issued).1 issuer' whom ((List.mem_cons.1 member).resolve_left (by simp))
    · refine (ih issued).2 honest ?_
      simpa [knowsNonce] using known
  | @invent trace valid new fresh ih =>
    have issued := (List.mem_cons.1 issued).resolve_left (by simp)
    have different : nonce ≠ new := fun same => absurd same (fresh _ issued)
    refine ⟨fun issuer' whom member => ?_, fun honest known => ?_⟩
    · exact (ih issued).1 issuer' whom ((List.mem_cons.1 member).resolve_left (by simp))
    · refine (ih issued).2 honest ?_
      simpa [knowsNonce, different] using known
  | @reveal trace valid other received ih =>
    have earlier := (List.mem_cons.1 issued).resolve_left (by simp)
    refine ⟨fun issuer' whom member => ?_, fun honest known => ?_⟩
    · exact (ih earlier).1 issuer' whom ((List.mem_cons.1 member).resolve_left (by simp))
    · by_cases same : nonce = other
      · -- only a challenge to the adversary is revealed
        subst same
        rcases knowsChallenge_iff.1 received with known | ⟨_, member⟩
        · exact (ih earlier).2 honest known
        · exact honest ((ih earlier).1 _ _ member).symm
      · refine (ih earlier).2 honest ?_
        simpa [knowsNonce, same] using known

/-- A response to a challenge for an honest agent is known only when that agent has answered. -/
theorem Valid.answered (valid : Valid adversary trace) {issuer : Agent}
    (issued : .issue issuer subject nonce ∈ trace) (honest : subject ≠ adversary)
    (known : knowsResponse trace nonce = true) : .answer subject nonce ∈ trace := by
  induction valid with
  | nil => simp at issued
  | @issue trace valid issuer' whom new fresh ih =>
    have old : ∀ event ∈ trace, event.nonce = nonce → .answer subject nonce ∈ trace := by
      intro event member same
      have different : new ≠ nonce := fun equal => fresh event member (same.trans equal.symm)
      rcases List.mem_cons.1 issued with equal | issued
      · exact absurd (Event.issue.inj equal).2.2.symm different
      · refine ih issued ?_
        simpa [knowsResponse, knowsNonce] using known
    rcases knowsResponse_iff.1 known with secret | ⟨by', member⟩
    · exact absurd secret ((Valid.issue valid issuer' whom fresh).secret issued |>.2 honest)
    · have member := (List.mem_cons.1 member).resolve_left (by simp)
      exact List.mem_cons_of_mem _ (old _ member rfl)
  | @answer trace valid by' other received ih =>
    have issued := (List.mem_cons.1 issued).resolve_left (by simp)
    by_cases same : other = nonce
    · subst same
      rcases knowsChallenge_iff.1 received with secret | ⟨_, member⟩
      · exact absurd secret ((valid.secret issued).2 honest)
      · rw [(valid.secret issued).1 _ _ member]
        exact List.mem_cons_self
    · refine List.mem_cons_of_mem _ (ih issued ?_)
      simpa [knowsResponse, knowsNonce, same] using known
  | @invent trace valid new fresh ih =>
    have issued := (List.mem_cons.1 issued).resolve_left (by simp)
    have different : nonce ≠ new := fun same => absurd same (fresh _ issued)
    refine List.mem_cons_of_mem _ (ih issued ?_)
    simpa [knowsResponse, knowsNonce, different] using known
  | @reveal trace valid other received ih =>
    have whole := Valid.reveal valid received
    rcases knowsResponse_iff.1 known with secret | ⟨by', member⟩
    · exact absurd secret ((whole.secret issued).2 honest)
    · have issued := (List.mem_cons.1 issued).resolve_left (by simp)
      have member := (List.mem_cons.1 member).resolve_left (by simp)
      exact List.mem_cons_of_mem _ (ih issued (knowsResponse_iff.2 (.inr ⟨by', member⟩)))

end Secrets

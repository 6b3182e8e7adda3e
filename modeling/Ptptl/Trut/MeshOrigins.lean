import Ptptl.Trut.MeshRuns

set_option autoImplicit false

/-! # Where packets come from -/

open Ptp Trut Gnutella

namespace Mesh

/-- What a packet was sent for at an end that `owner` has; `other` has the far end. -/
inductive Origin (ulong : Nat) (evp : Cipher) (past : List Turn) (owner other : Nat)
    (e : Endpoint) : Bytes → Prop where
  | message {text : Bytes} (message : text = connectRequest ∨ text = connectResponse) :
    Origin ulong evp past owner other e text
  | search {rqst : Bytes} {turn : Turn} (member : turn ∈ past) {op : Peer.Op} {after : Peer}
    (same : turn.op = .own owner op)
    (stepped : (turn.state.peers owner).step ulong evp op = .ok (after, turn.outputs))
    (sent : .search rqst ∈ turn.outputs) (told : kind rqst = some .request) :
    Origin ulong evp past owner other e rqst
  | answer {rqst resp : Bytes} {before after : List Turn} {answered asking : Turn}
    (split : past = before ++ answered :: after) {heap : Nat → Byte} {answering : Answering}
    (same : answered.op = .turn e heap answering)
    (responded : respond evp (answered.state.peers owner).trut answering rqst = .ok (some resp))
    (answers : kind resp = some .response) (member : asking ∈ before) {op : Peer.Op} {peer : Peer}
    (call : asking.op = .own other op)
    (stepped : (asking.state.peers other).step ulong evp op = .ok (peer, asking.outputs))
    (sent : .search rqst ∈ asking.outputs) : Origin ulong evp past owner other e resp

/-- The call that a search comes from. -/
def Calls (past : List Turn) (peer : Nat) (search : SearchContext) : Prop :=
  ∃ turn ∈ past, ∃ op, turn.op = .own peer op ∧ op.guid = some search.guid ∧
    ∀ context, search.callback = .user context →
      ∃ str iv, op = .search str context search.group search.guid iv

structure Known (ulong : Nat) (evp : Cipher) (past : List Turn) (mesh : Mesh) : Prop where
  wired : mesh.Wired
  origin : ∀ e, ∀ text ∈ mesh.sent e,
    Origin ulong evp past (mesh.owner e) (mesh.owner e.far) e text
  searches : ∀ peer, ∀ search ∈ (mesh.peers peer).searches, Calls past peer search

section

variable {ulong : Nat} {evp : Cipher} {mesh next : Mesh} {e : Endpoint} {outputs : List Peer.Output}
  {past : List Turn} {owner other : Nat} {text : Bytes}

theorem Origin.mono (origin : Origin ulong evp past owner other e text) (more : List Turn) :
    Origin ulong evp (past ++ more) owner other e text := by
  cases origin with
  | message message => exact .message message
  | search member same stepped sent told =>
    exact .search (List.mem_append_left _ member) same stepped sent told
  | answer split same responded answers member call stepped sent =>
    have longer := congrArg (· ++ more) split
    simp only [List.append_assoc, List.cons_append] at longer
    exact .answer longer same responded answers member call stepped sent

theorem Origin.not_message {kind' : Kind} (told : kind text = some kind')
    (other : kind' = .response ∨ kind' = .request) :
    ¬ (text = connectRequest ∨ text = connectResponse) := by
  rintro (rfl | rfl) <;> rcases other with rfl | rfl <;> exact absurd told (by decide)

theorem Origin.asked (origin : Origin ulong evp past owner other e text)
    (told : kind text = some .request) : ∃ asking ∈ past, ∃ op peer,
      asking.op = .own owner op ∧
        (asking.state.peers owner).step ulong evp op = .ok (peer, asking.outputs) ∧
        .search text ∈ asking.outputs := by
  cases origin with
  | message message => exact absurd message (not_message told (.inr rfl))
  | search member same stepped sent => exact ⟨_, member, _, _, same, stepped, sent⟩
  | answer _ _ _ answers => exact absurd (told.symm.trans answers) (by decide)

theorem Origin.answered (origin : Origin ulong evp past owner other e text)
    (told : kind text = some .response) :
    ∃ before answered after heap answering rqst asking op peer,
      past = before ++ answered :: after ∧ answered.op = .turn e heap answering ∧
      respond evp (answered.state.peers owner).trut answering rqst = .ok (some text) ∧
      asking ∈ before ∧ asking.op = .own other op ∧
      (asking.state.peers other).step ulong evp op = .ok (peer, asking.outputs) ∧
      .search rqst ∈ asking.outputs := by
  cases origin with
  | message message => exact absurd message (not_message told (.inl rfl))
  | search _ _ _ _ other => exact absurd (told.symm.trans other) (by decide)
  | answer split same responded _ member call stepped sent =>
    exact ⟨_, _, _, _, _, _, _, _, _, split, same, responded, member, call, stepped, sent⟩

theorem Calls.mono {peer : Nat} {search : SearchContext} (calls : Calls past peer search)
    {later : List Turn} (turns : past ⊆ later) : Calls later peer search := by
  obtain ⟨turn, member, rest⟩ := calls
  exact ⟨turn, turns member, rest⟩

theorem handled_searches {peer after : Peer} {answering : Answering} {reply : Option Bytes}
    (handled : Peer.Handled evp peer answering text after outputs reply)
    {search : SearchContext} (member : search ∈ after.searches) : search ∈ peer.searches := by
  cases handled with
  | connect | request | other => exact member
  | response told handled =>
    have stepped : peer.step 0 evp (.response text) = .ok (after, outputs) := handled
    rcases Peer.step_searches stepped member with
      before | ⟨_, _, _, _, other, _⟩ | ⟨_, _, _, other, _⟩
    · exact before
    · contradiction
    · contradiction

theorem Known.origins {op : Op} (known : Known ulong evp past mesh) (proper : mesh.Proper op)
    (moved : Moved ulong evp mesh op next outputs) : ∀ e, ∀ text ∈ next.sent e,
      Origin ulong evp (past ++ [⟨mesh, op, outputs⟩]) (next.owner e) (next.owner e.far) e
        text := by
  have here : (⟨mesh, op, outputs⟩ : Turn) ∈ past ++ [⟨mesh, op, outputs⟩] := by simp
  -- what was sent before keeps where it came from
  have kept {peers : Nat → Peer} {sent got : Endpoint → List Bytes}
      (change : Change mesh next peers sent got) (e : Endpoint)
      (text : Bytes) (member : text ∈ mesh.sent e) :
      Origin ulong evp (past ++ [⟨mesh, op, outputs⟩]) (next.owner e) (next.owner e.far) e
        text := by
    have made : e.conn < mesh.allocated := by
      by_contra unused
      simp [(known.wired.unused e (Nat.not_lt.1 unused)).1] at member
    rw [change.owner e made, change.owner e.far made]
    exact (known.origin e text member).mono _
  cases moved with
  | idle _ change =>
    intro e text member
    rw [change.sent] at member
    exact kept change e text member
  | @own _ caller op peer _ _ stepped change =>
    intro e text member
    rw [change.sent] at member
    rcases List.mem_append.1 member with member | member
    · exact kept change e text member
    · split at member
      next host =>
        obtain ⟨inside, owner⟩ := List.mem_filter.1 host
        have owner := of_decide_eq_true owner
        have made := known.wired.alive e (List.mem_append_left _ inside)
        have sent := mem_searches.1 member
        rw [change.owner e made, owner]
        refine .search here rfl stepped sent ?_
        obtain ⟨guid, packed, asks, rfl⟩ := Peer.step_guid stepped sent
        obtain ⟨long, plain⟩ := proper guid asks
        exact Host.kind_packet long plain 0x80 _
      next => simp at member
  | dial _ _ _ _ change =>
    intro e text member
    rw [change.sent] at member
    by_cases same : e = ⟨mesh.allocated, false⟩
    · subst same
      rw [Function.update_self, List.mem_singleton] at member
      exact .message (.inl member)
    · rw [Function.update_of_ne same] at member
      exact kept change e text member
  | @dialed _ e piece heap order change =>
    intro other text member
    rw [change.sent] at member
    exact kept change other text member
  | @turn _ e answering piece peer _ reply heap _ made framed order handled change =>
    intro other text member
    rw [change.sent] at member
    by_cases same : other = e
    · subst same
      rw [Function.update_self] at member
      rcases List.mem_append.1 member with member | member
      · exact kept change other text member
      · cases reply with
        | none => simp at member
        | some reply =>
          obtain rfl : text = Host.frame reply := by simpa using member
          rcases handled.sends framed proper.2 with ⟨-, message⟩ |
            ⟨told, responded, same, -, answers⟩
          · exact .message (.inr message)
          · -- what is answered came from the end that the answer goes to
            have from_ := known.origin other.far piece (order.subset (by simp))
            rw [Endpoint.far_far] at from_
            obtain ⟨asking, member, op, peer, call, stepped, sent⟩ := from_.asked told
            rw [same, change.owner other made, change.owner other.far made]
            exact .answer rfl rfl responded answers member call stepped sent
    · rw [Function.update_of_ne same] at member
      exact kept change other text member

theorem Known.step {op : Op} (known : Known ulong evp past mesh) (proper : mesh.Proper op)
    (stepped : mesh.step ulong evp op = .ok (next, outputs)) :
    Known ulong evp (past ++ [⟨mesh, op, outputs⟩]) next := by
  obtain ⟨wired, moved⟩ := Wired.step known.wired proper stepped
  refine ⟨wired, known.origins proper moved, ?_⟩
  have turns : past ⊆ past ++ [⟨mesh, op, outputs⟩] := List.subset_append_left _ _
  have here : (⟨mesh, op, outputs⟩ : Turn) ∈ past ++ [⟨mesh, op, outputs⟩] := by simp
  have kept {peer : Nat} {search : SearchContext} (member : search ∈ (mesh.peers peer).searches) :=
    (known.searches peer search member).mono turns
  intro peer search member
  cases moved with
  | idle _ change | dial _ _ _ _ change | dialed _ _ change =>
    rw [change.peers] at member
    exact kept member
  | @own _ caller op after _ _ called change =>
    rw [change.peers] at member
    by_cases own : peer = caller
    · subst own
      rw [Function.update_self] at member
      rcases Peer.step_searches called member with before |
        ⟨name, join, accept, ref, rfl, key⟩ | ⟨str, context, iv, rfl, user⟩
      · exact kept before
      · exact ⟨_, here, _, rfl, rfl, fun context user => by simp [key] at user⟩
      · refine ⟨_, here, _, rfl, rfl, fun other same => ?_⟩
        obtain rfl : context = other := by simpa [user] using same
        exact ⟨str, iv, rfl⟩
    · rw [Function.update_of_ne own] at member
      exact kept member
  | @turn _ e _ _ _ _ _ _ _ _ _ _ handled change =>
    rw [change.peers] at member
    by_cases own : peer = mesh.owner e
    · subst own
      rw [Function.update_self] at member
      exact kept (handled_searches handled member)
    · rw [Function.update_of_ne own] at member
      exact kept member

/-- Calls of a peer that have one identifier are the same. -/
def Distinct (turns : List Turn) : Prop :=
  ∀ first ∈ turns, ∀ second ∈ turns, ∀ peer op other, first.op = .own peer op →
    second.op = .own peer other → op.guid ≠ none → op.guid = other.guid → op = other

namespace Pair

end Pair

end

end Mesh

import Ptptl.Trut.Put

set_option autoImplicit false

/-! # Which requests the file server answers -/

namespace Trut

open Ptp Ptp.Collection

section

variable {Id : Type} (getName : Id → Option CString) (disk : Disk) (ulong : Nat) (trut : Trut)
  (hdr : Bytes)

def isGets : Prop := ascii "GET /gets/" <+: hdr

instance : Decidable (isGets hdr) := inferInstanceAs (Decidable (_ <+: _))

/-- The client of a request that passes `PutAuth`. -/
def passed (client : Id) : Option Id := if isGets hdr then some client else none

/-- The header behind `GET /gets/`, and what of it belongs to the URL. -/
def getsStart : Bytes := hdr.drop (ascii "GET /gets/").length

def getsUrl : Bytes := (getsStart hdr).takeWhile fun char => !isspace char

def getsName : Bytes := (getsStart hdr).takeWhile (· ≠ slash)

def getsRef : Nat := strtoulHex ulong ((getsStart hdr).drop ((getsName hdr).length + 1))

inductive Nowhere : Prop where
  | number (get : ascii "GET /get/" <+: hdr)
      (missing : trut.collect.find (strtoul ulong (hdr.drop (ascii "GET /get/").length)) = none)
  | unended (gets : isGets hdr) (single : slash ∉ getsUrl hdr)
  | unknown (gets : isGets hdr) (group : trut.findGroup (getsName hdr) = none)
  | shared (gets : isGets hdr) (missing : trut.collect.find (getsRef ulong hdr) = none)

/-- `PutThread` replies, and with 404 to a URL that leads nowhere. -/
def Answers (resp : Bytes) (client : Id) : Prop :=
  ∃ reply, putThread getName disk ulong trut hdr resp (passed hdr client) = some reply ∧
    (Nowhere ulong trut hdr → reply = .notFound)

/-- The condition on a request to a group: there is a slash, and under the key of a known group an
entry; the slash is in the URL, or the entry is a key that is refused. -/
def Answerable (client : Id) : Prop :=
  isGets hdr → slash ∈ getsStart hdr ∧
    ∀ group, trut.findGroup (getsName hdr) = some group → group.key.isSome →
      ∃ entry, trut.collect.find (getsRef ulong hdr) = some entry ∧
        (slash ∈ getsUrl hdr ∨
          isKey entry.getName.val = true ∧ group.rejects getName (some client) = true)

end

section

variable {Id : Type} {getName : Id → Option CString} {disk : Disk} {ulong : Nat} {trut : Trut}
  {hdr resp : Bytes} {client : Id}

theorem not_get (gets : isGets hdr) : ¬ ascii "GET /get/" <+: hdr := by
  intro get
  have front := List.prefix_of_prefix_length_le get gets (by decide)
  exact absurd front (by decide)

theorem parseRequest_gets (gets : isGets hdr) : parseRequest ulong hdr =
    if slash ∈ getsStart hdr then some (.gets (getsName hdr) (getsRef ulong hdr)) else none := by
  have start : ascii "GET /gets/" <+: hdr := gets
  simp only [parseRequest, if_neg (not_get gets), if_pos start]
  rfl

theorem sendEntry_client (entry : Entry) (key : Option SessionKey) :
    sendEntry disk resp entry key (some client) ≠ .notFound := by
  unfold sendEntry contentLength
  cases entry.content with
  | data name data => simp
  | file path size =>
    simp only
    cases disk.atData path with
    | none => simp
    | some source => cases key <;> simp

theorem not_nowhere (gets : isGets hdr) (url : slash ∈ getsUrl hdr) {group : Group} {entry : Entry}
    (named : trut.findGroup (getsName hdr) = some group)
    (found : trut.collect.find (getsRef ulong hdr) = some entry) : ¬ Nowhere ulong trut hdr := by
  rintro (⟨get, _⟩ | ⟨_, single⟩ | ⟨_, unknown⟩ | ⟨_, missing⟩)
  · exact not_get gets get
  · exact single url
  · simp [named] at unknown
  · simp [found] at missing

theorem answers_other (other : ¬ isGets hdr) :
    Answers getName disk ulong trut hdr resp client := by
  have start : ¬ ascii "GET /gets/" <+: hdr := other
  unfold Answers putThread parseRequest
  by_cases get : ascii "GET /get/" <+: hdr
  next =>
    simp only [if_pos get]
    cases found : trut.collect.find (strtoul ulong (hdr.drop (ascii "GET /get/").length)) with
    | none => exact ⟨_, rfl, fun _ => rfl⟩
    | some entry =>
      refine ⟨_, rfl, ?_⟩
      rintro (⟨_, missing⟩ | ⟨gets, _⟩ | ⟨gets, _⟩ | ⟨gets, _⟩)
      · simp [found] at missing
      · exact absurd gets other
      · exact absurd gets other
      · exact absurd gets other
  next =>
    simp only [if_neg get, if_neg start]
    exact ⟨_, rfl, fun _ => rfl⟩

theorem answers_group (gets : isGets hdr) (slashed : slash ∈ getsStart hdr) {group : Group}
    {key : SessionKey} (named : trut.findGroup (getsName hdr) = some group)
    (keyed : group.key = some key) :
    Answers getName disk ulong trut hdr resp client ↔
      ∃ entry, trut.collect.find (getsRef ulong hdr) = some entry ∧
        (slash ∈ getsUrl hdr ∨
          isKey entry.getName.val = true ∧ group.rejects getName (some client) = true) := by
  have passes : passed hdr client = some client := if_pos gets
  unfold Answers putThread
  simp only [parseRequest_gets gets, if_pos slashed, named, keyed, passes]
  cases found : trut.collect.find (getsRef ulong hdr) with
  | none => simp
  | some entry =>
    simp only [Option.some.injEq, exists_eq_left']
    constructor
    next =>
      intro nowhere
      by_cases url : slash ∈ getsUrl hdr
      next => exact .inl url
      next =>
        -- what is sent to a client is no 404
        have refused := nowhere (.unended gets url)
        cases name : isKey entry.getName.val with
        | false =>
          rw [name, if_neg (by simp)] at refused
          exact absurd refused (sendEntry_client entry (some key))
        | true =>
          rw [name, if_pos rfl] at refused
          cases rejects : group.rejects getName (some client) with
          | false =>
            rw [rejects, if_neg (by simp)] at refused
            exact absurd refused (sendEntry_client entry none)
          | true => exact .inr ⟨rfl, rfl⟩
    next =>
      rintro (url | ⟨name, rejects⟩)
      · intro nowhere
        exact absurd nowhere (not_nowhere gets url named found)
      · intro _
        rw [name, if_pos rfl, rejects, if_pos rfl]

/-- A request is answered exactly if the code comes to no NULL and to no other text than its URL. -/
theorem putThread_answers_iff (getName : Id → Option CString) (disk : Disk) (ulong : Nat)
    (trut : Trut) (hdr resp : Bytes) (client : Id) :
    Answers getName disk ulong trut hdr resp client ↔
      Answerable getName ulong trut hdr client := by
  by_cases gets : isGets hdr
  next =>
    have passes : passed hdr client = some client := if_pos gets
    by_cases slashed : slash ∈ getsStart hdr
    next =>
      simp only [Answerable, gets, forall_const, slashed, true_and]
      cases named : trut.findGroup (getsName hdr) with
      | none =>
        refine iff_of_true ?_ (by simp)
        unfold Answers putThread
        simp only [parseRequest_gets gets, if_pos slashed, named]
        exact ⟨_, rfl, fun _ => rfl⟩
      | some group =>
        simp only [Option.some.injEq, forall_eq']
        cases keyed : group.key with
        | none =>
          refine iff_of_true ?_ (by simp)
          unfold Answers putThread
          simp only [parseRequest_gets gets, if_pos slashed, named, keyed]
          exact ⟨_, rfl, fun _ => rfl⟩
        | some key =>
          simp only [Option.isSome_some, forall_const]
          exact answers_group gets slashed named keyed
    next =>
      simp [Answers, Answerable, putThread, parseRequest_gets gets, gets, slashed]
  next =>
    exact iff_of_true (answers_other gets) fun other => absurd other gets

end

/-- The number of no entry, for a client that authenticated: `GetName` of a NULL. -/
theorem putThread_unanswered :
    (putThread (fun _ : Unit => none) noDisk 4294967296 joined
        (ascii "GET /gets/friends/00ff HTTP/1.0\r\n\r\n") [] (some ()) = none ∧
      Nowhere 4294967296 joined (ascii "GET /gets/friends/00ff HTTP/1.0\r\n\r\n")) ∧
    ¬ ∀ (trut : Trut) (hdr resp : Bytes) (client : Unit),
      Answers (fun _ => none) noDisk 4294967296 trut hdr resp client := by
  have lost : putThread (fun _ : Unit => none) noDisk 4294967296 joined
      (ascii "GET /gets/friends/00ff HTTP/1.0\r\n\r\n") [] (some ()) = none := rfl
  refine ⟨⟨lost, .shared (by decide) (by decide +kernel)⟩, ?_⟩
  intro all
  obtain ⟨reply, sent, _⟩ := all joined (ascii "GET /gets/friends/00ff HTTP/1.0\r\n\r\n") [] ()
  have passes : passed (ascii "GET /gets/friends/00ff HTTP/1.0\r\n\r\n") () = some () := rfl
  rw [passes, lost] at sent
  contradiction

end Trut

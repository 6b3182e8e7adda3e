import Ptptl.Ptp.Identity

set_option autoImplicit false

namespace Ptp

/-- A pending response; `serial` tells allocations apart, as their addresses do. -/
structure Pending (Context : Type) where
  serial : Nat
  resp : Digest
  expire : Nat
  context : Option Context

def Pending.alive {Context : Type} (now : Nat) (entry : Pending Context) : Bool :=
  decide (now < entry.expire)

structure Authenticator (Context : Type) where
  pending : List (Pending Context) := []
  allocated : Nat := 0

namespace Authenticator

def challengeSize : Nat := Identity.ciphertextSize

variable {pki : Pki} {Context : Type}

/-- `unsigned long` has `ulong` values; `nonce` is what `Random::Fill` returns. -/
def challenge (sha1 : Bytes → Digest) (ulong : Nat) (auth : Authenticator Context)
    (id : Option (Identity pki)) (expire : Nat) (context : Option Context) (chal : Bool)
    (nonce : Block Identity.plaintextSize) (now : Nat) : Int × Authenticator Context :=
  match id with
  | none => (-1, auth)
  | some id =>
      if chal then
        if (id.encrypt nonce.val).1 ≠ challengeSize then (-1, auth)
        else
          let entry : Pending Context :=
            { serial := auth.allocated, resp := sha1 nonce.val, expire := (now + expire) % ulong,
              context := context }
          (challengeSize, { pending := entry :: auth.pending, allocated := auth.allocated + 1 })
      else (challengeSize, auth)

/-- `Respond` with a buffer for the response, which a failure leaves as it was. -/
def respond (sha1 : Bytes → Digest) (privateDecrypt : pki.PrivateKey → Bytes → Option Bytes)
    (localId : Option (Identity pki)) (chal : Option Bytes) : Option Digest := do
  let chal ← chal
  let localId ← localId
  let (size, nonce) := localId.decrypt privateDecrypt chal
  if size ≠ Identity.plaintextSize then none
  else nonce.map sha1

def challengeData (id : Identity pki) (nonce : Block Identity.plaintextSize)
    (junk : Block challengeSize) : Block challengeSize :=
  -- a failure leaves what the buffer held
  (id.encrypt nonce.val).2.elim junk (Block.ofBytes challengeSize)

def responseData (sha1 : Bytes → Digest) (privateDecrypt : pki.PrivateKey → Bytes → Option Bytes)
    (localId : Option (Identity pki)) (chal : Block challengeSize) (junk : Digest) : Digest :=
  -- a failure leaves what the buffer held
  (respond sha1 privateDecrypt localId (some chal.val)).getD junk

/-- The matching entry and the list that `PTP_LIST_FOREACH` leaves. -/
def verifyLoop (now : Nat) (resp : Digest) :
    List (Pending Context) → Option (Pending Context) × List (Pending Context)
  | [] => (none, [])
  | entry :: rest =>
      if entry.expire ≤ now then verifyLoop now resp rest
      else if entry.resp = resp then (some entry, rest)
      else
        let (found, kept) := verifyLoop now resp rest
        (found, entry :: kept)

def verify (auth : Authenticator Context) (resp : Option Digest) (now : Nat) :
    Option (Pending Context) × Authenticator Context :=
  match resp with
  | none => (none, auth)
  | some resp =>
      let (found, pending) := verifyLoop now resp auth.pending
      (found, { auth with pending := pending })

def verifyContext (auth : Authenticator Context) (resp : Option Digest) (now : Nat) :
    Option Context :=
  (auth.verify resp now).1.bind Pending.context

theorem verifyLoop_found (now : Nat) (resp : Digest) (pending : List (Pending Context)) :
    (verifyLoop now resp pending).1 =
      (pending.filter (Pending.alive now)).find? fun entry => entry.resp = resp := by
  induction pending with
  | nil => rfl
  | cons entry rest ih =>
    by_cases expired : entry.expire ≤ now
    next => simp [verifyLoop, Pending.alive, expired, ih]
    next =>
      by_cases same : entry.resp = resp <;>
        simp [verifyLoop, Pending.alive, expired, same, ih, Nat.lt_of_not_le]

theorem verifyLoop_kept (now : Nat) (resp : Digest) (pending : List (Pending Context)) :
    (verifyLoop now resp pending).2.filter (Pending.alive now) =
      (pending.filter (Pending.alive now)).eraseP fun entry => entry.resp = resp := by
  induction pending with
  | nil => rfl
  | cons entry rest ih =>
    by_cases expired : entry.expire ≤ now
    next => simp [verifyLoop, Pending.alive, expired, ih]
    next =>
      by_cases same : entry.resp = resp <;>
        simp [verifyLoop, Pending.alive, expired, same, ih, Nat.lt_of_not_le]

end Authenticator

/-! # Every challenge of a run -/

structure Issue (Context : Type) where
  serial : Nat
  time : Nat
  lifetime : Nat
  nonce : Bytes
  context : Option Context

def Issue.pending {Context : Type} (sha1 : Bytes → Digest) (issue : Issue Context) :
    Pending Context :=
  { serial := issue.serial, resp := sha1 issue.nonce, expire := issue.time + issue.lifetime,
    context := issue.context }

/-- The challenges issued and the serials that `Verify` consumed, newest first. -/
structure Ledger (Context : Type) where
  issued : List (Issue Context) := []
  consumed : List Nat := []

namespace Ledger

variable {pki : Pki} {Context : Type}

def unconsumed (ledger : Ledger Context) (serial : Nat) : Bool :=
  decide (serial ∉ ledger.consumed)

/-- What may still be answered; nothing is ever removed from `issued`. -/
def outstanding (sha1 : Bytes → Digest) (ledger : Ledger Context) (now : Nat) :
    List (Pending Context) :=
  (ledger.issued.map (Issue.pending sha1)).filter fun entry =>
    ledger.unconsumed entry.serial && entry.alive now

def consume (ledger : Ledger Context) (found : Option (Pending Context)) : Ledger Context :=
  match found with
  | none => ledger
  | some entry => { ledger with consumed := entry.serial :: ledger.consumed }

def issue (ledger : Ledger Context) (issue : Issue Context) (result : Int) (chal : Bool) :
    Ledger Context :=
  if chal ∧ result = Authenticator.challengeSize then
    { ledger with issued := issue :: ledger.issued }
  else ledger

/-- The pending list is the ledger's outstanding challenges and some expired ones. -/
structure Represents (sha1 : Bytes → Digest) (auth : Authenticator Context)
    (ledger : Ledger Context) (now : Nat) : Prop where
  live : auth.pending.filter (Pending.alive now) = ledger.outstanding sha1 now
  fresh : ∀ issue ∈ ledger.issued, issue.serial < auth.allocated
  known : ∀ serial ∈ ledger.consumed, serial < auth.allocated
  ordered : ledger.issued.Pairwise fun newer older => older.serial < newer.serial
  once : ledger.consumed.Nodup

theorem Represents.later {sha1 : Bytes → Digest} {auth : Authenticator Context}
    {ledger : Ledger Context} {last now : Nat} (represents : Represents sha1 auth ledger last)
    (later : last ≤ now) : Represents sha1 auth ledger now where
  live := by
    have narrower := congrArg (List.filter (Pending.alive now)) represents.live
    have both (entry : Pending Context) :
        (entry.alive now && entry.alive last) = entry.alive now := by
      simp only [Pending.alive]
      grind
    simp only [outstanding, List.filter_filter] at narrower ⊢
    simp only [both] at narrower
    rw [narrower]
    congr 1
    funext entry
    rw [Bool.and_left_comm, both]
  fresh := represents.fresh
  known := represents.known
  ordered := represents.ordered
  once := represents.once

theorem Represents.start (sha1 : Bytes → Digest) (now : Nat) :
    Represents sha1 ({} : Authenticator Context) {} now where
  live := rfl
  fresh := by simp
  known := by simp
  ordered := .nil
  once := .nil

theorem Represents.challenge {sha1 : Bytes → Digest} {auth : Authenticator Context}
    {ledger : Ledger Context} {last now ulong expire : Nat}
    (represents : Represents sha1 auth ledger last) (later : last ≤ now)
    (noWrap : now + expire < ulong) (id : Option (Identity pki)) (context : Option Context)
    (chal : Bool) (nonce : Block Identity.plaintextSize) :
    Represents sha1 (auth.challenge sha1 ulong id expire context chal nonce now).2
      (ledger.issue
        { serial := auth.allocated, time := now, lifetime := expire, nonce := nonce.val,
          context := context }
        (auth.challenge sha1 ulong id expire context chal nonce now).1 chal) now := by
  have current := represents.later later
  have failing : ¬ (-1 : Int) = Authenticator.challengeSize := by decide
  cases id with
  | none => simpa [Authenticator.challenge, issue, failing] using current
  | some id =>
    cases chal with
    | false => simpa [Authenticator.challenge, issue] using current
    | true =>
      by_cases encrypted : (id.encrypt nonce.val).1 = Authenticator.challengeSize
      next =>
        have unused : auth.allocated ∉ ledger.consumed :=
          fun member => Nat.lt_irrefl _ (represents.known _ member)
        have unwrapped := Nat.mod_eq_of_lt noWrap
        simp only [Authenticator.challenge, issue, encrypted, ne_eq, not_true_eq_false, if_true,
          if_false, and_self, unwrapped]
        refine ⟨?_, ?_, ?_, ?_, represents.once⟩
        · have live := current.live
          simp only [outstanding, unconsumed, List.map_cons, List.filter_cons] at live ⊢
          rw [live]
          simp [Issue.pending, Pending.alive, unused]
        · intro issue member
          rcases List.mem_cons.1 member with rfl | member
          · exact Nat.lt_succ_self _
          · exact Nat.lt_succ_of_lt (represents.fresh issue member)
        · exact fun serial member => Nat.lt_succ_of_lt (represents.known serial member)
        · exact List.pairwise_cons.2 ⟨represents.fresh, represents.ordered⟩
      next =>
        simpa [Authenticator.challenge, issue, encrypted, failing] using current

theorem Represents.serials {sha1 : Bytes → Digest} {auth : Authenticator Context}
    {ledger : Ledger Context} {now : Nat} (represents : Represents sha1 auth ledger now) :
    (ledger.outstanding sha1 now).Pairwise fun newer older => older.serial < newer.serial := by
  apply List.Pairwise.filter
  rw [List.pairwise_map]
  exact represents.ordered

theorem Represents.found {sha1 : Bytes → Digest} {auth : Authenticator Context}
    {ledger : Ledger Context} {now : Nat} (represents : Represents sha1 auth ledger now)
    (resp : Digest) :
    (auth.verify (some resp) now).1 =
      (ledger.outstanding sha1 now).find? fun entry => entry.resp = resp := by
  simp only [Authenticator.verify, Authenticator.verifyLoop_found, represents.live]

theorem outstanding_mem {sha1 : Bytes → Digest} {ledger : Ledger Context} {now : Nat}
    {entry : Pending Context} :
    entry ∈ ledger.outstanding sha1 now ↔ ∃ issue ∈ ledger.issued,
      issue.pending sha1 = entry ∧ issue.serial ∉ ledger.consumed ∧
        now < issue.time + issue.lifetime := by
  simp only [outstanding, List.mem_filter, List.mem_map, unconsumed, Pending.alive,
    Bool.and_eq_true, decide_eq_true_eq]
  constructor
  · rintro ⟨⟨issue, issued, rfl⟩, unused, alive⟩
    exact ⟨issue, issued, rfl, unused, alive⟩
  · rintro ⟨issue, issued, rfl, unused, alive⟩
    exact ⟨⟨issue, issued, rfl⟩, unused, alive⟩

theorem eraseP_eq_filter {entries : List (Pending Context)} {resp : Digest}
    {entry : Pending Context}
    (ordered : entries.Pairwise fun newer older => older.serial < newer.serial)
    (found : entries.find? (fun entry => entry.resp = resp) = some entry) :
    entries.eraseP (fun entry => entry.resp = resp) =
      entries.filter fun other => decide (other.serial ≠ entry.serial) := by
  induction entries with
  | nil => simp at found
  | cons head rest ih =>
    obtain ⟨below, ordered⟩ := List.pairwise_cons.1 ordered
    by_cases same : head.resp = resp
    next =>
      simp only [List.find?_cons, same, decide_true, Option.some.injEq] at found
      subst found
      have others : rest.filter (fun other => decide (other.serial ≠ head.serial)) = rest := by
        apply List.filter_eq_self.2
        intro other member
        have := below other member
        simp only [decide_eq_true_eq]
        omega
      simp only [List.eraseP_cons, same, decide_true, List.filter_cons, ne_eq,
        not_true_eq_false, decide_false, Bool.false_eq_true, if_false]
      exact others.symm
    next =>
      simp only [List.find?_cons, same, decide_false] at found
      have member := List.mem_of_find?_eq_some found
      have less := below entry member
      have differ : head.serial ≠ entry.serial := by omega
      simp [same, differ, ih ordered found]

theorem Represents.verify {sha1 : Bytes → Digest} {auth : Authenticator Context}
    {ledger : Ledger Context} {last now : Nat} (represents : Represents sha1 auth ledger last)
    (later : last ≤ now) (resp : Option Digest) :
    Represents sha1 (auth.verify resp now).2 (ledger.consume (auth.verify resp now).1) now := by
  have current := represents.later later
  cases resp with
  | none => exact current
  | some resp =>
    have found := current.found resp
    have kept := Authenticator.verifyLoop_kept now resp auth.pending
    rw [current.live] at kept
    cases answer : (ledger.outstanding sha1 now).find? fun entry => entry.resp = resp with
    | none =>
      rw [answer] at found
      have unchanged := List.eraseP_of_forall_not (List.find?_eq_none.1 answer)
      rw [found]
      exact ⟨kept.trans unchanged, current.fresh, current.known, current.ordered, current.once⟩
    | some entry =>
      rw [answer] at found
      have member := outstanding_mem.1 (List.mem_of_find?_eq_some answer)
      obtain ⟨issue, issued, rfl, unused, alive⟩ := member
      rw [found]
      refine ⟨?_, current.fresh, ?_, current.ordered, List.nodup_cons.2 ⟨unused, current.once⟩⟩
      · rw [eraseP_eq_filter current.serials answer] at kept
        refine Eq.trans kept ?_
        simp only [outstanding, List.filter_filter, consume, unconsumed, Issue.pending,
          List.mem_cons, not_or]
        apply List.filter_congr
        intro other _
        by_cases same : other.serial = issue.serial <;> simp [same]
      · intro serial member
        rcases List.mem_cons.1 member with rfl | member
        · exact current.fresh issue issued
        · exact current.known serial member

inductive Run (pki : Pki) (sha1 : Bytes → Digest) (ulong : Nat) :
    Authenticator Context → Ledger Context → Nat → Prop where
  | start (now : Nat) : Run pki sha1 ulong {} {} now
  | challenge {auth : Authenticator Context} {ledger : Ledger Context} {last now : Nat}
      (prior : Run pki sha1 ulong auth ledger last) (later : last ≤ now)
      (id : Option (Identity pki)) (expire : Nat) (noWrap : now + expire < ulong)
      (context : Option Context) (chal : Bool) (nonce : Block Identity.plaintextSize) :
      Run pki sha1 ulong (auth.challenge sha1 ulong id expire context chal nonce now).2
        (ledger.issue
          { serial := auth.allocated, time := now, lifetime := expire, nonce := nonce.val,
            context := context }
          (auth.challenge sha1 ulong id expire context chal nonce now).1 chal) now
  | verify {auth : Authenticator Context} {ledger : Ledger Context} {last now : Nat}
      (prior : Run pki sha1 ulong auth ledger last) (later : last ≤ now)
      (resp : Option Digest) :
      Run pki sha1 ulong (auth.verify resp now).2 (ledger.consume (auth.verify resp now).1) now

theorem Run.represents {sha1 : Bytes → Digest} {ulong : Nat} {auth : Authenticator Context}
    {ledger : Ledger Context} {last : Nat} (run : Run pki sha1 ulong auth ledger last) :
    Represents sha1 auth ledger last := by
  induction run with
  | start now => exact .start sha1 now
  | challenge _ later id expire noWrap context chal nonce ih =>
    exact ih.challenge later noWrap id context chal nonce
  | verify _ later resp ih => exact ih.verify later resp

/-- The challenges that `resp` answers at time `now`. -/
def Answerable (sha1 : Bytes → Digest) (ledger : Ledger Context) (resp : Digest) (now : Nat)
    (issue : Issue Context) : Prop :=
  issue ∈ ledger.issued ∧ sha1 issue.nonce = resp ∧ now < issue.time + issue.lifetime ∧
    issue.serial ∉ ledger.consumed

theorem Represents.answer {sha1 : Bytes → Digest} {auth : Authenticator Context}
    {ledger : Ledger Context} {now : Nat} (represents : Represents sha1 auth ledger now)
    {resp : Digest} {entry : Pending Context}
    (found : (auth.verify (some resp) now).1 = some entry) :
    ∃ latest, ledger.Answerable sha1 resp now latest ∧ latest.pending sha1 = entry ∧
      ∀ issue, ledger.Answerable sha1 resp now issue → issue.serial ≤ latest.serial := by
  rw [represents.found] at found
  have matching := List.find?_some found
  obtain ⟨latest, issued, rfl, unused, alive⟩ :=
    outstanding_mem.1 (List.mem_of_find?_eq_some found)
  refine ⟨latest, ⟨issued, of_decide_eq_true matching, alive, unused⟩, rfl, ?_⟩
  rintro issue ⟨issued', same, alive', unused'⟩
  obtain ⟨newer, older, split, unmatched⟩ := (List.find?_eq_some_iff_append.1 found).2
  have member : issue.pending sha1 ∈ ledger.outstanding sha1 now :=
    outstanding_mem.2 ⟨issue, issued', rfl, unused', alive'⟩
  have ordered := represents.serials
  rw [split] at member ordered
  rcases List.mem_append.1 member with before | after
  · have impossible := unmatched _ before
    simp [Issue.pending, same] at impossible
  · rcases List.mem_cons.1 after with equal | after
    · exact Nat.le_of_eq (congrArg Pending.serial equal)
    · have less := List.rel_of_pairwise_cons (List.pairwise_append.1 ordered).2.1 after
      exact Nat.le_of_lt less

theorem verify_correct {sha1 : Bytes → Digest} {ulong last now : Nat}
    {auth : Authenticator Context} {ledger : Ledger Context}
    (run : Run pki sha1 ulong auth ledger last) (later : last ≤ now) (resp : Digest) :
    -- a returned context belongs to an unexpired, unconsumed challenge
    (∀ context, auth.verifyContext (some resp) now = some context →
      ∃ issue, ledger.Answerable sha1 resp now issue ∧ issue.context = some context) ∧
    -- the newest such challenge is the one consumed, whatever its context
    (∀ issue, ledger.Answerable sha1 resp now issue →
      ∃ latest, ledger.Answerable sha1 resp now latest ∧
        (∀ other, ledger.Answerable sha1 resp now other → other.serial ≤ latest.serial) ∧
        auth.verifyContext (some resp) now = latest.context ∧
        (auth.verify (some resp) now).1 = some (latest.pending sha1)) ∧
    -- no challenge is consumed twice
    (ledger.consume (auth.verify (some resp) now).1).consumed.Nodup ∧
    -- no other unexpired challenge is lost
    (∀ issue ∈ ledger.issued, now < issue.time + issue.lifetime →
      issue.serial ∉ (ledger.consume (auth.verify (some resp) now).1).consumed →
      issue.pending sha1 ∈ (auth.verify (some resp) now).2.pending) := by
  have current := run.represents.later later
  refine ⟨?_, ?_, (run.represents.verify later (some resp)).once, ?_⟩
  · intro context returned
    obtain ⟨entry, found, present⟩ := Option.bind_eq_some_iff.1 returned
    obtain ⟨issue, answerable, rfl, -⟩ := current.answer found
    exact ⟨issue, answerable, present⟩
  · rintro issue ⟨issued, same, alive, unused⟩
    cases found : (auth.verify (some resp) now).1 with
    | none =>
      rw [current.found] at found
      have member : issue.pending sha1 ∈ ledger.outstanding sha1 now :=
        outstanding_mem.2 ⟨issue, issued, rfl, unused, alive⟩
      have unmatched := List.find?_eq_none.1 found _ member
      simp [Issue.pending, same] at unmatched
    | some entry =>
      obtain ⟨latest, answerable, rfl, newest⟩ := current.answer found
      refine ⟨latest, answerable, newest, ?_, rfl⟩
      simp [Authenticator.verifyContext, found, Issue.pending]
  · intro issue issued alive unused
    have live := (run.represents.verify later (some resp)).live
    have member : issue.pending sha1 ∈
        (ledger.consume (auth.verify (some resp) now).1).outstanding sha1 now := by
      refine outstanding_mem.2 ⟨issue, ?_, rfl, unused, alive⟩
      cases (auth.verify (some resp) now).1 <;> exact issued
    rw [← live] at member
    exact (List.mem_filter.1 member).1

def zeroDigest (_ : Bytes) : Digest := Block.zero digestSize

set_option maxRecDepth 2000 in
theorem verify_correct_challenged : ∃ (auth : Authenticator Nat) (ledger : Ledger Nat),
    Run plainPki zeroDigest 4294967296 auth ledger 10 ∧
      ∃ latest, ledger.Answerable zeroDigest (Block.zero _) 30 latest ∧
        latest.context = some 2 ∧
        auth.verifyContext (some (Block.zero _)) 30 = latest.context := by
  have run : Run plainPki zeroDigest 4294967296 _ _ 10 :=
    .challenge (.start 0) (by decide) (some ⟨some (), none⟩) 60 (by decide) (some 2) true
      (Block.zero _)
  obtain ⟨latest, answerable, -, returned, -⟩ :=
    (verify_correct run (by decide : 10 ≤ 30) (Block.zero _)).2.1
      ⟨0, 10, 60, (Block.zero Identity.plaintextSize).val, some 2⟩
      ⟨List.mem_singleton_self _, rfl, by decide, by decide⟩
  refine ⟨_, _, run, latest, answerable, ?_, returned⟩
  rw [← returned]
  rfl

-- two challenges share a response and the newer one carries NULL
set_option maxRecDepth 2000 in
theorem newest_null_hides : ∃ (auth : Authenticator Nat) (ledger : Ledger Nat),
    Run plainPki zeroDigest 4294967296 auth ledger 10 ∧
      (∃ issue, ledger.Answerable zeroDigest (Block.zero _) 30 issue ∧
        issue.context = some 2) ∧
      auth.verifyContext (some (Block.zero _)) 30 = none := by
  have first : Run plainPki zeroDigest 4294967296 _ _ 10 :=
    .challenge (.start 0) (by decide) (some ⟨some (), none⟩) 60 (by decide) (some 2) true
      (Block.zero _)
  have second := first.challenge (Nat.le_refl 10) (some ⟨some (), none⟩) 60
    (by decide : 10 + 60 < 4294967296) none true (Block.zero _)
  refine ⟨_, _, second, ⟨⟨0, 10, 60, (Block.zero Identity.plaintextSize).val, some 2⟩, ?_, rfl⟩, rfl⟩
  exact ⟨List.mem_cons_of_mem _ (List.mem_singleton_self _), rfl, by decide, by decide⟩

end Ledger

end Ptp

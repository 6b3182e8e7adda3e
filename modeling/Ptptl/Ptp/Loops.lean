import Ptptl.Ptp.Authenticator
import Ptptl.Ptp.Collection
import Ptptl.Ptp.Foreach

set_option autoImplicit false

/-! # Loops of the library, on the objects in their lists -/

namespace Ptp

namespace Lists

variable {L E σ : Type} {body : Body L E σ} {choice : E → Decision}

def DecidesBy (body : Body L E σ) (choice : E → Decision) : Prop :=
  ∀ state entry, (body state (.entry entry)).1 = choice entry

theorem DecidesBy.step (decides : DecidesBy body choice) (state : σ) (entry : E) :
    ∃ state', body state (.entry entry) = (choice entry, state') :=
  ⟨(body state (.entry entry)).2, Prod.ext (decides state entry) rfl⟩

theorem DecidesBy.visits_all (decides : DecidesBy body choice)
    (goes : ∀ entry, (choice entry).breaks = false) (entries : List E) (state : σ) :
    (iterate body state entries).visits = entries.map (fun entry => (entry, choice entry)) ∧
      (iterate body state entries).behind = [] := by
  induction entries generalizing state with
  | nil => exact ⟨rfl, rfl⟩
  | cons entry rest ih =>
    obtain ⟨state', decided⟩ := decides.step state entry
    have goes' : ¬ (choice entry).breaks = true := by simp [goes entry]
    rw [iterate_goes rest decided goes']
    exact ⟨congrArg ((entry, choice entry) :: ·) (ih state').1, (ih state').2⟩

theorem DecidesBy.left_filter (decides : DecidesBy body choice)
    (goes : ∀ entry, (choice entry).breaks = false) (entries : List E) (state : σ) :
    (iterate body state entries).left =
      entries.filter fun entry => (choice entry).disposal = .keep := by
  obtain ⟨visits, behind⟩ := decides.visits_all goes entries state
  rw [Iteration.left, visits, behind, List.append_nil, keptOf, List.filter_map, List.map_map]
  exact List.map_id _

theorem DecidesBy.iterator_find (decides : DecidesBy body choice) (entries : List E) (state : σ) :
    (iterate body state entries).iterator = entries.find? fun entry => (choice entry).breaks := by
  induction entries generalizing state with
  | nil => rfl
  | cons entry rest ih =>
    obtain ⟨state', decided⟩ := decides.step state entry
    by_cases breaks : (choice entry).breaks = true
    · rw [iterate_breaks rest decided breaks, List.find?_cons]
      simp [Iteration.iterator, breaks]
    · rw [iterate_goes rest decided breaks, iterator_cons entry breaks, List.find?_cons, ih state']
      simp [breaks]

section

variable [DecidableEq L] [DecidableEq E] {memory : Memory L E} {lists : Abstract L E}
  (represents : Represents memory lists) (list : L) {fuel : Nat}
  (enough : (lists list).length < fuel)

include represents enough

theorem destroy_all (destroys : DecidesBy body fun _ => ⟨.destroy, false⟩) (state : σ) :
    ∃ loop, foreach body list fuel state memory = some loop ∧
      Represents loop.memory (Function.update lists list []) ∧ loop.iterator = none ∧
      ∀ entry ∈ lists list, ¬ loop.memory.Live (.entry entry) := by
  obtain ⟨loop, ran, did⟩ := foreach_refines body represents list enough state
  have visits := (destroys.visits_all (fun _ => rfl) (lists list) state).1
  have left := destroys.left_filter (fun _ => rfl) (lists list) state
  have iterator := destroys.iterator_find (lists list) state
  refine ⟨loop, ran, ?_, ?_, ?_⟩
  · have kept := did.represents
    rw [left] at kept
    simpa using kept
  · rw [did.iterator, iterator]
    simp
  · intro entry member live
    refine ((did.live _).1 live).2 (entry, ⟨.destroy, false⟩) ?_ rfl rfl
    rw [visits]
    exact List.mem_map_of_mem member

theorem rescan_loop (payload : E → Collection.Entry)
    (rescans : DecidesBy body fun entry =>
      ⟨if (payload entry).rescanned then .destroy else .keep, false⟩) (state : σ) :
    ∃ loop entries, foreach body list fuel state memory = some loop ∧
      Represents loop.memory (Function.update lists list entries) ∧
      entries.map payload = ((lists list).map payload).filter fun entry => !entry.rescanned := by
  obtain ⟨loop, ran, did⟩ := foreach_refines body represents list enough state
  refine ⟨loop, _, ran, did.represents, ?_⟩
  rw [rescans.left_filter (fun _ => rfl), List.nil_append, List.filter_map]
  congr 1
  apply List.filter_congr
  intro entry _
  by_cases old : (payload entry).rescanned = true <;> simp [old]

theorem find_loop (payload : E → Collection.Entry) (collect : Collection) (id : Nat)
    (held : collect.entries = (lists list).map payload)
    (finds : DecidesBy body fun entry => ⟨.keep, (payload entry).id = id⟩) (state : σ) :
    ∃ loop, ∃ found : Option E, foreach body list fuel state memory = some loop ∧
      loop.iterator = found.map Node.entry ∧ found.map payload = collect.find id := by
  obtain ⟨loop, ran, did⟩ := foreach_refines body represents list enough state
  refine ⟨loop, _, ran, did.iterator, ?_⟩
  rw [finds.iterator_find, Collection.find, held, List.find?_map]
  rfl

end

/-- The body of `Verify`, which takes the context of the response that it finds. -/
def verifyBody {Context : Type} (payload : E → Pending Context) (now : Nat) (resp : Digest) :
    Body L E (Option (Pending Context))
  | found, .entry entry =>
    if (payload entry).expire ≤ now then (⟨.destroy, false⟩, found)
    else if (payload entry).resp = resp then (⟨.destroy, true⟩, some (payload entry))
    else (⟨.keep, false⟩, found)
  | found, .head _ => (⟨.keep, false⟩, found)

theorem verify_iterate {Context : Type} (payload : E → Pending Context) (now : Nat) (resp : Digest)
    (entries : List E) :
    Authenticator.verifyLoop now resp (entries.map payload) =
      ((iterate (verifyBody (L := L) payload now resp) none entries).state,
        (iterate (verifyBody (L := L) payload now resp) none entries).left.map payload) := by
  induction entries with
  | nil => rfl
  | cons entry rest ih =>
    rw [List.map_cons, Authenticator.verifyLoop, ih]
    by_cases expired : (payload entry).expire ≤ now
    · have decided : verifyBody (L := L) payload now resp none (.entry entry) =
          (⟨.destroy, false⟩, none) := if_pos expired
      rw [if_pos expired, iterate_goes rest decided (by decide)]
      simp [Iteration.left, keptOf_cons]
    · by_cases same : (payload entry).resp = resp
      · have decided : verifyBody (L := L) payload now resp none (.entry entry) =
            (⟨.destroy, true⟩, some (payload entry)) := (if_neg expired).trans (if_pos same)
        rw [if_neg expired, if_pos same, iterate_breaks rest decided rfl]
        simp [Iteration.left, keptOf]
      · have decided : verifyBody (L := L) payload now resp none (.entry entry) =
            (⟨.keep, false⟩, none) := (if_neg expired).trans (if_neg same)
        rw [if_neg expired, if_neg same, iterate_goes rest decided (by decide)]
        simp [Iteration.left, keptOf_cons]

theorem verify_loop {Context : Type} [DecidableEq L] [DecidableEq E] {memory : Memory L E}
    {lists : Abstract L E} (represents : Represents memory lists) (list : L) {fuel : Nat}
    (enough : (lists list).length < fuel) (payload : E → Pending Context) (now : Nat)
    (resp : Digest) :
    ∃ loop entries, foreach (verifyBody payload now resp) list fuel none memory = some loop ∧
      Represents loop.memory (Function.update lists list entries) ∧
      Authenticator.verifyLoop now resp ((lists list).map payload) =
        (loop.state, entries.map payload) := by
  obtain ⟨loop, ran, did⟩ := foreach_refines _ represents list enough none
  refine ⟨loop, _, ran, did.represents, ?_⟩
  rw [did.state, List.nil_append]
  exact verify_iterate payload now resp (lists list)

end Lists

end Ptp

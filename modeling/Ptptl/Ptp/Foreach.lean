import Ptptl.Ptp.Lists

set_option autoImplicit false

/-! # `PTP_LIST_FOREACH` with a body that removes -/

namespace Ptp

namespace Lists

open Rings

variable {L E σ : Type} [DecidableEq L] [DecidableEq E]

/-- What a body does with the visited entry; `destroy` removes and deletes it. -/
inductive Disposal where
  | keep
  | remove
  | destroy
deriving DecidableEq

structure Decision where
  disposal : Disposal
  breaks : Bool

inductive Event (L E : Type) where
  -- `GetNext` of a node
  | follow (node : Node L E)
  -- the body has run
  | visit (node : Node L E) (decision : Decision)

abbrev Body (L E σ : Type) := σ → Node L E → Decision × σ

def dispose (list : L) (memory : Memory L E) (node : Node L E) : Disposal → Option (Memory L E)
  | .keep => some memory
  | .remove => remove list memory (some node)
  | .destroy => (remove list memory (some node)).map fun memory => memory.free node

structure Loop (L E σ : Type) where
  memory : Memory L E
  state : σ
  iterator : Pointer L E
  events : List (Event L E)

def foreachFrom (body : Body L E σ) (list : L) :
    Nat → σ → Memory L E → Pointer L E → Option (Loop L E σ)
  | 0, _, _, _ => none
  | fuel + 1, state, memory, tmp =>
    if isValid list tmp then do
      let node ← tmp
      let next ← getNext memory tmp
      -- a NULL would end the loop with the iterator set
      if next = none then some ⟨memory, state, tmp, [.follow node]⟩
      else
        let (decision, state) := body state node
        let memory ← dispose list memory node decision.disposal
        if decision.breaks then
          some ⟨memory, state, tmp, [.follow node, .visit node decision]⟩
        else
          let loop ← foreachFrom body list fuel state memory next
          some { loop with events := .follow node :: .visit node decision :: loop.events }
    else some ⟨memory, state, none, []⟩

def foreach (body : Body L E σ) (list : L) (fuel : Nat) (state : σ) (memory : Memory L E) :
    Option (Loop L E σ) := do
  let tmp ← getHead memory list
  foreachFrom body list fuel state memory tmp

/-- What a loop over the entries is to do: the visits, and the entries behind a break. -/
structure Iteration (E σ : Type) where
  visits : List (E × Decision)
  behind : List E
  state : σ

def iterate (body : Body L E σ) : σ → List E → Iteration E σ
  | state, [] => ⟨[], [], state⟩
  | state, entry :: rest =>
    let (decision, state) := body state (.entry entry)
    if decision.breaks then ⟨[(entry, decision)], rest, state⟩
    else
      let iteration := iterate body state rest
      { iteration with visits := (entry, decision) :: iteration.visits }

def Iteration.iterator (iteration : Iteration E σ) : Option E :=
  iteration.visits.getLast?.bind fun visit => if visit.2.breaks then some visit.1 else none

def keptOf (visits : List (E × Decision)) : List E :=
  (visits.filter fun visit => visit.2.disposal = .keep).map Prod.fst

def Iteration.left (iteration : Iteration E σ) : List E :=
  keptOf iteration.visits ++ iteration.behind

def eventsOf (visit : E × Decision) : List (Event L E) :=
  [.follow (.entry visit.1), .visit (.entry visit.1) visit.2]

def Spared (visits : List (E × Decision)) (node : Node L E) : Prop :=
  ∀ visit ∈ visits, node = .entry visit.1 → visit.2.disposal ≠ .destroy

/-- A loop that did what it was to do, behind entries that it had passed. -/
structure Did (memory : Memory L E) (lists : Abstract L E) (list : L) (passed : List E)
    (iteration : Iteration E σ) (loop : Loop L E σ) : Prop where
  events : loop.events = iteration.visits.flatMap eventsOf
  state : loop.state = iteration.state
  iterator : loop.iterator = iteration.iterator.map Node.entry
  represents : Represents loop.memory (Function.update lists list (passed ++ iteration.left))
  live : ∀ node, loop.memory.Live node ↔ memory.Live node ∧ Spared iteration.visits node

variable {memory : Memory L E} {lists : Abstract L E} {list : L} {entry : E}

theorem removed_correct {passed rest : List E}
    (represents : Represents memory (Function.update lists list (passed ++ entry :: rest))) :
    ∃ after, remove list memory (some (.entry entry)) = some after ∧
      Leaves memory (Function.update lists list (passed ++ rest)) after := by
  have whole : Function.update lists list (passed ++ entry :: rest) list = passed ++ entry :: rest :=
    Function.update_self ..
  obtain ⟨after, removed, leaves⟩ := remove_between represents list whole
  rw [Function.update_idem] at leaves
  exact ⟨after, removed, leaves⟩

omit [DecidableEq E] in
theorem removed_absent {passed rest : List E}
    (represents : Represents memory (Function.update lists list (passed ++ entry :: rest)))
    (other : L) : entry ∉ Function.update lists list (passed ++ rest) other := by
  intro member
  by_cases same : other = list
  · subst same
    have distinct := represents.nodup other
    rw [Function.update_self] at distinct member
    exact (List.nodup_cons.1 (List.perm_middle.nodup_iff.1 distinct)).1 member
  · rw [Function.update_of_ne same] at member
    apply same
    refine represents.apart (?_ : entry ∈ _) ?_
    · rwa [Function.update_of_ne same]
    · rw [Function.update_self]
      simp

theorem dispose_correct (disposal : Disposal) {passed rest : List E}
    (represents : Represents memory (Function.update lists list (passed ++ entry :: rest))) :
    ∃ after, dispose list memory (.entry entry) disposal = some after ∧
      Represents after (Function.update lists list
        (passed ++ (if disposal = .keep then [entry] else []) ++ rest)) ∧
      ∀ node, after.Live node ↔
        memory.Live node ∧ (node = .entry entry → disposal ≠ .destroy) := by
  cases disposal with
  | keep =>
    refine ⟨memory, rfl, ?_, fun node => by simp⟩
    rwa [if_pos rfl, List.append_assoc]
  | remove =>
    obtain ⟨after, removed, leaves⟩ := removed_correct represents
    refine ⟨after, removed, ?_, fun node => by simp [leaves.live]⟩
    rw [if_neg (by decide), List.append_nil]
    exact leaves.represents
  | destroy =>
    obtain ⟨after, removed, leaves⟩ := removed_correct represents
    have loose : ∀ other, Node.entry entry ∉ Node.head other ::
        (Function.update lists list (passed ++ rest) other).map Node.entry := by
      intro other member
      exact removed_absent represents other ((entry_mem entry other).1 member)
    refine ⟨after.free (.entry entry), ?_, ?_, fun node => ?_⟩
    · rw [dispose, removed, Option.map_some]
    · rw [if_neg (by decide), List.append_nil]
      exact Family.free leaves.represents loose
    · rw [← leaves.live node]
      by_cases same : node = .entry entry <;> simp [Cells.Live, Cells.free, Function.update, same]

variable {body : Body L E σ}

omit [DecidableEq E] in
theorem keptOf_cons (entry : E) (decision : Decision) (visits : List (E × Decision)) :
    keptOf ((entry, decision) :: visits) =
      (if decision.disposal = .keep then [entry] else []) ++ keptOf visits := by
  by_cases keep : decision.disposal = .keep <;> simp [keptOf, keep]

omit [DecidableEq L] [DecidableEq E] in
theorem spared_cons (visit : E × Decision) (visits : List (E × Decision)) (node : Node L E) :
    Spared (visit :: visits) node ↔
      (node = .entry visit.1 → visit.2.disposal ≠ .destroy) ∧ Spared visits node :=
  List.forall_mem_cons

omit [DecidableEq L] [DecidableEq E] in
theorem iterate_breaks {state state' : σ} {decision : Decision} (rest : List E)
    (decided : body state (.entry entry) = (decision, state')) (breaks : decision.breaks = true) :
    iterate body state (entry :: rest) = ⟨[(entry, decision)], rest, state'⟩ := by
  rw [iterate, decided]
  exact if_pos breaks

omit [DecidableEq L] [DecidableEq E] in
theorem iterate_goes {state state' : σ} {decision : Decision} (rest : List E)
    (decided : body state (.entry entry) = (decision, state')) (goes : ¬ decision.breaks = true) :
    iterate body state (entry :: rest) =
      { iterate body state' rest with
        visits := (entry, decision) :: (iterate body state' rest).visits } := by
  rw [iterate, decided]
  exact if_neg goes

omit [DecidableEq E] in
theorem iterator_cons {decision : Decision} (entry : E) (goes : ¬ decision.breaks = true)
    (iteration : Iteration E σ) :
    Iteration.iterator { iteration with visits := (entry, decision) :: iteration.visits } =
      iteration.iterator := by
  cases visits : iteration.visits with
  | nil => simp [Iteration.iterator, visits, goes]
  | cons visit rest => simp [Iteration.iterator, visits, List.getLast?_cons_cons]

/-- One turn of the loop: the next pointer is taken before the body runs, and leads to the rest. -/
theorem foreachFrom_turn {passed rest : List E} {first : Node L E} {post : List (Node L E)}
    (represents : Represents memory (Function.update lists list (passed ++ entry :: rest)))
    (starts : rest.map Node.entry ++ [Node.head list] = first :: post) (fuel : Nat) (state : σ)
    {decision : Decision} {state' : σ} (decided : body state (.entry entry) = (decision, state')) :
    ∃ after, Represents after (Function.update lists list
        (passed ++ (if decision.disposal = .keep then [entry] else []) ++ rest)) ∧
      (∀ node, after.Live node ↔
        memory.Live node ∧ (node = .entry entry → decision.disposal ≠ .destroy)) ∧
      foreachFrom body list (fuel + 1) state memory (some (.entry entry)) =
        if decision.breaks then some ⟨after, state', some (.entry entry), eventsOf (entry, decision)⟩
        else (foreachFrom body list fuel state' after (some first)).map fun loop =>
          { loop with events := eventsOf (entry, decision) ++ loop.events } := by
  obtain ⟨after, disposed, represents', live⟩ := dispose_correct decision.disposal represents
  obtain ⟨pre, last, ends⟩ := exists_last list passed
  have whole : (Function.update lists list (passed ++ entry :: rest) list).map Node.entry =
      passed.map Node.entry ++ Node.entry (L := L) entry :: rest.map Node.entry := by
    rw [Function.update_self, List.map_append, List.map_cons]
  have linked := (Family.around represents whole ends starts).2
  refine ⟨after, represents', live, ?_⟩
  have valid := isValid_entry (L := L) list entry
  simp only [foreachFrom, valid, if_true, getNext_some linked.1, Option.bind_eq_bind,
    Option.bind_some, reduceCtorEq, if_false, decided, disposed]
  by_cases breaks : decision.breaks = true
  · simp only [breaks, if_true, eventsOf]
  · simp only [breaks, if_false, Bool.false_eq_true]
    cases foreachFrom body list fuel state' after (some first) <;> rfl

theorem foreachFrom_did (body : Body L E σ) {rest passed : List E}
    (represents : Represents memory (Function.update lists list (passed ++ rest)))
    {first : Node L E} {post : List (Node L E)}
    (starts : rest.map Node.entry ++ [Node.head list] = first :: post) {fuel : Nat}
    (enough : rest.length < fuel) (state : σ) :
    ∃ loop, foreachFrom body list fuel state memory (some first) = some loop ∧
      Did memory lists list passed (iterate body state rest) loop := by
  induction rest generalizing memory passed first post fuel state with
  | nil =>
    obtain ⟨fuel, rfl⟩ := Nat.exists_eq_succ_of_ne_zero (Nat.ne_of_gt enough)
    obtain ⟨rfl, -⟩ := List.cons.inj starts
    refine ⟨⟨memory, state, none, []⟩, ?_, rfl, rfl, rfl, represents, fun node => ?_⟩
    · simp [foreachFrom]
    · simp [Spared, iterate]
  | cons entry rest ih =>
    obtain ⟨fuel, rfl⟩ := Nat.exists_eq_succ_of_ne_zero (Nat.ne_of_gt (Nat.zero_lt_of_lt enough))
    obtain ⟨rfl, -⟩ := List.cons.inj starts
    obtain ⟨next, behind, starts'⟩ := exists_first list rest
    obtain ⟨⟨decision, state'⟩, decided⟩ : ∃ result, body state (.entry entry) = result := ⟨_, rfl⟩
    obtain ⟨after, represents', live, turn⟩ :=
      foreachFrom_turn represents starts' fuel state decided
    by_cases breaks : decision.breaks = true
    · rw [turn, if_pos breaks, iterate_breaks rest decided breaks]
      refine ⟨_, rfl, ?_, rfl, ?_, ?_, fun node => ?_⟩
      · simp
      · simp [Iteration.iterator, breaks]
      · rw [Iteration.left, keptOf_cons, ← List.append_assoc]
        simpa [keptOf] using represents'
      · rw [live node, spared_cons]
        simp [Spared]
    · -- the entries that the turn keeps are passed
      obtain ⟨loop, ran, did⟩ := ih represents' starts' (Nat.lt_of_succ_lt_succ enough) state'
      rw [turn, if_neg breaks, iterate_goes rest decided breaks, ran]
      refine ⟨_, rfl, ?_, did.state, ?_, ?_, fun node => ?_⟩
      · rw [List.flatMap_cons, ← did.events]
      · rw [iterator_cons entry breaks]
        exact did.iterator
      · rw [Iteration.left, keptOf_cons, List.append_assoc, ← List.append_assoc]
        exact did.represents
      · rw [spared_cons, did.live node, live node, and_assoc]

theorem foreach_refines (body : Body L E σ) (represents : Represents memory lists) (list : L)
    {fuel : Nat} (enough : (lists list).length < fuel) (state : σ) :
    ∃ loop, foreach body list fuel state memory = some loop ∧
      Did memory lists list [] (iterate body state (lists list)) loop := by
  have same : Function.update lists list ([] ++ lists list) = lists := by simp
  have start : Represents memory (Function.update lists list ([] ++ lists list)) := by rwa [same]
  rw [foreach, getHead_correct represents list]
  simp only [Option.bind_eq_bind, Option.bind_some]
  cases entries : lists list with
  | nil =>
    rw [entries] at start enough
    obtain ⟨fuel, rfl⟩ := Nat.exists_eq_succ_of_ne_zero (Nat.ne_of_gt enough)
    refine ⟨⟨memory, state, none, []⟩, ?_, rfl, rfl, rfl, start, fun node => ?_⟩
    · simp [foreachFrom]
    · simp [Spared, iterate]
  | cons entry rest =>
    rw [entries] at start enough
    exact foreachFrom_did body start rfl enough state

omit [DecidableEq L] [DecidableEq E] in
theorem iterate_whole (body : Body L E σ) (entries : List E) (state : σ) :
    entries = (iterate body state entries).visits.map Prod.fst ++
      (iterate body state entries).behind := by
  induction entries generalizing state with
  | nil => rfl
  | cons entry rest ih =>
    obtain ⟨⟨decision, state'⟩, decided⟩ : ∃ result, body state (.entry entry) = result := ⟨_, rfl⟩
    by_cases breaks : decision.breaks = true
    · rw [iterate_breaks rest decided breaks]
      rfl
    · rw [iterate_goes rest decided breaks]
      exact congrArg (entry :: ·) (ih state')

omit [DecidableEq L] [DecidableEq E] in
theorem iterate_stops (body : Body L E σ) (entries : List E) (state : σ) :
    (∀ front visit back, (iterate body state entries).visits = front ++ visit :: back →
      visit.2.breaks = true → back = []) ∧
    ((∀ visit ∈ (iterate body state entries).visits, visit.2.breaks = false) →
      (iterate body state entries).behind = []) := by
  induction entries generalizing state with
  | nil =>
    refine ⟨fun front visit back visits => ?_, fun _ => rfl⟩
    simp [iterate] at visits
  | cons entry rest ih =>
    obtain ⟨⟨decision, state'⟩, decided⟩ : ∃ result, body state (.entry entry) = result := ⟨_, rfl⟩
    by_cases breaks : decision.breaks = true
    · rw [iterate_breaks rest decided breaks]
      constructor
      · intro front visit back visits _
        have lengths := congrArg List.length visits
        simp only [List.length_cons, List.length_append, List.length_nil] at lengths
        exact List.length_eq_zero_iff.1 (by omega)
      · intro none
        have goes := none (entry, decision) List.mem_cons_self
        simp [breaks] at goes
    · rw [iterate_goes rest decided breaks]
      constructor
      · intro front visit back visits broke
        cases front with
        | nil =>
          obtain ⟨rfl, -⟩ := List.cons.inj visits
          exact absurd broke breaks
        | cons other front => exact (ih state').1 front visit back (List.cons.inj visits).2 broke
      · intro none
        exact (ih state').2 fun visit member => none visit (List.mem_cons_of_mem _ member)

omit [DecidableEq L] [DecidableEq E] in
theorem follow_first {visits : List (E × Decision)} (once : (visits.map Prod.fst).Nodup)
    {pre post : List (Event L E)} {node : Node L E}
    (events : visits.flatMap eventsOf = pre ++ .follow node :: post) (decision : Decision) :
    .visit node decision ∉ pre := by
  induction visits generalizing pre with
  | nil => simp at events
  | cons visit visits ih =>
    rw [List.map_cons, List.nodup_cons] at once
    simp only [List.flatMap_cons, eventsOf, List.cons_append, List.nil_append] at events
    match pre with
    | [] => exact List.not_mem_nil
    | [first] => simp at events
    | first :: second :: pre =>
      simp only [List.cons_append, List.cons.injEq] at events
      obtain ⟨rfl, rfl, events⟩ := events
      rw [List.mem_cons, List.mem_cons]
      rintro (same | same | member)
      · cases same
      · -- the entry is not met again
        cases same
        have later : Event.follow (.entry visit.1) ∈ visits.flatMap (eventsOf (L := L)) := by
          have grouped : visits.flatMap (eventsOf (L := L)) = pre ++ .follow (.entry visit.1) :: post :=
            events
          simp [grouped]
        obtain ⟨other, member, event⟩ := List.mem_flatMap.1 later
        simp only [eventsOf, List.mem_cons, Event.follow.injEq, Node.entry.injEq, reduceCtorEq,
          List.not_mem_nil, or_false] at event
        exact once.1 (event ▸ List.mem_map_of_mem member)
      · exact ih once.2 events member

/-- A loop that visits the entries of its list in order, each once, up to a break, and leaves
those that are not removed. -/
structure Iterates (memory : Memory L E) (lists : Abstract L E) (list : L)
    (iteration : Iteration E σ) (loop : Loop L E σ) : Prop where
  order : lists list = iteration.visits.map Prod.fst ++ iteration.behind
  once : (iteration.visits.map Prod.fst).Nodup
  events : loop.events = iteration.visits.flatMap eventsOf
  follows : ∀ pre node post, loop.events = pre ++ .follow node :: post →
    ∀ decision, .visit node decision ∉ pre
  broken : ∀ front visit back, iteration.visits = front ++ visit :: back →
    visit.2.breaks = true → back = [] ∧ loop.iterator = some (.entry visit.1)
  ended : (∀ visit ∈ iteration.visits, visit.2.breaks = false) →
    iteration.behind = [] ∧ loop.iterator = none
  left : Represents loop.memory
    (Function.update lists list (keptOf iteration.visits ++ iteration.behind))
  live : ∀ node, loop.memory.Live node ↔ memory.Live node ∧ Spared iteration.visits node

theorem foreach_iterates (body : Body L E σ) (represents : Represents memory lists) (list : L)
    {fuel : Nat} (enough : (lists list).length < fuel) (state : σ) :
    ∃ loop, foreach body list fuel state memory = some loop ∧
      Iterates memory lists list (iterate body state (lists list)) loop := by
  obtain ⟨loop, ran, did⟩ := foreach_refines body represents list enough state
  have order := iterate_whole body (lists list) state
  have stops := iterate_stops body (lists list) state
  generalize iterate body state (lists list) = iteration at *
  have once : (iteration.visits.map Prod.fst).Nodup := by
    have distinct := represents.nodup list
    rw [order] at distinct
    exact distinct.of_append_left
  have followed := did.events
  have iterator := did.iterator
  refine ⟨loop, ran, order, once, did.events, ?_, ?_, ?_, did.represents, did.live⟩
  · intro pre node post events decision
    exact follow_first once (did.events.symm.trans events) decision
  · intro front visit back visits broke
    obtain rfl := stops.1 front visit back visits broke
    refine ⟨rfl, ?_⟩
    rw [iterator, Iteration.iterator, visits, List.getLast?_concat, Option.bind_some, if_pos broke]
    rfl
  · intro none
    refine ⟨stops.2 none, ?_⟩
    rw [iterator, Iteration.iterator]
    cases last : iteration.visits.getLast? with
    | none => rfl
    | some visit =>
      have goes := none visit (List.mem_of_getLast? last)
      rw [Option.bind_some, if_neg (by simp [goes])]
      rfl

def twoTurns : Body Unit Bool Unit
  | state, .entry false => (⟨.destroy, false⟩, state)
  | state, _ => (⟨.remove, true⟩, state)

theorem foreach_iterates_twice : ∃ memory : Memory Unit Bool,
    (Represents memory (fun _ => [false, true]) ∧ [false, true].length < 3) ∧
    ∃ loop, foreach twoTurns () 3 () memory = some loop ∧
      Iterates memory (fun _ => [false, true]) () (iterate twoTurns () [false, true]) loop := by
  obtain ⟨memory, _, leaves⟩ := run_leaves (L := Unit) (E := Bool) constructed_represents
    (fun _ => rfl) [.append () false, .append () true] (by
      refine ⟨?_, ?_, trivial⟩ <;> intro list <;> cases list <;> decide)
  have lists : [Op.append () false, Op.append () true].foldl Op.apply (fun _ => []) =
      fun _ : Unit => [false, true] := by
    funext list
    cases list
    decide
  have represents := leaves.represents
  rw [lists] at represents
  refine ⟨memory, ⟨represents, by decide⟩, ?_⟩
  exact foreach_iterates twoTurns represents () (by decide) ()

end Lists

end Ptp

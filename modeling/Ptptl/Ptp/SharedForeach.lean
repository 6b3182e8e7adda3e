import Ptptl.Ptp.SharedRuns

set_option autoImplicit false

/-! # Loops over a list that a thread has locked -/

namespace Ptp

namespace Lists

open Rings Sections

variable {T L E : Type} [DecidableEq T] [DecidableEq L] [DecidableEq E]

/-- Steps of all threads during which one of them holds a list. -/
inductive Held (config : Config T L) (thread : T) (list : L) : State T L E → State T L E → Prop where
  | refl {state : State T L E} (holds : config.Holds state.mutex thread list) :
      Held config thread list state state
  | step {first state next : State T L E} (held : Held config thread list first state)
      (step : Step config state next) (holds : config.Holds next.mutex thread list) :
      Held config thread list first next

def callsOn (list : L) (events : List (Returned T L E)) : List (Call L E × Pointer L E) :=
  (events.filter fun event => event.call.list = list).map fun event => (event.call, event.result)

/-- `PTP_LIST_FOREACH` with a body that may remove the entry that is visited: the calls that it
makes and what they give, the entries that were visited and those of them that it kept, and the
pointer that it has loaded ahead. -/
inductive Foreach (list : L) :
    List (Call L E × Pointer L E) → List E → List E → Pointer L E → Prop where
  | start (first : Pointer L E) : Foreach list [(.getHead list, first)] [] [] first
  | turn {calls : List (Call L E × Pointer L E)} {visited kept : List E} {entry : E}
      (loop : Foreach list calls visited kept (some (.entry entry))) (next : Pointer L E) :
      Foreach list (calls ++ [(.getNext list entry, next)]) (visited ++ [entry]) (kept ++ [entry])
        next
  | remove {calls : List (Call L E × Pointer L E)} {visited kept : List E} {entry : E}
      {next : Pointer L E} (loop : Foreach list calls (visited ++ [entry]) (kept ++ [entry]) next)
      (lock : Bool) (result : Pointer L E) :
      Foreach list (calls ++ [(.remove list entry lock, result)]) (visited ++ [entry]) kept next

def PointsTo (list : L) (pointer : Pointer L E) (entries : List E) : Prop :=
  match entries with
  | [] => isValid list pointer = false
  | entry :: _ => pointer = some (.entry entry)

section

variable {config : Config T L} {first last state next : State T L E} {thread : T} {list : L}
  {events : List (Returned T L E)} {calls : List (Call L E × Pointer L E)} {visited kept : List E}
  {pointer : Pointer L E}

theorem Held.holds (held : Held config thread list first last) :
    config.Holds last.mutex thread list := by
  cases held with
  | refl holds => exact holds
  | step held step holds => exact holds

theorem Reachable.held (reachable : Reachable config first) (thread : T) (list : L)
    (holds : config.Holds first.mutex thread list) :
    Reachable config first ∧ Held config thread list first first :=
  ⟨reachable, .refl holds⟩

theorem Held.accesses (held : Held config thread list first state) (threads : List T)
    (accessed : threads.foldlM State.access state = some next) :
    Held config thread list first next := by
  induction threads generalizing state with
  | nil =>
    obtain rfl := Option.some.inj accessed
    exact held
  | cons other threads ih =>
    rw [List.foldlM_cons, Option.bind_eq_bind, Option.bind_eq_some_iff] at accessed
    obtain ⟨middle, one, rest⟩ := accessed
    obtain ⟨step, same⟩ : Step config state middle ∧ middle.mutex = state.mutex :=
      Step.of_access one
    exact ih (held.step step (same ▸ held.holds)) rest

theorem Held.reachable (held : Held config thread list first last)
    (reachable : Reachable config first) : Reachable config last := by
  induction held with
  | refl holds => exact reachable
  | step held step holds ih => exact .step ih step

theorem Step.grows (step : Step config state next) {base : Memory L E}
    (sound : Sound config state base) :
    next.returned = state.returned ∧ next.lists = state.lists ∨
      ∃ event : Returned T L E, next.returned = state.returned ++ [event] ∧
        next.lists = event.call.apply state.lists ∧
        config.Holds state.mutex event.thread event.call.list ∧
        event.call.Admissible state.lists := by
  cases step with
  | lock => exact .inl ⟨rfl, rfl⟩
  | unlock => exact .inl ⟨rfl, rfl⟩
  | call => exact .inl ⟨rfl, rfl⟩
  | access => exact .inl ⟨rfl, rfl⟩
  | «return» runs left =>
    refine .inr ⟨_, rfl, ?_, sound.holds runs, sound.admissible runs⟩
    simp [State.lists, outcome]

/-- The entries that a loop has left are those behind the visited ones in the list as it was, and
those behind the kept ones in the list as it is. -/
structure Goes (list : L) (before now visited kept : List E) (pointer : Pointer L E)
    (rest : List E) : Prop where
  before : before = visited ++ rest
  now : now = kept ++ rest
  points : PointsTo list pointer rest

omit [DecidableEq L] [DecidableEq E] in
theorem Foreach.concat {call : Call L E} {result : Pointer L E}
    (loop : Foreach list (calls ++ [(call, result)]) visited kept pointer) :
    (calls = [] ∧ call = .getHead list ∧ visited = [] ∧ kept = [] ∧ pointer = result) ∨
      (∃ visited' kept' entry, Foreach list calls visited' kept' (some (.entry entry)) ∧
        call = .getNext list entry ∧ visited = visited' ++ [entry] ∧ kept = kept' ++ [entry] ∧
        pointer = result) ∨
      ∃ visited' entry lock, Foreach list calls visited (kept ++ [entry]) pointer ∧
        visited = visited' ++ [entry] ∧ call = .remove list entry lock := by
  generalize whole : calls ++ [(call, result)] = all at loop
  cases loop with
  | start first =>
    have nil : calls = [] := by
      have length := congrArg List.length whole
      simpa using length
    subst nil
    simp only [List.nil_append, List.cons.injEq, Prod.mk.injEq, and_true] at whole
    exact .inl ⟨rfl, whole.1, rfl, rfl, whole.2.symm⟩
  | @turn calls' visited' kept' entry loop next =>
    obtain ⟨rfl, same⟩ := List.append_inj' whole rfl
    simp only [List.cons.injEq, Prod.mk.injEq, and_true] at same
    exact .inr (.inl ⟨visited', kept', entry, loop, same.1, rfl, rfl, same.2.symm⟩)
  | @remove calls' visited' kept' entry next loop lock result =>
    obtain ⟨rfl, same⟩ := List.append_inj' whole rfl
    simp only [List.cons.injEq, Prod.mk.injEq, and_true] at same
    exact .inr (.inr ⟨visited', entry, lock, loop, rfl, same.1⟩)

theorem PointsTo.entry {entry : E} {rest : List E}
    (points : PointsTo list (some (.entry entry)) rest) : ∃ more, rest = entry :: more := by
  cases rest with
  | nil =>
    rw [PointsTo, isValid_entry] at points
    cases points
  | cons other more =>
    obtain rfl := Node.entry.inj (Option.some.inj points)
    exact ⟨more, rfl⟩

theorem Foreach.call {lists : Abstract L E} {before : List E} (distinct : (lists list).Nodup)
    (fresh : calls = [] → lists list = before)
    (goes : ∀ visited kept pointer, Foreach list calls visited kept pointer →
      ∃ rest, Goes list before (lists list) visited kept pointer rest) {call : Call L E}
    (loop : Foreach list (calls ++ [(call, call.answer lists)]) visited kept pointer) :
    ∃ rest, Goes list before (call.apply lists list) visited kept pointer rest := by
  rcases loop.concat with ⟨none_, rfl, rfl, rfl, rfl⟩ |
    ⟨visited', kept', entry, before', rfl, rfl, rfl, rfl⟩ |
      ⟨visited', entry, lock, before', rfl, rfl⟩
  · refine ⟨lists list, (fresh none_).symm, rfl, ?_⟩
    cases whole : lists list with
    | nil => simp [PointsTo, Call.answer, whole]
    | cons entry rest => simp [PointsTo, Call.answer, whole]
  · obtain ⟨rest, was⟩ := goes visited' kept' _ before'
    obtain ⟨more, rfl⟩ := was.points.entry
    refine ⟨more, by simp [was.before], by simp [Call.apply, was.now], ?_⟩
    rw [was.now] at distinct
    simp only [Call.answer, was.now, following_eq distinct]
    cases more with
    | nil => simp [PointsTo]
    | cons next more => simp [PointsTo]
  · obtain ⟨rest, was⟩ := goes _ _ _ before'
    refine ⟨rest, was.before, ?_, was.points⟩
    have now := was.now
    rw [List.append_assoc, List.singleton_append] at now
    rw [now] at distinct
    have absent : entry ∉ kept := fun here =>
      (List.disjoint_of_nodup_append distinct) here List.mem_cons_self
    change (lists list).erase entry = _
    rw [now, List.erase_append_right _ absent, List.erase_cons_head]

/-- What is kept while a thread holds a list. -/
structure Since (thread : T) (list : L) (first last : State T L E)
    (events : List (Returned T L E)) : Prop where
  grown : last.returned = first.returned ++ events
  own : ∀ event ∈ events, event.call.list = list → event.thread = thread
  fresh : callsOn list events = [] → last.lists list = first.lists list
  goes : ∀ visited kept pointer, Foreach list (callsOn list events) visited kept pointer →
    ∃ rest, Goes list (first.lists list) (last.lists list) visited kept pointer rest

omit [DecidableEq E] [DecidableEq T] in
theorem callsOn_append (event : Returned T L E) :
    callsOn list (events ++ [event]) = callsOn list events ++
      if event.call.list = list then [(event.call, event.result)] else [] := by
  simp only [callsOn, List.filter_append, List.map_append, List.filter_cons, List.filter_nil,
    decide_eq_true_eq]
  split <;> rfl

theorem Since.step (since : Since thread list first state events) (reachable : Reachable config state)
    (holds : config.Holds state.mutex thread list) (step : Step config state next) :
    ∃ events, Since thread list first next events := by
  obtain ⟨base, sound⟩ := reachable.sound
  obtain ⟨base', sound'⟩ := (reachable.step step).sound
  rcases step.grows sound with ⟨same, lists⟩ | ⟨event, grows, lists, holder, admissible⟩
  · refine ⟨events, same.trans since.grown, since.own, ?_, ?_⟩
    · rw [lists]
      exact since.fresh
    · rw [lists]
      exact since.goes
  · have correct := sound'.correct
    rw [grows, correct_append] at correct
    have answers : event.result = event.call.answer state.lists := correct.2.2
    refine ⟨events ++ [event], ?_, ?_, ?_, ?_⟩
    · rw [grows, since.grown, List.append_assoc]
    · intro other member here
      rcases List.mem_append.1 member with member | member
      · exact since.own other member here
      · obtain rfl := List.mem_singleton.1 member
        rw [here] at holder
        exact holder.unique holds
    · rw [callsOn_append, lists]
      split
      next => simp
      next away =>
        rw [List.append_nil, Call.apply_other sound.represents admissible (Ne.symm away)]
        exact since.fresh
    · rw [callsOn_append, lists]
      split
      next here =>
        rw [answers]
        intro visited kept pointer loop
        exact loop.call (sound.represents.nodup list) since.fresh since.goes
      next away =>
        rw [List.append_nil, Call.apply_other sound.represents admissible (Ne.symm away)]
        exact since.goes

theorem Held.since (held : Held config thread list first last) (reachable : Reachable config first) :
    ∃ events, Since thread list first last events := by
  induction held with
  | refl holds =>
    refine ⟨[], (List.append_nil _).symm, by simp, fun _ => rfl, ?_⟩
    intro visited kept pointer loop
    generalize none_ : callsOn list ([] : List (Returned T L E)) = calls at loop
    cases loop <;> simp [callsOn] at none_
  | step held step holds ih =>
    obtain ⟨events, since⟩ := ih
    exact since.step (held.reachable reachable) held.holds step

/-- While a thread holds a list only its own calls on the list return, whatever the other threads
do, and a loop of it over the list visits each entry that was there once, in order, and leaves
those that it has not removed. -/
theorem foreach_shared (reachable : Reachable config first)
    (held : Held config thread list first last)
    (grown : last.returned = first.returned ++ events) :
    (∀ event ∈ events, event.call.list = list → event.thread = thread) ∧
      ∀ visited kept pointer, Foreach list (callsOn list events) visited kept pointer →
        visited <+: first.lists list ∧
          (isValid list pointer = false →
            visited = first.lists list ∧ kept = last.lists list) := by
  obtain ⟨events', since⟩ := held.since reachable
  obtain rfl : events = events' := List.append_cancel_left (grown.symm.trans since.grown)
  refine ⟨since.own, fun visited kept pointer loop => ?_⟩
  obtain ⟨rest, goes⟩ := since.goes visited kept pointer loop
  refine ⟨⟨rest, goes.before.symm⟩, fun ended => ?_⟩
  cases rest with
  | nil => exact ⟨by simp [goes.before], by simp [goes.now]⟩
  | cons entry rest =>
    rw [show pointer = some (.entry entry) from goes.points, isValid_entry] at ended
    cases ended

end

def pair : Config Bool Bool := ⟨fun _ => true, id⟩

/-- One of two threads fills a list and removes the first entry in a loop over it, while the other
one is at work with another list. -/
theorem foreach_shared_locked : ∃ first last : State Bool Bool Bool,
    Reachable pair first ∧ Held pair false false first last ∧
      first.lists false = [false, true] ∧ last.lists false = [true] ∧
      last.returned.map Returned.thread = [false, false, true, false, false, false, false] := by
  have inserting := Reachable.start.step (@Step.call Bool Bool Bool _ _ _ pair _ false
    (.insert false true true) _ rfl
    ⟨(fun own => nomatch own), fun _ => List.not_mem_nil, fun _ _ _ _ _ runs => nomatch runs⟩ rfl)
  have inserted := (inserting.accesses [false, false, false, false, false] rfl).step
    (.of_leave false rfl)
  have inserting' := inserted.step (@Step.call _ _ _ _ _ _ _ _ false (.insert false false true) _ rfl
    ⟨(fun own => nomatch own), (fun list => by cases list <;> decide),
      fun _ _ _ other _ runs => by cases other <;> cases runs⟩ rfl)
  have inserted' := (inserting'.accesses [false, false, false, false, false] rfl).step
    (.of_leave false rfl)
  obtain ⟨first, held⟩ := (inserted'.step (@Step.lock _ _ _ _ _ _ _ _ false false _ rfl rfl)).held false
    false rfl
  -- the loop begins, and the other thread looks for the end of its list at the same time
  have head := held.step (@Step.call _ _ _ _ _ _ _ _ false (.getHead false) _ rfl
    ⟨fun _ => rfl, trivial, fun _ about => nomatch about⟩ rfl) rfl
  have other := head.step (@Step.lock _ _ _ _ _ _ _ _ true true _ rfl rfl) rfl
  have tail := other.step (@Step.call _ _ _ _ _ _ _ _ true (.getTail true) _ rfl
    ⟨fun _ => rfl, trivial, fun _ about => nomatch about⟩ rfl) rfl
  have left := ((tail.accesses [true, false, true, false] rfl).step (.of_leave true rfl) rfl).step
    (.of_leave false rfl) rfl
  have next := left.step (@Step.call _ _ _ _ _ _ _ _ false (.getNext false false) _ rfl
    ⟨fun _ => rfl, (by change false ∈ _; decide),
      fun _ _ _ other _ runs => by cases other <;> cases runs⟩ rfl) rfl
  have left' := (next.accesses [false] rfl).step (.of_leave false rfl) rfl
  have removing := left'.step (@Step.call _ _ _ _ _ _ _ _ false (.remove false false false) _ rfl
    ⟨fun _ => rfl, (.inl (by decide)),
      fun _ _ _ other _ runs => by cases other <;> cases runs⟩ rfl) rfl
  have removed := (removing.accesses [false, false, false, false, false, false] rfl).step
    (.of_leave false rfl) rfl
  have next' := removed.step (@Step.call _ _ _ _ _ _ _ _ false (.getNext false true) _ rfl
    ⟨fun _ => rfl, (by change true ∈ _; decide),
      fun _ _ _ other _ runs => by cases other <;> cases runs⟩ rfl) rfl
  have ended := (next'.accesses [false] rfl).step (.of_leave false rfl) rfl
  have loop := (foreach_shared first ended rfl).2 [false, true] [true] (some (.head false))
    (.turn (.remove (.turn (.start _) _) false _) _)
  obtain ⟨visited, kept⟩ := loop.2 rfl
  exact ⟨_, _, first, ended, visited.symm, kept.symm, rfl⟩

end Lists

end Ptp

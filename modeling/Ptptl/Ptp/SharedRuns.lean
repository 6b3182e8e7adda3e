import Ptptl.Ptp.SharedLists

set_option autoImplicit false

/-! # Calls of threads on shared lists, one after the other -/

namespace Ptp

namespace Lists

open Rings Sections

variable {T L E : Type} [DecidableEq T] [DecidableEq L] [DecidableEq E]

section

variable {memory after base : Memory L E} {lists : Abstract L E} {list : L} {entry : E}
  {registers : Registers L E} {pointer value : Registers L E → Pointer L E}
  {into : Registers L E → Pointer L E → Registers L E} {result : Pointer L E}

/-! ## Each call by itself -/

theorem loadNext_run (got : getNext memory (pointer registers) = some result) :
    (loadNext pointer into).run registers memory = some (into registers result, memory) := by
  simp only [getNext, Option.map_eq_some_iff, Cells.load, Option.bind_eq_some_iff] at got
  obtain ⟨cell, ⟨node, address, found⟩, rfl⟩ := got
  have acts : (loadNext pointer into).act registers (memory node) =
      some (into registers cell.next, memory node) := by simp [loadNext, found]
  have ran := Access.run_some address acts
  rwa [Function.update_eq_self] at ran

theorem loadPrev_run (got : getPrev memory (pointer registers) = some result) :
    (loadPrev pointer into).run registers memory = some (into registers result, memory) := by
  simp only [getPrev, Option.map_eq_some_iff, Cells.load, Option.bind_eq_some_iff] at got
  obtain ⟨cell, ⟨node, address, found⟩, rfl⟩ := got
  have acts : (loadPrev pointer into).act registers (memory node) =
      some (into registers cell.prev, memory node) := by simp [loadPrev, found]
  have ran := Access.run_some address acts
  rwa [Function.update_eq_self] at ran

theorem storeNext_run (set : memory.setNext (pointer registers) (value registers) = some after) :
    (storeNext pointer value).run registers memory = some (registers, after) := by
  simp only [Cells.setNext, Option.bind_eq_bind, Option.bind_eq_some_iff, Option.some.injEq] at set
  obtain ⟨node, address, cell, found, rfl⟩ := set
  have acts : (storeNext pointer value).act registers (memory node) =
      some (registers, some { cell with next := value registers }) := by simp [storeNext, found]
  exact Access.run_some address acts

theorem storePrev_run (set : memory.setPrev (pointer registers) (value registers) = some after) :
    (storePrev pointer value).run registers memory = some (registers, after) := by
  simp only [Cells.setPrev, Option.bind_eq_bind, Option.bind_eq_some_iff, Option.some.injEq] at set
  obtain ⟨node, address, cell, found, rfl⟩ := set
  have acts : (storePrev pointer value).act registers (memory node) =
      some (registers, some { cell with prev := value registers }) := by simp [storePrev, found]
  exact Access.run_some address acts

def Inside (zone : Set (Node L E)) (pointer : Pointer L E) : Prop :=
  ∀ node, pointer = some node → node ∈ zone

omit [DecidableEq L] [DecidableEq E] in
theorem inside_next {zone : Set (Node L E)} (represents : Represents base lists)
    (within : ∀ node ∈ Node.head list :: (lists list).map Node.entry, node ∈ zone) {node : Node L E}
    (member : node ∈ Node.head list :: (lists list).map Node.entry)
    (got : getNext base (some node) = some result) : Inside zone result := by
  obtain ⟨other, member', linked⟩ := (Family.ring represents list).next member
  rw [getNext_some linked.1, Option.some.injEq] at got
  rintro node' rfl
  obtain rfl := Option.some.inj got
  exact within _ member'

omit [DecidableEq L] [DecidableEq E] in
theorem inside_prev {zone : Set (Node L E)} (represents : Represents base lists)
    (within : ∀ node ∈ Node.head list :: (lists list).map Node.entry, node ∈ zone) {node : Node L E}
    (member : node ∈ Node.head list :: (lists list).map Node.entry)
    (got : getPrev base (some node) = some result) : Inside zone result := by
  obtain ⟨other, member', linked⟩ := (Family.ring represents list).prev member
  rw [getPrev_some linked.2, Option.some.injEq] at got
  rintro node' rfl
  obtain rfl := Option.some.inj got
  exact within _ member'

/-- The code of a call runs from the base to what the call is to make of it. -/
structure Alone (base : Memory L E) (lists : Abstract L E) (call : Call L E)
    (registers : Registers L E) (whole : Memory L E) : Prop where
  runs : Runs (call.zone lists) call.code {} base registers whole
  answers : call.result registers = call.answer lists
  leaves : Leaves base (call.apply lists) whole

theorem insert_alone (represents : Represents base lists) (live : base.Live (.entry entry))
    (lock : Bool) (absent : ∀ list, entry ∉ lists list) :
    ∃ registers whole, Alone base lists (.insert list entry lock) registers whole := by
  obtain ⟨whole, inserted, leaves⟩ := insert_leaves represents list live absent
  simp only [insert, Option.bind_eq_bind, Option.bind_eq_some_iff] at inserted
  obtain ⟨next, got, first, one, second, two, third, three, four⟩ := inserted
  have head : Node.head list ∈ (Call.insert list entry lock).zone lists := .inl List.mem_cons_self
  have here : Node.entry entry ∈ (Call.insert list entry lock).zone lists := .inr rfl
  have next_ : Inside ((Call.insert list entry lock).zone lists) next :=
    inside_next represents (fun _ member => .inl member) List.mem_cons_self got
  refine ⟨{ next }, whole, ?_, rfl, leaves⟩
  refine .of_run (loadNext_run got) (by simpa [loadNext] using head) ?_
  refine .of_run (storeNext_run one) (by simpa [storeNext] using here) ?_
  refine .of_run (storePrev_run two) (by simpa [storePrev] using here) ?_
  refine .of_run (storePrev_run three) next_ ?_
  exact .of_run (storeNext_run four) (by simpa [storeNext] using head) (.nil _ _)

theorem append_alone (represents : Represents base lists) (live : base.Live (.entry entry))
    (lock : Bool) (absent : ∀ list, entry ∉ lists list) :
    ∃ registers whole, Alone base lists (.append list entry lock) registers whole := by
  obtain ⟨whole, appended, leaves⟩ := append_leaves represents list live absent
  simp only [append, Option.bind_eq_bind, Option.bind_eq_some_iff] at appended
  obtain ⟨prev, got, first, one, second, two, third, three, four⟩ := appended
  have head : Node.head list ∈ (Call.append list entry lock).zone lists := .inl List.mem_cons_self
  have here : Node.entry entry ∈ (Call.append list entry lock).zone lists := .inr rfl
  have prev_ : Inside ((Call.append list entry lock).zone lists) prev :=
    inside_prev represents (fun _ member => .inl member) List.mem_cons_self got
  refine ⟨{ prev }, whole, ?_, rfl, leaves⟩
  refine .of_run (loadPrev_run got) (by simpa [loadPrev] using head) ?_
  refine .of_run (storeNext_run one) (by simpa [storeNext] using here) ?_
  refine .of_run (storePrev_run two) (by simpa [storePrev] using here) ?_
  refine .of_run (storeNext_run three) prev_ ?_
  exact .of_run (storePrev_run four) (by simpa [storePrev] using head) (.nil _ _)

theorem remove_alone_or (represents : Represents base lists) (live : base.Live (.entry entry))
    (lock : Bool) (present : entry ∈ lists list ∨ ∀ list, entry ∉ lists list) :
    ∃ registers whole, Alone base lists (.remove list entry lock) registers whole := by
  obtain ⟨whole, removed, leaves⟩ := remove_leaves represents list live
  simp only [remove, Option.bind_eq_bind, Option.bind_eq_some_iff] at removed
  obtain ⟨next, got, prev, got', first, one, second, two, third, three, four⟩ := removed
  have here : Node.entry entry ∈ (Call.remove list entry lock).zone lists := .inr rfl
  have around : Inside ((Call.remove list entry lock).zone lists) next ∧
      Inside ((Call.remove list entry lock).zone lists) prev := by
    rcases present with member | absent
    · have member' := (entry_mem entry list).2 member
      exact ⟨inside_next represents (fun _ member => .inl member) member' got,
        inside_prev represents (fun _ member => .inl member) member' got'⟩
    · have linked := Family.loose represents _ live fun other member =>
        absent other ((entry_mem entry other).1 member)
      rw [getNext_some linked.1, Option.some.injEq] at got
      rw [getPrev_some linked.2, Option.some.injEq] at got'
      subst got got'
      constructor <;> (rintro node same; obtain rfl := Option.some.inj same; exact here)
  refine ⟨{ next, prev }, whole, ?_, rfl, leaves⟩
  refine .of_run (loadNext_run got) (by simpa [loadNext] using here) ?_
  refine .of_run (loadPrev_run got') (by simpa [loadPrev] using here) ?_
  refine .of_run (storePrev_run one) around.1 ?_
  refine .of_run (storeNext_run two) around.2 ?_
  refine .of_run (storeNext_run three) (by simpa [storeNext] using here) ?_
  exact .of_run (storePrev_run four) (by simpa [storePrev] using here) (.nil _ _)

theorem getHead_alone (represents : Represents base lists) (list : L) :
    ∃ registers whole, Alone base lists (.getHead list) registers whole := by
  obtain ⟨first, post, starts⟩ := exists_first list (lists list)
  have linked := Family.seam represents (List.nil_append _).symm (List.nil_append _).symm starts
  have got := getNext_some linked.1
  have head : Node.head list ∈ (Call.getHead list).zone lists := .inl List.mem_cons_self
  refine ⟨{ next := some first, result := some first }, base, ?_, ?_, represents, fun _ => Iff.rfl⟩
  · refine .of_run (loadNext_run got) (by simpa [loadNext] using head) ?_
    exact .of_run (loadNext_run got) (by simpa [loadNext] using head) (.nil _ _)
  · exact first_valid list starts

theorem getTail_alone (represents : Represents base lists) (list : L) :
    ∃ registers whole, Alone base lists (.getTail list) registers whole := by
  obtain ⟨pre, last, ends⟩ := exists_last list (lists list)
  have linked := Family.seam represents (List.append_nil _).symm ends rfl
  have got := getPrev_some linked.2
  have head : Node.head list ∈ (Call.getTail list).zone lists := .inl List.mem_cons_self
  refine ⟨{ prev := some last, result := some last }, base, ?_, ?_, represents, fun _ => Iff.rfl⟩
  · refine .of_run (loadPrev_run got) (by simpa [loadPrev] using head) ?_
    exact .of_run (loadPrev_run got) (by simpa [loadPrev] using head) (.nil _ _)
  · exact last_valid list ends

omit [DecidableEq L] in
theorem following_eq {front back : List E} (distinct : (front ++ entry :: back).Nodup) :
    Call.following list entry (front ++ entry :: back) =
      ((back.head?.map Node.entry).getD (.head list) : Node L E) := by
  have fresh : ∀ other ∈ front, other ≠ entry := by
    rintro other member rfl
    exact (List.disjoint_of_nodup_append distinct) member List.mem_cons_self
  rw [Call.following, List.dropWhile_append_of_pos (by simpa using fresh), List.dropWhile_cons]
  simp

omit [DecidableEq L] in
theorem preceding_eq {front back : List E} (distinct : (front ++ entry :: back).Nodup) :
    Call.preceding list entry (front ++ entry :: back) =
      ((front.getLast?.map Node.entry).getD (.head list) : Node L E) := by
  have turned : (front ++ entry :: back).reverse = back.reverse ++ entry :: front.reverse := by
    simp
  rw [Call.preceding, turned, following_eq (turned ▸ List.nodup_reverse.2 distinct),
    List.head?_reverse]

theorem getNext_alone (represents : Represents base lists) (member : entry ∈ lists list) :
    ∃ registers whole, Alone base lists (.getNext list entry) registers whole := by
  obtain ⟨front, back, whole⟩ := List.append_of_mem member
  obtain ⟨pre, last, ends⟩ := exists_last list front
  obtain ⟨first, post, starts⟩ := exists_first list back
  have whole' : (lists list).map Node.entry =
      front.map Node.entry ++ Node.entry (L := L) entry :: back.map Node.entry := by
    rw [whole, List.map_append, List.map_cons]
  have linked := (Family.around represents whole' ends starts).2
  have here : Node.entry entry ∈ (Call.getNext list entry).zone lists := .inr rfl
  have distinct := represents.nodup list
  rw [whole] at distinct
  refine ⟨{ result := some first }, base, ?_, ?_, represents, fun _ => Iff.rfl⟩
  · exact .of_run (loadNext_run (getNext_some linked.1)) (by simpa [loadNext] using here) (.nil _ _)
  · simp only [Call.result, Call.answer, whole, following_eq distinct]
    cases back with
    | nil =>
      obtain ⟨rfl, -⟩ := List.cons.inj starts
      rfl
    | cons other back =>
      obtain ⟨rfl, -⟩ := List.cons.inj starts
      rfl

theorem getPrev_alone (represents : Represents base lists) (member : entry ∈ lists list) :
    ∃ registers whole, Alone base lists (.getPrev list entry) registers whole := by
  obtain ⟨front, back, whole⟩ := List.append_of_mem member
  obtain ⟨pre, last, ends⟩ := exists_last list front
  obtain ⟨first, post, starts⟩ := exists_first list back
  have whole' : (lists list).map Node.entry =
      front.map Node.entry ++ Node.entry (L := L) entry :: back.map Node.entry := by
    rw [whole, List.map_append, List.map_cons]
  have linked := (Family.around represents whole' ends starts).1
  have here : Node.entry entry ∈ (Call.getPrev list entry).zone lists := .inr rfl
  have distinct := represents.nodup list
  rw [whole] at distinct
  refine ⟨{ result := some last }, base, ?_, ?_, represents, fun _ => Iff.rfl⟩
  · exact .of_run (loadPrev_run (getPrev_some linked.2)) (by simpa [loadPrev] using here) (.nil _ _)
  · simp only [Call.result, Call.answer, whole, preceding_eq distinct]
    rcases List.eq_nil_or_concat front with rfl | ⟨front, other, rfl⟩
    · obtain ⟨-, same⟩ := List.append_inj' (show [] ++ [Node.head list] = pre ++ [last] from ends) rfl
      obtain rfl := (List.cons.inj same).1
      rfl
    · rw [List.concat_eq_append, List.map_append, ← List.cons_append] at ends
      obtain ⟨-, same⟩ := List.append_inj' ends rfl
      obtain rfl := (List.cons.inj same).1
      simp

theorem Call.alone (represents : Represents base lists)
    (live : ∀ entry, base.Live (.entry entry)) (call : Call L E)
    (admissible : call.Admissible lists) :
    ∃ registers whole, Alone base lists call registers whole := by
  cases call with
  | insert list entry lock => exact insert_alone represents (live entry) lock admissible
  | append list entry lock => exact append_alone represents (live entry) lock admissible
  | remove list entry lock => exact remove_alone_or represents (live entry) lock admissible
  | getHead list => exact getHead_alone represents list
  | getTail list => exact getTail_alone represents list
  | getNext list entry => exact getNext_alone represents admissible
  | getPrev list entry => exact getPrev_alone represents admissible

end

/-! ## What a call leaves to the others -/

section

variable {base : Memory L E} {lists : Abstract L E} {call other : Call L E} {list : L} {entry : E}

omit [DecidableEq L] [DecidableEq E] in
theorem Call.Admissible.here (represents : Represents base lists)
    (admissible : call.Admissible lists) (about : call.entry = some entry)
    (member : entry ∈ lists list) : list = call.list := by
  cases call with
  | insert one other lock =>
    obtain rfl := Option.some.inj about
    exact absurd member (admissible list)
  | append one other lock =>
    obtain rfl := Option.some.inj about
    exact absurd member (admissible list)
  | remove one other lock =>
    obtain rfl := Option.some.inj about
    rcases admissible with there | absent
    · exact represents.apart member there
    · exact absurd member (absent list)
  | getHead one => cases about
  | getTail one => cases about
  | getNext one other =>
    obtain rfl := Option.some.inj about
    exact represents.apart member admissible
  | getPrev one other =>
    obtain rfl := Option.some.inj about
    exact represents.apart member admissible

theorem Call.apply_other (represents : Represents base lists)
    (admissible : call.Admissible lists) (different : list ≠ call.list) :
    call.apply lists list = lists list := by
  cases call with
  | insert one entry lock => exact Function.update_of_ne different _ _
  | append one entry lock => exact Function.update_of_ne different _ _
  | remove one entry lock =>
    apply List.erase_of_not_mem
    intro member
    exact different (Call.Admissible.here represents admissible rfl member)
  | getHead one => rfl
  | getTail one => rfl
  | getNext one entry => rfl
  | getPrev one entry => rfl

theorem Call.mem_apply (apart : call.entry ≠ some entry) :
    entry ∈ call.apply lists list ↔ entry ∈ lists list := by
  cases call with
  | insert one new lock =>
    have different : entry ≠ new := fun same => apart (same ▸ rfl)
    by_cases same : list = one
    · subst same
      simp [Call.apply, Op.apply, different]
    · simp [Call.apply, Op.apply, Function.update_of_ne same]
  | append one new lock =>
    have different : entry ≠ new := fun same => apart (same ▸ rfl)
    by_cases same : list = one
    · subst same
      simp [Call.apply, Op.apply, different]
    · simp [Call.apply, Op.apply, Function.update_of_ne same]
  | remove one old lock =>
    have different : entry ≠ old := fun same => apart (same ▸ rfl)
    exact List.mem_erase_of_ne different
  | getHead one => rfl
  | getTail one => rfl
  | getNext one entry => rfl
  | getPrev one entry => rfl

theorem Call.Admissible.after (admissible : other.Admissible lists)
    (apart : ∀ entry, other.entry = some entry → call.entry ≠ some entry) :
    other.Admissible (call.apply lists) := by
  have mem {entry : E} (about : other.entry = some entry) (list : L) :
      entry ∈ call.apply lists list ↔ entry ∈ lists list := Call.mem_apply (apart entry about)
  cases other with
  | insert one entry lock => exact fun list member => admissible list ((mem rfl list).1 member)
  | append one entry lock => exact fun list member => admissible list ((mem rfl list).1 member)
  | remove one entry lock =>
    rcases admissible with there | absent
    · exact .inl ((mem rfl one).2 there)
    · exact .inr fun list member => absent list ((mem rfl list).1 member)
  | getHead one => trivial
  | getTail one => trivial
  | getNext one entry => exact (mem rfl one).2 admissible
  | getPrev one entry => exact (mem rfl one).2 admissible

omit [DecidableEq L] [DecidableEq E] in
theorem Call.zone_apart (represents : Represents base lists) (admissible : call.Admissible lists)
    (admissible' : other.Admissible lists) (different : call.list ≠ other.list)
    (apart : ∀ entry, call.entry = some entry → other.entry ≠ some entry) :
    Disjoint (call.zone lists) (other.zone lists) := by
  rw [Set.disjoint_left]
  rintro node (here | here) (there | there)
  · exact different (Family.apart represents _ _ node here there)
  · obtain ⟨entry, about, rfl⟩ := Option.map_eq_some_iff.1 there
    exact different (admissible'.here represents about ((entry_mem entry call.list).1 here))
  · obtain ⟨entry, about, rfl⟩ := Option.map_eq_some_iff.1 here
    exact different (admissible.here represents about ((entry_mem entry other.list).1 there)).symm
  · obtain ⟨entry, about, rfl⟩ := Option.map_eq_some_iff.1 here
    obtain ⟨entry', about', same⟩ := Option.map_eq_some_iff.1 there
    obtain rfl := Node.entry.inj same
    exact apart entry' about about'

end

/-! ## All threads together -/

omit [DecidableEq T] in
theorem correct_append {lists : Abstract L E} {events : List (Returned T L E)}
    {event : Returned T L E} : Correct lists (events ++ [event]) ↔ Correct lists events ∧
      event.call.Admissible (outcome lists events) ∧
        event.result = event.call.answer (outcome lists events) := by
  induction events generalizing lists with
  | nil => simp [Correct, outcome]
  | cons first events ih =>
    simp only [List.cons_append, Correct, ih, and_assoc]
    rfl

def State.frames (state : State T L E) (thread : T) :
    Option (Frame (Registers L E) (Node L E) (Option (Cell (Node L E)))) :=
  (state.running thread).map Prod.snd

def State.zones (state : State T L E) (thread : T) : Set (Node L E) :=
  ((state.running thread).map fun activity => activity.1.zone state.lists).getD ∅

/-- What every step keeps, with the memory in which the calls that run have not begun. -/
structure Sound (config : Config T L) (state : State T L E) (base : Memory L E) : Prop where
  represents : Represents base state.lists
  live : ∀ entry, base.Live (.entry entry)
  serial : Serial base state.memory state.frames state.zones
  correct : Correct (fun _ => []) state.returned
  plan : ∀ {thread activity}, state.running thread = some activity →
    activity.2.code = activity.1.code ∧ activity.2.start = {}
  holds : ∀ {thread activity}, state.running thread = some activity →
    config.Holds state.mutex thread activity.1.list
  admissible : ∀ {thread activity}, state.running thread = some activity →
    activity.1.Admissible state.lists
  apart : ∀ {one two : T} {first second}, one ≠ two → state.running one = some first →
    state.running two = some second → ∀ entry, first.1.entry = some entry →
      second.1.entry ≠ some entry

section

variable {config : Config T L} {state next : State T L E} {base : Memory L E} {thread one two : T}
  {call : Call L E} {activity first second : Activity L E}
  {frame : Frame (Registers L E) (Node L E) (Option (Cell (Node L E)))}

omit [DecidableEq T] [DecidableEq L] [DecidableEq E] in
theorem State.frames_isSome : (state.frames thread).isSome ↔
    ∃ activity, state.running thread = some activity := by
  rw [State.frames, Option.isSome_map, Option.isSome_iff_exists]

omit [DecidableEq T] in
theorem State.zones_some (runs : state.running thread = some activity) :
    state.zones thread = activity.1.zone state.lists := by
  simp [State.zones, runs]

omit [DecidableEq L] [DecidableEq E] in
theorem frames_update {thread : T} (running : T → Option (Activity L E))
    (activity : Option (Activity L E)) :
    (fun other => (Function.update running thread activity other).map Prod.snd) =
      Function.update (fun other => (running other).map Prod.snd) thread
        (activity.map Prod.snd) := by
  funext other
  by_cases same : other = thread
  · subst same
    simp
  · simp [Function.update_of_ne same]

omit [DecidableEq T] in
theorem Sound.different (sound : Sound config state base) (other : one ≠ two)
    (runs : state.running one = some first) (runs' : state.running two = some second) :
    first.1.list ≠ second.1.list := by
  intro same
  have holds := sound.holds runs
  rw [same] at holds
  exact other (holds.unique (sound.holds runs'))

omit [DecidableEq T] in
theorem start_sound : Sound config (State.start : State T L E) constructed where
  represents := constructed_represents
  live _ := rfl
  serial := .idle _ _
  correct := trivial
  plan runs := by cases runs
  holds runs := by cases runs
  admissible runs := by cases runs
  apart _ runs := by cases runs

omit [DecidableEq T] in
theorem Promised.apart (promised : Promised config state thread call)
    (sound : Sound config state base) {mutex : L → Mutex T}
    (holds : config.Holds mutex thread call.list)
    (kept : ∀ {other list}, config.Holds state.mutex other list → config.Holds mutex other list)
    (different : one ≠ thread) (runs : state.running one = some activity) {entry : E}
    (about : call.entry = some entry) : activity.1.entry ≠ some entry := by
  by_cases absent : ∀ list, entry ∉ state.lists list
  · exact promised.alone entry about absent one activity runs
  · push Not at absent
    obtain ⟨list, member⟩ := absent
    intro about'
    have here := promised.admissible.here sound.represents about member
    have there := (sound.admissible runs).here sound.represents about' member
    have holds' := kept (sound.holds runs)
    rw [← there, here] at holds'
    exact different (holds'.unique holds)

theorem Sound.called (sound : Sound config state base) (idle : state.running thread = none)
    (promised : Promised config state thread call) {mutex : L → Mutex T}
    (holds : config.Holds mutex thread call.list)
    (kept : ∀ {other list}, config.Holds state.mutex other list → config.Holds mutex other list) :
    Sound config { state with
      mutex
      running := Function.update state.running thread (some (call, .begin {} call.code)) } base := by
  have others {other : T} (different : other ≠ thread) :
      Function.update state.running thread (some (call, .begin {} call.code)) other =
        state.running other := Function.update_of_ne different _ _
  have apart {other : T} {activity : Activity L E} (different : other ≠ thread)
      (runs : state.running other = some activity) {entry : E} (about : call.entry = some entry) :
      activity.1.entry ≠ some entry := promised.apart sound holds kept different runs about
  obtain ⟨registers, whole, alone⟩ := call.alone sound.represents sound.live promised.admissible
  refine ⟨sound.represents, sound.live, ?_, sound.correct, ?_, ?_, ?_, ?_⟩
  · -- the zones of the threads that ran are what they were
    have zones : ∀ other, (state.frames other).isSome →
        State.zones { state with
          mutex
          running := Function.update state.running thread
            (some (call, .begin {} call.code)) } other = state.zones other := by
      intro other runs
      have different : other ≠ thread := by
        rintro rfl
        simp [State.frames, idle] at runs
      simp only [State.zones, others different]
      rfl
    have zone : State.zones { state with
        mutex
        running := Function.update state.running thread (some (call, .begin {} call.code)) } thread =
          call.zone state.lists := by
      simp only [State.zones, Function.update_self]
      rfl
    have runs := alone.runs
    rw [← zone] at runs
    have begun := (sound.serial.congr zones).begin {} runs (by simp [State.frames, idle]) ?_
    · unfold State.frames at begun ⊢
      rwa [frames_update]
    · intro other different runs
      rw [zones other runs, zone]
      obtain ⟨activity, runs⟩ := State.frames_isSome.1 runs
      rw [State.zones_some runs]
      refine Call.zone_apart sound.represents (sound.admissible runs) promised.admissible ?_ ?_
      · intro same
        have holds' := kept (sound.holds runs)
        rw [same] at holds'
        exact different (holds'.unique holds)
      · intro entry about about'
        exact apart different runs about' about
  · exact fun {other activity} => forall_update (fun _ (activity : Activity L E) =>
      activity.2.code = activity.1.code ∧ activity.2.start = {}) ⟨rfl, rfl⟩
      (fun _ _ _ runs => sound.plan runs) other activity
  · exact fun {other activity} => forall_update (fun other (activity : Activity L E) =>
      config.Holds mutex other activity.1.list) holds
      (fun _ _ _ runs => kept (sound.holds runs)) other activity
  · exact fun {other activity} => forall_update (fun _ (activity : Activity L E) =>
      activity.1.Admissible state.lists) promised.admissible
      (fun _ _ _ runs => sound.admissible runs) other activity
  · intro one two first second different runs runs' entry about about'
    dsimp only at runs runs'
    by_cases same : one = thread
    · subst same
      rw [Function.update_self, Option.some.injEq] at runs
      subst runs
      rw [others (Ne.symm different)] at runs'
      exact apart (Ne.symm different) runs' about about'
    · rw [others same] at runs
      by_cases same' : two = thread
      · subst same'
        rw [Function.update_self, Option.some.injEq] at runs'
        subst runs'
        exact apart different runs about' about
      · rw [others same'] at runs'
        exact sound.apart different runs runs' entry about about'

theorem Sound.accessed (sound : Sound config state base)
    (runs : state.running thread = some (call, frame))
    {access : Access (Registers L E) (Node L E) (Option (Cell (Node L E)))} {code : Code L E}
    {registers : Registers L E} {memory : Memory L E} (left : frame.rest = access :: code)
    (ran : access.run frame.registers state.memory = some (registers, memory)) :
    Sound config { state with
      memory
      running := Function.update state.running thread
        (some (call, { frame with registers, rest := code })) } base := by
  have framed : state.frames thread = some frame := by simp [State.frames, runs]
  obtain ⟨registers', memory', ran', stepped⟩ := sound.serial.step framed left
  rw [ran, Option.some.injEq, Prod.mk.injEq] at ran'
  obtain ⟨rfl, rfl⟩ := ran'
  -- the call of the thread is the same as before
  have before {other : T} {activity : Activity L E} (runs' : Function.update state.running thread
      (some (call, { frame with registers, rest := code })) other = some activity) :
      ∃ was, state.running other = some was ∧ activity.1 = was.1 ∧
        activity.2.code = was.2.code ∧ activity.2.start = was.2.start := by
    refine forall_update (fun other (activity : Activity L E) =>
      ∃ was, state.running other = some was ∧ activity.1 = was.1 ∧
        activity.2.code = was.2.code ∧ activity.2.start = was.2.start) ?_ ?_ other activity runs'
    · exact ⟨(call, frame), runs, rfl, rfl, rfl⟩
    · exact fun _ activity _ runs => ⟨activity, runs, rfl, rfl, rfl⟩
  refine ⟨sound.represents, sound.live, ?_, sound.correct, ?_, ?_, ?_, ?_⟩
  · have zones : State.zones { state with
        memory
        running := Function.update state.running thread
          (some (call, { frame with registers, rest := code })) } = state.zones := by
      funext other
      by_cases same : other = thread
      · subst same
        rw [State.zones_some runs]
        simp only [State.zones, Function.update_self]
        rfl
      · simp only [State.zones, Function.update_of_ne same]
        rfl
    rw [zones]
    unfold State.frames at stepped ⊢
    rwa [frames_update]
  · intro other activity runs'
    obtain ⟨was, runs', same, code, start⟩ := before runs'
    rw [code, start, same]
    exact sound.plan runs'
  · intro other activity runs'
    obtain ⟨was, runs', same, -⟩ := before runs'
    rw [same]
    exact sound.holds runs'
  · intro other activity runs'
    obtain ⟨was, runs', same, -⟩ := before runs'
    rw [same]
    exact sound.admissible runs'
  · intro one two first second different runs' runs'' entry about
    obtain ⟨was, runs', same, -⟩ := before runs'
    obtain ⟨was', runs'', same', -⟩ := before runs''
    rw [same'] 
    rw [same] at about
    exact sound.apart different runs' runs'' entry about

theorem Sound.returned (sound : Sound config state base)
    (runs : state.running thread = some (call, frame)) (left : frame.rest = []) :
    ∃ whole, Sound config { state with
      mutex := if call.lock then config.unlock state.mutex call.list thread else state.mutex
      running := Function.update state.running thread none
      returned := state.returned ++ [⟨thread, call, call.result frame.registers⟩] } whole := by
  have framed : state.frames thread = some frame := by simp [State.frames, runs]
  obtain ⟨whole, ran, finished⟩ := sound.serial.finish framed left
  -- what the call has done is what it does alone
  obtain ⟨registers, whole', alone⟩ := call.alone sound.represents sound.live
    (sound.admissible runs)
  obtain ⟨code, start⟩ := sound.plan runs
  have ran' := ran.run
  dsimp only at code start
  rw [code, start, alone.runs.run, Option.some.injEq, Prod.mk.injEq] at ran'
  obtain ⟨rfl, rfl⟩ := ran'
  have before {other : T} {activity : Activity L E} (runs' :
      Function.update state.running thread none other = some activity) :
      other ≠ thread ∧ state.running other = some activity := by
    by_cases same : other = thread
    · rw [same, Function.update_self] at runs'
      cases runs'
    · exact ⟨same, by rwa [Function.update_of_ne same] at runs'⟩
  have lists : State.lists { state with
      mutex := if call.lock then config.unlock state.mutex call.list thread else state.mutex
      running := Function.update state.running thread none
      returned := state.returned ++ [⟨thread, call, call.result frame.registers⟩] } =
        call.apply state.lists := by
    simp [State.lists, outcome]
  refine ⟨whole', ?_, ?_, ?_, ?_, ?_, ?_, ?_, ?_⟩
  · rw [lists]
    exact alone.leaves.represents
  · intro entry
    exact (alone.leaves.live _).2 (sound.live entry)
  · have framed' : State.frames { state with
        mutex := if call.lock then config.unlock state.mutex call.list thread else state.mutex
        running := Function.update state.running thread none
        returned := state.returned ++ [⟨thread, call, call.result frame.registers⟩] } =
          Function.update state.frames thread none := frames_update state.running none
    rw [framed']
    refine finished.congr fun other runs' => ?_
    rw [← framed'] at runs'
    obtain ⟨activity, runs'⟩ := State.frames_isSome.1 runs'
    obtain ⟨different, runs''⟩ := before runs'
    rw [State.zones_some runs'', State.zones_some runs', lists]
    simp only [Call.zone]
    rw [Call.apply_other sound.represents (sound.admissible runs)
      (sound.different different runs'' runs)]
  · rw [correct_append]
    exact ⟨sound.correct, sound.admissible runs, alone.answers⟩
  · intro other activity runs'
    exact sound.plan (before runs').2
  · intro other activity runs'
    obtain ⟨different, runs'⟩ := before runs'
    dsimp only
    split
    next => exact (sound.holds runs').unlock different
    next => exact sound.holds runs'
  · intro other activity runs'
    obtain ⟨different, runs'⟩ := before runs'
    rw [lists]
    exact (sound.admissible runs').after (sound.apart different runs' runs)
  · intro one two first second different runs' runs''
    exact sound.apart different (before runs').2 (before runs'').2

theorem Sound.step (sound : Sound config state base) (step : Step config state next) :
    ∃ base, Sound config next base := by
  cases step with
  | lock idle locked =>
    exact ⟨base, sound.represents, sound.live, sound.serial, sound.correct, sound.plan,
      fun runs => (sound.holds runs).lock locked, sound.admissible, sound.apart⟩
  | @unlock thread list idle =>
    refine ⟨base, sound.represents, sound.live, sound.serial, sound.correct, sound.plan,
      fun {other activity} runs => ?_, sound.admissible, sound.apart⟩
    refine (sound.holds runs).unlock ?_
    rintro rfl
    rw [idle] at runs
    cases runs
  | @call thread call mutex idle promised locked =>
    have kept {other : T} {list : L} (holds : config.Holds state.mutex other list) :
        config.Holds mutex other list := by
      split at locked
      next => exact holds.lock locked
      next =>
        obtain rfl := Option.some.inj locked
        exact holds
    refine ⟨base, sound.called idle promised ?_ kept⟩
    by_cases own : (call.lock && config.locking call.list) = false
    · exact kept (promised.holds own)
    · rw [Bool.not_eq_false, Bool.and_eq_true] at own
      rw [if_pos own.1] at locked
      exact Config.lock_holds locked own.2
  | access runs left ran => exact ⟨base, sound.accessed runs left ran⟩
  | «return» runs left => exact sound.returned runs left

theorem Reachable.sound (reachable : Reachable config state) : ∃ base, Sound config state base := by
  induction reachable with
  | start => exact ⟨_, start_sound⟩
  | step _ step ih =>
    obtain ⟨base, sound⟩ := ih
    exact sound.step step

theorem Traversed.transport {memory : Memory L E} {lists : Abstract L E} {list : L}
    (represents : Represents base lists)
    (same : ∀ node ∈ Node.head list :: (lists list).map Node.entry, memory node = base node) :
    Traversed memory list (lists list) := by
  have traversed := represents.traversed list
  have ring : Ring memory (.head list) ((lists list).map Node.entry) := by
    refine Links.frame (Family.ring represents list) ?_ ?_
    · intro node member
      rw [← List.cons_append, List.dropLast_concat] at member
      simp only [Cells.next, same node member]
    · intro node member
      rw [List.tail_cons, List.mem_append, List.mem_singleton] at member
      simp only [Cells.prev, same node (List.mem_cons.2 member.symm)]
  have head : memory (.head list) = base (.head list) := same _ List.mem_cons_self
  constructor
  · rw [← traversed.head]
    simp only [getHead, getNext, Cells.load, Option.bind_some, head]
  · rw [← traversed.tail]
    simp only [getTail, getPrev, Cells.load, Option.bind_some, head]
  · intro fuel enough
    exact traverse_end ((List.IsChain.tail ring).imp fun _ _ linked => getNext_some linked.1) enough
  · intro fuel enough
    have turned : (Node.head list :: ((lists list).map Node.entry ++ [Node.head list])).reverse =
        Node.head list :: ((lists list).reverse.map Node.entry ++ [Node.head list]) := by simp
    have ring' := List.isChain_reverse.2 ring
    rw [turned] at ring'
    rw [← List.head?_reverse, ← List.map_reverse]
    refine traverse_end ?_ (by rwa [List.length_reverse])
    exact (List.IsChain.tail ring').imp fun _ _ linked => getPrev_some linked.2

omit [DecidableEq T] in
theorem Sound.untouched (sound : Sound config state base) {list : L}
    (quiet : ∀ thread activity, state.running thread = some activity → activity.1.list ≠ list)
    {node : Node L E} (member : node ∈ Node.head list :: (state.lists list).map Node.entry) :
    state.memory node = base node := by
  apply sound.serial.outside
  intro thread runs inside
  obtain ⟨activity, runs⟩ := State.frames_isSome.1 runs
  rw [State.zones_some runs] at inside
  rcases inside with inside | inside
  · exact quiet thread activity runs (Family.apart sound.represents _ _ node inside member)
  · obtain ⟨entry, about, rfl⟩ := Option.map_eq_some_iff.1 inside
    have here := (sound.admissible runs).here sound.represents about ((entry_mem entry list).1 member)
    exact quiet thread activity runs here.symm

/-- However the threads take turns at the single loads and stores, no access fails, the calls
answer as if each had been made at once when it returned, calls on one list never run together,
and a list on which no call runs has the entries that the calls are to give. -/
theorem shared_lists_serial (reachable : Reachable config state) :
    Correct (fun _ => []) state.returned ∧
      (∀ thread call frame access code, state.running thread = some (call, frame) →
        frame.rest = access :: code → (access.run frame.registers state.memory).isSome) ∧
      (∀ one two first second, state.running one = some first → state.running two = some second →
        first.1.list = second.1.list → one = two) ∧
      ∀ list, (∀ thread activity, state.running thread = some activity → activity.1.list ≠ list) →
        Traversed state.memory list (state.lists list) := by
  obtain ⟨base, sound⟩ := reachable.sound
  refine ⟨sound.correct, ?_, ?_, ?_⟩
  · intro thread call frame access code runs left
    obtain ⟨registers, memory, ran, -⟩ :=
      sound.serial.step (show state.frames thread = some frame by simp [State.frames, runs]) left
    simp [ran]
  · intro one two first second runs runs' same
    by_contra different
    exact sound.different different runs runs' same
  · intro list quiet
    exact .transport sound.represents fun node member => sound.untouched quiet member

end

/-! ## Schedules -/

def State.access (state : State T L E) (thread : T) : Option (State T L E) := do
  let (call, frame) ← state.running thread
  match frame.rest with
  | [] => none
  | access :: code =>
    let (registers, memory) ← access.run frame.registers state.memory
    some { state with
      memory
      running := Function.update state.running thread
        (some (call, { frame with registers, rest := code })) }

def State.leave (config : Config T L) (state : State T L E) (thread : T) :
    Option (State T L E) := do
  let (call, frame) ← state.running thread
  match frame.rest with
  | [] =>
    some { state with
      mutex := if call.lock then config.unlock state.mutex call.list thread else state.mutex
      running := Function.update state.running thread none
      returned := state.returned ++ [⟨thread, call, call.result frame.registers⟩] }
  | _ :: _ => none

section

variable {config : Config T L} {state next : State T L E} {thread : T}

theorem Step.of_leave (thread : T) (left : state.leave config thread = some next) :
    Step config state next := by
  simp only [State.leave, Option.bind_eq_bind, Option.bind_eq_some_iff, Prod.exists] at left
  obtain ⟨call, frame, runs, left⟩ := left
  split at left
  next ended =>
    obtain rfl := Option.some.inj left
    exact .return runs ended
  next => cases left

theorem Step.of_access (accessed : state.access thread = some next) :
    Step config state next ∧ next.mutex = state.mutex := by
  simp only [State.access, Option.bind_eq_bind, Option.bind_eq_some_iff, Prod.exists] at accessed
  obtain ⟨call, frame, runs, accessed⟩ := accessed
  split at accessed
  next => cases accessed
  next access code left =>
    obtain ⟨⟨registers, memory⟩, ran, same⟩ := Option.bind_eq_some_iff.1 accessed
    obtain rfl := Option.some.inj same
    exact ⟨.access runs left ran, rfl⟩

theorem Reachable.accesses (reachable : Reachable config state) (threads : List T)
    (accessed : threads.foldlM State.access state = some next) : Reachable config next := by
  induction threads generalizing state with
  | nil =>
    obtain rfl := Option.some.inj accessed
    exact reachable
  | cons thread threads ih =>
    rw [List.foldlM_cons, Option.bind_eq_bind, Option.bind_eq_some_iff] at accessed
    obtain ⟨middle, first, rest⟩ := accessed
    exact ih (reachable.step (Step.of_access first).1) rest

end

def busy : State Bool Bool Bool where
  memory := constructed
  mutex := Function.update (Function.update (fun _ => .init) false ⟨some (false, 0)⟩) true
    ⟨some (true, 0)⟩
  running := Function.update (Function.update (fun _ => none) false
    (some (.insert false false true, .begin {} (Call.insert false false true).code))) true
    (some (.append true true true, .begin {} (Call.append true true true).code))
  returned := []

theorem busy_reachable : Reachable ⟨fun _ => true, id⟩ busy := by
  have first : Promised ⟨fun _ => true, id⟩ (State.start : State Bool Bool Bool) false
      (.insert false false true) := by
    refine ⟨(fun own => nomatch own), fun list => List.not_mem_nil, ?_⟩
    intro entry about absent other activity runs
    cases runs
  refine .step (.step .start (.call rfl first rfl))
    (.call rfl ⟨(fun own => nomatch own), ?_, ?_⟩ rfl)
  · exact fun list => List.not_mem_nil
  · intro entry about absent other activity runs about'
    obtain rfl := Option.some.inj about
    cases other with
    | false =>
      obtain rfl := Option.some.inj runs
      cases about'
    | true => cases runs

/-- Both threads go on by turns until their calls have returned, and one of them asks for the tail
of the list of the other one. -/
theorem shared_lists_serial_busy : ∃ state : State Bool Bool Bool,
    Reachable ⟨fun _ => true, id⟩ state ∧
      state.returned.map (fun event => (event.thread, event.result)) =
        [(true, none), (false, none), (true, some (.entry false))] ∧
      Traversed state.memory false [false] ∧ Traversed state.memory true [true] := by
  have accessed := busy_reachable.accesses
    [false, true, true, false, true, false, false, true, true, false] rfl
  have appended := accessed.step (.of_leave true rfl)
  have inserted := appended.step (.of_leave false rfl)
  have locked := inserted.step (@Step.lock _ _ _ _ _ _ _ _ true false _ rfl rfl)
  have called := locked.step (@Step.call _ _ _ _ _ _ _ _ true (.getTail false) _ rfl
    ⟨fun _ => rfl, trivial, fun _ about => nomatch about⟩ rfl)
  have loaded := called.accesses [true, true] rfl
  have returned := loaded.step (.of_leave true rfl)
  have serial := (shared_lists_serial returned).2.2.2
  refine ⟨_, returned, rfl, serial false ?_, serial true ?_⟩ <;>
    (intro thread activity runs; cases thread <;> cases runs)

end Lists

end Ptp

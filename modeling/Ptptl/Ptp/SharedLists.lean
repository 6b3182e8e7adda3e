import Ptptl.Library.Sections
import Ptptl.Ptp.Lists

set_option autoImplicit false

/-!
# Lists that threads share

The calls on a list are made of single loads and stores of links, and the threads take turns at
every one of them. Only the mutex of a list keeps the calls on it apart.
-/

namespace Ptp

/-! ## The mutex -/

/-- A recursive mutex, with the thread that holds it and how often it does beyond once. -/
structure Mutex (T : Type) where
  holder : Option (T × Nat)

namespace Mutex

variable {T : Type} [DecidableEq T]

/-- `Mutex()`. -/
def init : Mutex T := ⟨none⟩

/-- `Lock`; `none` as long as the thread waits. -/
def lock (mutex : Mutex T) (thread : T) : Option (Mutex T) :=
  match mutex.holder with
  | none => some ⟨some (thread, 0)⟩
  | some (owner, count) => if owner = thread then some ⟨some (thread, count + 1)⟩ else none

def tryLock (mutex : Mutex T) (thread : T) : Int × Mutex T :=
  match mutex.lock thread with
  | some mutex => (0, mutex)
  | none => (-1, mutex)

def unlock (mutex : Mutex T) (thread : T) : Mutex T :=
  match mutex.holder with
  | some (owner, 0) => if owner = thread then ⟨none⟩ else mutex
  | some (owner, count + 1) => if owner = thread then ⟨some (owner, count)⟩ else mutex
  | none => mutex

def owner (mutex : Mutex T) : Option T := mutex.holder.map Prod.fst

variable {mutex after : Mutex T} {thread other : T}

theorem lock_owner (locked : mutex.lock thread = some after) : after.owner = some thread := by
  unfold lock at locked
  split at locked
  next =>
    obtain rfl := Option.some.inj locked
    rfl
  next owner count held =>
    split at locked
    next same =>
      obtain rfl := Option.some.inj locked
      rfl
    next => cases locked

theorem lock_keeps (locked : mutex.lock thread = some after) (held : mutex.owner = some other) :
    after.owner = some other := by
  rw [lock_owner locked]
  unfold lock at locked
  cases holds : mutex.holder with
  | none => simp [owner, holds] at held
  | some pair =>
    obtain ⟨owner_, count⟩ := pair
    obtain rfl : owner_ = other := by simpa [owner, holds] using held
    simp only [holds] at locked
    split at locked
    next same => rw [same]
    next => cases locked

theorem unlock_keeps (held : mutex.owner = some other) (different : other ≠ thread) :
    (mutex.unlock thread).owner = some other := by
  unfold unlock
  split
  next owner_ holds =>
    obtain rfl : owner_ = other := by simpa [owner, holds] using held
    rw [if_neg different]
    exact held
  next owner_ count holds =>
    obtain rfl : owner_ = other := by simpa [owner, holds] using held
    rw [if_neg different]
    exact held
  next => exact held

end Mutex

namespace Lists

open Rings Sections

variable {T L E : Type} [DecidableEq T] [DecidableEq L] [DecidableEq E]

/-! ## The calls as single loads and stores -/

structure Registers (L E : Type) where
  next : Pointer L E := none
  prev : Pointer L E := none
  result : Pointer L E := none

abbrev Code (L E : Type) :=
  List (Access (Registers L E) (Node L E) (Option (Cell (Node L E))))

def loadNext (pointer : Registers L E → Pointer L E)
    (into : Registers L E → Pointer L E → Registers L E) :
    Access (Registers L E) (Node L E) (Option (Cell (Node L E))) where
  address := pointer
  act registers cell := cell.map fun cell => (into registers cell.next, some cell)

def loadPrev (pointer : Registers L E → Pointer L E)
    (into : Registers L E → Pointer L E → Registers L E) :
    Access (Registers L E) (Node L E) (Option (Cell (Node L E))) where
  address := pointer
  act registers cell := cell.map fun cell => (into registers cell.prev, some cell)

def storeNext (pointer value : Registers L E → Pointer L E) :
    Access (Registers L E) (Node L E) (Option (Cell (Node L E))) where
  address := pointer
  act registers cell := cell.map fun cell => (registers, some { cell with next := value registers })

def storePrev (pointer value : Registers L E → Pointer L E) :
    Access (Registers L E) (Node L E) (Option (Cell (Node L E))) where
  address := pointer
  act registers cell := cell.map fun cell => (registers, some { cell with prev := value registers })

/-- A call on a list, with its `lock`; `GetNext` and `GetPrev` are called on an entry of the list. -/
inductive Call (L E : Type) where
  | insert (list : L) (entry : E) (lock : Bool)
  | append (list : L) (entry : E) (lock : Bool)
  | remove (list : L) (entry : E) (lock : Bool)
  | getHead (list : L)
  | getTail (list : L)
  | getNext (list : L) (entry : E)
  | getPrev (list : L) (entry : E)

namespace Call

def list : Call L E → L
  | insert list _ _ => list
  | append list _ _ => list
  | remove list _ _ => list
  | getHead list => list
  | getTail list => list
  | getNext list _ => list
  | getPrev list _ => list

def entry : Call L E → Option E
  | insert _ entry _ => some entry
  | append _ entry _ => some entry
  | remove _ entry _ => some entry
  | getHead _ => none
  | getTail _ => none
  | getNext _ entry => some entry
  | getPrev _ entry => some entry

def lock : Call L E → Bool
  | insert _ _ lock => lock
  | append _ _ lock => lock
  | remove _ _ lock => lock
  | getHead _ => false
  | getTail _ => false
  | getNext _ _ => false
  | getPrev _ _ => false

/-- What is between the lock and its release. `GetHead` and `GetTail` load the link of the head once
to see whether it is valid and once to return it. -/
def code : Call L E → Code L E
  | insert list entry _ =>
    [loadNext (fun _ => some (.head list)) fun registers next => { registers with next },
      storeNext (fun _ => some (.entry entry)) Registers.next,
      storePrev (fun _ => some (.entry entry)) fun _ => some (.head list),
      storePrev Registers.next fun _ => some (.entry entry),
      storeNext (fun _ => some (.head list)) fun _ => some (.entry entry)]
  | append list entry _ =>
    [loadPrev (fun _ => some (.head list)) fun registers prev => { registers with prev },
      storeNext (fun _ => some (.entry entry)) fun _ => some (.head list),
      storePrev (fun _ => some (.entry entry)) Registers.prev,
      storeNext Registers.prev fun _ => some (.entry entry),
      storePrev (fun _ => some (.head list)) fun _ => some (.entry entry)]
  | remove _ entry _ =>
    [loadNext (fun _ => some (.entry entry)) fun registers next => { registers with next },
      loadPrev (fun _ => some (.entry entry)) fun registers prev => { registers with prev },
      storePrev Registers.next Registers.prev,
      storeNext Registers.prev Registers.next,
      storeNext (fun _ => some (.entry entry)) fun _ => some (.entry entry),
      storePrev (fun _ => some (.entry entry)) fun _ => some (.entry entry)]
  | getHead list =>
    [loadNext (fun _ => some (.head list)) fun registers next => { registers with next },
      loadNext (fun _ => some (.head list)) fun registers result => { registers with result }]
  | getTail list =>
    [loadPrev (fun _ => some (.head list)) fun registers prev => { registers with prev },
      loadPrev (fun _ => some (.head list)) fun registers result => { registers with result }]
  | getNext _ entry =>
    [loadNext (fun _ => some (.entry entry)) fun registers result => { registers with result }]
  | getPrev _ entry =>
    [loadPrev (fun _ => some (.entry entry)) fun registers result => { registers with result }]

def result (registers : Registers L E) : Call L E → Pointer L E
  | getHead list => if isValid list registers.next then registers.result else none
  | getTail list => if isValid list registers.prev then registers.result else none
  | getNext _ _ => registers.result
  | getPrev _ _ => registers.result
  | _ => none

/-! ## What the calls are for -/

def following (list : L) (entry : E) (entries : List E) : Node L E :=
  ((entries.dropWhile (· ≠ entry)).tail.head?.map Node.entry).getD (.head list)

def preceding (list : L) (entry : E) (entries : List E) : Node L E :=
  following list entry entries.reverse

def apply (lists : Abstract L E) : Call L E → Abstract L E
  | insert list entry _ => Op.apply lists (.insert list entry)
  | append list entry _ => Op.apply lists (.append list entry)
  | remove list entry _ => Op.apply lists (.remove list entry)
  | getHead _ => lists
  | getTail _ => lists
  | getNext _ _ => lists
  | getPrev _ _ => lists

def answer (lists : Abstract L E) : Call L E → Pointer L E
  | getHead list => (lists list).head?.map Node.entry
  | getTail list => (lists list).getLast?.map Node.entry
  | getNext list entry => some (following list entry (lists list))
  | getPrev list entry => some (preceding list entry (lists list))
  | _ => none

/-- Only an entry of no list is inserted or appended. An entry that is removed is in the list whose
mutex is used, or in none. -/
def Admissible (lists : Abstract L E) : Call L E → Prop
  | insert _ entry _ => ∀ list, entry ∉ lists list
  | append _ entry _ => ∀ list, entry ∉ lists list
  | remove list entry _ => entry ∈ lists list ∨ ∀ list, entry ∉ lists list
  | getHead _ => True
  | getTail _ => True
  | getNext list entry => entry ∈ lists list
  | getPrev list entry => entry ∈ lists list

def zone (lists : Abstract L E) (call : Call L E) : Set (Node L E) :=
  {node | node ∈ Node.head call.list :: (lists call.list).map Node.entry ∨
    call.entry.map Node.entry = some node}

end Call

/-! ## The threads -/

/-- Which lists lock, and which thread has a list that does not. -/
structure Config (T L : Type) where
  locking : L → Bool
  home : L → T

namespace Config

variable (config : Config T L)

def lock (mutex : L → Mutex T) (list : L) (thread : T) : Option (L → Mutex T) :=
  if config.locking list then
    ((mutex list).lock thread).map (Function.update mutex list)
  else some mutex

def unlock (mutex : L → Mutex T) (list : L) (thread : T) : L → Mutex T :=
  if config.locking list then Function.update mutex list ((mutex list).unlock thread) else mutex

def Holds (mutex : L → Mutex T) (thread : T) (list : L) : Prop :=
  if config.locking list then (mutex list).owner = some thread else config.home list = thread

variable {config} {mutex after : L → Mutex T} {thread other : T} {list one : L}

omit [DecidableEq T] [DecidableEq L] in
theorem Holds.unique (holds : config.Holds mutex thread list)
    (holds' : config.Holds mutex other list) : thread = other := by
  unfold Holds at holds holds'
  split at holds
  next locks =>
    rw [if_pos locks] at holds'
    exact Option.some.inj (holds.symm.trans holds')
  next locks =>
    rw [if_neg locks] at holds'
    exact holds.symm.trans holds'

theorem lock_holds (locked : config.lock mutex list thread = some after)
    (locks : config.locking list = true) : config.Holds after thread list := by
  rw [lock, if_pos locks, Option.map_eq_some_iff] at locked
  obtain ⟨mutex', locked, rfl⟩ := locked
  rw [Holds, if_pos locks, Function.update_self]
  exact Mutex.lock_owner locked

theorem Holds.lock (holds : config.Holds mutex other one)
    (locked : config.lock mutex list thread = some after) : config.Holds after other one := by
  unfold Config.lock at locked
  split at locked
  next locks =>
    obtain ⟨mutex', taken, rfl⟩ := Option.map_eq_some_iff.1 locked
    by_cases same : one = list
    · subst same
      rw [Holds, if_pos locks] at holds ⊢
      rw [Function.update_self]
      exact Mutex.lock_keeps taken holds
    · rwa [Holds, Function.update_of_ne same]
  next =>
    obtain rfl := Option.some.inj locked
    exact holds

theorem Holds.unlock (holds : config.Holds mutex other one) (different : other ≠ thread) :
    config.Holds (config.unlock mutex list thread) other one := by
  unfold Config.unlock
  split
  next locks =>
    by_cases same : one = list
    · subst same
      rw [Holds, if_pos locks] at holds ⊢
      rw [Function.update_self]
      exact Mutex.unlock_keeps holds different
    · rwa [Holds, Function.update_of_ne same]
  next => exact holds

end Config

structure Returned (T L E : Type) where
  thread : T
  call : Call L E
  result : Pointer L E

abbrev Activity (L E : Type) :=
  Call L E × Frame (Registers L E) (Node L E) (Option (Cell (Node L E)))

structure State (T L E : Type) where
  memory : Memory L E
  mutex : L → Mutex T
  running : T → Option (Activity L E)
  returned : List (Returned T L E)

def outcome (lists : Abstract L E) (returned : List (Returned T L E)) : Abstract L E :=
  returned.foldl (fun lists event => event.call.apply lists) lists

def State.lists (state : State T L E) : Abstract L E := outcome (fun _ => []) state.returned

/-- What a thread promises when it calls: a call without a lock of its own is made by the holder of
the list, and nobody else is at work with an entry that is in no list. -/
structure Promised (config : Config T L) (state : State T L E) (thread : T) (call : Call L E) :
    Prop where
  holds : (call.lock && config.locking call.list) = false →
    config.Holds state.mutex thread call.list
  admissible : call.Admissible state.lists
  alone : ∀ entry, call.entry = some entry → (∀ list, entry ∉ state.lists list) →
    ∀ other activity, state.running other = some activity → activity.1.entry ≠ some entry

/-- What the threads do, one step of one thread at a time. `TryLock` is `Lock` or nothing. A thread
that is killed makes no more steps. -/
inductive Step (config : Config T L) : State T L E → State T L E → Prop where
  | lock {state : State T L E} {thread : T} {list : L} {mutex : L → Mutex T}
      (idle : state.running thread = none)
      (locked : config.lock state.mutex list thread = some mutex) :
      Step config state { state with mutex }
  | unlock {state : State T L E} {thread : T} {list : L} (idle : state.running thread = none) :
      Step config state { state with mutex := config.unlock state.mutex list thread }
  | call {state : State T L E} {thread : T} {call : Call L E} {mutex : L → Mutex T}
      (idle : state.running thread = none) (promised : Promised config state thread call)
      (locked : (if call.lock then config.lock state.mutex call.list thread
        else some state.mutex) = some mutex) :
      Step config state { state with
        mutex
        running := Function.update state.running thread (some (call, .begin {} call.code)) }
  | access {state : State T L E} {thread : T} {call : Call L E}
      {frame : Frame (Registers L E) (Node L E) (Option (Cell (Node L E)))}
      {access : Access (Registers L E) (Node L E) (Option (Cell (Node L E)))} {code : Code L E}
      {registers : Registers L E} {memory : Memory L E}
      (runs : state.running thread = some (call, frame)) (left : frame.rest = access :: code)
      (ran : access.run frame.registers state.memory = some (registers, memory)) :
      Step config state { state with
        memory
        running := Function.update state.running thread
          (some (call, { frame with registers, rest := code })) }
  | return {state : State T L E} {thread : T} {call : Call L E}
      {frame : Frame (Registers L E) (Node L E) (Option (Cell (Node L E)))}
      (runs : state.running thread = some (call, frame)) (left : frame.rest = []) :
      Step config state { state with
        mutex := if call.lock then config.unlock state.mutex call.list thread else state.mutex
        running := Function.update state.running thread none
        returned := state.returned ++ [⟨thread, call, call.result frame.registers⟩] }

def State.start : State T L E where
  memory := constructed
  mutex _ := .init
  running _ := none
  returned := []

inductive Reachable (config : Config T L) : State T L E → Prop where
  | start : Reachable config .start
  | step {state next : State T L E} (reachable : Reachable config state)
      (step : Step config state next) : Reachable config next

def Correct (lists : Abstract L E) : List (Returned T L E) → Prop
  | [] => True
  | event :: events => event.call.Admissible lists ∧ event.result = event.call.answer lists ∧
      Correct (event.call.apply lists) events

end Lists

end Ptp

import Mathlib.Data.Set.Lattice
import Mathlib.Logic.Function.Basic
import Mathlib.Order.CompletePartialOrder

set_option autoImplicit false

/-!
# Sections of code in apart regions

Threads run sections of code at the same time. A section goes on by single accesses to a memory
that all share, in any order of the threads. When the regions that the sections touch are apart,
each one ends as if it had run alone and at once, from a memory in which the sections that have
not ended have not begun.
-/

namespace Sections

variable {R N V T : Type} [DecidableEq N] [DecidableEq T]

/-- One access: the address that the registers give, and what is done there. -/
structure Access (R N V : Type) where
  address : R → Option N
  act : R → V → Option (R × V)

def Access.run (access : Access R N V) (registers : R) (memory : N → V) :
    Option (R × (N → V)) := do
  let node ← access.address registers
  let (registers, value) ← access.act registers (memory node)
  some (registers, Function.update memory node value)

def run : List (Access R N V) → R → (N → V) → Option (R × (N → V))
  | [], registers, memory => some (registers, memory)
  | access :: code, registers, memory => do
    let (registers, memory) ← access.run registers memory
    run code registers memory

/-- The code runs to its end, with every access inside of the region. -/
inductive Runs (region : Set N) :
    List (Access R N V) → R → (N → V) → R → (N → V) → Prop where
  | nil (registers : R) (memory : N → V) : Runs region [] registers memory registers memory
  | cons {access : Access R N V} {code : List (Access R N V)} {registers next result : R}
      {memory last : N → V} {node : N} {value : V}
      (address : access.address registers = some node) (inside : node ∈ region)
      (acts : access.act registers (memory node) = some (next, value))
      (runs : Runs region code next (Function.update memory node value) result last) :
      Runs region (access :: code) registers memory result last

variable {region : Set N} {access : Access R N V} {code : List (Access R N V)}
  {registers next result : R} {memory after last other base : N → V} {node : N} {value : V}

omit [DecidableEq T] in
theorem Access.run_some (address : access.address registers = some node)
    (acts : access.act registers (memory node) = some (next, value)) :
    access.run registers memory = some (next, Function.update memory node value) := by
  simp only [Access.run, address, acts, Option.bind_eq_bind, Option.bind_some]

theorem Runs.of_run (ran : access.run registers memory = some (next, after))
    (inside : ∀ node, access.address registers = some node → node ∈ region)
    (runs : Runs region code next after result last) :
    Runs region (access :: code) registers memory result last := by
  simp only [Access.run, Option.bind_eq_bind, Option.bind_eq_some_iff, Option.some.injEq,
    Prod.exists, Prod.mk.injEq] at ran
  obtain ⟨node, address, _, value, acts, rfl, rfl⟩ := ran
  exact .cons address (inside node address) acts runs

theorem Runs.run (runs : Runs region code registers memory result last) :
    Sections.run code registers memory = some (result, last) := by
  induction runs with
  | nil => rfl
  | cons address inside acts runs ih =>
    simp only [Sections.run, Access.run_some address acts, Option.bind_eq_bind, Option.bind_some,
      ih]

theorem Runs.frame (runs : Runs region code registers memory result last) (outside : node ∉ region) :
    last node = memory node := by
  induction runs with
  | nil => rfl
  | cons address inside acts runs ih =>
    rw [ih]
    apply Function.update_of_ne
    rintro rfl
    exact outside inside

theorem Runs.agree (runs : Runs region code registers memory result last)
    (same : ∀ node ∈ region, other node = memory node) :
    ∃ end_, Runs region code registers other result end_ ∧
      ∀ node ∈ region, end_ node = last node := by
  induction runs generalizing other with
  | nil registers memory => exact ⟨other, .nil _ _, same⟩
  | @cons access code registers next result memory last place value address inside acts runs ih =>
    have same' : ∀ node ∈ region,
        Function.update other place value node = Function.update memory place value node := by
      intro node member
      by_cases here : node = place
      · simp [here]
      · simp [Function.update_of_ne here, same node member]
    obtain ⟨end_, runs, ends⟩ := ih same'
    exact ⟨end_, .cons address inside (by rwa [same place inside]) runs, ends⟩

omit [DecidableEq N] in
theorem forall_update {A : Type} {running : T → Option A} (property : T → A → Prop) {thread : T}
    {value : A} (here : property thread value)
    (there : ∀ other activity, other ≠ thread → running other = some activity →
      property other activity) (other : T) (activity : A)
    (runs : Function.update running thread (some value) other = some activity) :
    property other activity := by
  by_cases same : other = thread
  · subst same
    rw [Function.update_self, Option.some.injEq] at runs
    rwa [← runs]
  · rw [Function.update_of_ne same] at runs
    exact there other activity same runs

/-- A section of a thread: where it began, and what is left of it. -/
structure Frame (R N V : Type) where
  start : R
  code : List (Access R N V)
  registers : R
  rest : List (Access R N V)

def Frame.begin (start : R) (code : List (Access R N V)) : Frame R N V := ⟨start, code, start, code⟩

def Frame.OnTrack (region : Set N) (base memory : N → V) (frame : Frame R N V) : Prop :=
  ∃ result whole last, Runs region frame.code frame.start base result whole ∧
    Runs region frame.rest frame.registers memory result last ∧
      ∀ node ∈ region, last node = whole node

namespace Frame.OnTrack

variable {frame : Frame R N V}

theorem begin {start : R} {whole : N → V} (runs : Runs region code start base result whole)
    (same : ∀ node ∈ region, memory node = base node) :
    (Frame.begin start code).OnTrack region base memory := by
  obtain ⟨last, runs', ends⟩ := runs.agree same
  exact ⟨result, whole, last, runs, runs', ends⟩

theorem transport (onTrack : frame.OnTrack region base memory)
    (same : ∀ node ∈ region, after node = memory node)
    (same' : ∀ node ∈ region, other node = base node) : frame.OnTrack region other after := by
  obtain ⟨result, whole, last, whole_, rest, ends⟩ := onTrack
  obtain ⟨last', rest', ends'⟩ := rest.agree same
  obtain ⟨whole', whole_', wholes⟩ := whole_.agree same'
  refine ⟨result, whole', last', whole_', rest', fun node member => ?_⟩
  rw [ends' node member, ends node member, wholes node member]

theorem step (onTrack : frame.OnTrack region base memory) (left : frame.rest = access :: code) :
    ∃ next after, access.run frame.registers memory = some (next, after) ∧
      (∀ node, node ∉ region → after node = memory node) ∧
        Frame.OnTrack region base after { frame with registers := next, rest := code } := by
  obtain ⟨result, whole, last, whole_, rest, ends⟩ := onTrack
  rw [left] at rest
  cases rest with
  | @cons _ _ _ next _ _ _ place value address inside acts runs =>
    refine ⟨next, Function.update memory place value, Access.run_some address acts, ?_,
      result, whole, last, whole_, runs, ends⟩
    intro node outside
    apply Function.update_of_ne
    rintro rfl
    exact outside inside

theorem finish (onTrack : frame.OnTrack region base memory) (left : frame.rest = []) :
    ∃ whole, Runs region frame.code frame.start base frame.registers whole ∧
      ∀ node ∈ region, memory node = whole node := by
  obtain ⟨result, whole, last, whole_, rest, ends⟩ := onTrack
  rw [left] at rest
  cases rest with
  | nil => exact ⟨whole, whole_, ends⟩

end Frame.OnTrack

/-- The memory is the base but where the sections that run have been. -/
structure Serial (base memory : N → V) (running : T → Option (Frame R N V))
    (region : T → Set N) : Prop where
  onTrack : ∀ thread frame, running thread = some frame → frame.OnTrack (region thread) base memory
  outside : ∀ node, (∀ thread, (running thread).isSome → node ∉ region thread) →
    memory node = base node
  apart : ∀ one two, one ≠ two → (running one).isSome → (running two).isSome →
    Disjoint (region one) (region two)

namespace Serial

variable {running : T → Option (Frame R N V)} {zone : T → Set N} {thread : T} {frame : Frame R N V}

omit [DecidableEq T] in
theorem idle (memory : N → V) (zone : T → Set N) :
    Serial memory memory (fun _ => (none : Option (Frame R N V))) zone where
  onTrack := by simp
  outside := by simp
  apart := by simp

omit [DecidableEq T] in
theorem congr {zone' : T → Set N} (serial : Serial base memory running zone)
    (same : ∀ thread, (running thread).isSome → zone' thread = zone thread) :
    Serial base memory running zone' where
  onTrack thread frame runs := by
    rw [same thread (by simp [runs])]
    exact serial.onTrack thread frame runs
  outside node clear := serial.outside node fun thread runs => by
    rw [← same thread runs]
    exact clear thread runs
  apart one two other runs runs' := by
    rw [same one runs, same two runs']
    exact serial.apart one two other runs runs'

theorem begin (serial : Serial base memory running zone) (start : R) {whole : N → V}
    (runs : Runs (zone thread) code start base result whole) (free : running thread = none)
    (apart : ∀ other, other ≠ thread → (running other).isSome →
      Disjoint (zone other) (zone thread)) :
    Serial base memory (Function.update running thread (some (Frame.begin start code))) zone := by
  have others {other : T} (different : other ≠ thread) :
      Function.update running thread (some (Frame.begin start code)) other = running other :=
    Function.update_of_ne different _ _
  have untouched : ∀ node ∈ zone thread, memory node = base node := by
    intro node member
    apply serial.outside
    intro other runs there
    by_cases same : other = thread
    · rw [same, free] at runs
      simp at runs
    · exact Set.disjoint_left.1 (apart other same runs) there member
  constructor
  next =>
    exact forall_update _ (.begin runs untouched) fun other frame _ => serial.onTrack other frame
  next =>
    intro node clear
    apply serial.outside
    intro other runs'
    by_cases same : other = thread
    · rw [same, free] at runs'
      simp at runs'
    · exact clear other (by rwa [others same])
  next =>
    intro one two different runs' runs''
    by_cases same : one = thread
    · subst same
      rw [others (Ne.symm different)] at runs''
      exact (apart two (Ne.symm different) runs'').symm
    · rw [others same] at runs'
      by_cases same' : two = thread
      · subst same'
        exact apart one different runs'
      · rw [others same'] at runs''
        exact serial.apart one two different runs' runs''

theorem step (serial : Serial base memory running zone) (runs : running thread = some frame)
    (left : frame.rest = access :: code) :
    ∃ next after, access.run frame.registers memory = some (next, after) ∧
      Serial base after
        (Function.update running thread (some { frame with registers := next, rest := code }))
        zone := by
  obtain ⟨next, after, ran, frame_, onTrack⟩ := (serial.onTrack thread frame runs).step left
  have present : (running thread).isSome := by simp [runs]
  have same_ (other : T) : (Function.update running thread
      (some { frame with registers := next, rest := code }) other).isSome =
        (running other).isSome := by
    by_cases same : other = thread
    · simp [same, runs]
    · rw [Function.update_of_ne same]
  refine ⟨next, after, ran, ?_, ?_, ?_⟩
  · refine forall_update _ onTrack fun other frame' different runs' => ?_
    refine (serial.onTrack other frame' runs').transport ?_ fun _ _ => rfl
    intro node member
    apply frame_
    intro here
    exact Set.disjoint_left.1 (serial.apart other thread different (by simp [runs']) present)
      member here
  · intro node clear
    have clear' : ∀ other, (running other).isSome → node ∉ zone other := by
      intro other runs'
      exact clear other (by rwa [same_])
    rw [frame_ node (clear' thread present)]
    exact serial.outside node clear'
  · intro one two different runs' runs''
    rw [same_] at runs' runs''
    exact serial.apart one two different runs' runs''

theorem finish (serial : Serial base memory running zone) (runs : running thread = some frame)
    (left : frame.rest = []) :
    ∃ whole, Runs (zone thread) frame.code frame.start base frame.registers whole ∧
      Serial whole memory (Function.update running thread none) zone := by
  obtain ⟨whole, alone, ends⟩ := (serial.onTrack thread frame runs).finish left
  have present : (running thread).isSome := by simp [runs]
  refine ⟨whole, alone, ?_, ?_, ?_⟩
  · intro other frame' runs'
    by_cases same : other = thread
    · rw [same, Function.update_self] at runs'
      cases runs'
    · rw [Function.update_of_ne same] at runs'
      refine (serial.onTrack other frame' runs').transport (fun _ _ => rfl) ?_
      intro node member
      apply alone.frame
      intro here
      exact Set.disjoint_left.1 (serial.apart other thread same (by simp [runs']) present)
        member here
  · intro node clear
    by_cases here : node ∈ zone thread
    · exact ends node here
    · rw [alone.frame here]
      apply serial.outside
      intro other runs'
      by_cases same : other = thread
      · rwa [same]
      · exact clear other (by rwa [Function.update_of_ne same])
  · intro one two different runs' runs''
    have known {other : T} (runs : (Function.update running thread none other).isSome) :
        (running other).isSome := by
      by_cases same : other = thread
      · rw [same, Function.update_self] at runs
        simp at runs
      · rwa [Function.update_of_ne same] at runs
    exact serial.apart one two different (known runs') (known runs'')

end Serial

end Sections

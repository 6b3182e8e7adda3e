import Mathlib.Data.List.Basic

set_option autoImplicit false

/-! # Runs of a machine whose steps can fail -/

namespace Runs

section

variable {Fault A B : Type}

@[simp] theorem bind_ok {x : Except Fault A} {f : A → Except Fault B} {value : B} :
    (x >>= f) = .ok value ↔ ∃ middle, x = .ok middle ∧ f middle = .ok value := by
  cases x with
  | error fault => simp [bind, Except.bind]
  | ok middle => simp [bind, Except.bind]

@[simp] theorem bind_error {x : Except Fault A} {f : A → Except Fault B} {fault : Fault} :
    (x >>= f) = .error fault ↔
      x = .error fault ∨ ∃ middle, x = .ok middle ∧ f middle = .error fault := by
  cases x with
  | error fault => simp [bind, Except.bind]
  | ok middle => simp [bind, Except.bind]

@[simp] theorem pure_ok {value other : A} :
    (pure value : Except Fault A) = .ok other ↔ value = other := by
  simp [pure, Except.pure]

@[simp] theorem pure_error {value : A} {fault : Fault} :
    ¬ (pure value : Except Fault A) = .error fault := by
  simp [pure, Except.pure]

end

variable {State Op Output Fault : Type}

structure Turn (State Op Output : Type) where
  state : State
  op : Op
  outputs : List Output

inductive Run (step : State → Op → Except Fault (State × List Output)) :
    State → List (Turn State Op Output) → State → Prop where
  | nil (state : State) : Run step state [] state
  | cons {state next last : State} {op : Op} {outputs : List Output}
      {turns : List (Turn State Op Output)} (stepped : step state op = .ok (next, outputs))
      (run : Run step next turns last) : Run step state (⟨state, op, outputs⟩ :: turns) last

variable {step : State → Op → Except Fault (State × List Output)} {first last : State}
  {turns : List (Turn State Op Output)}

theorem Run.stepped (run : Run step first turns last) :
    ∀ turn ∈ turns, ∃ next, step turn.state turn.op = .ok (next, turn.outputs) := by
  induction run with
  | nil => simp
  | cons stepped _ ih =>
    intro turn member
    rcases List.mem_cons.1 member with rfl | member
    · exact ⟨_, stepped⟩
    · exact ih turn member

theorem Run.invariant (property : State → Prop) {allowed : State → Op → Prop}
    (kept : ∀ {state next : State} {op : Op} {outputs : List Output}, property state →
      allowed state op → step state op = .ok (next, outputs) → property next)
    (run : Run step first turns last) (all : ∀ turn ∈ turns, allowed turn.state turn.op)
    (holds : property first) : property last := by
  induction run with
  | nil => exact holds
  | cons stepped run ih =>
    have next := kept holds (all _ List.mem_cons_self) stepped
    exact ih (fun turn member => all turn (List.mem_cons_of_mem _ member)) next

theorem Run.stable (property : State → Prop)
    (kept : ∀ {state next : State} {op : Op} {outputs : List Output}, property state →
      step state op = .ok (next, outputs) → property next)
    (run : Run step first turns last) (holds : property first) : property last := by
  induction run with
  | nil => exact holds
  | cons stepped _ ih => exact ih (kept holds stepped)

theorem Run.history (property : List (Turn State Op Output) → State → Prop)
    {allowed : State → Op → Prop}
    (kept : ∀ {past : List (Turn State Op Output)} {state next : State} {op : Op}
      {outputs : List Output}, property past state → allowed state op →
      step state op = .ok (next, outputs) → property (past ++ [⟨state, op, outputs⟩]) next)
    (run : Run step first turns last) (all : ∀ turn ∈ turns, allowed turn.state turn.op)
    {past : List (Turn State Op Output)} (holds : property past first) :
    property (past ++ turns) last := by
  induction run generalizing past with
  | nil => simpa using holds
  | cons stepped run ih =>
    have next := kept holds (all _ List.mem_cons_self) stepped
    have rest := ih (fun turn member => all turn (List.mem_cons_of_mem _ member)) next
    rwa [List.append_assoc, List.singleton_append] at rest

def execute (step : State → Op → Except Fault (State × List Output)) :
    State → List Op → Option (List (Turn State Op Output) × State)
  | state, [] => some ([], state)
  | state, op :: ops =>
    match step state op with
    | .error _ => none
    | .ok (next, outputs) =>
      (execute step next ops).map fun (turns, last) => (⟨state, op, outputs⟩ :: turns, last)

theorem Run.of_execute {ops : List Op} (executed : execute step first ops = some (turns, last)) :
    Run step first turns last := by
  induction ops generalizing first turns with
  | nil =>
    cases executed
    exact .nil _
  | cons op ops ih =>
    rw [execute] at executed
    split at executed
    next => cases executed
    next next outputs stepped =>
      obtain ⟨⟨rest, final⟩, finished, same⟩ := Option.map_eq_some_iff.1 executed
      cases same
      exact .cons stepped (ih finished)

theorem execute_any {ops : List Op} {check : List (Turn State Op Output) → State → Bool}
    (checked : ((execute step first ops).any fun result => check result.1 result.2) = true) :
    ∃ turns last, execute step first ops = some (turns, last) ∧ check turns last = true := by
  obtain ⟨⟨turns, last⟩, executed, checked⟩ := (Option.any_eq_true _ _).1 checked
  exact ⟨turns, last, executed, checked⟩

theorem Run.append {middle : State} {more : List (Turn State Op Output)}
    (run : Run step first turns middle) (rest : Run step middle more last) :
    Run step first (turns ++ more) last := by
  induction run with
  | nil => exact rest
  | cons stepped _ ih => exact .cons stepped (ih rest)

theorem Run.split {before after : List (Turn State Op Output)} {turn : Turn State Op Output}
    (run : Run step first (before ++ turn :: after) last) :
    Run step first before turn.state ∧
      ∃ next, step turn.state turn.op = .ok (next, turn.outputs) ∧ Run step next after last := by
  induction before generalizing first with
  | nil =>
    cases run with
    | cons stepped run => exact ⟨.nil _, _, stepped, run⟩
  | cons earlier before ih =>
    cases run with
    | cons stepped run =>
      obtain ⟨front, behind⟩ := ih run
      exact ⟨.cons stepped front, behind⟩

end Runs

import Mathlib.Logic.Function.Basic

set_option autoImplicit false

/-!
# Handles of programs that run at the same time

A program makes calls, and goes on with what they answer. A call can be passed a handle, which it
may change or give back, and it can bring a new one. A program that is safe on its own handles is
safe among others: what it holds is held by nobody else, whatever the others do in between.
-/

namespace Handles

inductive Prog (C : Type) (R : C → Type) (A : Type) where
  | done (result : A)
  | call (request : C) (next : R request → Prog C R A)

variable {C : Type} {R : C → Type} {A B : Type}

def Prog.bind (f : A → Prog C R B) : Prog C R A → Prog C R B
  | .done result => f result
  | .call request next => .call request fun reply => (next reply).bind f

instance : Monad (Prog C R) where
  pure := .done
  bind prog f := prog.bind f

abbrev Heap (H V : Type) : Type := H → Option V

/-- What a call can be answered, and what it and its reply do to the handle that is passed and what
they bring. -/
structure Interface (C : Type) (R : C → Type) (H V : Type) where
  answers : (request : C) → R request → Prop
  passed : C → Option H
  left : (request : C) → R request → V → Option V
  brought : (request : C) → R request → Option (H × V)

variable {H V : Type} [DecidableEq H]

def pass (which : Option H) (left : V → Option V) (heap : Heap H V) : Option (Heap H V) :=
  match which with
  | none => some heap
  | some handle => (heap handle).map fun value => Function.update heap handle (left value)

def bring (new : Option (H × V)) (heap : Heap H V) : Option (Heap H V) :=
  match new with
  | none => some heap
  | some (handle, value) =>
    match heap handle with
    | none => some (Function.update heap handle (some value))
    | some _ => none

/-- `none` where the handle that is passed is not open, or the new one is already. -/
def Interface.act (interface : Interface C R H V) (request : C) (reply : R request)
    (heap : Heap H V) : Option (Heap H V) :=
  (pass (interface.passed request) (interface.left request reply) heap).bind
    (bring (interface.brought request reply))

variable {interface : Interface C R H V}

/-- From the handles it holds, a program only passes what it holds then, whatever is answered, and
what it returns is right for what it holds at the end. -/
def Prog.Safe (interface : Interface C R H V) (post : A → Heap H V → Prop) :
    Prog C R A → Heap H V → Prop
  | .done result, held => post result held
  | .call request next, held =>
    (∀ handle, interface.passed request = some handle → (held handle).isSome) ∧
      ∀ reply held', interface.answers request reply →
        interface.act request reply held = some held' → (next reply).Safe interface post held'

section

variable {post : A → Heap H V → Prop} {held : Heap H V} {prog : Prog C R A}

theorem Prog.Safe.imp {post' : A → Heap H V → Prop} (safe : prog.Safe interface post held)
    (weaker : ∀ result held, post result held → post' result held) :
    prog.Safe interface post' held := by
  induction prog generalizing held with
  | done result => exact weaker result held safe
  | call request next ih =>
    exact ⟨safe.1, fun reply held' answered acted => ih reply (safe.2 reply held' answered acted)⟩

theorem safe_bind {f : A → Prog C R B} {post' : B → Heap H V → Prop} :
    (prog >>= f).Safe interface post' held ↔
      prog.Safe interface (fun result held => (f result).Safe interface post' held) held := by
  induction prog generalizing held with
  | done result => exact Iff.rfl
  | call request next ih =>
    exact and_congr Iff.rfl (forall₂_congr fun reply held' => forall₂_congr fun _ _ => ih reply)

theorem safe_pure {result : A} :
    (pure result : Prog C R A).Safe interface post held ↔ post result held := Iff.rfl

theorem safe_bring {request : C} {post : R request → Heap H V → Prop}
    (mine : ∀ handle, interface.passed request = some handle → (held handle).isSome)
    (left : ∀ reply value, interface.left request reply value = some value)
    (right : ∀ reply held', interface.answers request reply →
      bring (interface.brought request reply) held = some held' → post reply held') :
    (Prog.call request Prog.done).Safe interface post held := by
  refine ⟨mine, fun reply held' answered acted => right reply held' answered ?_⟩
  obtain ⟨middle, passed, brought⟩ := Option.bind_eq_some_iff.1 acted
  have same : middle = held := by
    unfold pass at passed
    cases which : interface.passed request with
    | none =>
      rw [which] at passed
      exact (Option.some.inj passed).symm
    | some handle =>
      simp only [which, Option.map_eq_some_iff, left] at passed
      obtain ⟨value, found, rfl⟩ := passed
      rw [← found, Function.update_eq_self]
  rwa [same] at brought

theorem safe_keep {request : C} {post : R request → Heap H V → Prop}
    (mine : ∀ handle, interface.passed request = some handle → (held handle).isSome)
    (left : ∀ reply value, interface.left request reply value = some value)
    (nothing : ∀ reply, interface.brought request reply = none)
    (right : ∀ reply, interface.answers request reply → post reply held) :
    (Prog.call request Prog.done).Safe interface post held := by
  refine safe_bring mine left fun reply held' answered brought => ?_
  rw [nothing] at brought
  obtain rfl := Option.some.inj brought
  exact right reply answered

theorem safe_change {request : C} {post : R request → Heap H V → Prop} {handle : H} {value : V}
    (passed : interface.passed request = some handle) (mine : held handle = some value)
    (nothing : ∀ reply, interface.brought request reply = none)
    (right : ∀ reply, post reply
      (Function.update held handle (interface.left request reply value))) :
    (Prog.call request Prog.done).Safe interface post held := by
  constructor
  · intro other same
    obtain rfl := Option.some.inj (passed.symm.trans same)
    rw [mine]
    rfl
  · intro reply held' _ acted
    simp only [Interface.act, pass, passed, mine, Option.map_some, Option.bind_some, nothing,
      bring, Option.some.injEq] at acted
    rw [← acted]
    exact right reply

end

/-- Each open handle is in the share of exactly one owner. -/
structure Shares {W : Type} (table : Heap H V) (share : W → Heap H V) : Prop where
  open_ : ∀ owner handle, (share owner handle).isSome → table handle = share owner handle
  alone : ∀ one two handle, (share one handle).isSome → (share two handle).isSome → one = two
  owned : ∀ handle, (table handle).isSome → ∃ owner, (share owner handle).isSome

namespace Shares

variable {W : Type} [DecidableEq W] {table table' : Heap H V} {share : W → Heap H V} {owner : W}
  {handle : H} {value : V} {new : Option V}

omit [DecidableEq H] [DecidableEq W] in
theorem closed (shares : Shares table share) (none_ : table handle = none) (owner : W) :
    share owner handle = none := by
  by_contra held
  have some_ := Option.isSome_iff_ne_none.2 held
  rw [shares.open_ owner handle some_] at none_
  exact held none_

theorem set (shares : Shares table share)
    (mine : (share owner handle).isSome ∨ table handle = none) :
    Shares (Function.update table handle new)
      (Function.update share owner (Function.update (share owner) handle new)) := by
  have others (other : W) (different : other ≠ owner) : share other handle = none := by
    rcases mine with held | none_
    · by_contra held'
      exact different (shares.alone other owner handle (Option.isSome_iff_ne_none.2 held') held)
    · exact shares.closed none_ other
  have here (other : W) (place : H) :
      Function.update share owner (Function.update (share owner) handle new) other place =
        if place = handle then (if other = owner then new else none) else share other place := by
    by_cases same : other = owner
    · subst same
      by_cases at_ : place = handle <;> simp [at_]
    · by_cases at_ : place = handle <;> simp [same, at_, others]
  constructor
  · intro other place held
    rw [here] at held ⊢
    by_cases at_ : place = handle
    · by_cases same : other = owner <;> simp_all
    · simp only [at_, if_false] at held ⊢
      rw [Function.update_of_ne at_, shares.open_ other place held]
  · intro one two place held held'
    rw [here] at held held'
    by_cases at_ : place = handle
    · simp only [at_, if_true] at held held'
      by_cases first : one = owner <;> by_cases second : two = owner <;> simp_all
    · simp only [at_, if_false] at held held'
      exact shares.alone one two place held held'
  · intro place held
    by_cases at_ : place = handle
    · exact ⟨owner, by simp_all⟩
    · rw [Function.update_of_ne at_] at held
      obtain ⟨other, held⟩ := shares.owned place held
      exact ⟨other, by rw [here, if_neg at_]; exact held⟩

theorem act (shares : Shares table share) {request : C} {reply : R request}
    (holds : ∀ handle, interface.passed request = some handle → (share owner handle).isSome)
    (acted : interface.act request reply table = some table') :
    ∃ mine, interface.act request reply (share owner) = some mine ∧
      Shares table' (Function.update share owner mine) := by
  obtain ⟨middle, passed, brought⟩ := Option.bind_eq_some_iff.1 acted
  obtain ⟨mine, passed', shares'⟩ : ∃ mine,
      pass (interface.passed request) (interface.left request reply) (share owner) = some mine ∧
        Shares middle (Function.update share owner mine) := by
    unfold pass at passed ⊢
    cases which : interface.passed request with
    | none =>
      rw [which, Option.some.injEq] at passed
      exact ⟨share owner, rfl, by rwa [Function.update_eq_self, ← passed]⟩
    | some handle =>
      simp only [which, Option.map_eq_some_iff] at passed
      obtain ⟨value, found, rfl⟩ := passed
      have held := holds handle which
      rw [shares.open_ owner handle held] at found
      exact ⟨_, by simp only [found, Option.map_some], shares.set (.inl held)⟩
  simp only [Interface.act, passed', Option.bind_some]
  unfold bring at brought ⊢
  cases new : interface.brought request reply with
  | none =>
    rw [new, Option.some.injEq] at brought
    exact ⟨mine, rfl, by rwa [← brought]⟩
  | some entry =>
    obtain ⟨handle, value⟩ := entry
    simp only [new] at brought
    split at brought
    next none_ =>
      have none' := shares'.closed none_ owner
      rw [Function.update_self] at none'
      obtain rfl := Option.some.inj brought
      have set := @Shares.set _ _ _ _ _ _ _ owner handle (some value) shares' (.inr none_)
      rw [Function.update_self, Function.update_idem] at set
      exact ⟨_, by simp only [none'], set⟩
    next => contradiction

omit [DecidableEq H] in
theorem replace (shares : Shares table share) {mine : Heap H V}
    (apart : ∀ handle, (mine handle).isSome →
      (share owner handle).isSome ∨ table handle = none) :
    Shares (fun handle => if (share owner handle).isSome || (mine handle).isSome then mine handle
      else table handle) (Function.update share owner mine) := by
  have others {other : W} {handle : H} (different : other ≠ owner)
      (held : (share other handle).isSome) :
      (share owner handle).isSome = false ∧ (mine handle).isSome = false := by
    have first : ¬ (share owner handle).isSome := fun held' =>
      different (shares.alone other owner handle held held')
    refine ⟨Bool.eq_false_iff.2 first, Bool.eq_false_iff.2 fun new => ?_⟩
    have none_ := shares.closed ((apart handle new).resolve_left first) other
    rw [none_] at held
    cases held
  constructor
  · intro other handle held
    by_cases same : other = owner
    · subst same
      rw [Function.update_self] at held ⊢
      simp [held]
    · rw [Function.update_of_ne same] at held ⊢
      obtain ⟨first, second⟩ := others same held
      simp [first, second, shares.open_ other handle held]
  · intro one two handle held held'
    by_cases first : one = owner <;> by_cases second : two = owner
    · rw [first, second]
    · subst first
      rw [Function.update_self] at held
      rw [Function.update_of_ne second] at held'
      rw [(others second held').2] at held
      cases held
    · subst second
      rw [Function.update_self] at held'
      rw [Function.update_of_ne first] at held
      rw [(others first held).2] at held'
      cases held'
    · rw [Function.update_of_ne first] at held
      rw [Function.update_of_ne second] at held'
      exact shares.alone one two handle held held'
  · intro handle held
    by_cases mine' : (share owner handle).isSome || (mine handle).isSome
    · rw [if_pos mine'] at held
      exact ⟨owner, by rwa [Function.update_self]⟩
    · rw [if_neg mine'] at held
      obtain ⟨other, held⟩ := shares.owned handle held
      refine ⟨other, ?_⟩
      rw [Function.update_of_ne]
      · exact held
      · rintro rfl
        simp [held] at mine'

theorem give (shares : Shares table share) {heir : W} (different : heir ≠ owner)
    (mine : (share owner handle).isSome) :
    Shares table (Function.update (Function.update share owner
      (Function.update (share owner) handle none)) heir
        (Function.update (share heir) handle (share owner handle))) := by
  have here (other : W) (place : H) :
      Function.update (Function.update share owner (Function.update (share owner) handle none)) heir
          (Function.update (share heir) handle (share owner handle)) other place =
        if place = handle then (if other = heir then share owner handle else none)
        else share other place := by
    by_cases at_ : place = handle
    · by_cases target : other = heir
      · simp [at_, target]
      · by_cases source : other = owner
        · subst source
          simp [at_, target]
        · have none_ : share other handle = none := by
            by_contra held
            exact source (shares.alone other owner handle (Option.isSome_iff_ne_none.2 held) mine)
          simp [at_, target, source, none_]
    · by_cases target : other = heir
      · subst target
        simp [at_]
      · by_cases source : other = owner
        · subst source
          simp [at_, target]
        · simp [at_, target, source]
  constructor
  · intro other place held
    rw [here] at held ⊢
    by_cases at_ : place = handle
    · by_cases target : other = heir
      · simp [at_, target, shares.open_ owner handle mine]
      · simp [at_, target] at held
    · rw [if_neg at_] at held ⊢
      exact shares.open_ other place held
  · intro one two place held held'
    rw [here] at held held'
    by_cases at_ : place = handle
    · by_cases first : one = heir <;> by_cases second : two = heir <;> simp_all
    · rw [if_neg at_] at held held'
      exact shares.alone one two place held held'
  · intro place held
    by_cases at_ : place = handle
    · exact ⟨heir, by rw [here, if_pos at_, if_pos rfl]; exact mine⟩
    · obtain ⟨other, held⟩ := shares.owned place held
      exact ⟨other, by rw [here, if_neg at_]; exact held⟩

end Shares

end Handles

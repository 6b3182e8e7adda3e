import Ptptl.Library.Rings

set_option autoImplicit false

/-! # Doubly linked lists -/

namespace Ptp

namespace Lists

open Rings

variable {L E : Type} [DecidableEq L] [DecidableEq E]

/-- The objects with links: the `m_head` of a list, and the entries. -/
inductive Node (L E : Type) where
  | head (list : L)
  | entry (entry : E)
deriving DecidableEq

abbrev Memory (L E : Type) := Cells (Node L E)

/-- `Entry *`. -/
abbrev Pointer (L E : Type) := Option (Node L E)

/-- After the constructors of all lists and entries, `m_next = this` and `m_prev = this`. -/
def constructed : Memory L E := fun node => some ⟨some node, some node⟩

def isValid (list : L) (entry : Pointer L E) : Bool := entry ≠ none ∧ entry ≠ some (.head list)

def getNext (memory : Memory L E) (entry : Pointer L E) : Option (Pointer L E) :=
  (memory.load entry).map Cell.next

def getPrev (memory : Memory L E) (entry : Pointer L E) : Option (Pointer L E) :=
  (memory.load entry).map Cell.prev

def getHead (memory : Memory L E) (list : L) : Option (Pointer L E) := do
  let next ← getNext memory (some (.head list))
  some (if isValid list next then next else none)

def getTail (memory : Memory L E) (list : L) : Option (Pointer L E) := do
  let prev ← getPrev memory (some (.head list))
  some (if isValid list prev then prev else none)

def insert (list : L) (memory : Memory L E) (entry : Pointer L E) : Option (Memory L E) := do
  let next ← getNext memory (some (.head list))
  let memory ← memory.setNext entry next
  let memory ← memory.setPrev entry (some (.head list))
  let memory ← memory.setPrev next entry
  memory.setNext (some (.head list)) entry

def append (list : L) (memory : Memory L E) (entry : Pointer L E) : Option (Memory L E) := do
  let prev ← getPrev memory (some (.head list))
  let memory ← memory.setNext entry (some (.head list))
  let memory ← memory.setPrev entry prev
  let memory ← memory.setNext prev entry
  memory.setPrev (some (.head list)) entry

/-- `Remove`; only the lock is the list's. -/
def remove (_list : L) (memory : Memory L E) (entry : Pointer L E) : Option (Memory L E) := do
  let next ← getNext memory entry
  let prev ← getPrev memory entry
  let memory ← memory.setPrev next prev
  let memory ← memory.setNext prev next
  let memory ← memory.setNext entry entry
  memory.setPrev entry entry

/-- What is met from a pointer on by `GetNext` or `GetPrev` as long as it is valid. -/
def traverse (step : Pointer L E → Option (Pointer L E)) (list : L) :
    Nat → Pointer L E → Option (List (Node L E))
  | 0, _ => none
  | fuel + 1, entry =>
    if isValid list entry then do
      let node ← entry
      let entry ← step entry
      let rest ← traverse step list fuel entry
      some (node :: rest)
    else some []

/-! ## What the calls are for -/

inductive Op (L E : Type) where
  | insert (list : L) (entry : E)
  | append (list : L) (entry : E)
  | remove (list : L) (entry : E)

def Op.exec (memory : Memory L E) : Op L E → Option (Memory L E)
  | .insert list entry => Lists.insert list memory (some (.entry entry))
  | .append list entry => Lists.append list memory (some (.entry entry))
  | .remove list entry => Lists.remove list memory (some (.entry entry))

abbrev Abstract (L E : Type) := L → List E

def Op.apply (lists : Abstract L E) : Op L E → Abstract L E
  -- an entry is in one list at most, from which it goes when it is removed
  | .insert list entry => Function.update lists list (entry :: lists list)
  | .append list entry => Function.update lists list (lists list ++ [entry])
  | .remove _ entry => fun list => (lists list).erase entry

/-- Only an entry of no list is inserted or appended. -/
def Op.Allowed (lists : Abstract L E) : Op L E → Prop
  | .insert _ entry => ∀ list, entry ∉ lists list
  | .append _ entry => ∀ list, entry ∉ lists list
  | .remove _ _ => True

def Allowed : Abstract L E → List (Op L E) → Prop
  | _, [] => True
  | lists, op :: ops => op.Allowed lists ∧ Allowed (op.apply lists) ops

/-- Each list is a ring of its head and its entries; the other entries are linked to themselves. -/
def Represents (memory : Memory L E) (lists : Abstract L E) : Prop :=
  Family memory Node.head fun list => (lists list).map Node.entry

variable {memory after : Memory L E} {lists : Abstract L E} {list : L} {entry : E}

omit [DecidableEq L] [DecidableEq E] in
@[simp] theorem entry_mem (entry : E) (list : L) :
    Node.entry entry ∈ Node.head list :: (lists list).map Node.entry ↔ entry ∈ lists list := by
  simp

omit [DecidableEq L] [DecidableEq E] in
theorem Represents.nodup (represents : Represents memory lists) (list : L) :
    (lists list).Nodup :=
  (List.nodup_cons.1 (Family.nodup represents list)).2.of_map Node.entry

omit [DecidableEq L] [DecidableEq E] in
theorem Represents.apart (represents : Represents memory lists) {one other : L}
    (here : entry ∈ lists one) (there : entry ∈ lists other) : one = other :=
  Family.apart represents one other (.entry entry) (by simpa using here) (by simpa using there)

omit [DecidableEq L] [DecidableEq E] in
theorem constructed_represents : Represents (constructed : Memory L E) fun _ => [] := by
  have own (node : Node L E) : Linked constructed node node := ⟨rfl, rfl⟩
  refine ⟨?_, ?_, ?_, ?_⟩
  · intro list
    exact .cons_cons (own (.head list)) (.singleton _)
  · intro list
    exact List.nodup_singleton _
  · intro one other node here there
    rw [List.map_nil, List.mem_singleton] at here there
    exact Node.head.inj (here.symm.trans there)
  · intro node _ _
    exact own node

/-! ## The splices -/

omit [DecidableEq L] [DecidableEq E] in
theorem getNext_some {node next : Node L E} (linked : memory.next node = some next) :
    getNext memory (some node) = some (some next) := by
  rcases Option.bind_eq_some_iff.1 linked with ⟨cell, found, same⟩
  simp [getNext, Cells.load, found, same]

omit [DecidableEq L] [DecidableEq E] in
theorem getPrev_some {node prev : Node L E} (linked : memory.prev node = some prev) :
    getPrev memory (some node) = some (some prev) := by
  rcases Option.bind_eq_some_iff.1 linked with ⟨cell, found, same⟩
  simp [getPrev, Cells.load, found, same]

theorem insert_wrote {next : Node L E} (linked : memory.next (.head list) = some next)
    (live : memory.Live (.entry entry)) (nextLive : memory.Live next) :
    ∃ after, insert list memory (some (.entry entry)) = some after ∧
      Cells.Wrote memory after
        (Function.update (Function.update memory.next (.entry entry) (some next))
          (.head list) (some (.entry entry)))
        (Function.update (Function.update memory.prev (.entry entry) (some (.head list)))
          next (some (.entry entry))) := by
  obtain ⟨first, one, wrote⟩ := (Cells.Wrote.start memory).setNext live (some next)
  obtain ⟨second, two, wrote⟩ := wrote.setPrev live (some (.head list))
  obtain ⟨third, three, wrote⟩ := wrote.setPrev nextLive (some (.entry entry))
  obtain ⟨after, four, wrote⟩ := wrote.setNext (Cells.live_of_next linked) (some (.entry entry))
  refine ⟨after, ?_, wrote⟩
  simp only [insert, getNext_some linked, one, two, three, four, Option.bind_eq_bind,
    Option.bind_some]

theorem append_wrote {prev : Node L E} (linked : memory.prev (.head list) = some prev)
    (live : memory.Live (.entry entry)) (prevLive : memory.Live prev) :
    ∃ after, append list memory (some (.entry entry)) = some after ∧
      Cells.Wrote memory after
        (Function.update (Function.update memory.next (.entry entry) (some (.head list)))
          prev (some (.entry entry)))
        (Function.update (Function.update memory.prev (.entry entry) (some prev))
          (.head list) (some (.entry entry))) := by
  obtain ⟨first, one, wrote⟩ := (Cells.Wrote.start memory).setNext live (some (.head list))
  obtain ⟨second, two, wrote⟩ := wrote.setPrev live (some prev)
  obtain ⟨third, three, wrote⟩ := wrote.setNext prevLive (some (.entry entry))
  obtain ⟨after, four, wrote⟩ := wrote.setPrev (Cells.live_of_prev linked) (some (.entry entry))
  refine ⟨after, ?_, wrote⟩
  simp only [append, getPrev_some linked, one, two, three, four, Option.bind_eq_bind,
    Option.bind_some]

theorem remove_wrote (list : L) {node next prev : Node L E} (forth : memory.next node = some next)
    (back : memory.prev node = some prev) (nextLive : memory.Live next)
    (prevLive : memory.Live prev) :
    ∃ after, remove list memory (some node) = some after ∧
      Cells.Wrote memory after
        (Function.update (Function.update memory.next prev (some next)) node (some node))
        (Function.update (Function.update memory.prev next (some prev)) node (some node)) := by
  have live := Cells.live_of_next forth
  obtain ⟨first, one, wrote⟩ := (Cells.Wrote.start memory).setPrev nextLive (some prev)
  obtain ⟨second, two, wrote⟩ := wrote.setNext prevLive (some next)
  obtain ⟨third, three, wrote⟩ := wrote.setNext live (some node)
  obtain ⟨after, four, wrote⟩ := wrote.setPrev live (some node)
  refine ⟨after, ?_, wrote⟩
  simp only [remove, getNext_some forth, getPrev_some back, one, two, three, four,
    Option.bind_eq_bind, Option.bind_some]

theorem remove_alone (list : L) {node : Node L E} (alone : Linked memory node node) :
    remove list memory (some node) = some memory := by
  have live := Cells.live_of_next alone.1
  obtain ⟨after, removed, wrote⟩ := remove_wrote list alone.1 alone.2 live live
  rw [Function.update_idem, Function.update_idem, Function.update_eq_self_iff.2 alone.1.symm,
    Function.update_eq_self_iff.2 alone.2.symm] at wrote
  rw [removed, wrote.same]

/-! ## Every call keeps the rings -/

omit [DecidableEq L] [DecidableEq E] in
theorem exists_last (list : L) (front : List E) :
    ∃ pre last, Node.head list :: front.map Node.entry = pre ++ [last] := by
  rcases List.eq_nil_or_concat (Node.head list :: front.map Node.entry) with none | ⟨pre, last, ends⟩
  · cases none
  · exact ⟨pre, last, by rw [ends, List.concat_eq_append]⟩

omit [DecidableEq L] [DecidableEq E] in
theorem exists_first (list : L) (back : List E) :
    ∃ first post, back.map Node.entry ++ [Node.head list] = first :: post := by
  cases back with
  | nil => exact ⟨_, _, rfl⟩
  | cons entry back => exact ⟨_, _, rfl⟩

omit [DecidableEq E] in
theorem map_update (lists : Abstract L E) (list : L) (entries : List E) :
    Function.update (fun other => (lists other).map Node.entry) list (entries.map Node.entry) =
      fun other => (Function.update lists list entries other).map (Node.entry (L := L)) := by
  funext other
  by_cases same : other = list
  · subst same
    simp
  · simp [Function.update_of_ne same]

structure Leaves (memory : Memory L E) (lists : Abstract L E) (after : Memory L E) : Prop where
  represents : Represents after lists
  live : ∀ node, after.Live node ↔ memory.Live node

theorem insert_leaves (represents : Represents memory lists) (list : L)
    (live : memory.Live (.entry entry)) (absent : ∀ list, entry ∉ lists list) :
    ∃ after, insert list memory (some (.entry entry)) = some after ∧
      Leaves memory (Function.update lists list (entry :: lists list)) after := by
  obtain ⟨first, post, starts⟩ := exists_first list (lists list)
  have linked := Family.seam represents (List.nil_append _).symm (List.nil_append _).symm starts
  obtain ⟨after, inserted, wrote⟩ :=
    insert_wrote linked.1 live (Cells.live_of_prev linked.2)
  refine ⟨after, inserted, ?_, wrote.live⟩
  have loose : ∀ other, Node.entry entry ∉ Node.head other :: (lists other).map Node.entry := by
    intro other member
    exact absent other ((entry_mem entry other).1 member)
  have family := Family.link represents (List.nil_append _).symm (List.nil_append _).symm starts
    loose wrote
  rwa [List.nil_append, ← List.map_cons, map_update] at family

theorem append_leaves (represents : Represents memory lists) (list : L)
    (live : memory.Live (.entry entry)) (absent : ∀ list, entry ∉ lists list) :
    ∃ after, append list memory (some (.entry entry)) = some after ∧
      Leaves memory (Function.update lists list (lists list ++ [entry])) after := by
  obtain ⟨pre, last, ends⟩ := exists_last list (lists list)
  have linked := Family.seam represents (List.append_nil _).symm ends rfl
  obtain ⟨after, appended, wrote⟩ :=
    append_wrote linked.2 live (Cells.live_of_next linked.1)
  refine ⟨after, appended, ?_, wrote.live⟩
  have loose : ∀ other, Node.entry entry ∉ Node.head other :: (lists other).map Node.entry := by
    intro other member
    exact absent other ((entry_mem entry other).1 member)
  have family := Family.link represents (List.append_nil _).symm ends rfl loose wrote
  have grown : (lists list).map Node.entry ++ [Node.entry entry] =
      (lists list ++ [entry]).map (Node.entry (L := L)) := by simp
  rwa [grown, map_update] at family

theorem remove_between (represents : Represents memory lists) (list : L) {one : L}
    {front back : List E} (whole : lists one = front ++ entry :: back) :
    ∃ after, remove list memory (some (.entry entry)) = some after ∧
      Leaves memory (Function.update lists one (front ++ back)) after := by
  obtain ⟨pre, last, ends⟩ := exists_last one front
  obtain ⟨first, post, starts⟩ := exists_first one back
  have whole' : (lists one).map Node.entry =
      front.map Node.entry ++ Node.entry (L := L) entry :: back.map Node.entry := by
    rw [whole, List.map_append, List.map_cons]
  obtain ⟨into, outOf⟩ := Family.around represents whole' ends starts
  obtain ⟨after, removed, wrote⟩ := remove_wrote list outOf.1 into.2
    (Cells.live_of_prev outOf.2) (Cells.live_of_next into.1)
  refine ⟨after, removed, ?_, wrote.live⟩
  have family := Family.unlink represents whole' ends starts wrote
  rwa [← List.map_append, map_update] at family

theorem Represents.erase_eq (represents : Represents memory lists) {one : L} {front back : List E}
    (whole : lists one = front ++ entry :: back) :
    (fun other => (lists other).erase entry) = Function.update lists one (front ++ back) := by
  funext other
  by_cases same : other = one
  · subst same
    have distinct := represents.nodup other
    rw [whole] at distinct
    have fresh : entry ∉ front := fun here =>
      (List.disjoint_of_nodup_append distinct) here List.mem_cons_self
    rw [Function.update_self, whole, List.erase_append_right _ fresh, List.erase_cons_head]
  · rw [Function.update_of_ne same]
    apply List.erase_of_not_mem
    intro there
    exact same (represents.apart there (by simp [whole]))

theorem remove_absent (represents : Represents memory lists) (list : L)
    (live : memory.Live (.entry entry)) (absent : ∀ list, entry ∉ lists list) :
    remove list memory (some (.entry entry)) = some memory := by
  apply remove_alone
  apply Family.loose represents _ live
  intro other member
  exact absent other ((entry_mem entry other).1 member)

theorem remove_leaves (represents : Represents memory lists) (list : L)
    (live : memory.Live (.entry entry)) :
    ∃ after, remove list memory (some (.entry entry)) = some after ∧
      Leaves memory (fun other => (lists other).erase entry) after := by
  by_cases present : ∃ one, entry ∈ lists one
  · obtain ⟨one, member⟩ := present
    obtain ⟨front, back, whole⟩ := List.append_of_mem member
    rw [represents.erase_eq whole]
    exact remove_between represents list whole
  · have absent : ∀ list, entry ∉ lists list := fun one member => present ⟨one, member⟩
    have same : (fun other => (lists other).erase entry) = lists := by
      funext other
      exact List.erase_of_not_mem (absent other)
    refine ⟨memory, remove_absent represents list live absent, ?_, fun _ => Iff.rfl⟩
    rwa [same]

/-! ## Ends and traversals -/

@[simp] theorem isValid_entry (list : L) (entry : E) :
    isValid list (some (.entry entry)) = true := by
  simp [isValid]

@[simp] theorem isValid_head (list : L) : isValid list (some (.head list) : Pointer L E) = false := by
  simp [isValid]

@[simp] theorem isValid_null (list : L) : isValid list (none : Pointer L E) = false := by
  simp [isValid]

theorem first_valid (list : L) {entries : List E} {first : Node L E} {post : List (Node L E)}
    (starts : entries.map Node.entry ++ [Node.head list] = first :: post) :
    (if isValid list (some first) then some first else none) = entries.head?.map Node.entry := by
  cases entries with
  | nil =>
    obtain ⟨rfl, -⟩ := List.cons.inj starts
    simp
  | cons entry entries =>
    obtain ⟨rfl, -⟩ := List.cons.inj starts
    simp [isValid_entry list entry]

theorem getHead_correct (represents : Represents memory lists) (list : L) :
    getHead memory list = some ((lists list).head?.map Node.entry) := by
  obtain ⟨first, post, starts⟩ := exists_first list (lists list)
  have linked := Family.seam represents (List.nil_append _).symm (List.nil_append _).symm starts
  simp only [getHead, getNext_some linked.1, Option.bind_eq_bind, Option.bind_some,
    first_valid list starts]

theorem last_valid (list : L) {entries : List E} {last : Node L E} {pre : List (Node L E)}
    (ends : Node.head list :: entries.map Node.entry = pre ++ [last]) :
    (if isValid list (some last) then some last else none) = entries.getLast?.map Node.entry := by
  have starts : entries.reverse.map Node.entry ++ [Node.head list] = last :: pre.reverse := by
    have turned := congrArg List.reverse ends
    rw [List.reverse_cons, ← List.map_reverse, List.reverse_append] at turned
    exact turned
  rw [first_valid list starts, List.head?_reverse]

theorem getTail_correct (represents : Represents memory lists) (list : L) :
    getTail memory list = some ((lists list).getLast?.map Node.entry) := by
  obtain ⟨pre, last, ends⟩ := exists_last list (lists list)
  have linked := Family.seam represents (List.append_nil _).symm ends rfl
  simp only [getTail, getPrev_some linked.2, Option.bind_eq_bind, Option.bind_some,
    last_valid list ends]

theorem traverse_chain {step : Pointer L E → Option (Pointer L E)} {list : L} {entries : List E}
    (chain : (entries.map Node.entry ++ [Node.head list]).IsChain
      fun node other => step (some node) = some (some other)) {first : Node L E}
    {post : List (Node L E)} (starts : entries.map Node.entry ++ [Node.head list] = first :: post)
    {fuel : Nat} (enough : entries.length < fuel) :
    traverse step list fuel (some first) = some (entries.map Node.entry) := by
  induction entries generalizing first post fuel with
  | nil =>
    obtain ⟨fuel, rfl⟩ := Nat.exists_eq_succ_of_ne_zero (Nat.ne_of_gt enough)
    obtain ⟨rfl, -⟩ := List.cons.inj starts
    simp [traverse]
  | cons entry entries ih =>
    obtain ⟨fuel, rfl⟩ := Nat.exists_eq_succ_of_ne_zero (Nat.ne_of_gt (Nat.zero_lt_of_lt enough))
    obtain ⟨rfl, -⟩ := List.cons.inj starts
    obtain ⟨next, rest, behind⟩ := exists_first list entries
    rw [List.map_cons, List.cons_append, behind, List.isChain_cons_cons, ← behind] at chain
    have more := ih chain.2 behind (Nat.lt_of_succ_lt_succ enough)
    simp [traverse, chain.1, more]

theorem traverse_end {step : Pointer L E → Option (Pointer L E)} {list : L} {entries : List E}
    (chain : (entries.map Node.entry ++ [Node.head list]).IsChain
      fun node other => step (some node) = some (some other))
    {fuel : Nat} (enough : entries.length < fuel) :
    traverse step list fuel (entries.head?.map Node.entry) = some (entries.map Node.entry) := by
  cases entries with
  | nil =>
    obtain ⟨fuel, rfl⟩ := Nat.exists_eq_succ_of_ne_zero (Nat.ne_of_gt enough)
    simp [traverse]
  | cons entry entries => exact traverse_chain chain rfl enough

/-- The entries in order, with `GetNext` from the head and backwards with `GetPrev` from the tail. -/
structure Traversed (memory : Memory L E) (list : L) (entries : List E) : Prop where
  head : getHead memory list = some (entries.head?.map Node.entry)
  tail : getTail memory list = some (entries.getLast?.map Node.entry)
  forth : ∀ fuel > entries.length, traverse (getNext memory) list fuel
    (entries.head?.map Node.entry) = some (entries.map Node.entry)
  back : ∀ fuel > entries.length, traverse (getPrev memory) list fuel
    (entries.getLast?.map Node.entry) = some (entries.map Node.entry).reverse

theorem Represents.traversed (represents : Represents memory lists) (list : L) :
    Traversed memory list (lists list) where
  head := getHead_correct represents list
  tail := getTail_correct represents list
  forth fuel enough := by
    refine traverse_end ?_ enough
    have ring := List.IsChain.tail (Family.ring represents list)
    exact ring.imp fun node other linked => getNext_some linked.1
  back fuel enough := by
    have turned : (Node.head list :: ((lists list).map Node.entry ++ [Node.head list])).reverse =
        Node.head list :: ((lists list).reverse.map Node.entry ++ [Node.head list]) := by simp
    have ring := List.isChain_reverse.2 (Family.ring represents list)
    rw [turned] at ring
    rw [← List.head?_reverse, ← List.map_reverse]
    refine traverse_end ?_ (by rwa [List.length_reverse])
    exact (List.IsChain.tail ring).imp fun node other linked => getPrev_some linked.2

/-! ## Runs -/

theorem Op.exec_leaves (represents : Represents memory lists)
    (live : ∀ entry, memory.Live (.entry entry)) (op : Op L E) (allowed : op.Allowed lists) :
    ∃ after, op.exec memory = some after ∧ Leaves memory (op.apply lists) after := by
  cases op with
  | insert list entry => exact insert_leaves represents list (live entry) allowed
  | append list entry => exact append_leaves represents list (live entry) allowed
  | remove list entry => exact remove_leaves represents list (live entry)

theorem run_leaves (represents : Represents memory lists)
    (live : ∀ entry, memory.Live (.entry entry)) (ops : List (Op L E))
    (allowed : Allowed lists ops) :
    ∃ after, ops.foldlM Op.exec memory = some after ∧
      Leaves memory (ops.foldl Op.apply lists) after := by
  induction ops generalizing memory lists with
  | nil => exact ⟨memory, rfl, represents, fun _ => Iff.rfl⟩
  | cons op ops ih =>
    obtain ⟨middle, ran, leaves⟩ := op.exec_leaves represents live allowed.1
    obtain ⟨after, rest, leaves'⟩ := ih leaves.represents
      (fun entry => (leaves.live _).2 (live entry)) allowed.2
    refine ⟨after, ?_, leaves'.represents, fun node => (leaves'.live node).trans (leaves.live node)⟩
    rw [List.foldlM_cons, ran]
    exact rest

/-- In every run the lists are rings with the entries that the calls are to give, in both
directions, and to remove an entry of no list changes nothing. -/
theorem lists_refine (ops : List (Op L E)) (allowed : Allowed (fun _ => []) ops) :
    ∃ memory, ops.foldlM Op.exec constructed = some memory ∧
      Represents memory (ops.foldl Op.apply fun _ => []) ∧
      (∀ list, Traversed memory list (ops.foldl Op.apply (fun _ => []) list)) ∧
      ∀ entry, (∀ list, entry ∉ ops.foldl Op.apply (fun _ => []) list) →
        ∀ list, remove list memory (some (.entry entry)) = some memory := by
  obtain ⟨memory, ran, leaves⟩ := run_leaves constructed_represents (fun _ => rfl) ops allowed
  refine ⟨memory, ran, leaves.represents, leaves.represents.traversed, fun entry absent list => ?_⟩
  exact remove_absent leaves.represents list ((leaves.live _).2 rfl) absent

def tested : List (Op Unit Bool) :=
  [.append () true, .insert () false, .remove () false, .remove () false, .remove () true,
    .insert () true, .insert () false]

theorem lists_refine_tested : Allowed (fun _ => []) tested ∧
    ∃ memory, tested.foldlM Op.exec constructed = some memory ∧
      Traversed memory () [false, true] := by
  have allowed : Allowed (fun _ => []) tested := by
    refine ⟨?_, ?_, trivial, trivial, trivial, ?_, ?_, trivial⟩ <;> intro list <;> cases list <;>
      decide
  obtain ⟨memory, ran, _, traversed, _⟩ := lists_refine tested allowed
  exact ⟨allowed, memory, ran, traversed ()⟩

end Lists

end Ptp

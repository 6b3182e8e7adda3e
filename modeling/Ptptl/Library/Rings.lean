import Mathlib.Data.List.Chain
import Mathlib.Data.List.Nodup
import Mathlib.Logic.Function.Basic

set_option autoImplicit false

/-!
# Rings of doubly linked cells

Cells with two links lie in a memory, in which NULL and addresses without a cell cannot be used.
A ring goes from its head through its members and back. The two edits, to link a cell in and to
unlink one, change the links of the cell and of its neighbours, which may be the head.
-/

namespace Rings

variable {N L : Type} [DecidableEq N] [DecidableEq L]

structure Cell (N : Type) where
  next : Option N
  prev : Option N

/-- The cells at their addresses; `none` where there is none. -/
abbrev Cells (N : Type) := N → Option (Cell N)

namespace Cells

def next (cells : Cells N) (node : N) : Option N := (cells node).bind Cell.next

def prev (cells : Cells N) (node : N) : Option N := (cells node).bind Cell.prev

def Live (cells : Cells N) (node : N) : Prop := (cells node).isSome

def load (cells : Cells N) (pointer : Option N) : Option (Cell N) := pointer.bind cells

def setNext (cells : Cells N) (pointer value : Option N) : Option (Cells N) := do
  let node ← pointer
  let cell ← cells node
  some (Function.update cells node (some { cell with next := value }))

def setPrev (cells : Cells N) (pointer value : Option N) : Option (Cells N) := do
  let node ← pointer
  let cell ← cells node
  some (Function.update cells node (some { cell with prev := value }))

def free (cells : Cells N) (node : N) : Cells N := Function.update cells node none

variable {cells before after : Cells N} {node other : N}

omit [DecidableEq N] in
theorem live_of_next (linked : cells.next node = some other) : cells.Live node := by
  rcases Option.bind_eq_some_iff.1 linked with ⟨cell, found, _⟩
  exact Option.isSome_iff_exists.2 ⟨cell, found⟩

omit [DecidableEq N] in
theorem live_of_prev (linked : cells.prev node = some other) : cells.Live node := by
  rcases Option.bind_eq_some_iff.1 linked with ⟨cell, found, _⟩
  exact Option.isSome_iff_exists.2 ⟨cell, found⟩

structure Wrote (before after : Cells N) (next prev : N → Option N) : Prop where
  next : after.next = next
  prev : after.prev = prev
  live : ∀ node, after.Live node ↔ before.Live node

omit [DecidableEq N] in
theorem Wrote.start (cells : Cells N) : Wrote cells cells cells.next cells.prev :=
  ⟨rfl, rfl, fun _ => Iff.rfl⟩

variable {next prev : N → Option N}

theorem Wrote.setNext (wrote : Wrote before cells next prev) (live : before.Live node)
    (value : Option N) : ∃ after, cells.setNext (some node) value = some after ∧
      Wrote before after (Function.update next node value) prev := by
  obtain ⟨cell, found⟩ := Option.isSome_iff_exists.1 ((wrote.live node).2 live)
  refine ⟨Function.update cells node (some { cell with next := value }), ?_, ?_, ?_, ?_⟩
  · simp [Cells.setNext, found]
  · rw [← wrote.next]
    funext other
    by_cases same : other = node <;> simp [Cells.next, Function.update, same]
  · rw [← wrote.prev]
    funext other
    by_cases same : other = node <;> simp [Cells.prev, Function.update, same, found]
  · intro other
    rw [← wrote.live other]
    by_cases same : other = node <;> simp [Live, Function.update, same, found]

theorem Wrote.setPrev (wrote : Wrote before cells next prev) (live : before.Live node)
    (value : Option N) : ∃ after, cells.setPrev (some node) value = some after ∧
      Wrote before after next (Function.update prev node value) := by
  obtain ⟨cell, found⟩ := Option.isSome_iff_exists.1 ((wrote.live node).2 live)
  refine ⟨Function.update cells node (some { cell with prev := value }), ?_, ?_, ?_, ?_⟩
  · simp [Cells.setPrev, found]
  · rw [← wrote.next]
    funext other
    by_cases same : other = node <;> simp [Cells.next, Function.update, same, found]
  · rw [← wrote.prev]
    funext other
    by_cases same : other = node <;> simp [Cells.prev, Function.update, same]
  · intro other
    rw [← wrote.live other]
    by_cases same : other = node <;> simp [Live, Function.update, same, found]

omit [DecidableEq N] in
theorem Wrote.same (wrote : Wrote before after before.next before.prev) : after = before := by
  funext node
  have live := wrote.live node
  have next := congrFun wrote.next node
  have prev := congrFun wrote.prev node
  simp only [Live, Cells.next, Cells.prev] at live next prev
  cases here : after node with
  | none =>
    rw [here] at live
    exact (Option.not_isSome_iff_eq_none.1 fun some_ => by simpa using live.2 some_).symm
  | some cell =>
    rw [here] at live next prev
    obtain ⟨cell', there⟩ := Option.isSome_iff_exists.1 (live.1 rfl)
    simp only [there, Option.bind_some] at next prev ⊢
    cases cell
    cases cell'
    simp_all

end Cells

open Cells

def Linked (cells : Cells N) (node other : N) : Prop :=
  cells.next node = some other ∧ cells.prev other = some node

def Links (cells : Cells N) (list : List N) : Prop := list.IsChain (Linked cells)

def Ring (cells : Cells N) (head : N) (members : List N) : Prop :=
  Links cells (head :: (members ++ [head]))

variable {before after : Cells N}

omit [DecidableEq N] in
theorem Links.frame {list : List N} (links : Links before list)
    (nexts : ∀ node ∈ list.dropLast, after.next node = before.next node)
    (prevs : ∀ node ∈ list.tail, after.prev node = before.prev node) : Links after list := by
  unfold Links at *
  induction list with
  | nil => exact List.IsChain.nil
  | cons first rest ih =>
    cases rest with
    | nil => exact List.IsChain.singleton _
    | cons second rest =>
      rw [List.isChain_cons_cons] at links ⊢
      refine ⟨⟨?_, ?_⟩, ih links.2 ?_ ?_⟩
      · rw [nexts first (by simp), links.1.1]
      · rw [prevs second (by simp), links.1.2]
      · intro node member
        apply nexts
        rw [List.dropLast_cons_of_ne_nil (by simp)]
        exact List.mem_cons_of_mem _ member
      · intro node member
        exact prevs node (List.mem_cons_of_mem _ member)

/-- Rings that have no cell in common; the other cells are linked to themselves. -/
structure Family (cells : Cells N) (head : L → N) (members : L → List N) : Prop where
  ring : ∀ list, Ring cells (head list) (members list)
  nodup : ∀ list, (head list :: members list).Nodup
  apart : ∀ list other node, node ∈ head list :: members list →
    node ∈ head other :: members other → list = other
  loose : ∀ node, cells.Live node → (∀ list, node ∉ head list :: members list) →
    Linked cells node node

/-- The links that an edit between two neighbours leaves as they are. -/
structure Spliced (before after : Cells N) (last entry first : N) : Prop where
  next : ∀ node, node ≠ last → node ≠ entry → after.next node = before.next node
  prev : ∀ node, node ≠ first → node ≠ entry → after.prev node = before.prev node
  live : ∀ node, after.Live node ↔ before.Live node

variable {head : L → N} {members : L → List N} {list : L} {front middle middle' back pre post : List N}
  {last entry first : N}

omit [DecidableEq N] in
theorem Spliced.links (spliced : Spliced before after last entry first) {list : List N}
    (links : Links before list) (fresh : entry ∉ list) (lastOut : last ∉ list.dropLast)
    (firstOut : first ∉ list.tail) : Links after list := by
  apply links.frame
  · intro node member
    refine spliced.next node ?_ ?_ <;> rintro rfl
    · exact lastOut member
    · exact fresh (List.dropLast_subset list member)
  · intro node member
    refine spliced.prev node ?_ ?_ <;> rintro rfl
    · exact firstOut member
    · exact fresh (List.mem_of_mem_tail member)

omit [DecidableEq N] in
theorem Spliced.halves (spliced : Spliced before after last entry first) {top : N}
    (nodup : (top :: (front ++ back)).Nodup) (fresh : entry ∉ top :: (front ++ back))
    (ends : top :: front = pre ++ [last]) (starts : back ++ [top] = first :: post)
    (links : Links before (top :: front) ∧ Links before (back ++ [top])) :
    Links after (top :: front) ∧ Links after (back ++ [top]) := by
  have rotated : (top :: (front ++ back)).Perm (front ++ (back ++ [top])) := by
    rw [← List.append_assoc]
    exact (List.perm_append_singleton top (front ++ back)).symm
  have turned := rotated.nodup_iff.1 nodup
  have lastIn : last ∈ top :: front := by simp [ends]
  have firstIn : first ∈ back ++ [top] := by simp [starts]
  constructor
  next =>
    have distinct : (top :: front).Nodup :=
      nodup.sublist (List.Sublist.cons_cons _ (List.sublist_append_left _ _))
    rw [ends] at distinct
    apply spliced.links links.1 (fun member => fresh (List.mem_append_left back member))
    · rw [ends, List.dropLast_concat]
      exact fun member => List.disjoint_of_nodup_append distinct member (List.mem_singleton_self _)
    · exact fun member => List.disjoint_of_nodup_append turned member firstIn
  next =>
    have distinct : (back ++ [top]).Nodup := turned.sublist (List.sublist_append_right _ _)
    rw [starts] at distinct
    apply spliced.links links.2
      (fun member => fresh (rotated.mem_iff.2 (List.mem_append_right front member)))
    · rw [List.dropLast_concat]
      have apart : (top :: front).Disjoint back := List.disjoint_of_nodup_append nodup
      exact fun member => apart lastIn member
    · rw [starts, List.tail_cons]
      exact (List.nodup_cons.1 distinct).1

/-- The cells of a ring that is cut before and behind some of its members. -/
structure Cut (cells : Cells N) (top last first : N) (front middle back : List N) : Prop where
  front : Links cells (top :: front)
  middle : Links cells (last :: (middle ++ [first]))
  back : Links cells (back ++ [top])

omit [DecidableEq N] [DecidableEq L] in
theorem ring_cut {cells : Cells N} {top : N} (ends : top :: front = pre ++ [last])
    (starts : back ++ [top] = first :: post) :
    Ring cells top (front ++ middle ++ back) ↔ Cut cells top last first front middle back := by
  have whole : top :: (front ++ middle ++ back ++ [top]) =
      pre ++ last :: (middle ++ first :: post) := by
    have grouped : top :: (front ++ middle ++ back ++ [top]) =
        (top :: front) ++ (middle ++ (back ++ [top])) := by simp
    rw [grouped, ends, starts]
    simp
  have split : Links cells (pre ++ last :: (middle ++ first :: post)) ↔
      Links cells (pre ++ [last]) ∧ Links cells (last :: (middle ++ [first])) ∧
        Links cells (first :: post) := by
    unfold Links
    rw [List.isChain_split, ← List.cons_append, List.isChain_split (c := first), List.cons_append]
  rw [Ring, whole, split, ← ends, ← starts]
  exact ⟨fun parts => ⟨parts.1, parts.2.1, parts.2.2⟩,
    fun parts => ⟨parts.front, parts.middle, parts.back⟩⟩

structure Edit (before after : Cells N) (top last entry first : N)
    (front middle middle' back : List N) : Prop where
  ends : ∃ pre, top :: front = pre ++ [last]
  starts : ∃ post, back ++ [top] = first :: post
  only : ∀ node, node ∈ middle ∨ node ∈ middle' → node = entry
  nodup : middle'.Nodup
  fresh : entry ∉ top :: (front ++ back)
  spliced : Spliced before after last entry first
  links : Links after (last :: (middle' ++ [first]))
  alone : entry ∉ middle' → Linked after entry entry

namespace Edit

variable {top : N} (edit : Edit before after top last entry first front middle middle' back)

include edit

omit [DecidableEq N] in
theorem last_mem : last ∈ top :: front := by
  obtain ⟨pre, ends⟩ := edit.ends
  simp [ends]

omit [DecidableEq N] in
theorem first_mem : first ∈ back ++ [top] := by
  obtain ⟨post, starts⟩ := edit.starts
  simp [starts]

omit [DecidableEq N] in
theorem mem_old {node : N} (member : node ∈ top :: (front ++ middle ++ back)) :
    node = entry ∨ node ∈ top :: (front ++ back) := by
  have own := edit.only node
  simp only [List.mem_cons, List.mem_append] at member ⊢
  tauto

omit [DecidableEq N] in
theorem mem_new {node : N} (member : node ∈ top :: (front ++ middle' ++ back)) :
    node = entry ∨ node ∈ top :: (front ++ back) := by
  have own := edit.only node
  simp only [List.mem_cons, List.mem_append] at member ⊢
  tauto

omit [DecidableEq N] in
theorem nodup_new (nodup : (top :: (front ++ middle ++ back)).Nodup) :
    (top :: (front ++ back)).Nodup ∧ (top :: (front ++ middle' ++ back)).Nodup := by
  have halves : (top :: (front ++ back)).Nodup := by
    refine nodup.sublist (List.Sublist.cons_cons _ ?_)
    exact (List.sublist_append_left front middle).append (List.Sublist.refl back)
  have moved : (top :: (front ++ middle' ++ back)).Perm (middle' ++ top :: (front ++ back)) := by
    rw [List.append_assoc]
    exact ((List.perm_append_comm_assoc front middle' back).cons top).trans
      List.perm_middle.symm
  refine ⟨halves, moved.nodup_iff.2 (List.Nodup.append edit.nodup halves ?_)⟩
  intro node own there
  exact edit.fresh (edit.only node (.inr own) ▸ there)

omit [DecidableEq N] in
theorem ring (nodup : (top :: (front ++ middle ++ back)).Nodup)
    (ring : Ring before top (front ++ middle ++ back)) :
    Ring after top (front ++ middle' ++ back) := by
  obtain ⟨pre, ends⟩ := edit.ends
  obtain ⟨post, starts⟩ := edit.starts
  have cut := (ring_cut ends starts).1 ring
  have halves := edit.spliced.halves (edit.nodup_new nodup).1 edit.fresh ends starts
    ⟨cut.front, cut.back⟩
  exact (ring_cut ends starts).2 ⟨halves.1, edit.links, halves.2⟩

end Edit

namespace Family

section

variable (family : Family before head members) (whole : members list = front ++ middle ++ back)
  (edit : Edit before after (head list) last entry first front middle middle' back)
  (own : ∀ other ≠ list, entry ∉ head other :: members other)

omit [DecidableEq N] in
include whole edit in
theorem mem_splice (other : L) (node : N)
    (member : node ∈ head other :: Function.update members list (front ++ middle' ++ back) other) :
    node = entry ∧ other = list ∨ node ∈ head other :: members other := by
  by_cases same : other = list
  · subst same
    rw [Function.update_self] at member
    refine (edit.mem_new member).imp (fun same => ⟨same, rfl⟩) fun kept => ?_
    rw [whole]
    simp only [List.mem_cons, List.mem_append] at kept ⊢
    tauto
  · rw [Function.update_of_ne same] at member
    exact .inr member

omit [DecidableEq N] [DecidableEq L] in
include whole edit in
theorem neighbours : last ∈ head list :: members list ∧ first ∈ head list :: members list := by
  have lastIn := edit.last_mem
  have firstIn := edit.first_mem
  rw [whole]
  simp only [List.mem_cons, List.mem_append, List.not_mem_nil, or_false] at lastIn firstIn ⊢
  tauto

omit [DecidableEq N] in
include family whole edit own in
theorem splice_ring (other : L) :
    Ring after (head other)
      (Function.update members list (front ++ middle' ++ back) other) := by
  have neighbours := neighbours whole edit
  by_cases same : other = list
  · subst same
    have distinct := family.nodup other
    have round := family.ring other
    rw [whole] at distinct round
    rw [Function.update_self]
    exact edit.ring distinct round
  · have free : ∀ node ∈ head other :: members other,
        node ≠ last ∧ node ≠ first ∧ node ≠ entry := by
      intro node member
      refine ⟨?_, ?_, ?_⟩ <;> rintro rfl
      · exact same (family.apart _ _ _ member neighbours.1)
      · exact same (family.apart _ _ _ member neighbours.2)
      · exact own other same member
    rw [Function.update_of_ne same]
    apply (family.ring other).frame
    · intro node member
      rw [← List.cons_append, List.dropLast_concat] at member
      exact edit.spliced.next node (free node member).1 (free node member).2.2
    · intro node member
      rw [List.tail_cons, List.mem_append, List.mem_singleton] at member
      have here := List.mem_cons.2 member.symm
      exact edit.spliced.prev node (free node here).2.1 (free node here).2.2

omit [DecidableEq N] in
include family whole edit own in
theorem splice_apart (one other : L) (node : N)
    (here : node ∈ head one :: Function.update members list (front ++ middle' ++ back) one)
    (there : node ∈ head other :: Function.update members list (front ++ middle' ++ back) other) :
    one = other := by
  rcases mem_splice whole edit one node here with ⟨rfl, rfl⟩ | old
  · rcases mem_splice whole edit other node there with ⟨_, rfl⟩ | old'
    · rfl
    · exact not_not.1 fun differs => own other (Ne.symm differs) old'
  · rcases mem_splice whole edit other node there with ⟨rfl, rfl⟩ | old'
    · exact not_not.1 fun differs => own one differs old
    · exact family.apart one other node old old'

omit [DecidableEq N] in
include family whole edit in
theorem splice_loose (node : N) (live : after.Live node)
    (away : ∀ other,
      node ∉ head other :: Function.update members list (front ++ middle' ++ back) other) :
    Linked after node node := by
  have neighbours := neighbours whole edit
  by_cases edited : node = entry
  · subst edited
    apply edit.alone
    intro member
    apply away list
    rw [Function.update_self]
    simp [member]
  · have before_ : ∀ other, node ∉ head other :: members other := by
      intro other member
      apply away other
      by_cases same : other = list
      · subst same
        rw [whole] at member
        have kept := (edit.mem_old member).resolve_left edited
        rw [Function.update_self]
        simp only [List.mem_cons, List.mem_append] at kept ⊢
        tauto
      · rw [Function.update_of_ne same]
        exact member
    have linked := family.loose node ((edit.spliced.live node).1 live) before_
    constructor
    · rw [edit.spliced.next node (fun same => before_ list (same ▸ neighbours.1)) edited]
      exact linked.1
    · rw [edit.spliced.prev node (fun same => before_ list (same ▸ neighbours.2)) edited]
      exact linked.2

omit [DecidableEq N] in
include family whole edit own in
theorem splice : Family after head (Function.update members list (front ++ middle' ++ back)) where
  ring := family.splice_ring whole edit own
  nodup other := by
    by_cases same : other = list
    · subst same
      have distinct := family.nodup other
      rw [whole] at distinct
      rw [Function.update_self]
      exact (edit.nodup_new distinct).2
    · rw [Function.update_of_ne same]
      exact family.nodup other
  apart := family.splice_apart whole edit own
  loose := family.splice_loose whole edit

end

theorem link (family : Family before head members) (whole : members list = front ++ back)
    (ends : head list :: front = pre ++ [last]) (starts : back ++ [head list] = first :: post)
    (loose : ∀ other, entry ∉ head other :: members other)
    (wrote : Wrote before after
      (Function.update (Function.update before.next entry (some first)) last (some entry))
      (Function.update (Function.update before.prev entry (some last)) first (some entry))) :
    Family after head (Function.update members list (front ++ entry :: back)) := by
  have fresh := loose list
  rw [whole] at fresh
  have lastOther : entry ≠ last := by
    rintro rfl
    have member : entry ∈ head list :: front := by simp [ends]
    exact fresh (by simp only [List.mem_cons, List.mem_append] at member ⊢; tauto)
  have firstOther : entry ≠ first := by
    rintro rfl
    have member : entry ∈ back ++ [head list] := by simp [starts]
    exact fresh (by simp only [List.mem_cons, List.mem_append, List.not_mem_nil] at member ⊢; tauto)
  have edit : Edit before after (head list) last entry first front [] [entry] back := {
    ends := ⟨pre, ends⟩
    starts := ⟨post, starts⟩
    only := by simp
    nodup := List.nodup_singleton entry
    fresh := fresh
    spliced := by
      refine ⟨?_, ?_, wrote.live⟩ <;> intro node away other
      · rw [wrote.next, Function.update_of_ne away, Function.update_of_ne other]
      · rw [wrote.prev, Function.update_of_ne away, Function.update_of_ne other]
    links := by
      have into : Linked after last entry := by
        constructor
        · rw [wrote.next, Function.update_self]
        · rw [wrote.prev, Function.update_of_ne firstOther, Function.update_self]
      have outOf : Linked after entry first := by
        constructor
        · rw [wrote.next, Function.update_of_ne lastOther, Function.update_self]
        · rw [wrote.prev, Function.update_self]
      exact .cons_cons into (.cons_cons outOf (.singleton first))
    alone := fun absent => absurd (List.mem_singleton_self entry) absent }
  have done := family.splice (by rw [List.append_nil, whole]) edit fun other _ => loose other
  rwa [List.append_assoc] at done

theorem unlink (family : Family before head members) (whole : members list = front ++ entry :: back)
    (ends : head list :: front = pre ++ [last]) (starts : back ++ [head list] = first :: post)
    (wrote : Wrote before after
      (Function.update (Function.update before.next last (some first)) entry (some entry))
      (Function.update (Function.update before.prev first (some last)) entry (some entry))) :
    Family after head (Function.update members list (front ++ back)) := by
  have whole' : members list = front ++ [entry] ++ back := by rw [whole]; simp
  have distinct := family.nodup list
  rw [whole] at distinct
  have fresh : entry ∉ head list :: (front ++ back) := by
    have moved : (head list :: (front ++ entry :: back)).Perm
        (entry :: head list :: (front ++ back)) :=
      (List.perm_middle.cons _).trans (List.Perm.swap _ _ _)
    exact (List.nodup_cons.1 (moved.nodup_iff.1 distinct)).1
  have lastOther : last ≠ entry := by
    rintro rfl
    have member : last ∈ head list :: front := by simp [ends]
    exact fresh (by simp only [List.mem_cons, List.mem_append] at member ⊢; tauto)
  have firstOther : first ≠ entry := by
    rintro rfl
    have member : first ∈ back ++ [head list] := by simp [starts]
    exact fresh (by simp only [List.mem_cons, List.mem_append, List.not_mem_nil] at member ⊢; tauto)
  have edit : Edit before after (head list) last entry first front [entry] [] back := {
    ends := ⟨pre, ends⟩
    starts := ⟨post, starts⟩
    only := by simp
    nodup := List.nodup_nil
    fresh := fresh
    spliced := by
      refine ⟨?_, ?_, wrote.live⟩ <;> intro node away other
      · rw [wrote.next, Function.update_of_ne other, Function.update_of_ne away]
      · rw [wrote.prev, Function.update_of_ne other, Function.update_of_ne away]
    links := by
      have past : Linked after last first := by
        constructor
        · rw [wrote.next, Function.update_of_ne lastOther, Function.update_self]
        · rw [wrote.prev, Function.update_of_ne firstOther, Function.update_self]
      exact .cons_cons past (.singleton first)
    alone := fun _ => by
      constructor
      · rw [wrote.next, Function.update_self]
      · rw [wrote.prev, Function.update_self] }
  have member : entry ∈ head list :: members list := by simp [whole]
  have done := family.splice whole' edit fun other differs there =>
    differs (family.apart other list entry there member)
  rwa [List.append_nil] at done

omit [DecidableEq N] [DecidableEq L] in
theorem seam (family : Family before head members) (whole : members list = front ++ back)
    (ends : head list :: front = pre ++ [last]) (starts : back ++ [head list] = first :: post) :
    Linked before last first := by
  have ring := family.ring list
  rw [whole, ← List.append_nil front] at ring
  exact (List.isChain_cons_cons.1 ((ring_cut ends starts).1 ring).middle).1

omit [DecidableEq N] [DecidableEq L] in
theorem around (family : Family before head members) (whole : members list = front ++ entry :: back)
    (ends : head list :: front = pre ++ [last]) (starts : back ++ [head list] = first :: post) :
    Linked before last entry ∧ Linked before entry first := by
  have ring := family.ring list
  have grouped : front ++ entry :: back = front ++ [entry] ++ back := by simp
  rw [whole, grouped] at ring
  have links := List.isChain_cons_cons.1 ((ring_cut ends starts).1 ring).middle
  exact ⟨links.1, (List.isChain_cons_cons.1 links.2).1⟩

omit [DecidableEq L] in
theorem free (family : Family before head members) {entry : N}
    (loose : ∀ other, entry ∉ head other :: members other) :
    Family (before.free entry) head members := by
  have kept : ∀ node, node ≠ entry → (before.free entry).next node = before.next node ∧
      (before.free entry).prev node = before.prev node := by
    intro node other
    simp [Cells.next, Cells.prev, Cells.free, Function.update_of_ne other]
  refine ⟨?_, family.nodup, family.apart, ?_⟩
  · intro list
    have other : ∀ node ∈ head list :: members list, node ≠ entry := by
      rintro node member rfl
      exact loose list member
    apply (family.ring list).frame
    · intro node member
      rw [← List.cons_append, List.dropLast_concat] at member
      exact (kept node (other node member)).1
    · intro node member
      rw [List.tail_cons, List.mem_append, List.mem_singleton] at member
      exact (kept node (other node (List.mem_cons.2 member.symm))).2
  · intro node live away
    by_cases same : node = entry
    · subst same
      simp [Cells.Live, Cells.free] at live
    · have linked := family.loose node ?_ away
      · rwa [Linked, (kept node same).1, (kept node same).2]
      · simpa [Cells.Live, Cells.free, Function.update_of_ne same] using live

end Family

/-! ## The neighbours of a node of a ring -/

section

variable {cells : Cells N} {head node : N} {members : List N}

omit [DecidableEq N] in
theorem Ring.next (ring : Ring cells head members) (member : node ∈ head :: members) :
    ∃ other ∈ head :: members, Linked cells node other := by
  obtain ⟨front, back, whole⟩ := List.append_of_mem member
  have around : head :: (members ++ [head]) = front ++ node :: (back ++ [head]) := by
    rw [← List.cons_append, whole, List.append_assoc, List.cons_append]
  unfold Ring Links at ring
  rw [around] at ring
  have links := ring.right_of_append
  cases back with
  | nil => exact ⟨head, List.mem_cons_self, (List.isChain_cons_cons.1 links).1⟩
  | cons other back =>
    refine ⟨other, ?_, (List.isChain_cons_cons.1 links).1⟩
    rw [whole]
    simp

omit [DecidableEq N] in
theorem Ring.prev (ring : Ring cells head members) (member : node ∈ head :: members) :
    ∃ other ∈ head :: members, Linked cells other node := by
  have member' : node ∈ members ++ [head] := by
    rw [List.mem_append, List.mem_singleton]
    exact (List.mem_cons.1 member).symm
  obtain ⟨front, back, whole⟩ := List.append_of_mem member'
  unfold Ring Links at ring
  rw [whole] at ring
  rcases List.eq_nil_or_concat front with rfl | ⟨front, other, rfl⟩
  · exact ⟨head, List.mem_cons_self, (List.isChain_cons_cons.1 ring).1⟩
  · rw [List.concat_eq_append, List.append_assoc, ← List.cons_append] at ring
    refine ⟨other, ?_, (List.isChain_cons_cons.1 ring.right_of_append).1⟩
    have within : other ∈ members ++ [head] := by
      rw [whole]
      simp
    rw [List.mem_append, List.mem_singleton] at within
    exact List.mem_cons.2 within.symm

end

end Rings

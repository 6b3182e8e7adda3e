import Ptptl.Ptp.PatternBounds
import Ptptl.Trut.Answers

set_option autoImplicit false

/-! # What is read and written of a packet in memory -/

namespace Trut

open Ptp Ptp.Collection CInt Gnutella

namespace Host

/-- `buffer` after a read: what it got, and behind that what the stack held. -/
def bufferAfter (stack : Block bufferSize) (got : Bytes) : Bytes := got ++ stack.val.drop got.length

/-- The local variable `size`. -/
def sizeIn (stack : Block bufferSize) (got : Bytes) : Int :=
  if Greeting (bufferAfter stack got) then got.length
  else wrap (Gnutella.headerSize + get32 (sizeField (bufferAfter stack got)) : Nat)

/-- What `ReceiveGnutella` returns: the size of a block, and what it copied to its start. -/
inductive Receipt where
  | null
  | packet (size : Nat) (copied : Bytes)
deriving DecidableEq

def receive (stack : Block bufferSize) (conn : Connection) : Receipt × Connection :=
  match conn.read (bufferSize - 1) with
  | (none, conn) => (.null, conn)
  | (some [], conn) => (.null, conn)
  | (some got, conn) =>
    let size := sizeIn stack got
    if size < 0 then (.null, conn)
    else if size ≤ got.length then (.packet size.toNat got, conn)
    else
      match conn.readAll (size.toNat - got.length) with
      | (none, conn) => (.null, conn)
      | (some more, conn) => (.packet size.toNat (got ++ more), conn)

/-- The bytes of a block; `heap` is what `new` found in it. -/
def block (heap : Nat → Byte) (size : Nat) (copied : Bytes) : Bytes :=
  copied ++ (List.range (size - copied.length)).map fun index => heap (copied.length + index)

/-- The first read gets no more than the header asks for, as a number of 32 bits. -/
def CopyFits (stack : Block bufferSize) (got : Bytes) : Prop :=
  Greeting (bufferAfter stack got) ∨
    got.length ≤ (Gnutella.headerSize + get32 (sizeField (bufferAfter stack got))) % 4294967296

theorem sizeIn_fits {stack : Block bufferSize} {got : Bytes} (short : got.length < bufferSize) :
    CopyFits stack got ↔ sizeIn stack got < 0 ∨ (got.length : Int) ≤ sizeIn stack got := by
  unfold CopyFits sizeIn
  unfold bufferSize at short
  by_cases greets : Greeting (bufferAfter stack got)
  next => simp [greets]
  next =>
    rw [if_neg greets]
    generalize Gnutella.headerSize + get32 (sizeField (bufferAfter stack got)) = total
    simp only [greets, false_or, wrap]
    split <;> omega

theorem receive_some (stack : Block bufferSize) {conn rest : Connection} {got : Bytes}
    (read : conn.read (bufferSize - 1) = (some got, rest)) (present : got ≠ []) :
    receive stack conn =
      if sizeIn stack got < 0 then (.null, rest)
      else if sizeIn stack got ≤ got.length then (.packet (sizeIn stack got).toNat got, rest)
      else
        match rest.readAll ((sizeIn stack got).toNat - got.length) with
        | (none, last) => (.null, last)
        | (some more, last) => (.packet (sizeIn stack got).toNat (got ++ more), last) := by
  rw [receive, read]
  cases got with
  | nil => exact absurd rfl present
  | cons first others => rfl

theorem receive_fits {stack : Block bufferSize} {conn next : Connection} {size : Nat}
    {copied : Bytes} (received : receive stack conn = (.packet size copied, next)) :
    ∃ got, (conn.read (bufferSize - 1)).1 = some got ∧ got ≠ [] ∧
      (copied.length ≤ size ↔ CopyFits stack got) := by
  cases read : conn.read (bufferSize - 1) with
  | mk result rest =>
    rcases result with _ | got
    · simp [receive, read] at received
    by_cases present : got = []
    · simp [receive, read, present] at received
    refine ⟨got, rfl, present, ?_⟩
    have short : got.length < bufferSize :=
      Nat.lt_of_le_of_lt (Connection.read_some read).2.1 (by decide)
    rw [sizeIn_fits short]
    rw [receive_some stack read present] at received
    split at received
    next => simp at received
    next nonneg =>
      split at received
      next whole =>
        simp only [Prod.mk.injEq, Receipt.packet.injEq] at received
        obtain ⟨⟨rfl, rfl⟩, -⟩ := received
        omega
      next =>
        split at received
        next => simp at received
        next more last gathered =>
          simp only [Prod.mk.injEq, Receipt.packet.injEq] at received
          obtain ⟨⟨rfl, rfl⟩, -⟩ := received
          have bound := Connection.readAll_length gathered
          rw [List.length_append]
          omega

theorem receive_overflow {stack : Block bufferSize} {conn : Connection} {got : Bytes}
    (read : (conn.read (bufferSize - 1)).1 = some got) (present : got ≠ [])
    (large : ¬ CopyFits stack got) :
    ∃ size next, receive stack conn = (.packet size got, next) ∧ size < got.length := by
  obtain ⟨rest, result⟩ : ∃ rest, conn.read (bufferSize - 1) = (some got, rest) :=
    ⟨(conn.read (bufferSize - 1)).2, Prod.ext read rfl⟩
  have short : got.length < bufferSize :=
    Nat.lt_of_le_of_lt (Connection.read_some result).2.1 (by decide)
  rw [sizeIn_fits short] at large
  have nonneg : ¬ sizeIn stack got < 0 := by omega
  have within : sizeIn stack got ≤ got.length := by omega
  refine ⟨(sizeIn stack got).toNat, rest, ?_, by omega⟩
  rw [receive_some stack result present, if_neg nonneg, if_pos within]

theorem receive_received {conn next : Connection} {pkt : Received}
    (received : receiveGnutella conn = some (some pkt, next)) (stack : Block bufferSize) :
    ∃ last, receive stack conn = (.packet (pkt.bytes.length + pkt.missing) pkt.bytes, last) := by
  unfold receiveGnutella at received
  split at received
  next => simp at received
  next => simp at received
  next got rest present read =>
    obtain ⟨size, counted, received⟩ := Option.bind_eq_some_iff.1 received
    have front : got <+: bufferAfter stack got := List.prefix_append _ _
    have same : sizeIn stack got = size := by
      rcases receiveSize_some counted with ⟨greets, whole⟩ | ⟨plain, header, whole⟩
      · have greets' : Greeting (bufferAfter stack got) := greets.imp (·.trans front) (·.trans front)
        rw [sizeIn, if_pos greets', whole]
      · rw [sizeIn, if_neg (mt (greeting_front front header).2 plain), whole,
          sizeField_front front header]
        rfl
    split at received
    next => simp at received
    next nonneg =>
      split at received
      next => simp at received
      next fits =>
        split at received
        next => simp at received
        next more last gathered =>
          simp only [Option.some.injEq, Prod.mk.injEq] at received
          obtain ⟨rfl, rfl⟩ := received
          have bound := Connection.readAll_length gathered
          have total : (got ++ more).length + (size.toNat - (got ++ more).length) = size.toNat := by
            rw [List.length_append]
            omega
          rw [receive_some stack read present, same, if_neg nonneg, total]
          by_cases whole : size ≤ got.length
          · have none : more = [] := List.length_eq_zero_iff.1 (by omega)
            exact ⟨rest, by rw [if_pos whole, none, List.append_nil]⟩
          · exact ⟨last, by rw [if_neg whole, gathered]⟩

end Host

/-! # The reads of the search string -/

/-- The first part of `HandleSearchRequest`, when the bytes of `str` are all that lies in memory;
`none` when it reads behind them. -/
def targetIn (trut : Trut) (str : Bytes) : Option Target := do
  if ← strncmpConst str securePrefix then
    let start := str.drop securePrefix.length
    let name := start.takeWhile fun char => char ≠ slash && char ≠ 0
    match start.drop name.length with
    | [] => none
    | stop :: rest =>
      if stop = 0 then some .invalid
      -- strcmp with its NUL
      else if ← strncmpConst rest (ascii "key" ++ [0]) then some (.all true)
      else
        match trut.findGroup name with
        | none => some (.all false)
        | some group => if 0 ∈ rest then some (.secure group (cString rest)) else none
  else some (.all false)

/-- What `HandleSearchRequest` reads of a packet; its guid, which it copies when something is found,
lies in front of that. -/
def requestIn (trut : Trut) (rqst : Bytes) : Option Target := do
  let str := rqst.drop searchOffset
  let target ← targetIn trut str
  match target with
  | .all key => do
    let _ ← findPatIn str trut.collect.entries
    some (.all key)
  | other => some other

structure Undecided (trut : Trut) (str : Bytes) : Prop where
  started : ¬ str <+: securePrefix
  named : securePrefix <+: str → ∃ name rest, str = securePrefix ++ (name ++ slash :: rest) ∧
    slash ∉ name ∧ ¬ rest <+: ascii "key" ∧ trut.findGroup name = none
  missed : trut.collect.findPat (seen str) = []

variable {trut : Trut} {str : Bytes}

theorem front_cString {front : Bytes} (clean : (0 : Byte) ∉ front) (text : Bytes) :
    front <+: cString text ↔ front <+: text := by
  constructor
  · intro here
    exact here.trans (List.takeWhile_prefix _)
  · rintro ⟨rest, rfl⟩
    rw [cString_append clean]
    exact List.prefix_append _ _

theorem slash_split {start : Bytes} (inside : slash ∈ cString start) : ∃ name rest,
    start = name ++ slash :: rest ∧ slash ∉ name ∧ (0 : Byte) ∉ name := by
  obtain ⟨name, rest, split, plain⟩ := List.eq_append_cons_of_mem inside
  have front : name ++ [slash] <+: start := by
    refine List.IsPrefix.trans ?_ (List.takeWhile_prefix fun char => char ≠ 0)
    refine ⟨rest, ?_⟩
    rw [List.append_assoc]
    exact split.symm
  obtain ⟨behind, same⟩ := front
  refine ⟨name, behind, by rw [← same]; simp, plain, fun member => ?_⟩
  exact cString_clean start (split ▸ List.mem_append_left _ member)

theorem takeWhile_name {name : Bytes} (plain : slash ∉ name) (clean : (0 : Byte) ∉ name)
    (rest : Bytes) : (name ++ rest).takeWhile (fun char => char ≠ slash && char ≠ 0) =
      name ++ rest.takeWhile fun char => char ≠ slash && char ≠ 0 := by
  apply List.takeWhile_append_of_pos
  intro char member
  have one : char ≠ slash := fun same => plain (same ▸ member)
  have two : char ≠ 0 := fun same => clean (same ▸ member)
  simp [one, two]

theorem targetIn_split (trut : Trut) {name : Bytes} (plain : slash ∉ name)
    (clean : (0 : Byte) ∉ name) (rest : Bytes) :
    targetIn trut (securePrefix ++ (name ++ slash :: rest)) =
      (strncmpConst rest (ascii "key" ++ [0])).bind fun key =>
        if key then some (.all true)
        else
          match trut.findGroup name with
          | none => some (.all false)
          | some group => if 0 ∈ rest then some (.secure group (cString rest)) else none := by
  have front : securePrefix <+: securePrefix ++ (name ++ slash :: rest) := List.prefix_append _ _
  have name_ : (name ++ slash :: rest).takeWhile (fun char => char ≠ slash && char ≠ 0) = name := by
    rw [takeWhile_name plain clean]
    simp
  have other : slash ≠ 0 := by decide
  simp only [targetIn, strncmpConst, if_pos front, Option.bind_eq_bind, Option.bind_some, if_true,
    List.drop_left, name_, if_neg other]

theorem strcmp_terminated {text other : Bytes} (ended : 0 ∈ text) (clean : (0 : Byte) ∉ other) :
    strncmpConst text (other ++ [0]) = some (decide (cString text = other)) := by
  obtain ⟨rest, split⟩ := cString_split ended
  by_cases same : cString text = other
  next =>
    have front : other ++ [0] <+: text := by
      rw [split, same]
      exact ⟨rest, by simp⟩
    simp [strncmpConst, front, same]
  next =>
    have longer : ¬ other ++ [0] <+: text := by
      rintro ⟨behind, whole⟩
      apply same
      rw [← whole, List.append_assoc]
      exact cString_ended clean behind
    have shorter : ¬ text <+: other ++ [0] := by
      intro front
      rcases List.prefix_concat_iff.1 front with whole | inside
      · exact longer (whole ▸ List.prefix_rfl)
      · exact clean (inside.subset ended)
    simp [strncmpConst, longer, shorter, same]

theorem strcmp_open {text : Bytes} (open_ : (0 : Byte) ∉ text) (other : Bytes) :
    strncmpConst text (other ++ [0]) = if text <+: other then none else some false := by
  have longer : ¬ other ++ [0] <+: text := fun front => open_ (front.subset (by simp))
  have same : text <+: other ++ [0] ↔ text <+: other := by
    rw [List.prefix_concat_iff]
    refine or_iff_right fun whole => open_ ?_
    rw [whole]
    simp
  simp [strncmpConst, longer, same]

theorem secureClean : (0 : Byte) ∉ securePrefix := by decide

theorem targetIn_terminated (trut : Trut) (ended : 0 ∈ str) :
    targetIn trut str = some (target trut (cString str)) := by
  by_cases front : securePrefix <+: str
  next =>
    obtain ⟨start, rfl⟩ := front
    have later : 0 ∈ start := (List.mem_append.1 ended).resolve_left secureClean
    rw [cString_append secureClean]
    by_cases inside : slash ∈ cString start
    next =>
      obtain ⟨name, rest, rfl, plain, clean⟩ := slash_split inside
      have last : 0 ∈ rest := by
        have behind := (List.mem_append.1 later).resolve_left clean
        exact (List.mem_cons.1 behind).resolve_left (by decide)
      have text : cString (name ++ slash :: rest) = name ++ slash :: cString rest := by
        have other : slash ≠ 0 := by decide
        rw [cString_append clean]
        simp [cString, other]
      rw [targetIn_split trut plain clean, text, target_split trut plain,
        strcmp_terminated last (by decide)]
      by_cases key : cString rest = ascii "key"
      · simp [key]
      · simp only [key, decide_false, Option.bind_some, Bool.false_eq_true, if_false, last, if_true]
        cases trut.findGroup name <;> rfl
    next =>
      obtain ⟨rest, split⟩ := cString_split later
      have name : (cString start ++ 0 :: rest).takeWhile (fun char => char ≠ slash && char ≠ 0) =
          cString start := by
        rw [takeWhile_name inside (cString_clean start)]
        simp
      have here : strncmpConst (securePrefix ++ start) securePrefix = some true := by
        rw [strncmpConst, if_pos (List.prefix_append _ _)]
      rw [split] at here ⊢
      simp only [targetIn, here, Option.bind_eq_bind, Option.bind_some, if_true, List.drop_left, name]
      have whole : cString (cString start ++ 0 :: rest) = cString start := by rw [← split]
      simp [target, whole, inside]
  next =>
    have shorter : ¬ str <+: securePrefix := fun short => secureClean (short.subset ended)
    have other : ¬ securePrefix <+: cString str := mt (front_cString secureClean str).1 front
    simp [targetIn, target, strncmpConst, front, shorter, other]

theorem targetIn_open (trut : Trut) (open_ : (0 : Byte) ∉ str) (found : Target) :
    targetIn trut str = some found ↔ found = .all false ∧ ¬ str <+: securePrefix ∧
      (securePrefix <+: str → ∃ name rest, str = securePrefix ++ (name ++ slash :: rest) ∧
        slash ∉ name ∧ ¬ rest <+: ascii "key" ∧ trut.findGroup name = none) := by
  by_cases front : securePrefix <+: str
  next =>
    constructor
    next =>
      obtain ⟨start, rfl⟩ := front
      have clean : (0 : Byte) ∉ start := fun member => open_ (List.mem_append_right _ member)
      intro read
      by_cases inside : slash ∈ start
      next =>
        obtain ⟨name, rest, rfl, plain, nameClean⟩ := slash_split ((cString_eq clean).symm ▸ inside)
        have restClean : (0 : Byte) ∉ rest := by
          simp only [List.mem_append, List.mem_cons, not_or] at clean
          exact clean.2.2
        have longer : ¬ securePrefix ++ (name ++ slash :: rest) <+: securePrefix := by
          intro short
          have lengths := short.length_le
          simp only [List.length_append, List.length_cons] at lengths
          omega
        rw [targetIn_split trut plain nameClean, strcmp_open restClean] at read
        by_cases key : rest <+: ascii "key"
        next => simp [key] at read
        next =>
          simp only [if_neg key, Option.bind_some, Bool.false_eq_true, if_false] at read
          cases group : trut.findGroup name with
          | some group => simp [group, restClean] at read
          | none =>
            simp only [group, Option.some.injEq] at read
            exact ⟨read.symm, longer, fun _ => ⟨name, rest, rfl, plain, key, group⟩⟩
      next =>
        -- strchr finds neither a slash nor a NUL
        have all := takeWhile_name inside clean []
        rw [List.append_nil, List.takeWhile_nil, List.append_nil] at all
        have here : strncmpConst (securePrefix ++ start) securePrefix = some true := by
          rw [strncmpConst, if_pos (List.prefix_append _ _)]
        simp only [targetIn, here, Option.bind_eq_bind, Option.bind_some, if_true, List.drop_left, all,
          List.drop_length] at read
        contradiction
    next =>
      rintro ⟨rfl, -, named⟩
      obtain ⟨name, rest, rfl, plain, key, group⟩ := named front
      simp only [List.mem_append, List.mem_cons, not_or] at open_
      rw [targetIn_split trut plain open_.2.1, strcmp_open open_.2.2.2, if_neg key]
      simp [group]
  next =>
    by_cases shorter : str <+: securePrefix
    · simp [targetIn, strncmpConst, front, shorter]
    · simp [targetIn, strncmpConst, front, shorter, eq_comm]

/-- The reads of a search string stay in the packet exactly if it ends there, or is given up. -/
theorem requestIn_isSome (trut : Trut) (rqst : Bytes) : (requestIn trut rqst).isSome ↔
    0 ∈ rqst.drop searchOffset ∨ Undecided trut (rqst.drop searchOffset) := by
  unfold requestIn
  generalize rqst.drop searchOffset = str
  simp only
  by_cases ended : 0 ∈ str
  next =>
    have reads := findPatIn_correct trut.collect str
    rw [if_pos ended] at reads
    rw [targetIn_terminated trut ended]
    simp only [Option.bind_eq_bind, Option.bind_some, ended, true_or, iff_true]
    cases target trut (cString str) <;> simp [reads]
  next =>
    have reads := findPatIn_correct trut.collect str
    rw [if_neg ended] at reads
    simp only [ended, false_or]
    constructor
    next =>
      intro inside
      obtain ⟨result, read⟩ := Option.isSome_iff_exists.1 inside
      obtain ⟨found, target, rest⟩ := Option.bind_eq_some_iff.1 read
      obtain ⟨rfl, started, named⟩ := (targetIn_open trut ended found).1 target
      refine ⟨started, named, ?_⟩
      by_contra matched
      simp [reads, matched] at rest
    next =>
      intro undecided
      have target := (targetIn_open trut ended (.all false)).2
        ⟨rfl, undecided.started, undecided.named⟩
      simp [target, reads, undecided.missed]

theorem requestIn_terminated (trut : Trut) {rqst : Bytes} (ended : 0 ∈ rqst.drop searchOffset) :
    ∃ str, searchText rqst = some str ∧ requestIn trut rqst = some (target trut str) := by
  have reads := findPatIn_correct trut.collect (rqst.drop searchOffset)
  rw [if_pos ended] at reads
  refine ⟨cString (rqst.drop searchOffset), by rw [searchText, if_pos ended], ?_⟩
  simp only [requestIn, targetIn_terminated trut ended, Option.bind_eq_bind, Option.bind_some]
  cases target trut (cString (rqst.drop searchOffset)) <;> simp [reads]

/-! # The walk over the entries of an answer -/

/-- As many entries, each with a NUL behind its name; the byte after that belongs to it too. -/
def Entries : Nat → Bytes → Prop
  | 0, _ => True
  | count + 1, bytes => ∃ numbers name rest, bytes = numbers ++ (name ++ 0 :: rest) ∧
    numbers.length = 8 ∧ (0 : Byte) ∉ name ∧ Entries count (rest.drop 1)

theorem readEntries_isSome (count : Nat) : ∀ bytes : Bytes,
    (readEntries count bytes).isSome ↔ Entries count bytes := by
  induction count with
  | zero => simp [readEntries, Entries]
  | succ count ih =>
    intro bytes
    have step (numbers name rest : Bytes) (eight : numbers.length = 8) (clean : (0 : Byte) ∉ name) :
        (readEntries (count + 1) (numbers ++ (name ++ 0 :: rest))).isSome ↔
          Entries count (rest.drop 1) := by
      rw [← ih, readEntries_record eight clean, Option.isSome_map]
    constructor
    next =>
      intro read
      have ended : 0 ∈ bytes.drop 8 := by
        by_contra open_
        simp [readEntries, open_] at read
      obtain ⟨rest, split⟩ := cString_split ended
      have long : 8 ≤ bytes.length := by
        have some_ := List.length_pos_of_mem ended
        rw [List.length_drop] at some_
        omega
      have whole : bytes = bytes.take 8 ++ (cString (bytes.drop 8) ++ 0 :: rest) := by
        rw [← split, List.take_append_drop]
      have eight : (bytes.take 8).length = 8 := List.length_take_of_le long
      refine ⟨bytes.take 8, cString (bytes.drop 8), rest, whole, eight, cString_clean _, ?_⟩
      rw [whole] at read
      exact (step _ _ rest eight (cString_clean _)).1 read
    next =>
      rintro ⟨numbers, name, rest, rfl, eight, clean, entries⟩
      exact (step numbers name rest eight clean).2 entries

/-- The decryption of an answer in place; `none` when it reads behind the packet. -/
def decryptIn (evp : Cipher) (trut : Trut) (group : Option Nat) (resp : Bytes) :
    Option (Except Fault (Option Bytes)) :=
  match group with
  | none => some (decryptAnswer evp trut none resp)
  | some ref =>
    if resp.length < Gnutella.headerSize then none
    else
      let size := wrap (get32 (sizeField resp))
      -- Decrypt refuses a size that is not above its overhead
      if ((trut.group ref).bind Group.key).isSome ∧ (Key.overhead true true : Int) < size ∧
          ((payload resp).length : Int) < size then none
      else some (decryptAnswer evp trut (some ref) resp)

def Covered (trut : Trut) (group : Option Nat) (resp : Bytes) : Prop :=
  ∀ ref, group = some ref → Gnutella.headerSize ≤ resp.length ∧
    (((trut.group ref).bind Group.key).isSome → wrap (get32 (sizeField resp)) ≤ 28 ∨
      wrap (get32 (sizeField resp)) ≤ (payload resp).length)

theorem decryptIn_some {evp : Cipher} {group : Option Nat} {resp : Bytes}
    {result : Except Fault (Option Bytes)} : decryptIn evp trut group resp = some result ↔
      Covered trut group resp ∧ result = decryptAnswer evp trut group resp := by
  have overhead : ((Key.overhead true true : Nat) : Int) = 28 := rfl
  cases group with
  | none =>
    have covered : Covered trut none resp := fun ref same => nomatch same
    simp only [decryptIn, Option.some.injEq, covered, true_and]
    exact eq_comm
  | some ref =>
    simp only [decryptIn, Covered, Option.some.injEq, forall_eq', overhead]
    by_cases header : resp.length < Gnutella.headerSize
    next =>
      have short : ¬ Gnutella.headerSize ≤ resp.length := by omega
      simp [header, short]
    next =>
      have long : Gnutella.headerSize ≤ resp.length := by omega
      by_cases keyed : ((trut.group ref).bind Group.key).isSome
      next =>
        by_cases behind : 28 < wrap (get32 (sizeField resp)) ∧
            ((payload resp).length : Int) < wrap (get32 (sizeField resp))
        next =>
          have outside : ¬ (wrap (get32 (sizeField resp)) ≤ 28 ∨
              wrap (get32 (sizeField resp)) ≤ (payload resp).length) := by omega
          simp [header, long, keyed, behind, outside]
        next =>
          have inside : wrap (get32 (sizeField resp)) ≤ 28 ∨
              wrap (get32 (sizeField resp)) ≤ (payload resp).length := by omega
          simp only [header, long, keyed, behind, inside, and_false, if_false, Option.some.injEq,
            implies_true, true_and]
          exact eq_comm
      next =>
        simp only [header, long, keyed, Bool.false_eq_true, false_and, if_false, Option.some.injEq,
          false_implies, true_and]
        exact eq_comm

end Trut

namespace Peer

open Ptp Trut CInt Gnutella

variable {evp : Cipher} {peer : Peer}

/-- What `HandleSearchResponse` does with a packet, up to its callbacks; `none` when it reads behind
the packet. -/
def responseIn (evp : Cipher) (peer : Peer) (resp : Bytes) :
    Option (Except Fault (Option (Callback × List File))) :=
  if peer.searches.isEmpty then some (.ok none)
  -- memcmp of the guids
  else if resp.length < 16 then none
  else
    match peer.searches.find? fun search => search.guid = guid resp with
    | none => some (.ok none)
    | some search => do
      match ← decryptIn evp peer.trut search.group resp with
      | .error fault => some (.error fault)
      | .ok none => some (.ok none)
      | .ok (some []) => none
      | .ok (some (count :: rest)) => do
        let payload := count :: rest
        let entries ← readEntries count.toNat (payload.drop respSize)
        some (.ok (some (search.callback, entries.map (File.ofEntry payload search.group))))

def Whole (evp : Cipher) (peer : Peer) (resp : Bytes) : Prop :=
  peer.searches ≠ [] → 16 ≤ resp.length ∧
    ∀ search, (peer.searches.find? fun search => search.guid = guid resp) = some search →
      Covered peer.trut search.group resp ∧
        ∀ payload, decryptAnswer evp peer.trut search.group resp = .ok (some payload) →
          ∃ count rest, payload = count :: rest ∧ Entries count.toNat (payload.drop respSize)

theorem responseIn_isSome (evp : Cipher) (peer : Peer) (resp : Bytes) :
    (peer.responseIn evp resp).isSome ↔ peer.Whole evp resp := by
  by_cases empty : peer.searches = []
  · simp [responseIn, Whole, empty]
  by_cases short : resp.length < 16
  · have outside : ¬ 16 ≤ resp.length := by omega
    simp [responseIn, Whole, empty, short, outside]
  have long : 16 ≤ resp.length := by omega
  cases found : peer.searches.find? fun search => search.guid = guid resp with
  | none => simp [responseIn, Whole, empty, short, long, found]
  | some search =>
    cases read : decryptIn evp peer.trut search.group resp with
    | none =>
      have outside : ¬ Covered peer.trut search.group resp := by
        intro covered
        rw [decryptIn_some.2 ⟨covered, rfl⟩] at read
        contradiction
      simp [responseIn, Whole, empty, short, found, read, outside]
    | some result =>
      obtain ⟨covered, same⟩ := decryptIn_some.1 read
      subst same
      have opened : (peer.responseIn evp resp).isSome ↔
          ∀ payload, decryptAnswer evp peer.trut search.group resp = .ok (some payload) →
            ∃ count rest, payload = count :: rest ∧
              Entries count.toNat (payload.drop respSize) := by
        cases decrypted : decryptAnswer evp peer.trut search.group resp with
        | error fault => simp [responseIn, empty, short, found, read, decrypted]
        | ok payload =>
          rcases payload with _ | _ | ⟨count, rest⟩
          · simp [responseIn, empty, short, found, read, decrypted]
          · simp [responseIn, empty, short, found, read, decrypted]
          · have walk := readEntries_isSome count.toNat ((count :: rest).drop respSize)
            cases entries : readEntries count.toNat ((count :: rest).drop respSize) with
            | none =>
              rw [entries] at walk
              simpa [responseIn, empty, short, found, read, decrypted, entries] using walk
            | some entries' =>
              rw [entries] at walk
              simpa [responseIn, empty, short, found, read, decrypted, entries] using walk
      rw [opened]
      simp [Whole, empty, long, found, covered]

theorem responseIn_calls {resp : Bytes} {result : Except Fault (Option (Callback × List File))}
    (inside : peer.responseIn evp resp = some result) : result = peer.calls evp resp := by
  unfold responseIn at inside
  split at inside
  next empty =>
    have none : peer.searches = [] := List.isEmpty_iff.1 empty
    simp only [Option.some.injEq] at inside
    simp [calls, none, ← inside]
  next =>
    split at inside
    next => simp at inside
    next =>
      unfold calls
      cases found : peer.searches.find? fun search => search.guid = guid resp with
      | none =>
        rw [found] at inside
        exact (Option.some.inj inside).symm
      | some search =>
        simp only [found, Option.bind_eq_bind] at inside
        obtain ⟨answer, read, inside⟩ := Option.bind_eq_some_iff.1 inside
        obtain ⟨-, rfl⟩ := decryptIn_some.1 read
        simp only
        cases decrypted : decryptAnswer evp peer.trut search.group resp with
        | error fault =>
          rw [decrypted] at inside
          exact (Option.some.inj inside).symm
        | ok payload =>
          rw [decrypted] at inside
          rcases payload with _ | _ | ⟨count, rest⟩
          · exact (Option.some.inj inside).symm
          · simp at inside
          · simp only at inside
            obtain ⟨entries, walked, same⟩ := Option.bind_eq_some_iff.1 inside
            rw [← Option.some.inj same]
            simp only [readFiles, walked, orUndefined, bind, Except.bind, pure, Except.pure]

inductive Handler where
  | request
  | response
deriving DecidableEq

def Handler.inside (evp : Cipher) (peer : Peer) : Handler → Bytes → Bool
  | .request, packet => (requestIn peer.trut packet).isSome
  | .response, packet => (peer.responseIn evp packet).isSome

def Handler.Ends (evp : Cipher) (peer : Peer) : Handler → Bytes → Prop
  | .request, packet =>
    0 ∈ packet.drop searchOffset ∨ Undecided peer.trut (packet.drop searchOffset)
  | .response, packet => peer.Whole evp packet

theorem Handler.inside_iff (handler : Handler) (evp : Cipher) (peer : Peer) (packet : Bytes) :
    handler.inside evp peer packet = true ↔ handler.Ends evp peer packet := by
  cases handler with
  | request => exact requestIn_isSome peer.trut packet
  | response => exact responseIn_isSome evp peer packet

/-- A packet that `ReceiveGnutella` returns is copied into its block, and a handler reads no byte
behind it. -/
def Contained (evp : Cipher) (peer : Peer) (handler : Handler) (stack : Block Host.bufferSize)
    (heap : Nat → Byte) (conn : Connection) : Prop :=
  ∀ size copied next, Host.receive stack conn = (.packet size copied, next) →
    copied.length ≤ size ∧ handler.inside evp peer (Host.block heap size copied) = true

/-- What a peer sends stays in bounds exactly if the first read of a packet does not exceed it, and
the packet ends behind what its handler reads. -/
theorem contained_iff (evp : Cipher) (peer : Peer) (handler : Handler)
    (stack : Block Host.bufferSize) (heap : Nat → Byte) (conn : Connection) :
    peer.Contained evp handler stack heap conn ↔
      (∀ got, (conn.read (Host.bufferSize - 1)).1 = some got → got ≠ [] →
        Host.CopyFits stack got) ∧
      ∀ size copied next, Host.receive stack conn = (.packet size copied, next) →
        handler.Ends evp peer (Host.block heap size copied) := by
  constructor
  next =>
    intro contained
    refine ⟨fun got read present => ?_, fun size copied next received => ?_⟩
    · by_contra large
      obtain ⟨size, next, received, less⟩ := Host.receive_overflow read present large
      have within := (contained size got next received).1
      omega
    · exact (handler.inside_iff evp peer _).1 (contained size copied next received).2
  next =>
    rintro ⟨fits, ends⟩ size copied next received
    obtain ⟨got, read, present, copies⟩ := Host.receive_fits received
    refine ⟨copies.2 (fits got read present), ?_⟩
    exact (handler.inside_iff evp peer _).2 (ends size copied next received)

def delivered (first : Byte) (rest : Bytes) : Connection := ⟨[], [.data first rest], ⟨[], []⟩⟩

def endless : Bytes :=
  List.replicate 15 0 ++ [128, 7, 0] ++ Gnutella.set32 10 ++ [0, 0] ++ securePrefix

def entryless : Bytes :=
  List.replicate 15 0 ++ [129, 7, 0] ++ Gnutella.set32 11 ++ 1 :: List.replicate 10 0

set_option maxRecDepth 4000 in
/-- Two packets in one read, a search string without an end, and an entry that is not there. -/
theorem contained_lost :
    ¬ Peer.Contained Key.zeroCipher {} .request (Block.zero _) (fun _ => 0)
      (delivered 0 (Host.ping.drop 1 ++ Host.ping)) ∧
    ¬ Peer.Contained Key.zeroCipher {} .request (Block.zero _) (fun _ => 0) (delivered 0 endless) ∧
    ¬ Peer.Contained Key.zeroCipher asker .response (Block.zero _) (fun _ => 0)
      (delivered 0 entryless) := by
  refine ⟨fun contained => ?_, fun contained => ?_, fun contained => ?_⟩
  · have overflow := (contained 23 (Host.ping ++ Host.ping) _ rfl).1
    exact absurd overflow (by decide)
  · have read := (contained 33 (0 :: endless) _ rfl).2
    exact absurd read (by decide)
  · have read := (contained 34 (0 :: entryless) _ rfl).2
    exact absurd read (by decide)

end Peer

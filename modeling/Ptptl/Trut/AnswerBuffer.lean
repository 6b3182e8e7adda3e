import Ptptl.Library.Bounded
import Ptptl.Ptp.FindNext
import Ptptl.Ptp.StreamSizes
import Ptptl.Trut.Answers

set_option autoImplicit false

/-! # The buffer of a search answer, write by write -/

namespace Trut

open Ptp Ptp.Collection CInt Gnutella

/-- The entries that a loop of `m_collect.Find(str, entry)` gets up to NULL. -/
def findEach (collect : Collection) (str : CString) : Nat → Option Nat → Option (List Entry)
  | 0, _ => none
  | fuel + 1, entry => do
    match ← collect.findEntry (some str) entry with
    | none => some []
    | some (found, place) =>
      let rest ← findEach collect str fuel (some place)
      some (found :: rest)

def found (collect : Collection) (str : CString) : Option (List Entry) :=
  findEach collect str (collect.entries.length + 1) none

/-- `sizeof(SearchResp)` and `sizeof(SearchTrailer)`. -/
def searchRespSize : Nat := 34
def searchTrailerSize : Nat := 16

/-- `strlen` in a buffer, in which the string must end. -/
def strlenAt (resp : Bytes) (offset : Nat) : Except Bounded.Fault Nat :=
  if 0 ∈ resp.drop offset then .ok (cString (resp.drop offset)).length else .error .outside

def getNext (resp : Bytes) (srch : Nat) : Except Bounded.Fault Nat := do
  let length ← strlenAt resp (srch + 8)
  return srch + entrySize + length

def countEntries (key : Bool) (group : Option Nat) (entries : List Entry) : Int × Nat :=
  entries.foldl
    (fun (state : Int × Nat) entry =>
      if entry.context = group then
        (wrap (state.1 + (entrySize + (searchEntry key entry).name.length : Nat)), state.2 + 1)
      else state)
    ((searchRespSize + searchTrailerSize : Nat), 0)

def fillEntry (state : Bytes × Nat) (entry : SearchEntry) : Except Bounded.Fault (Bytes × Nat) := do
  let filled ← Bounded.fill state.1 state.2
    [set32 entry.ref, set32 entry.size, entry.name ++ [0]]
  let next ← getNext filled.1 state.2
  return (filled.1, next)

def fillEntries (key : Bool) (group : Option Nat) (entries : List Entry) (start : Bytes × Nat) :
    Except Bounded.Fault (Bytes × Nat) :=
  entries.foldlM
    (fun state entry =>
      if entry.context = group then fillEntry state (searchEntry key entry) else .ok state)
    start

def headerPieces (answering : Answering) (guid : Bytes) (size : Int) (count : Nat) : List Bytes :=
  [guid, [0x81], [7], [0], set32 ((size - Gnutella.headerSize) % 4294967296).toNat,
    [count.toUInt8], set16 answering.port, (set32 answering.ip).reverse, set32 0]

/-- A buffer that is filled: its size, the size that was counted, the place behind the trailer, the
place behind what was written last, and the bytes. -/
structure Filled where
  size : Int
  osize : Int
  trailerEnd : Nat
  writtenEnd : Nat
  resp : Bytes

def inBuffer {α : Type} : Except Bounded.Fault α → Except Fault α
  | .ok value => .ok value
  | .error _ => .error .undefined

def fillPlain (answering : Answering) (guid : Bytes) (key : Bool) (group : Option Nat)
    (entries : List Entry) (size : Int) (count : Nat) : Except Bounded.Fault (Bytes × Nat) := do
  let header ← Bounded.fill (List.replicate size.toNat 0) 0 (headerPieces answering guid size count)
  let filled ← fillEntries key group entries header
  Bounded.fill filled.1 filled.2 [answering.trailer]

def sealAnswer (evp : Cipher) (iv : Iv) (group : Option Group) (osize : Int)
    (plain : Bytes × Nat) : Except Fault (Bytes × Nat) :=
  match group with
  | none => .ok plain
  | some group => do
    let key ← group.useKey
    let cipher ← orUndefined (Key.encrypt evp key (some (plain.1.drop Gnutella.headerSize))
      (wrap (osize - Gnutella.headerSize)) true true true iv)
    inBuffer (Bounded.fill plain.1 Gnutella.headerSize [cipher.2])

/-- The second part of `HandleSearchRequest` up to the packet; nothing is sent when nothing is
counted. -/
def fillAnswer (evp : Cipher) (trut : Trut) (answering : Answering) (guid : Bytes) (str : CString)
    (key : Bool) (group : Option Group) : Except Fault (Option Filled) := do
  let context := group.map Group.ref
  let counted ← orUndefined (found trut.collect str)
  let count := countEntries key context counted
  if count.2 = 0 then return none
  let size ← answerBuffer evp group count.1 answering.iv
  -- `new BYTE[size]`
  if size < 0 then .error .undefined
  else
    let entries ← orUndefined (found trut.collect str)
    let plain ← inBuffer (fillPlain answering guid key context entries size count.2)
    let sealed ← sealAnswer evp answering.iv group count.1 plain
    return some ⟨size, count.1, plain.2, sealed.2, sealed.1⟩

/-- The buffer is written to its last byte and not behind it, up to which the trailer goes before
encryption, and it is the size that the header gives. -/
def FillsExactly (result : Except Fault (Option Filled)) : Prop :=
  ∃ answer, result = .ok answer ∧ ∀ filled, answer = some filled →
    filled.trailerEnd = filled.osize ∧ filled.writtenEnd = filled.size ∧
      (get32 (sizeField filled.resp) : Int) + Gnutella.headerSize = filled.size

theorem findEach_enumerates {collect : Collection} {str : CString} {last : Option Nat}
    {results : List (Entry × Nat)}
    (enumerates : Cursor.Enumerates (collect.findEntry (some str)) last results) {fuel : Nat}
    (enough : results.length < fuel) :
    findEach collect str fuel last = some (results.map Prod.fst) := by
  induction enumerates generalizing fuel with
  | stop ends =>
    obtain ⟨fuel, rfl⟩ := Nat.exists_eq_succ_of_ne_zero (Nat.ne_of_gt enough)
    simp [findEach, ends]
  | step found _ ih =>
    obtain ⟨fuel, rfl⟩ := Nat.exists_eq_succ_of_ne_zero (Nat.ne_of_gt (Nat.zero_lt_of_lt enough))
    simp [findEach, found, ih (Nat.lt_of_succ_lt_succ enough)]

theorem found_all (collect : Collection) (str : CString) :
    found collect str = some (collect.findPat str.val) := by
  have enumerates := ((Collection.findLoop_isLoop (some str)).resumes collect.entries
    fun _ _ => trivial).enumerates
  have guarded := Cursor.accepted_guard (Collection.selects (some str)) 0 collect.entries
  have bound : (collect.entries.zipIdx.filter
      fun found => Collection.selects (some str) found.1).length < collect.entries.length + 1 := by
    have below := List.length_filter_le (fun found => Collection.selects (some str) found.1)
      collect.entries.zipIdx
    rw [List.length_zipIdx] at below
    omega
  rw [guarded] at enumerates
  rw [found, findEach_enumerates enumerates bound, findPat_enumerated]

theorem countEntries_correct (key : Bool) (group : Option Nat) (entries : List Entry) :
    countEntries key group entries =
      (answerSize ((entries.filter fun entry => entry.context = group).map (searchEntry key)),
        (entries.filter fun entry => entry.context = group).length) := by
  have from_ : ∀ start : Int × Nat, entries.foldl
      (fun (state : Int × Nat) entry =>
        if entry.context = group then
          (wrap (state.1 + (entrySize + (searchEntry key entry).name.length : Nat)), state.2 + 1)
        else state) start =
      (((entries.filter fun entry => entry.context = group).map (searchEntry key)).foldl
          (fun size entry => wrap (size + entry.length)) start.1,
        start.2 + (entries.filter fun entry => entry.context = group).length) := by
    induction entries with
    | nil => exact fun start => rfl
    | cons entry entries ih =>
      intro start
      rw [List.foldl_cons, ih]
      by_cases own : entry.context = group
      · rw [if_pos own, List.filter_cons_of_pos (by simpa using own), List.map_cons,
          List.foldl_cons, List.length_cons, Nat.add_assoc, Nat.add_comm 1]
        rfl
      · rw [if_neg own, List.filter_cons_of_neg (by simpa using own)]
  have all := from_ (50, 0)
  rw [Nat.zero_add] at all
  exact all

theorem fillEntries_filter (key : Bool) (group : Option Nat) (entries : List Entry)
    (start : Bytes × Nat) : fillEntries key group entries start =
      ((entries.filter fun entry => entry.context = group).map (searchEntry key)).foldlM
        fillEntry start := by
  unfold fillEntries
  induction entries generalizing start with
  | nil => rfl
  | cons entry entries ih =>
    rw [List.foldlM_cons]
    by_cases own : entry.context = group
    · rw [if_pos own, List.filter_cons_of_pos (by simpa using own), List.map_cons,
        List.foldlM_cons]
      exact bind_congr ih
    · rw [if_neg own, List.filter_cons_of_neg (by simpa using own)]
      exact ih start

namespace Gnutella

def SearchEntry.fields (entry : SearchEntry) : Bytes :=
  -- the step behind an entry is a byte longer
  set32 entry.ref ++ set32 entry.size ++ (entry.name ++ [0])

theorem SearchEntry.fields_length (entry : SearchEntry) :
    entry.fields.length + 1 = entry.length := by
  simp only [fields, SearchEntry.length, entrySize, List.length_append, set32_length,
    List.length_cons, List.length_nil]
  omega

theorem SearchEntry.write_fields (entry : SearchEntry) : entry.write = entry.fields ++ [0] := by
  simp [write, fields]

end Gnutella

theorem getNext_fields {entry : SearchEntry} (clean : (0 : Byte) ∉ entry.name)
    (front rest : Bytes) :
    getNext (front ++ entry.fields ++ rest) front.length = .ok (front.length + entry.length) := by
  have numbers : (set32 entry.ref ++ set32 entry.size).length = 8 := rfl
  have text : (front ++ entry.fields ++ rest).drop (front.length + 8) = entry.name ++ 0 :: rest := by
    rw [List.append_assoc, ← List.drop_drop, List.drop_left, SearchEntry.fields, List.append_assoc,
      List.drop_left' numbers]
    simp
  have nul : (0 : Byte) ∈ entry.name ++ 0 :: rest := by simp
  simp only [getNext, strlenAt, text, nul, if_true, cString_ended clean, bind, Except.bind, pure,
    Except.pure, SearchEntry.length, Nat.add_assoc]

theorem fillEntry_front {entry : SearchEntry} (clean : (0 : Byte) ∉ entry.name)
    {front rest : Bytes} {result : Bytes × Nat} :
    fillEntry (front ++ rest, front.length) entry = .ok result ↔
      entry.fields.length ≤ rest.length ∧
        result = (front ++ entry.fields ++ rest.drop entry.fields.length,
          front.length + entry.length) := by
  have pieces : [set32 entry.ref, set32 entry.size, entry.name ++ [0]].flatten = entry.fields := by
    simp [SearchEntry.fields]
  have filled (result : Bytes × Nat) : Bounded.fill (front ++ rest) front.length
      [set32 entry.ref, set32 entry.size, entry.name ++ [0]] = .ok result ↔ _ := Bounded.fill_front
  rw [pieces] at filled
  simp only [fillEntry, Runs.bind_ok, filled, Runs.pure_ok]
  constructor
  next =>
    rintro ⟨_, ⟨fits, rfl⟩, next, step, rfl⟩
    rw [getNext_fields clean, Except.ok.injEq] at step
    exact ⟨fits, by rw [step]⟩
  next =>
    rintro ⟨fits, rfl⟩
    exact ⟨_, ⟨fits, rfl⟩, _, getNext_fields clean front _, rfl⟩

theorem fillEntry_fits {entry : SearchEntry} (clean : (0 : Byte) ∉ entry.name) (front : Bytes)
    {room : Nat} (fits : entry.length ≤ room) :
    fillEntry (front ++ List.replicate room 0, front.length) entry =
      .ok ((front ++ entry.write) ++ List.replicate (room - entry.length) 0,
        (front ++ entry.write).length) := by
  have step := entry.fields_length
  have written := entry.write_length
  have behind : (List.replicate room (0 : Byte)).drop entry.fields.length =
      0 :: List.replicate (room - entry.length) 0 := by
    have more : room - entry.fields.length = room - entry.length + 1 := by omega
    rw [List.drop_replicate, more, List.replicate_succ]
  rw [(fillEntry_front clean).2 ⟨by rw [List.length_replicate]; omega, rfl⟩, behind,
    List.length_append, written, entry.write_fields]
  simp

theorem fillEntries_behind {resp trailer : Bytes} {srch : Nat} (behind : resp.length < srch)
    (entries : List SearchEntry) (result : Bytes × Nat) :
    ¬ (entries.foldlM fillEntry (resp, srch) >>= fun filled =>
      Bounded.fill filled.1 filled.2 [trailer]) = .ok result := by
  intro filled
  cases entries with
  | nil =>
    simp only [List.foldlM_nil, pure_bind, Bounded.fill, Runs.bind_ok, Bounded.put_ok] at filled
    obtain ⟨_, ⟨fits, _⟩, _⟩ := filled
    omega
  | cons entry entries =>
    simp only [List.foldlM_cons, fillEntry, Bounded.fill, Runs.bind_ok, Bounded.put_ok] at filled
    obtain ⟨_, ⟨_, ⟨_, ⟨_, ⟨fits, _⟩, _⟩, _⟩, _⟩, _⟩ := filled
    omega

def answerRest (entries : List SearchEntry) (trailer : Bytes) : Bytes :=
  entries.flatMap SearchEntry.write ++ trailer

theorem answerRest_cons (entry : SearchEntry) (entries : List SearchEntry) (trailer : Bytes) :
    answerRest (entry :: entries) trailer = entry.write ++ answerRest entries trailer := by
  rw [answerRest, List.flatMap_cons, List.append_assoc]
  rfl

theorem fillEntries_front {entries : List SearchEntry}
    (clean : ∀ entry ∈ entries, (0 : Byte) ∉ entry.name) {front trailer : Bytes} {room : Nat}
    {result : Bytes × Nat} :
    (entries.foldlM fillEntry (front ++ List.replicate room 0, front.length) >>= fun filled =>
      Bounded.fill filled.1 filled.2 [trailer]) = .ok result ↔
    (answerRest entries trailer).length ≤ room ∧
      result = (front ++ answerRest entries trailer ++
          List.replicate (room - (answerRest entries trailer).length) 0,
        front.length + (answerRest entries trailer).length) := by
  induction entries generalizing front room with
  | nil =>
    rw [List.foldlM_nil, pure_bind, Bounded.fill_front]
    simp only [List.flatten_cons, List.flatten_nil, List.append_nil, answerRest, List.flatMap_nil,
      List.nil_append, List.length_replicate, List.drop_replicate]
  | cons entry entries ih =>
    have clean_ := clean entry List.mem_cons_self
    have others := fun other member => clean other (List.mem_cons_of_mem entry member)
    have written := entry.write_length
    rw [List.foldlM_cons, answerRest_cons, List.length_append, written, bind_assoc]
    by_cases fits : entry.length ≤ room
    next =>
      rw [fillEntry_fits clean_ front fits]
      refine Iff.trans (@ih others (front ++ entry.write) (room - entry.length)) ?_
      rw [← List.append_assoc front, Nat.sub_sub, List.length_append, written, Nat.add_assoc]
      constructor
      · exact fun done => ⟨by omega, done.2⟩
      · exact fun done => ⟨by omega, done.2⟩
    next =>
      have large : ¬ entry.length + (answerRest entries trailer).length ≤ room := by omega
      simp only [large, false_and, iff_false]
      intro filled
      rw [Runs.bind_ok] at filled
      obtain ⟨state, here, filled⟩ := filled
      obtain ⟨_, rfl⟩ := (fillEntry_front clean_).1 here
      have step := entry.fields_length
      refine fillEntries_behind ?_ entries result filled
      simp only [List.length_append, List.length_drop, List.length_replicate]
      omega

variable {answering : Answering} {guid : Bytes}

theorem headerPieces_length (whole : guid.length = 16) (size : Int) (count : Nat) :
    (headerPieces answering guid size count).flatten.length = 34 := by
  simp [headerPieces, whole, set16]

theorem headerPieces_payload (size : Int) (entries : List SearchEntry) :
    (headerPieces answering guid size entries.length).flatten ++
        answerRest entries answering.trailer =
      (guid ++ [0x81, 7, 0] ++ set32 ((size - Gnutella.headerSize) % 4294967296).toNat) ++
        answerPayload answering entries := by
  simp [headerPieces, answerPayload, answerRest]

theorem fillPlain_ok (whole : guid.length = 16) {key : Bool} {group : Option Nat}
    {entries : List Entry} {size : Int} {count : Nat} {written : List SearchEntry}
    (own : (entries.filter fun entry => entry.context = group).map (searchEntry key) = written)
    {result : Bytes × Nat} :
    fillPlain answering guid key group entries size count = .ok result ↔
      34 + (answerRest written answering.trailer).length ≤ size.toNat ∧
        result = ((headerPieces answering guid size count).flatten ++
            answerRest written answering.trailer ++
            List.replicate (size.toNat - 34 - (answerRest written answering.trailer).length) 0,
          34 + (answerRest written answering.trailer).length) := by
  have clean : ∀ entry ∈ written, (0 : Byte) ∉ entry.name := by
    rw [← own]
    intro entry member
    obtain ⟨found, _, rfl⟩ := List.mem_map.1 member
    exact searchEntry_clean key found
  have length : (headerPieces answering guid size count).flatten.length = 34 :=
    headerPieces_length whole size count
  have header (state : Bytes × Nat) : Bounded.fill (List.replicate size.toNat 0) 0
      (headerPieces answering guid size count) = .ok state ↔ _ :=
    @Bounded.fill_front _ _ [] _ _
  have behind := @fillEntries_front written clean (headerPieces answering guid size count).flatten
    answering.trailer (size.toNat - 34)
  rw [length] at behind
  simp only [length, List.length_replicate, List.nil_append, List.length_nil, Nat.zero_add,
    List.drop_replicate] at header
  simp only [fillPlain, fillEntries_filter, own]
  rw [Runs.bind_ok]
  constructor
  next =>
    rintro ⟨state, filled, rest⟩
    obtain ⟨fits, rfl⟩ := (header state).1 filled
    obtain ⟨within, rfl⟩ := behind.1 rest
    exact ⟨by omega, rfl⟩
  next =>
    rintro ⟨fits, rfl⟩
    exact ⟨_, (header _).2 ⟨by omega, rfl⟩, behind.2 ⟨by omega, rfl⟩⟩

theorem answerPayload_rest (answering : Answering) (entries : List SearchEntry) :
    (answerRest entries answering.trailer).length + 11 =
      (answerPayload answering entries).length := by
  simp only [answerRest, answerPayload, List.length_append, set16, set32, List.length_reverse,
    List.length_cons, List.length_nil]
  omega

theorem fillPlain_fits (whole : guid.length = 16) {key : Bool} {group : Option Nat}
    {entries : List Entry} {size : Nat} {written : List SearchEntry}
    (own : (entries.filter fun entry => entry.context = group).map (searchEntry key) = written)
    (fits : (answerPayload answering written).length + 23 ≤ size) :
    fillPlain answering guid key group entries size written.length =
      .ok ((guid ++ [0x81, 7, 0] ++ set32 ((size - Gnutella.headerSize : Int) % 4294967296).toNat) ++
          (answerPayload answering written ++
            List.replicate (size - ((answerPayload answering written).length + 23)) 0),
        Gnutella.headerSize + (answerPayload answering written).length) := by
  have rest := answerPayload_rest answering written
  have room : (size : Int).toNat - 34 - (answerRest written answering.trailer).length =
      size - ((answerPayload answering written).length + 23) := by omega
  have place : 34 + (answerRest written answering.trailer).length =
      Gnutella.headerSize + (answerPayload answering written).length := by
    rw [Gnutella.headerSize]
    omega
  rw [(fillPlain_ok whole own).2 ⟨by omega, rfl⟩, headerPieces_payload, List.append_assoc, room,
    place]

variable {evp : Cipher} {group : Option Group} {iv : Iv}

theorem answerBody_length (keyed : HasKey group) (payload : Bytes) :
    (answerBody evp group iv payload).length = payload.length + if group.isSome then 28 else 0 := by
  cases group with
  | none => rfl
  | some group =>
    obtain ⟨own, found⟩ := Option.isSome_iff_exists.1 (keyed group rfl)
    simp only [answerBody, Option.bind_some, found, Key.cipherText_length, Option.isSome_some,
      if_true]
    rfl

theorem sealAnswer_fits (keyed : HasKey group) {header payload room : Bytes}
    (whole : header.length = Gnutella.headerSize) (present : payload ≠ [])
    (reserved : room.length = if group.isSome then 28 else 0)
    (fits : group.isSome → ((payload.length + 51 : Nat) : Int) ≤ intMax) :
    sealAnswer evp iv group ((payload.length + 23 : Nat) : Int)
        (header ++ (payload ++ room), Gnutella.headerSize + payload.length) =
      .ok (header ++ answerBody evp group iv payload,
        Gnutella.headerSize + (answerBody evp group iv payload).length) := by
  cases group with
  | none =>
    have none_ : room = [] := List.eq_nil_of_length_eq_zero reserved
    simp [sealAnswer, answerBody, none_]
  | some group =>
    obtain ⟨own, found⟩ := Option.isSome_iff_exists.1 (keyed group rfl)
    have fits := fits rfl
    have positive := List.length_pos_of_ne_nil present
    have overhead : Key.overhead true true = 28 := rfl
    have size : wrap (((payload.length + 23 : Nat) : Int) - Gnutella.headerSize) =
        payload.length := by
      rw [Gnutella.headerSize, wrap_of_le (by unfold intMin; omega) (by omega)]
      omega
    have data : (header ++ (payload ++ room)).drop Gnutella.headerSize = payload ++ room :=
      List.drop_left' whole
    have encrypted := @Key.encrypt_take evp own iv (payload ++ room) payload.length positive
      (by simp) (by rw [overhead]; omega)
    rw [List.take_left] at encrypted
    have stored := (@Bounded.fill_front Byte [Key.cipherText evp own true true iv payload] header
      (payload ++ room) _).2 ⟨by simp [overhead, reserved], rfl⟩
    have length : (payload ++ room).length = payload.length + 28 := by simp [reserved]
    rw [whole, List.flatten_singleton, Key.cipherText_length, overhead, ← length, List.drop_length,
      List.append_nil] at stored
    simp only [sealAnswer, useKey_ok.2 found, size, data, encrypted, orUndefined, bind,
      Except.bind, stored, inBuffer, answerBody, Option.bind_some, found, Key.cipherText_length,
      overhead, length]

variable {trut : Trut} {str : CString} {key : Bool} {written : List SearchEntry}

theorem fillAnswer_matching
    (own : (matching trut str.val (group.map Group.ref)).map (searchEntry key) = written) :
    fillAnswer evp trut answering guid str key group =
      if written = [] then .ok none else do
        let size ← answerBuffer evp group (answerSize written) answering.iv
        if size < 0 then .error .undefined
        else
          let plain ← inBuffer (fillPlain answering guid key (group.map Group.ref)
            (trut.collect.findPat str.val) size written.length)
          let sealed ← sealAnswer evp answering.iv group (answerSize written) plain
          return some ⟨size, answerSize written, plain.2, sealed.2, sealed.1⟩ := by
  have counted : countEntries key (group.map Group.ref) (trut.collect.findPat str.val) =
      (answerSize written, written.length) := by
    rw [countEntries_correct, ← own, List.length_map]
    rfl
  have all : orUndefined (found trut.collect str) = pure (trut.collect.findPat str.val) := by
    rw [found_all]
    rfl
  simp only [fillAnswer, all, pure_bind, counted, List.length_eq_zero_iff]
  rfl

theorem neededSize_payload (trailer : answering.trailer.length = 16)
    (entries : List SearchEntry) (group : Option Group) :
    neededSize entries group = (answerPayload answering entries).length + 23 +
      if group.isSome then 28 else 0 := by
  rw [neededSize, answerPayload_length trailer]

theorem answerSize_payload (trailer : answering.trailer.length = 16) {entries : List SearchEntry}
    (fits : (((answerPayload answering entries).length + 23 : Nat) : Int) ≤ intMax) :
    answerSize entries = (((answerPayload answering entries).length + 23 : Nat) : Int) := by
  have payload := answerPayload_length trailer entries
  rw [answerSize_correct, wrap_of_le (by unfold intMin; omega) (by omega)]
  omega

theorem fillAnswer_fits
    (own : (matching trut str.val (group.map Group.ref)).map (searchEntry key) = written)
    (keyed : HasKey group) (whole : guid.length = 16) (trailer : answering.trailer.length = 16)
    (present : written ≠ []) (fits : (neededSize written group : Int) ≤ intMax) :
    ∃ filled, fillAnswer evp trut answering guid str key group = .ok (some filled) ∧
      filled.resp = packet guid 0x81
        (answerBody evp group answering.iv (answerPayload answering written)) ∧
      filled.trailerEnd = filled.osize ∧ filled.writtenEnd = filled.size ∧
      (get32 (sizeField filled.resp) : Int) + Gnutella.headerSize = filled.size := by
  have total := neededSize_payload trailer written group
  have osize := @answerSize_payload answering trailer written (by omega)
  have rest := answerPayload_rest answering written
  have nonempty : answerPayload answering written ≠ [] := List.ne_nil_of_length_pos (by omega)
  have buffer := @answerBuffer_fits evp written group answering.iv keyed fits
  have body := @answerBody_length evp group answering.iv keyed (answerPayload answering written)
  have field : (((neededSize written group : Nat) - Gnutella.headerSize : Int) % 4294967296).toNat =
      (answerBody evp group answering.iv (answerPayload answering written)).length := by
    unfold intMax at fits
    rw [body, Gnutella.headerSize]
    omega
  have header : (guid ++ [0x81, 7, 0] ++ set32
      (answerBody evp group answering.iv (answerPayload answering written)).length).length =
        Gnutella.headerSize := by
    simp [whole, Gnutella.headerSize]
  have plain := @fillPlain_fits answering guid whole key (group.map Group.ref)
    (trut.collect.findPat str.val) (neededSize written group) written own (by omega)
  rw [field] at plain
  have sealed := @sealAnswer_fits evp group answering.iv keyed _ _ (List.replicate
    (neededSize written group - ((answerPayload answering written).length + 23)) 0) header nonempty
    (by rw [List.length_replicate]; omega) (fun secure => by rw [if_pos secure] at total; omega)
  rw [← osize] at sealed
  have positive : ¬ ((neededSize written group : Nat) : Int) < 0 := by omega
  refine ⟨⟨(neededSize written group : Nat), answerSize written,
    Gnutella.headerSize + (answerPayload answering written).length, Gnutella.headerSize +
      (answerBody evp group answering.iv (answerPayload answering written)).length, _⟩,
    ?_, rfl, ?_, ?_, ?_⟩
  · rw [fillAnswer_matching own, if_neg present]
    simp only [buffer, bind, Except.bind, positive, if_false, plain, inBuffer, sealed]
    rfl
  · simp only [osize, Gnutella.headerSize]
    omega
  · simp only [body, Gnutella.headerSize]
    omega
  · change (get32 (sizeField (packet guid 0x81 _)) : Int) + Gnutella.headerSize =
      neededSize written group
    unfold intMax at fits
    rw [sizeField_packet whole, get32_set32, body, Gnutella.headerSize]
    omega

theorem inBuffer_ok {α : Type} {result : Except Bounded.Fault α} {value : α} :
    inBuffer result = .ok value ↔ result = .ok value := by
  cases result <;> simp [inBuffer]

theorem answerBuffer_holds (trailer : answering.trailer.length = 16) {size : Int}
    (buffer : answerBuffer evp group (answerSize written) iv = .ok size)
    (holds : (((answerPayload answering written).length + 23 : Nat) : Int) ≤ size) :
    (neededSize written group : Int) ≤ intMax := by
  have bound := answerBuffer_le buffer
  have osize := @answerSize_payload answering trailer written (by omega)
  have total := neededSize_payload trailer written group
  have some_ : 0 < (answerPayload answering written).length := by
    have rest := answerPayload_rest answering written
    omega
  cases group with
  | none =>
    simp only [Option.isSome_none, Bool.false_eq_true, if_false] at total
    omega
  | some group =>
    simp only [answerBuffer, Runs.bind_ok, orUndefined_ok, Runs.pure_ok] at buffer
    obtain ⟨key, _, sized, encrypted, rfl⟩ := buffer
    have query := (Key.encrypt_sized evp key iv none (wrap_ge _)).1
      (congrArg (Option.map Prod.fst) encrypted)
    have plain : wrap (answerSize written - 23) = (answerPayload answering written).length := by
      rw [osize, wrap_of_le (by unfold intMin; omega) (by omega)]
      omega
    have overhead : Key.overhead true true = 28 := rfl
    rw [plain, overhead] at query
    simp only [Option.isSome_some, if_true] at total
    obtain ⟨_, same, fits⟩ := query.resolve_right (by omega)
    rw [total]
    by_contra large
    -- the 23 bytes of the header are added behind the check of `Encrypt`
    simp only [wrap, same] at holds
    unfold intMax at *
    split at holds <;> omega

theorem fillAnswer_some
    (own : (matching trut str.val (group.map Group.ref)).map (searchEntry key) = written)
    (whole : guid.length = 16) (trailer : answering.trailer.length = 16) (present : written ≠ [])
    {filled : Option Filled}
    (done : fillAnswer evp trut answering guid str key group = .ok filled) :
    (neededSize written group : Int) ≤ intMax := by
  rw [fillAnswer_matching own, if_neg present, Runs.bind_ok] at done
  obtain ⟨size, buffer, done⟩ := done
  split at done
  next => contradiction
  next =>
    rw [Runs.bind_ok] at done
    obtain ⟨plain, stored, _⟩ := done
    have fits := ((fillPlain_ok whole own).1 (inBuffer_ok.1 stored)).1
    have rest := answerPayload_rest answering written
    exact answerBuffer_holds trailer buffer (by omega)

theorem fillAnswer_sends (keyed : HasKey group) (whole : guid.length = 16)
    (trailer : answering.trailer.length = 16)
    (present : matching trut str.val (group.map Group.ref) ≠ []) (resp : Bytes) :
    sendAnswer evp trut answering guid str.val key group = .ok (some resp) ↔
      ∃ filled, fillAnswer evp trut answering guid str key group = .ok (some filled) ∧
        filled.resp = resp := by
  have some_ : (matching trut str.val (group.map Group.ref)).map (searchEntry key) ≠ [] := by
    simpa using present
  rw [sendAnswer_some keyed trailer present]
  constructor
  next =>
    rintro ⟨fits, rfl⟩
    obtain ⟨filled, done, sent, _⟩ :=
      @fillAnswer_fits answering guid evp group trut str key _ rfl keyed whole trailer some_ fits
    exact ⟨filled, done, sent⟩
  next =>
    rintro ⟨filled, done, rfl⟩
    have fits := fillAnswer_some rfl whole trailer some_ done
    obtain ⟨other, again, sent, _⟩ :=
      @fillAnswer_fits answering guid evp group trut str key _ rfl keyed whole trailer some_ fits
    obtain rfl : filled = other := Option.some.inj (Except.ok.inj (done.symm.trans again))
    exact ⟨fits, sent⟩

/-- The buffer is filled to its last byte and the packet says so, unless what is sent overflows the
`int` of its size. -/
theorem fills_exactly_iff (evp : Cipher) (trut : Trut) (str : CString) (key : Bool)
    (keyed : HasKey group) (whole : guid.length = 16) (trailer : answering.trailer.length = 16) :
    FillsExactly (fillAnswer evp trut answering guid str key group) ↔
      matching trut str.val (group.map Group.ref) = [] ∨
        (neededSize ((matching trut str.val (group.map Group.ref)).map (searchEntry key)) group :
          Int) ≤ intMax := by
  by_cases present : matching trut str.val (group.map Group.ref) = []
  next =>
    simp only [present, true_or, iff_true]
    have none_ : (matching trut str.val (group.map Group.ref)).map (searchEntry key) = [] := by
      rw [present]
      rfl
    refine ⟨none, ?_, nofun⟩
    rw [fillAnswer_matching none_, if_pos rfl]
  next =>
    have some_ : (matching trut str.val (group.map Group.ref)).map (searchEntry key) ≠ [] := by
      simpa using present
    simp only [present, false_or]
    constructor
    next =>
      rintro ⟨answer, done, _⟩
      exact fillAnswer_some rfl whole trailer some_ done
    next =>
      intro fits
      obtain ⟨filled, done, -, plain, last, size⟩ :=
        @fillAnswer_fits answering guid evp group trut str key _ rfl keyed whole trailer some_ fits
      refine ⟨some filled, done, ?_⟩
      rintro _ ⟨⟩
      exact ⟨plain, last, size⟩

open Peer

theorem fills_exactly_one : HasKey none ∧ (Gnutella.guid anything).length = 16 ∧
    home.trailer.length = 16 ∧
    FillsExactly (fillAnswer Key.zeroCipher (crowded 1) home (Gnutella.guid anything)
      (CString.ofBuffer [42]) false none) := by
  have keyed : HasKey none := by simp [HasKey]
  refine ⟨keyed, rfl, rfl, (fills_exactly_iff Key.zeroCipher (crowded 1) (CString.ofBuffer [42])
    false keyed rfl rfl).2 (.inr ?_)⟩
  change (neededSize ((matching (crowded 1) [42] none).map (searchEntry false)) none : Int) ≤ intMax
  rw [crowded_matching, crowded_needed]
  decide

/-- With 195225782 files named by one character, the size of the buffer is negative. -/
theorem fills_overflow : ¬ FillsExactly (fillAnswer Key.zeroCipher (crowded 195225782) home
    (Gnutella.guid anything) (CString.ofBuffer [42]) false none) := by
  obtain ⟨count, large⟩ : ∃ count, count = 195225782 := ⟨_, rfl⟩
  rw [← large]
  rintro ⟨answer, done, _⟩
  have own : (matching (crowded count) (CString.ofBuffer [42]).val
      ((none : Option Group).map Group.ref)).map (searchEntry false) =
        (crowded count).collect.entries.map (searchEntry false) :=
    congrArg _ (crowded_matching count)
  have present : (crowded count).collect.entries.map (searchEntry false) ≠ [] := by
    apply List.ne_nil_of_length_pos
    simp only [crowded, List.length_map, List.length_range]
    omega
  have fits := fillAnswer_some own rfl rfl present done
  rw [crowded_needed] at fits
  unfold intMax at fits
  omega

end Trut

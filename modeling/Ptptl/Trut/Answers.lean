import Ptptl.Trut.Peer
import Ptptl.Trut.SecureSearch

set_option autoImplicit false

/-! # An answer, from the collection to the callback of the search -/

open Ptp Ptp.Collection Trut CInt Gnutella

namespace Trut

namespace Gnutella

theorem get32_set16 (value : Nat) : get32 (set16 value) = value % 65536 := by
  simp only [get32, set16, List.foldr_cons, List.foldr_nil, UInt8.toNat_ofNat']
  omega

theorem get32_set32 (value : Nat) : get32 (set32 value) = value % 4294967296 := by
  simp only [get32, set32, List.foldr_cons, List.foldr_nil, UInt8.toNat_ofNat']
  omega

@[simp] theorem set32_length (value : Nat) : (set32 value).length = 4 := rfl

def SearchEntry.cut (entry : SearchEntry) : SearchEntry :=
  { entry with ref := entry.ref % 4294967296, size := entry.size % 4294967296 }

/-- `sizeof(SearchEntry) + strlen(name)`. -/
def SearchEntry.length (entry : SearchEntry) : Nat := entrySize + entry.name.length

theorem SearchEntry.write_length (entry : SearchEntry) : entry.write.length = entry.length := by
  simp only [write, length, entrySize, List.length_append, set32_length, List.length_cons,
    List.length_nil]
  omega

theorem SearchEntry.flatMap_length (entries : List SearchEntry) :
    (entries.flatMap SearchEntry.write).length = (entries.map SearchEntry.length).sum := by
  rw [List.length_flatMap]
  simp only [write_length]

theorem readEntries_record {numbers name : Bytes} (eight : numbers.length = 8)
    (clean : (0 : Byte) ∉ name) (count : Nat) (rest : Bytes) :
    readEntries (count + 1) (numbers ++ (name ++ 0 :: rest)) =
      (readEntries count (rest.drop 1)).map
        (⟨get32 (numbers.take 4), get32 ((numbers.drop 4).take 4), name⟩ :: ·) := by
  have text : (numbers ++ (name ++ 0 :: rest)).drop 8 = name ++ 0 :: rest := List.drop_left' eight
  have nul : (0 : Byte) ∈ name ++ 0 :: rest := by simp
  have ref : (numbers ++ (name ++ 0 :: rest)).take 4 = numbers.take 4 :=
    List.take_append_of_le_length (by omega)
  have size : ((numbers ++ (name ++ 0 :: rest)).drop 4).take 4 = (numbers.drop 4).take 4 := by
    rw [List.drop_append_of_le_length (by omega), List.take_append_of_le_length]
    rw [List.length_drop]
    omega
  have behind : (numbers ++ (name ++ 0 :: rest)).drop (entrySize + name.length) = rest.drop 1 := by
    have length : entrySize + name.length = 8 + (name.length + 2) := by
      rw [entrySize]
      omega
    rw [length, ← List.drop_drop, text, ← List.drop_drop, List.drop_left]
    rfl
  simp only [readEntries, text, nul, if_true, cString_ended clean, ref, size, behind,
    Option.bind_eq_bind]
  cases readEntries count (rest.drop 1) <;> rfl

theorem readEntries_cons {entry : SearchEntry} (clean : (0 : Byte) ∉ entry.name) (count : Nat)
    (rest : Bytes) : readEntries (count + 1) (entry.write ++ rest) =
      (readEntries count rest).map (entry.cut :: ·) := by
  have eight : (set32 entry.ref ++ set32 entry.size).length = 8 := rfl
  have record : entry.write ++ rest =
      (set32 entry.ref ++ set32 entry.size) ++ (entry.name ++ 0 :: (0 :: rest)) := by
    simp [SearchEntry.write]
  have ref : (set32 entry.ref ++ set32 entry.size).take 4 = set32 entry.ref := rfl
  have size : ((set32 entry.ref ++ set32 entry.size).drop 4).take 4 = set32 entry.size := rfl
  rw [record, readEntries_record eight clean, ref, size, get32_set32, get32_set32]
  rfl

theorem readEntries_take {entries : List SearchEntry}
    (clean : ∀ entry ∈ entries, (0 : Byte) ∉ entry.name) {count : Nat}
    (within : count ≤ entries.length) (rest : Bytes) :
    readEntries count (entries.flatMap SearchEntry.write ++ rest) =
      some ((entries.take count).map SearchEntry.cut) := by
  induction entries generalizing count with
  | nil =>
    have none : count = 0 := by simpa using within
    subst none
    rfl
  | cons entry entries ih =>
    cases count with
    | zero => rfl
    | succ count =>
      have others := ih (fun other member => clean other (List.mem_cons_of_mem _ member))
        (by simpa using within)
      rw [List.flatMap_cons, List.append_assoc, readEntries_cons (clean entry List.mem_cons_self),
        others]
      rfl

end Gnutella

section

variable (evp : Cipher)

def asked (trut : Trut) (rqst : Bytes) : Except Fault (Option (Bytes × Bool × Option Group)) := do
  let str ← orUndefined (searchText rqst)
  match target trut str with
  | .invalid => return none
  | .all key => return some (str, key, none)
  | .secure group cipher =>
    match ← decryptPattern evp group cipher with
    | none => return none
    | some pattern => return some (pattern, false, some group)

/-- The `int` that the loop over the entries adds up. -/
def answerSize (entries : List SearchEntry) : Int :=
  entries.foldl (fun size entry => wrap (size + entry.length)) 50

def answerBuffer (group : Option Group) (osize : Int) (iv : Iv) : Except Fault Int :=
  match group with
  | none => .ok osize
  | some group => do
    let key ← group.useKey
    let (size, _) ← orUndefined (Key.encrypt evp key none (wrap (osize - 23)) false true true iv)
    return wrap (size + 23)

def neededSize (entries : List SearchEntry) (group : Option Group) : Nat :=
  50 + (entries.map SearchEntry.length).sum + if group.isSome then 28 else 0

/-- `answer`, where the buffer must hold what is written. -/
def sendAnswer (trut : Trut) (answering : Answering) (guid pattern : Bytes) (key : Bool)
    (group : Option Group) : Except Fault (Option Bytes) := do
  let entries := (matching trut pattern (group.map Group.ref)).map (searchEntry key)
  if entries = [] then return none
  let size ← answerBuffer evp group (answerSize entries) answering.iv
  if size < neededSize entries group then .error .undefined
  else answer evp trut answering guid pattern key group

/-- `HandleSearchRequest` with its buffer. -/
def respond (trut : Trut) (answering : Answering) (rqst : Bytes) : Except Fault (Option Bytes) := do
  match ← asked evp trut rqst with
  | none => return none
  | some (pattern, key, group) => sendAnswer evp trut answering (guid rqst) pattern key group

end

theorem answerSize_correct (entries : List SearchEntry) :
    answerSize entries = wrap (50 + ((entries.map SearchEntry.length).sum : Nat)) := by
  have from_ : ∀ start : Int, entries.foldl (fun size entry => wrap (size + entry.length))
      (wrap start) = wrap (start + ((entries.map SearchEntry.length).sum : Nat)) := by
    induction entries with
    | nil => simp
    | cons entry entries ih =>
      intro start
      rw [List.foldl_cons, wrap_wrap_add, ih, List.map_cons, List.sum_cons, Int.natCast_add,
        Int.add_assoc]
  exact from_ 50

def HasKey (group : Option Group) : Prop := ∀ member, group = some member → member.key.isSome

variable {evp : Cipher} {entries : List SearchEntry} {group : Option Group} {iv : Iv}

theorem answerBuffer_fits (keyed : HasKey group) (fits : (neededSize entries group : Int) ≤ intMax) :
    answerBuffer evp group (answerSize entries) iv = .ok (neededSize entries group : Int) := by
  rw [answerSize_correct]
  generalize total : (entries.map SearchEntry.length).sum = sum at *
  cases group with
  | none =>
    simp only [neededSize, total, Option.isSome_none, Bool.false_eq_true, if_false] at fits ⊢
    rw [answerBuffer, wrap_of_le (by unfold intMin; omega) (by omega)]
    congr 1
  | some group =>
    obtain ⟨key, present⟩ := Option.isSome_iff_exists.1 (keyed group rfl)
    simp only [neededSize, total, Option.isSome_some, if_true] at fits ⊢
    have plain : wrap (wrap (50 + (sum : Int)) - 23) = ((27 + sum : Nat) : Int) := by
      have total : wrap (50 + (sum : Int)) = 50 + sum :=
        wrap_of_le (by unfold intMin; omega) (by omega)
      rw [total, wrap_of_le (by unfold intMin; omega) (by omega)]
      omega
    have overhead : Key.overhead true true = 28 := rfl
    have query := Key.encrypt_query evp key true true iv none
      (List.ne_nil_of_length_pos (by rw [List.length_replicate]; omega :
        0 < (List.replicate (27 + sum) (0 : Byte)).length))
      (by rw [List.length_replicate, overhead]; omega)
    rw [List.length_replicate] at query
    have last : wrap (((27 + sum + Key.overhead true true : Nat) : Int) + 23) =
        ((50 + sum + 28 : Nat) : Int) := by
      rw [overhead, wrap_of_le (by unfold intMin; omega) (by omega)]
      omega
    simp only [answerBuffer, useKey_ok.2 present, plain, query, orUndefined, bind, Except.bind,
      pure, Except.pure, last]

theorem answerBuffer_le {size : Int}
    (buffer : answerBuffer evp group (answerSize entries) iv = .ok size) : size ≤ intMax := by
  cases group with
  | none =>
    rw [answerBuffer, Except.ok.injEq, answerSize_correct] at buffer
    exact buffer ▸ wrap_le _
  | some group =>
    simp only [answerBuffer, Runs.bind_ok, Runs.pure_ok] at buffer
    obtain ⟨_, _, _, _, size⟩ := buffer
    exact size ▸ wrap_le _

def answerBody (evp : Cipher) (group : Option Group) (iv : Iv) (payload : Bytes) : Bytes :=
  match group.bind Group.key with
  | none => payload
  | some key => Key.cipherText evp key true true iv payload

variable {trut : Trut} {answering : Answering} {guid pattern : Bytes} {key : Bool}

theorem answerPayload_length (trailer : answering.trailer.length = 16) (entries : List SearchEntry) :
    (answerPayload answering entries).length + 23 = 50 + (entries.map SearchEntry.length).sum := by
  simp only [answerPayload, List.length_append, SearchEntry.flatMap_length, trailer, set16, set32,
    List.length_reverse, List.length_cons, List.length_nil]
  omega

theorem answer_fits (keyed : HasKey group) (trailer : answering.trailer.length = 16)
    (present : matching trut pattern (group.map Group.ref) ≠ [])
    (fits : (neededSize ((matching trut pattern (group.map Group.ref)).map (searchEntry key))
      group : Int) ≤ intMax) :
    answer evp trut answering guid pattern key group =
      .ok (some (packet guid 0x81 (answerBody evp group answering.iv (answerPayload answering
        ((matching trut pattern (group.map Group.ref)).map (searchEntry key)))))) := by
  have length := answerPayload_length trailer
    ((matching trut pattern (group.map Group.ref)).map (searchEntry key))
  have same : (trut.collect.findPat pattern).filter
      (fun entry => entry.context = group.map Group.ref) =
        matching trut pattern (group.map Group.ref) := rfl
  simp only [answer, same, present, if_false]
  generalize answerPayload answering _ = payload at *
  cases group with
  | none => rfl
  | some group =>
    obtain ⟨own, found⟩ := Option.isSome_iff_exists.1 (keyed group rfl)
    have overhead : Key.overhead true true = 28 := rfl
    simp only [neededSize, Option.isSome_some, if_true] at fits
    have encrypted := Key.encrypt_correct evp own true true answering.iv
      (List.ne_nil_of_length_pos (by omega : 0 < payload.length)) (by rw [overhead]; omega)
    simp only [useKey_ok.2 found, encrypted, orUndefined, bind, Except.bind, pure, Except.pure,
      answerBody, Option.bind_some, found]

theorem sendAnswer_some (keyed : HasKey group) (trailer : answering.trailer.length = 16)
    (present : matching trut pattern (group.map Group.ref) ≠ []) {resp : Bytes} :
    sendAnswer evp trut answering guid pattern key group = .ok (some resp) ↔
      (neededSize ((matching trut pattern (group.map Group.ref)).map (searchEntry key)) group : Int)
          ≤ intMax ∧
        resp = packet guid 0x81 (answerBody evp group answering.iv (answerPayload answering
          ((matching trut pattern (group.map Group.ref)).map (searchEntry key)))) := by
  have some_ : (matching trut pattern (group.map Group.ref)).map (searchEntry key) ≠ [] := by
    simpa using present
  by_cases fits : (neededSize ((matching trut pattern (group.map Group.ref)).map (searchEntry key))
      group : Int) ≤ intMax
  next =>
    simp only [sendAnswer, some_, if_false, answerBuffer_fits keyed fits, bind, Except.bind,
      Int.lt_irrefl, pure, Except.pure, answer_fits keyed trailer present fits, Except.ok.injEq,
      Option.some.injEq, fits, true_and]
    exact eq_comm
  next =>
    simp only [fits, false_and, iff_false]
    intro sent
    simp only [sendAnswer, some_, if_false, Runs.bind_ok] at sent
    obtain ⟨size, buffer, sent⟩ := sent
    have small := answerBuffer_le buffer
    have short : size < (neededSize ((matching trut pattern (group.map Group.ref)).map
      (searchEntry key)) group : Int) := by omega
    simp [short] at sent

end Trut

namespace Peer

variable (evp : Cipher)

/-- The callback that `HandleSearchResponse` calls, and the files it calls it with. -/
def calls (peer : Peer) (resp : Bytes) : Except Fault (Option (Callback × List File)) :=
  match peer.searches.find? fun search => search.guid = guid resp with
  | none => .ok none
  | some search => do
    match ← decryptAnswer evp peer.trut search.group resp with
    | none => return none
    | some payload =>
      let files ← readFiles payload search.group
      return some (search.callback, files)

theorem handleSearchResponse_calls (peer : Peer) (resp : Bytes) :
    peer.handleSearchResponse evp resp = (do
      match ← peer.calls evp resp with
      | none => return (peer, [])
      | some (called, files) => Peer.callback called peer files) := by
  cases found : peer.searches.find? fun search => search.guid = guid resp with
  | none =>
    simp only [handleSearchResponse, calls, found]
    rfl
  | some search =>
    simp only [handleSearchResponse, calls, found]
    cases decryptAnswer evp peer.trut search.group resp with
    | error fault => rfl
    | ok payload =>
      cases payload with
      | none => rfl
      | some payload =>
        simp only [bind, Except.bind]
        cases readFiles payload search.group <;> rfl

theorem callback_user (peer : Peer) (context : Nat) (files : List File) :
    Peer.callback (.user context) peer files = .ok (peer, files.map (Output.found context)) := by
  induction files with
  | nil => rfl
  | cons file files ih =>
    simp only [Peer.callback, ih, bind, Except.bind, pure, Except.pure, List.map_cons]

end Peer

namespace Trut

def SameKey (trut : Trut) : Option Nat → Option Group → Prop
  | none, none => True
  | some ref, some group => ∃ own key, trut.group ref = some own ∧ own.key = some key ∧
      group.key = some key
  | _, _ => False

def answerFile (answering : Answering) (key : Bool) (group : Option Nat) (entry : Entry) : File where
  name := if key then ascii "key" else entry.getName.val
  size := entry.getSize
  ref := entry.id
  ip := answering.ip
  port := answering.port
  speed := 0
  group := group

def File.cut (file : File) : File :=
  { file with
    size := file.size % 4294967296
    ref := file.ref % 4294967296
    ip := file.ip % 4294967296
    port := file.port % 65536 }

variable {evp : Cipher} {group : Option Group} {answering : Answering} {guid : Bytes}

theorem SameKey.hasKey {trut : Trut} {searched : Option Nat} (same : SameKey trut searched group) :
    HasKey group := by
  rintro member rfl
  cases searched with
  | none => exact absurd same (by simp [SameKey])
  | some ref =>
    obtain ⟨_, key, _, _, held⟩ := same
    simp [held]

theorem guid_packet (whole : guid.length = 16) (type : Byte) (payload : Bytes) :
    Gnutella.guid (packet guid type payload) = guid := by
  simp only [Gnutella.guid, packet, List.append_assoc]
  exact List.take_left' whole

theorem payload_packet (whole : guid.length = 16) (type : Byte) (data : Bytes) :
    payload (packet guid type data) = data := by
  have header : (guid ++ [type, 7, 0] ++ set32 data.length).length =
      Gnutella.headerSize := by
    simp [whole, Gnutella.headerSize]
  exact List.drop_left' header

theorem sizeField_packet (whole : guid.length = 16) (type : Byte) (data : Bytes) :
    sizeField (packet guid type data) = set32 data.length := by
  have front : (guid ++ [type, 7, 0]).length = 19 := by simp [whole]
  rw [sizeField, packet, List.append_assoc, List.drop_left' front]
  exact List.take_left' rfl

theorem decryptAnswer_packet {trut : Trut} {searched : Option Nat}
    (same : SameKey trut searched group) (whole : guid.length = 16) (type : Byte) (iv : Iv)
    {data : Bytes} (present : data ≠ [])
    (fits : group.isSome → ((data.length + 28 : Nat) : Int) ≤ intMax) :
    ∃ rest, decryptAnswer evp trut searched (packet guid type (answerBody evp group iv data)) =
      .ok (some (data ++ rest)) := by
  cases searched with
  | none =>
    cases group with
    | some group => exact absurd same (by simp [SameKey])
    | none => exact ⟨[], by rw [decryptAnswer, payload_packet whole, List.append_nil]; rfl⟩
  | some ref =>
    cases group with
    | none => exact absurd same (by simp [SameKey])
    | some group =>
      obtain ⟨own, key, found, ownKey, groupKey⟩ := same
      have fits := fits rfl
      have body : answerBody evp (some group) iv data = Key.cipherText evp key true true iv data := by
        simp [answerBody, groupKey]
      have length : (Key.cipherText evp key true true iv data).length = data.length + 28 :=
        Key.cipherText_length evp key true true iv data
      have size : wrap ((data.length + 28) % 4294967296 : Nat) = (data.length + 28 : Nat) := by
        have small : data.length + 28 < 4294967296 := by unfold intMax at fits; omega
        rw [Nat.mod_eq_of_lt small]
        exact wrap_of_le (by unfold intMin; omega) fits
      have decrypted := Key.decrypt_cipherText evp key true true iv present fits
      have positive : ¬ (data.length : Int) ≤ 0 := by
        have some_ := List.length_pos_of_ne_nil present
        omega
      rw [length] at decrypted
      refine ⟨(Key.cipherText evp key true true iv data).drop data.length, ?_⟩
      simp only [decryptAnswer, deref_ok.2 found, useKey_ok.2 ownKey, payload_packet whole,
        sizeField_packet whole, body, length, get32_set32, size, decrypted, orUndefined, bind,
        Except.bind, positive, if_false, pure, Except.pure]

theorem searchEntry_clean (key : Bool) (entry : Entry) :
    (0 : Byte) ∉ (searchEntry key entry).name := by
  cases key with
  | true => exact (by decide : (0 : Byte) ∉ ascii "key")
  | false => exact entry.getName.property

theorem readFiles_answer (answering : Answering) {entries : List Entry} (key : Bool)
    (searched : Option Nat) (rest : Bytes) :
    readFiles (answerPayload answering (entries.map (searchEntry key)) ++ rest) searched =
      .ok ((entries.take (entries.length % 256)).map
        fun entry => (answerFile answering key searched entry).cut) := by
  have clean : ∀ entry ∈ entries.map (searchEntry key), (0 : Byte) ∉ entry.name := by
    intro written member
    obtain ⟨entry, _, rfl⟩ := List.mem_map.1 member
    exact searchEntry_clean key entry
  have count : (entries.map (searchEntry key)).length.toUInt8.toNat = entries.length % 256 := by
    rw [List.length_map, UInt8.toNat_ofNat']
  have within : entries.length % 256 ≤ (entries.map (searchEntry key)).length := by
    rw [List.length_map]
    exact Nat.mod_le _ _
  have walked := readEntries_take clean within (answering.trailer ++ rest)
  have behind : (answerPayload answering (entries.map (searchEntry key)) ++ rest).drop respSize =
      (entries.map (searchEntry key)).flatMap SearchEntry.write ++ (answering.trailer ++ rest) := by
    simp only [answerPayload, List.append_assoc]
    rfl
  have files (entry : Entry) : File.ofEntry (answerPayload answering
      (entries.map (searchEntry key)) ++ rest) searched (searchEntry key entry).cut =
        (answerFile answering key searched entry).cut := by
    have port : ((answerPayload answering (entries.map (searchEntry key)) ++ rest).drop 1).take 2 =
        set16 answering.port := rfl
    have ip : (((answerPayload answering (entries.map (searchEntry key)) ++ rest).drop 3).take
        4).reverse = set32 answering.ip := rfl
    have speed : ((answerPayload answering (entries.map (searchEntry key)) ++ rest).drop 7).take 4 =
        set32 0 := rfl
    simp only [File.ofEntry, port, ip, speed, get32_set16, get32_set32]
    rfl
  have first : (answerPayload answering (entries.map (searchEntry key)) ++ rest) =
      (entries.map (searchEntry key)).length.toUInt8 ::
        (answerPayload answering (entries.map (searchEntry key)) ++ rest).drop 1 := rfl
  rw [first, readFiles, ← first, count, behind, walked, ← List.map_take, List.map_map]
  simp only [orUndefined, bind, Except.bind, pure, Except.pure, List.map_map, Except.ok.injEq]
  exact List.map_congr_left fun entry _ => files entry

/-- The count, the numbers and the size of an answer fit their fields. -/
structure AnswerFits (answering : Answering) (entries : List Entry) (key : Bool)
    (group : Option Group) : Prop where
  count : entries.length ≤ 255
  numbers : ∀ entry ∈ entries, entry.id < 4294967296 ∧ entry.getSize < 4294967296
  address : answering.ip < 4294967296 ∧ answering.port < 65536
  size : (neededSize (entries.map (searchEntry key)) group : Int) ≤ intMax

theorem answerFile_cut {answering : Answering} {key : Bool} {searched : Option Nat}
    {entry : Entry} : (answerFile answering key searched entry).cut =
        answerFile answering key searched entry ↔
      (entry.id < 4294967296 ∧ entry.getSize < 4294967296) ∧
        answering.ip < 4294967296 ∧ answering.port < 65536 := by
  simp only [File.cut, answerFile, File.mk.injEq, true_and, and_true]
  omega

theorem files_complete_iff {answering : Answering} {key : Bool} {searched : Option Nat}
    {entries : List Entry} (present : entries ≠ []) :
    (entries.take (entries.length % 256)).map
        (fun entry => (answerFile answering key searched entry).cut) =
      entries.map (answerFile answering key searched) ↔
    entries.length ≤ 255 ∧
      (∀ entry ∈ entries, entry.id < 4294967296 ∧ entry.getSize < 4294967296) ∧
      answering.ip < 4294967296 ∧ answering.port < 65536 := by
  have positive := List.length_pos_of_ne_nil present
  constructor
  next =>
    intro same
    have lengths := congrArg List.length same
    rw [List.length_map, List.length_map, List.length_take] at lengths
    have count : entries.length ≤ 255 := by omega
    have all : entries.length % 256 = entries.length := by omega
    rw [all, List.take_length] at same
    have fits : ∀ entry ∈ entries, (entry.id < 4294967296 ∧ entry.getSize < 4294967296) ∧
        answering.ip < 4294967296 ∧ answering.port < 65536 :=
      fun entry member => answerFile_cut.1 (List.map_inj_left.1 same entry member)
    obtain ⟨first, member⟩ := List.exists_mem_of_ne_nil entries present
    exact ⟨count, fun entry member => (fits entry member).1, (fits first member).2⟩
  next =>
    rintro ⟨count, numbers, address⟩
    have all : entries.length % 256 = entries.length := by omega
    rw [all, List.take_length]
    exact List.map_congr_left fun entry member => answerFile_cut.2 ⟨numbers entry member, address⟩

theorem guid_of_asked {trut : Trut} {rqst : Bytes} {query : Option (Bytes × Bool × Option Group)}
    (asks : asked evp trut rqst = .ok query) : (Gnutella.guid rqst).length = 16 := by
  simp only [asked, Runs.bind_ok, orUndefined_ok] at asks
  obtain ⟨str, text, _⟩ := asks
  have long : 0 < (rqst.drop searchOffset).length := by
    by_contra short
    have empty : rqst.drop searchOffset = [] := List.eq_nil_of_length_eq_zero (by omega)
    simp [searchText, empty] at text
  rw [List.length_drop, searchOffset] at long
  rw [Gnutella.guid, List.length_take]
  omega

theorem handleSearchRequest_asked (trut : Trut) (answering : Answering) (rqst : Bytes) :
    handleSearchRequest evp trut answering rqst = (do
      match ← asked evp trut rqst with
      | none => return none
      | some (pattern, key, group) =>
        answer evp trut answering (Gnutella.guid rqst) pattern key group) := by
  unfold handleSearchRequest asked
  cases orUndefined (searchText rqst) with
  | error fault => rfl
  | ok str =>
    simp only [bind, Except.bind]
    cases target trut str with
    | invalid => rfl
    | all key => rfl
    | secure group cipher =>
      simp only
      cases decryptPattern evp group cipher with
      | error fault => rfl
      | ok pattern => cases pattern <;> rfl

theorem respond_refines {trut : Trut} {answering : Answering} {rqst : Bytes} {resp : Option Bytes}
    (responded : respond evp trut answering rqst = .ok resp) :
    handleSearchRequest evp trut answering rqst = .ok resp := by
  rw [handleSearchRequest_asked]
  simp only [respond, Runs.bind_ok] at responded ⊢
  obtain ⟨query, asks, sent⟩ := responded
  refine ⟨query, asks, ?_⟩
  cases query with
  | none => exact sent
  | some query =>
    obtain ⟨pattern, key, group⟩ := query
    simp only [sendAnswer] at sent
    split at sent
    next nothing =>
      have empty : matching trut pattern (group.map Group.ref) = [] := by simpa using nothing
      simp only [Runs.pure_ok] at sent
      subst sent
      have same : (trut.collect.findPat pattern).filter
          (fun entry => entry.context = group.map Group.ref) =
            matching trut pattern (group.map Group.ref) := rfl
      simp only [answer, same, empty, if_true]
    next =>
      simp only [Runs.bind_ok] at sent
      obtain ⟨size, _, sent⟩ := sent
      split at sent
      · simp at sent
      · exact sent

end Trut

namespace Peer

variable {evp : Cipher} {trut : Trut} {answering : Answering} {rqst pattern : Bytes} {key : Bool}
  {group : Option Group} {peer : Peer} {search : SearchContext}

theorem calls_packet (waits : (peer.searches.find? fun search => search.guid = guid rqst) =
      some search)
    (same : SameKey peer.trut search.group group) (whole : (guid rqst).length = 16)
    (trailer : answering.trailer.length = 16) {entries : List Entry}
    (fits : (neededSize (entries.map (searchEntry key)) group : Int) ≤ intMax) :
    peer.calls evp (packet (guid rqst) 0x81 (answerBody evp group answering.iv
        (answerPayload answering (entries.map (searchEntry key))))) =
      .ok (some (search.callback, (entries.take (entries.length % 256)).map
        fun entry => (answerFile answering key search.group entry).cut)) := by
  have length := answerPayload_length trailer (entries.map (searchEntry key))
  have some_ : answerPayload answering (entries.map (searchEntry key)) ≠ [] :=
    List.ne_nil_of_length_pos (by omega)
  have small (secure : group.isSome) :
      (((answerPayload answering (entries.map (searchEntry key))).length + 28 : Nat) : Int) ≤
        intMax := by
    rw [neededSize, if_pos secure] at fits
    omega
  obtain ⟨rest, decrypted⟩ : ∃ rest,
      decryptAnswer evp peer.trut search.group _ = .ok (some (_ ++ rest)) :=
    decryptAnswer_packet same whole 0x81 answering.iv some_ small
  simp only [calls, guid_packet whole, waits, decrypted, bind, Except.bind, readFiles_answer]
  rfl

/-- The callback of the search is called once for each matching entry, in order and with what the
entry says, exactly if all of it fits the answer. -/
theorem answers_complete_iff (asks : asked evp trut rqst = .ok (some (pattern, key, group)))
    (waits : (peer.searches.find? fun search => search.guid = guid rqst) = some search)
    (same : SameKey peer.trut search.group group)
    (present : matching trut pattern (group.map Group.ref) ≠ [])
    (trailer : answering.trailer.length = 16) :
    (∃ resp, respond evp trut answering rqst = .ok (some resp) ∧
      peer.calls evp resp = .ok (some (search.callback,
        (matching trut pattern (group.map Group.ref)).map
          (answerFile answering key search.group)))) ↔
    AnswerFits answering (matching trut pattern (group.map Group.ref)) key group := by
  have whole := guid_of_asked asks
  have sends : respond evp trut answering rqst =
      sendAnswer evp trut answering (guid rqst) pattern key group := by
    simp only [respond, asks, bind, Except.bind]
  constructor
  next =>
    rintro ⟨resp, sent, called⟩
    rw [sends] at sent
    obtain ⟨size, rfl⟩ := (sendAnswer_some same.hasKey trailer present).1 sent
    rw [calls_packet waits same whole trailer size, Except.ok.injEq, Option.some.injEq,
      Prod.mk.injEq] at called
    obtain ⟨count, numbers, address⟩ := (files_complete_iff present).1 called.2
    exact ⟨count, numbers, address, size⟩
  next =>
    intro fits
    refine ⟨_, sends ▸ (sendAnswer_some same.hasKey trailer present).2 ⟨fits.size, rfl⟩, ?_⟩
    rw [calls_packet waits same whole trailer fits.size,
      (files_complete_iff present).2 ⟨fits.count, fits.numbers, fits.address⟩]

def crowded (count : Nat) : Trut where
  collect :=
    { entries := (List.range count).map fun id => { id := id, content := .file ⟨[102], by decide⟩ 1 } }

def asker : Peer where
  searches := [⟨List.replicate 16 0, .user 0, none⟩]

def anything : Bytes := searchRqst (List.replicate 16 0) [42]

def home : Answering := ⟨1, 2, List.replicate 16 0, Block.zero _⟩

theorem crowded_matching (count : Nat) :
    matching (crowded count) [42] none = (crowded count).collect.entries := by
  simp [matching, findPat, crowded, cmpPat, cmpStar]

theorem crowded_needed (count : Nat) :
    neededSize ((crowded count).collect.entries.map (searchEntry false)) none = 50 + 11 * count := by
  have sizes : ((crowded count).collect.entries.map (searchEntry false)).map SearchEntry.length =
      List.replicate count 11 := by
    refine List.eq_replicate_iff.2 ⟨by simp [crowded], fun size member => ?_⟩
    simp only [crowded, List.map_map, List.mem_map] at member
    obtain ⟨_, _, rfl⟩ := member
    rfl
  rw [neededSize, sizes, List.sum_replicate_nat, Nat.mul_comm]
  rfl

theorem asker_waits : (asker.searches.find? fun search => search.guid = guid anything) =
    some ⟨List.replicate 16 0, .user 0, none⟩ := rfl

theorem asker_same : SameKey asker.trut
    (⟨List.replicate 16 0, .user 0, none⟩ : SearchContext).group none := trivial

theorem anything_asked (count : Nat) :
    asked Key.zeroCipher (crowded count) anything = .ok (some ([42], false, none)) := by
  have text : searchText anything = some [42] := searchText_searchRqst rfl (by decide)
  have plain : target (crowded count) [42] = .all false := rfl
  simp only [asked, text, orUndefined, bind, Except.bind, plain]
  rfl

theorem answers_complete_one :
    asked Key.zeroCipher (crowded 1) anything = .ok (some ([42], false, none)) ∧
      (asker.searches.find? fun search => search.guid = guid anything) =
        some ⟨List.replicate 16 0, .user 0, none⟩ ∧
      SameKey asker.trut none none ∧ matching (crowded 1) [42] none ≠ [] ∧
      home.trailer.length = 16 ∧
      ((∃ resp, respond Key.zeroCipher (crowded 1) home anything = .ok (some resp) ∧
        asker.calls Key.zeroCipher resp = .ok (some (.user 0,
          (matching (crowded 1) [42] none).map (answerFile home false none)))) ↔
      AnswerFits home (matching (crowded 1) [42] none) false none) := by
  have present : matching (crowded 1) [42] none ≠ [] := by
    rw [crowded_matching]
    decide
  exact ⟨anything_asked 1, rfl, trivial, present, rfl,
    answers_complete_iff (anything_asked 1) asker_waits asker_same present rfl⟩

/-- Of 256 entries the count byte says 0, and the callback is not called. -/
theorem answers_lost : (matching (crowded 256) [42] none).length = 256 ∧
    ∃ resp, respond Key.zeroCipher (crowded 256) home anything = .ok (some resp) ∧
      asker.calls Key.zeroCipher resp = .ok (some (.user 0, [])) := by
  have length : (crowded 256).collect.entries.length = 256 := by simp [crowded]
  have small : (neededSize ((crowded 256).collect.entries.map (searchEntry false)) none : Int) ≤
      intMax := by
    rw [crowded_needed]
    decide
  have present : matching (crowded 256) [42] none ≠ [] := by
    rw [crowded_matching]
    exact List.ne_nil_of_length_pos (by omega)
  have keyed : HasKey none := by simp [HasKey]
  have sent : sendAnswer Key.zeroCipher (crowded 256) home (guid anything) [42] false none =
      .ok (some _) := (sendAnswer_some keyed rfl present).2 ⟨by
    rw [Option.map_none, crowded_matching]
    exact small, rfl⟩
  rw [Option.map_none, crowded_matching] at sent
  have responds : respond Key.zeroCipher (crowded 256) home anything =
      sendAnswer Key.zeroCipher (crowded 256) home (guid anything) [42] false none := by
    simp only [respond, anything_asked, bind, Except.bind]
  refine ⟨by rw [crowded_matching, length], _, responds.trans sent, ?_⟩
  rw [calls_packet asker_waits asker_same rfl rfl small, length]
  rfl

end Peer

import Ptptl.Ptp.EncodeBuffer
import Ptptl.Trut.Search

set_option autoImplicit false

/-! # A search in a group, from the searcher to the collection -/

namespace Trut

open Ptp Ptp.Collection CInt Memory Gnutella

/-- The buffer `cipher` from `hdrsize` on. -/
def placed (hdrsize : Int) (data : Bytes) (position : Int) : Byte :=
  if position < hdrsize then 0 else data.getD (position - hdrsize).toNat 0

/-- The string in the buffer `cipher` of `Search`: the header, and the search string encrypted and
encoded in its place. A buffer is `none` where its size is no int or a write goes past it. -/
def secureString (evp : Cipher) (name str : Bytes) (key : SessionKey) (iv : Iv) : Option Bytes := do
  let hdrsize := wrap (8 + name.length + 1)
  let (encsize, _) ← Key.encrypt evp key none (wrap str.length) false true true iv
  let twice ← checked (encsize * 2)
  let total ← checked (hdrsize + twice)
  let total ← checked (total + 4)
  if total < 8 + name.length + 1 + 1 then none
  let (_, cipher) ← Key.encrypt evp key (some str) (wrap str.length) true true true iv
  if total < hdrsize + cipher.length then none
  let (size, out) ← Encoding.encodeBuffer (placed hdrsize cipher) (some hdrsize) encsize
    (some hdrsize) encsize
  if total < hdrsize + size + 1 then none
  let size ← Encoding.stringSize out.cells hdrsize 2147483648
  return securePrefix ++ name ++ [slash] ++
    (List.range size.toNat).map fun index => out.cells (hdrsize + (index : Nat))

/-- The packet that `Search` sends. -/
def searchPacket (evp : Cipher) (guid str : Bytes) (group : Option Group) (iv : Iv) :
    Option Bytes := do
  let str ←
    match group with
    | none => some str
    | some group =>
      match group.key with
      | none => some str
      | some key => secureString evp group.name.val str key iv
  -- the size of the buffer of the request
  let size := wrap (26 + str.length + 1)
  if size < 26 + str.length + 1 then none
  return searchRqst guid str

def SearchFits (name str : Bytes) : Prop :=
  ((9 + name.length + 2 * (str.length + 28) + 4 : Nat) : Int) ≤ intMax ∧
    ((26 + (9 + name.length + (str.length + 30) / 3 * 4) + 1 : Nat) : Int) ≤ intMax

variable {evp : Cipher} {guid name str : Bytes} {key : SessionKey} {iv : Iv}

theorem placed_holds (hdrsize : Int) (data : Bytes) : Memory.Holds (placed hdrsize data) hdrsize data := by
  intro index inside
  have above : ¬ hdrsize + (index : Int) < hdrsize := by omega
  simp [placed, above, inside]

theorem searchText_line {cipher : Bytes} (present : cipher ≠ []) : ∃ text,
    Encoding.encodeBase64 cipher cipher.length = some text ∧ (0 : Byte) ∉ text ∧
      Encoding.decodeBase64 text = cipher ∧ text.length = (cipher.length + 2) / 3 * 4 := by
  obtain ⟨body, pads, line⟩ := Encoding.encodeBase64_line present
  refine ⟨body ++ pads, line.encoded, ?_, Encoding.decodeBase64_encodeBase64 line.encoded, ?_⟩
  · intro member
    rcases List.mem_append.1 member with member | member
    · exact absurd (line.table 0 member) (by decide)
    · exact absurd (line.padding 0 member) (by decide)
  · have none : (body ++ pads).count Encoding.newline = 0 := by
      refine List.count_eq_zero.2 fun member => ?_
      rcases List.mem_append.1 member with member | member
      · exact Encoding.table_no_newline (line.table _ member) rfl
      · exact absurd (line.padding _ member) (by decide)
    rw [Encoding.encodeBase64_length line.encoded, none, Nat.add_zero]

theorem encodeBuffer_line {cipher text : Bytes} (hdrsize : Int) (present : 2 ≤ cipher.length)
    (small : ((2 * cipher.length : Nat) : Int) ≤ intMax)
    (encoded : Encoding.encodeBase64 cipher cipher.length = some text)
    (length : text.length = (cipher.length + 2) / 3 * 4) : ∃ out,
    Encoding.encodeBuffer (placed hdrsize cipher) (some hdrsize) (cipher.length : Int)
        (some hdrsize) (cipher.length : Int) = some ((text.length : Int), out) ∧
      Memory.Holds out.cells hdrsize (text ++ [0]) := by
  have line : (cipher.length - 1) / cipher.length = 0 := Nat.div_eq_of_lt (by omega)
  have total : Encoding.textSize cipher.length cipher.length = text.length := by
    rw [Encoding.textSize, line, length, Nat.add_zero]
  have both : ((2 * cipher.length : Nat) : Int) ≤ intMax ∧
      ((Encoding.textSize cipher.length cipher.length : Nat) : Int) ≤ intMax := by
    refine ⟨small, ?_⟩
    rw [total, length]
    unfold intMax at *
    omega
  obtain ⟨text', encoded', _, holds⟩ := Encoding.encoded_text (by omega : 0 < cipher.length) present
    (.inl (Int.le_refl hdrsize))
  rw [(placed_holds hdrsize cipher).backwards, List.reverse_reverse, encoded,
    Option.some.injEq] at encoded'
  subst encoded'
  refine ⟨_, ?_, holds⟩
  rw [Encoding.encodeBuffer_correct _ _ _ (by omega) (by omega), if_pos both, total]

theorem secureString_correct (present : str ≠ []) (fits : SearchFits name str) : ∃ text,
    secureString evp name str key iv = some (securePrefix ++ name ++ [slash] ++ text) ∧
      (0 : Byte) ∉ text ∧
      Encoding.decodeBase64 text = Key.cipherText evp key true true iv str ∧
      text.length = (str.length + 30) / 3 * 4 := by
  obtain ⟨buffer, request⟩ := fits
  have overhead : Key.overhead true true = 28 := rfl
  have length : (Key.cipherText evp key true true iv str).length = str.length + 28 := by
    rw [Key.cipherText_length, overhead]
  have some_ : 0 < (Key.cipherText evp key true true iv str).length := by omega
  obtain ⟨text, encoding, clean, decoded, size⟩ :=
    searchText_line (List.ne_nil_of_length_pos some_)
  obtain ⟨out, call, holds⟩ := encodeBuffer_line (8 + name.length + 1) (by omega)
    (by unfold intMax at *; omega) encoding size
  have textLength : text.length = (str.length + 30) / 3 * 4 := by rw [size, length]
  have string := Encoding.stringSize_holds text holds clean
    (by unfold intMax at *; omega : text.length < 2147483648)
  refine ⟨text, ?_, clean, decoded, textLength⟩
  have header : wrap (8 + (name.length : Int) + 1) = 8 + name.length + 1 :=
    wrap_of_le (by unfold intMin; omega) (by omega)
  have plain : wrap (str.length : Int) = str.length :=
    wrap_of_le (by unfold intMin; omega) (by omega)
  have query := Key.encrypt_query evp key true true iv none present
    (by rw [overhead]; unfold intMax at *; omega)
  have encrypted := Key.encrypt_correct evp key true true iv present
    (by rw [overhead]; unfold intMax at *; omega)
  rw [overhead, ← length] at query
  have twice : checked (((Key.cipherText evp key true true iv str).length : Int) * 2) =
      some (((Key.cipherText evp key true true iv str).length : Int) * 2) :=
    checked_of_le (by omega) (by omega)
  have most : checked (8 + (name.length : Int) + 1 +
      ((Key.cipherText evp key true true iv str).length : Int) * 2) =
        some (8 + (name.length : Int) + 1 +
          ((Key.cipherText evp key true true iv str).length : Int) * 2) :=
    checked_of_le (by omega) (by omega)
  have all : checked (8 + (name.length : Int) + 1 +
      ((Key.cipherText evp key true true iv str).length : Int) * 2 + 4) =
        some (8 + (name.length : Int) + 1 +
          ((Key.cipherText evp key true true iv str).length : Int) * 2 + 4) :=
    checked_of_le (by omega) (by omega)
  -- the header, the ciphertext and the text are inside the buffer
  have headerFits : ¬ 8 + (name.length : Int) + 1 +
      ((Key.cipherText evp key true true iv str).length : Int) * 2 + 4 <
        8 + (name.length : Int) + 1 + 1 := by omega
  have cipherFits : ¬ 8 + (name.length : Int) + 1 +
      ((Key.cipherText evp key true true iv str).length : Int) * 2 + 4 <
        8 + (name.length : Int) + 1 + ((Key.cipherText evp key true true iv str).length : Int) := by
    omega
  have textFits : ¬ 8 + (name.length : Int) + 1 +
      ((Key.cipherText evp key true true iv str).length : Int) * 2 + 4 <
        8 + (name.length : Int) + 1 + (text.length : Int) + 1 := by omega
  simp only [secureString, header, plain, query, twice, most, all, encrypted, call, string,
    headerFits, cipherFits, textFits, Option.bind_eq_bind, Option.bind_some, if_false,
    Option.pure_def, Int.toNat_natCast, holds.range]

theorem searchPacket_correct {group : Group} (keyed : group.key = some key) (present : str ≠ [])
    (fits : SearchFits group.name.val str) : ∃ text,
    searchPacket evp guid str (some group) iv =
        some (searchRqst guid (securePrefix ++ group.name.val ++ [slash] ++ text)) ∧
      (0 : Byte) ∉ text ∧
      Encoding.decodeBase64 text = Key.cipherText evp key true true iv str ∧
      text.length = (str.length + 30) / 3 * 4 := by
  obtain ⟨text, made, clean, decoded, length⟩ := secureString_correct present fits
  refine ⟨text, ?_, clean, decoded, length⟩
  have total : (securePrefix ++ group.name.val ++ [slash] ++ text).length =
      9 + group.name.val.length + (str.length + 30) / 3 * 4 := by
    have header : securePrefix.length = 8 := rfl
    rw [List.length_append, List.length_append, List.length_append, List.length_singleton, header,
      length]
    omega
  have size : wrap (26 + ((securePrefix ++ group.name.val ++ [slash] ++ text).length : Int) + 1) =
      26 + ((securePrefix ++ group.name.val ++ [slash] ++ text).length : Int) + 1 := by
    have request := fits.2
    rw [total]
    exact wrap_of_le (by unfold intMin; omega) (by omega)
  simp only [searchPacket, keyed, made, size, Option.bind_eq_bind, Option.bind_some, Int.lt_irrefl,
    if_false, Option.pure_def]

theorem searchText_searchRqst {guid str : Bytes} (whole : guid.length = 16)
    (clean : (0 : Byte) ∉ str) : searchText (searchRqst guid str) = some str := by
  have front : searchRqst guid str =
      (guid ++ ([0x80, 7, 0] : Bytes) ++ set32 (set16 0 ++ str ++ [0, 0]).length ++ set16 0) ++
        (str ++ [0, 0]) := by
    simp [searchRqst, packet, List.append_assoc]
  have offset : (guid ++ ([0x80, 7, 0] : Bytes) ++ set32 (set16 0 ++ str ++ [0, 0]).length ++
      set16 0).length = searchOffset := by
    simp [set32, set16, whole, searchOffset]
  have nul : (0 : Byte) ∈ str ++ [0, 0] := by simp
  have text : cString (str ++ [0, 0]) = str := cString_ended clean [0]
  unfold searchText
  rw [front, List.drop_left' offset]
  simp only [nul, if_true, text]

theorem guid_searchRqst {guid : Bytes} (whole : guid.length = 16) (str : Bytes) :
    Gnutella.guid (searchRqst guid str) = guid := by
  simp only [Gnutella.guid, searchRqst, packet, List.append_assoc]
  exact List.take_left' whole

theorem target_split (trut : Trut) {name : Bytes} (plain : slash ∉ name) (text : Bytes) :
    target trut (securePrefix ++ (name ++ slash :: text)) =
      if text = ascii "key" then .all true
      else
        match trut.findGroup name with
        | none => .all false
        | some group => .secure group text := by
  have name_ : (name ++ slash :: text).takeWhile (· ≠ slash) = name := by
    rw [List.takeWhile_append_of_pos]
    · simp
    · intro char member
      exact decide_eq_true fun same => plain (same ▸ member)
  have rest : (name ++ slash :: text).drop (name.length + 1) = text := by
    rw [← List.drop_drop, List.drop_left, List.drop_one, List.tail_cons]
  have inside : slash ∈ name ++ slash :: text := by simp
  unfold target
  rw [if_pos (List.prefix_append _ _), List.drop_left]
  cases found : trut.findGroup name <;>
    simp only [name_, rest, inside, not_true, if_false, found]

theorem target_secure {trut : Trut} {name text : Bytes} {group : Group} (plain : slash ∉ name)
    (found : trut.findGroup name = some group) (other : text ≠ ascii "key") :
    target trut (securePrefix ++ name ++ [slash] ++ text) = .secure group text := by
  have start : securePrefix ++ name ++ [slash] ++ text = securePrefix ++ (name ++ slash :: text) := by
    simp
  rw [start, target_split trut plain, if_neg other, found]

def matching (trut : Trut) (pattern : Bytes) (group : Option Nat) : List Entry :=
  (trut.collect.findPat pattern).filter fun entry => entry.context = group

theorem answer_secure (evp : Cipher) (trut : Trut) (answering : Answering) (guid pattern : Bytes)
    {group : Group} {key : SessionKey} (keyed : group.key = some key) :
    answer evp trut answering guid pattern false (some group) =
      if matching trut pattern group.ref = [] then .ok none
      else
        let payload :=
          answerPayload answering ((matching trut pattern group.ref).map (searchEntry false))
        match Key.encrypt evp key (some payload) payload.length true true true answering.iv with
        | none => .error .undefined
        | some (_, payload) => .ok (some (packet guid 0x81 payload)) := by
  have same : (trut.collect.findPat pattern).filter
      (fun entry => entry.context = (some group).map Group.ref) =
        matching trut pattern group.ref := rfl
  simp only [answer, same, useKey_ok.2 keyed]
  split
  next => rfl
  next =>
    generalize answerPayload answering _ = payload
    simp only [bind, Except.bind]
    cases Key.encrypt evp key (some payload) payload.length true true true answering.iv with
    | none => rfl
    | some result => rfl

theorem decryptPattern_correct {group : Group} {text : Bytes} (keyed : group.key = some key)
    (present : str ≠ []) (clean : (0 : Byte) ∉ str)
    (fits : ((str.length + 28 : Nat) : Int) ≤ intMax)
    (decoded : Encoding.decodeBase64 text = Key.cipherText evp key true true iv str) :
    decryptPattern evp group text = .ok (some str) := by
  have decrypted := Key.decrypt_cipherText evp key true true iv present fits
  have nonneg : ¬ (str.length : Int) < 0 := by omega
  simp only [decryptPattern, useKey_ok.2 keyed, decoded, bind, Except.bind, decrypted, orUndefined,
    nonneg, if_false, cString_eq clean]
  rfl

/-- The string of a search in a group is what the collection of a peer with the group's key is
matched against, and the entries of the group are counted. -/
theorem secureSearch_recovers (evp : Cipher) {trut : Trut} {sender receiver : Group}
    {key : SessionKey} (sent : sender.key = some key) (held : receiver.key = some key)
    (found : trut.findGroup sender.name.val = some receiver) (plain : slash ∉ sender.name.val)
    (str : CString) (present : str.val ≠ []) (fits : SearchFits sender.name.val str.val)
    (guid : Bytes) (whole : guid.length = 16) (iv : Iv) (answering : Answering) :
    ∃ rqst, searchPacket evp guid str.val (some sender) iv = some rqst ∧
      handleSearchRequest evp trut answering rqst =
        if matching trut str.val receiver.ref = [] then .ok none
        else
          let payload :=
            answerPayload answering ((matching trut str.val receiver.ref).map (searchEntry false))
          match Key.encrypt evp key (some payload) payload.length true true true answering.iv with
          | none => .error .undefined
          | some (_, payload) => .ok (some (packet guid 0x81 payload)) := by
  obtain ⟨text, sends, clean, decoded, length⟩ :=
    @searchPacket_correct evp guid str.val key iv sender sent present fits
  refine ⟨_, sends, ?_⟩
  have header : securePrefix = ascii "/secure/" := rfl
  have noNul : (0 : Byte) ∉ securePrefix ++ sender.name.val ++ [slash] ++ text := by
    simp only [List.mem_append, not_or]
    exact ⟨⟨⟨by decide, sender.name.property⟩, by decide⟩, clean⟩
  have long : 4 ≤ text.length := by
    have some_ := List.length_pos_of_ne_nil present
    omega
  have other : text ≠ ascii "key" := by
    rintro rfl
    exact absurd long (by decide)
  have size : ((str.val.length + 28 : Nat) : Int) ≤ intMax := by
    have buffer := fits.1
    unfold intMax at *
    omega
  have pattern : decryptPattern evp receiver text = .ok (some str.val) :=
    decryptPattern_correct held present str.property size decoded
  refine Eq.trans ?_ (answer_secure evp trut answering guid str.val held)
  simp only [handleSearchRequest, searchText_searchRqst whole noNul, orUndefined, bind, Except.bind,
    target_secure plain found other, pattern, guid_searchRqst whole]

def singer : Group := { ref := 0, name := ⟨[103], by decide⟩, accept := none, key := some (Block.zero _) }

def song : Entry :=
  { id := 1, content := .file ⟨ascii "/m/song.ogg", by decide⟩ 3, context := some 0 }

def choir : Trut where
  groups := [singer]
  collect :=
    { entries := [song,
        { id := 2, content := .file ⟨ascii "/m/note.txt", by decide⟩ 3, context := some 0 },
        { id := 3, content := .file ⟨ascii "/m/hymn.ogg", by decide⟩ 3 }] }

theorem choir_matching : matching choir (ascii "*.ogg") (some 0) = [song] := by decide +kernel

theorem secureSearch_recovers_song :
    ∃ rqst, searchPacket Key.zeroCipher (List.replicate 16 0) (ascii "*.ogg") (some singer)
        (Block.zero _) = some rqst ∧
      handleSearchRequest Key.zeroCipher choir ⟨1, 2, [], Block.zero _⟩ rqst =
        let payload := answerPayload ⟨1, 2, [], Block.zero _⟩ [searchEntry false song]
        match Key.encrypt Key.zeroCipher (Block.zero _) (some payload) payload.length true true true
            (Block.zero _) with
        | none => .error .undefined
        | some (_, payload) => .ok (some (packet (List.replicate 16 0) 0x81 payload)) := by
  have recovers := @secureSearch_recovers Key.zeroCipher choir singer singer (Block.zero _) rfl rfl rfl
    (by decide) ⟨ascii "*.ogg", by decide⟩ (by decide) ⟨by decide, by decide⟩ (List.replicate 16 0)
    rfl (Block.zero _) ⟨1, 2, [], Block.zero _⟩
  have matched : matching choir (ascii "*.ogg") singer.ref = [song] := choir_matching
  simpa only [matched, List.cons_ne_nil, if_false, List.map_cons, List.map_nil] using recovers

/-- Twice the size of the ciphertext is no int. -/
theorem secureSearch_overflows : ¬ ∀ (trut : Trut) (sender receiver : Group) (key : SessionKey)
    (str : CString) (guid : Bytes), sender.key = some key → receiver.key = some key →
    trut.findGroup sender.name.val = some receiver → slash ∉ sender.name.val → str.val ≠ [] →
    guid.length = 16 →
    ∃ rqst, searchPacket Key.zeroCipher guid str.val (some sender) (Block.zero _) = some rqst := by
  intro sends
  obtain ⟨long, length, clean⟩ : ∃ long : Bytes, long.length = 1073741824 ∧ (0 : Byte) ∉ long := by
    refine ⟨List.replicate 1073741824 42, List.length_replicate, fun member => ?_⟩
    exact absurd (List.mem_replicate.1 member).2 (by decide)
  have present : long ≠ [] := List.ne_nil_of_length_pos (by rw [length]; decide)
  obtain ⟨rqst, sent⟩ := sends { groups := [singer] } singer singer (Block.zero _) ⟨long, clean⟩
    (List.replicate 16 0) rfl rfl rfl (by decide) present rfl
  have query := Key.encrypt_query Key.zeroCipher (Block.zero _) true true (Block.zero _) none present
    (by rw [length]; decide)
  have plain : wrap (long.length : Int) = (long.length : Int) := by
    rw [length]
    rfl
  have overflow : checked (((long.length + Key.overhead true true : Nat) : Int) * 2) = none := by
    rw [length]
    rfl
  have none_ : secureString Key.zeroCipher singer.name.val long (Block.zero _) (Block.zero _) =
      none := by
    simp only [secureString, plain, query, overflow, Option.bind_eq_bind, Option.bind_some,
      Option.bind_none]
  have keyed : singer.key = some (Block.zero _) := rfl
  simp [searchPacket, keyed, none_] at sent

end Trut

import Ptptl.Ptp.StreamSizes
import Ptptl.Trut.Handshake

set_option autoImplicit false

/-! # The length that the file server announces -/

namespace Trut

open Ptp Ptp.Collection CInt Chunked

section

variable {Id : Type} (evp : Cipher) (disk : Disk) (entry : Entry) (key : Option SessionKey)
  (id : Option Id)

/-- The size that `PutThread` prints; `some none` is its 404. -/
def announced (iv : Iv) : Option (Option Int) :=
  match id, key, entry.content with
  | some _, _, _ => some (some Identity.ciphertextSize)
  | none, some key, .file path _ =>
    match disk.atSize path with
    | none => some none
    | some source =>
      ((Key.encryptStream evp key (some source) none true true Key.defaultReadSize iv).map
        Key.StreamResult.result).map some
  | none, some key, .data _ data =>
    ((Key.encrypt evp key (some data) (wrap data.length) false true true iv).map Prod.fst).map some
  | none, none, _ => some (some (wrap entry.getSize))

/-- The bytes behind the header, over a connection that takes all of them. `sealed` is what the
buffer of `Identity::Encrypt` holds after the call. -/
def bodyBytes (sealed : Id → Bytes → Block Identity.ciphertextSize) (size : Int) (iv : Iv) :
    Option Bytes :=
  match entry.content with
  | .file path _ =>
    match disk.atData path, key with
    | none, _ => some (notFoundHeader ++ ascii "<B>404 NOT FOUND</B>\n")
    | some source, some key =>
      (Key.encryptStream evp key (some source) (some Key.taking) true true Key.defaultReadSize
        iv).map Key.StreamResult.written
    | some source, none =>
      (Key.transfer Key.defaultReadSize source (some Key.taking)).map Key.StreamResult.written
  | .data _ data =>
    match id, key with
    | some id, _ => some (sealed id data).val
    | none, some key => do
      -- new BYTE[size]
      if size < 0 then none
      let (_, buffer) ← Key.encrypt evp key (some data) (wrap data.length) true true true iv
      if size = buffer.length then some buffer else none
    -- WriteAll sends nothing for a size that is not positive
    | none, none => some (data.take (wrap data.length).toNat)

def Announces (sealed : Id → Bytes → Block Identity.ciphertextSize) : Prop :=
  ∀ first second : Iv, ∃ size body, announced evp disk entry key id first = some (some size) ∧
    bodyBytes evp disk entry key id sealed size second = some body ∧ (body.length : Int) = size

def Unchanged : Prop :=
  match entry.content with
  | .data _ _ => True
  | .file path size => ∃ first second, disk.atSize path = some first ∧
    disk.atData path = some second ∧ (first.Clean ∧ second.Clean) ∧
    first.contents.length = size ∧ second.contents.length = size

/-- The lengths that agree. To a client that authenticated the size of a sealed block is announced
whatever is sent. -/
def Agreeing : Prop :=
  match entry.content, id, key with
  | .file _ size, some _, none => size = Identity.ciphertextSize
  | .file _ size, some _, some _ => size + Key.overhead true true = Identity.ciphertextSize
  | .file _ size, none, some _ => ((size + Key.overhead true true : Nat) : Int) ≤ intMax
  | .file _ size, none, none => (size : Int) ≤ intMax
  | .data _ _, some _, _ => True
  | .data _ data, none, some _ =>
    0 < wrap data.length ∧ wrap data.length + Key.overhead true true ≤ intMax
  | .data _ data, none, none => 0 ≤ wrap data.length

end

section

variable {Id : Type} {evp : Cipher} {disk : Disk} {entry : Entry} {key : SessionKey}
  {sealed : Id → Bytes → Block Identity.ciphertextSize}

theorem getSize_file {path : CString} {size : Nat} (content : entry.content = .file path size) :
    entry.getSize = size := by
  rw [Entry.getSize, content]

theorem bodyBytes_stream {path : CString} {size : Nat} (content : entry.content = .file path size)
    {source : Source Byte} (opened : disk.atData path = some source) (clean : source.Clean)
    (id : Option Id) (announced : Int) (iv : Iv) {body : Bytes} :
    bodyBytes evp disk entry (some key) id sealed announced iv = some body ↔
      body = Key.cipherText evp key true true iv source.contents ∧
        ((source.contents.length + Key.overhead true true : Nat) : Int) ≤ intMax := by
  simp only [bodyBytes, content, opened]
  exact Key.encryptStream_written evp key true iv (by decide) (by decide) clean

theorem bodyBytes_plain {path : CString} {size : Nat} (content : entry.content = .file path size)
    {source : Source Byte} (opened : disk.atData path = some source) (clean : source.Clean)
    (id : Option Id) (announced : Int) (iv : Iv) {body : Bytes} :
    bodyBytes evp disk entry none id sealed announced iv = some body ↔
      body = source.contents ∧ (source.contents.length : Int) ≤ intMax := by
  simp only [bodyBytes, content, opened]
  exact Key.transfer_written (by decide) clean

theorem announced_stream {path : CString} {size : Nat} (content : entry.content = .file path size)
    {source : Source Byte} (opened : disk.atSize path = some source) (clean : source.Clean)
    (iv : Iv) {value : Int} :
    announced evp disk entry (some key) (none : Option Id) iv = some (some value) ↔
      value = (source.contents.length + Key.overhead true true : Nat) ∧ value ≤ intMax := by
  have same := @Key.encryptStream_query Key.defaultReadSize evp key source true iv (by decide)
    (by decide) clean value
  simp only [announced, content, opened]
  rw [← same]
  simp

theorem announces_client (client : Id) {key : Option SessionKey} {length : Nat} {bound : Prop}
    (sent : ∀ iv body, bodyBytes evp disk entry key (some client) sealed Identity.ciphertextSize iv =
      some body → body.length = length ∧ bound)
    (sends : bound → ∀ iv, ∃ body, bodyBytes evp disk entry key (some client) sealed
      Identity.ciphertextSize iv = some body) (small : length = Identity.ciphertextSize → bound) :
    Announces evp disk entry key (some client) sealed ↔ length = Identity.ciphertextSize := by
  have iv : Iv := Block.zero _
  constructor
  next =>
    intro announces
    obtain ⟨size, body, given, body', same⟩ := announces iv iv
    obtain rfl : (Identity.ciphertextSize : Int) = size :=
      Option.some.inj (Option.some.inj given)
    have whole := (sent iv body body').1
    omega
  next =>
    intro agrees _ second
    obtain ⟨body, body'⟩ := sends (small agrees) second
    have whole := (sent second body body').1
    exact ⟨_, body, rfl, body', by omega⟩

theorem announces_file_client {path : CString} {size : Nat}
    (content : entry.content = .file path size) (unchanged : Unchanged disk entry)
    (key : Option SessionKey) (client : Id) :
    Announces evp disk entry key (some client) sealed ↔ Agreeing entry key (some client) := by
  have overhead : Key.overhead true true = 28 := rfl
  have sealing : Identity.ciphertextSize = 128 := rfl
  have bound : (128 : Int) ≤ intMax := by decide
  simp only [Unchanged, content] at unchanged
  obtain ⟨_, source, _, opened, ⟨_, clean⟩, _, length⟩ := unchanged
  cases key with
  | some key =>
    have sent (iv : Iv) {body : Bytes} :=
      @bodyBytes_stream _ evp disk entry key sealed _ _ content _ opened clean (some client)
        Identity.ciphertextSize iv body
    simp only [Agreeing, content]
    apply announces_client client
    · intro iv body body'
      obtain ⟨rfl, small⟩ := (sent iv).1 body'
      rw [Key.cipherText_length, length]
      rw [length] at small
      exact ⟨rfl, small⟩
    · intro small iv
      exact ⟨_, (sent iv).2 ⟨rfl, by rw [length]; exact small⟩⟩
    · intro agrees
      omega
  | none =>
    have sent (iv : Iv) {body : Bytes} :=
      @bodyBytes_plain _ evp disk entry sealed _ _ content _ opened clean (some client)
        Identity.ciphertextSize iv body
    simp only [Agreeing, content]
    apply announces_client client
    · intro iv body body'
      obtain ⟨rfl, small⟩ := (sent iv).1 body'
      rw [length] at small
      exact ⟨length, small⟩
    · intro small iv
      exact ⟨_, (sent iv).2 ⟨rfl, by rw [length]; exact small⟩⟩
    · intro agrees
      omega

theorem announces_file {path : CString} {size : Nat} (content : entry.content = .file path size)
    (unchanged : Unchanged disk entry) (key : Option SessionKey) (id : Option Id) :
    Announces evp disk entry key id sealed ↔ Agreeing entry key id := by
  cases id with
  | some client => exact announces_file_client content unchanged key client
  | none =>
    have iv : Iv := Block.zero _
    simp only [Unchanged, content] at unchanged
    obtain ⟨first, second, sized, opened, ⟨clean, clean'⟩, length, length'⟩ := unchanged
    cases key with
    | some key =>
      simp only [Announces, Agreeing, content, bodyBytes_stream content opened clean',
        announced_stream content sized clean]
      constructor
      · intro announces
        obtain ⟨_, _, ⟨rfl, small⟩, _⟩ := announces iv iv
        rw [← length]
        exact small
      · intro agrees _ second
        refine ⟨_, _, ⟨rfl, ?_⟩, ⟨rfl, ?_⟩, ?_⟩
        · rw [length]
          exact agrees
        · rw [length']
          exact agrees
        · rw [Key.cipherText_length, length, length']
    | none =>
      have whole (iv : Iv) : announced evp disk entry none (none : Option Id) iv =
          some (some (wrap size)) := by
        simp only [announced, getSize_file content]
      simp only [Announces, Agreeing, content, whole, bodyBytes_plain content opened clean',
        Option.some.injEq]
      constructor
      · intro announces
        obtain ⟨_, _, _, ⟨_, small⟩, _⟩ := announces iv iv
        rw [← length']
        exact small
      · intro agrees _ _
        refine ⟨_, _, rfl, ⟨rfl, by rw [length']; exact agrees⟩, ?_⟩
        rw [length', wrap_of_le (by unfold intMin; omega) agrees]

theorem announced_data {name : CString} {data : Bytes} (content : entry.content = .data name data)
    (iv : Iv) {value : Int} :
    announced evp disk entry (some key) (none : Option Id) iv = some (some value) ↔
      0 < wrap data.length ∧ value = wrap data.length + Key.overhead true true ∧
        value ≤ intMax ∨ wrap data.length ≤ 0 ∧ value = -1 := by
  have same : announced evp disk entry (some key) (none : Option Id) iv =
      ((Key.encrypt evp key (some data) (wrap data.length) false true true iv).map
        Prod.fst).map some := by
    simp only [announced, content]
  rw [← Key.encrypt_sized evp key iv (some data) (wrap_ge data.length), same,
    Option.map_eq_some_iff]
  simp only [Option.some.injEq, exists_eq_right]

theorem announces_data_key {name : CString} {data : Bytes}
    (content : entry.content = .data name data) :
    Announces evp disk entry (some key) (none : Option Id) sealed ↔
      Agreeing entry (some key) (none : Option Id) := by
  have overhead : Key.overhead true true = 28 := rfl
  have within := wrap_le_self (Int.natCast_nonneg data.length)
  have iv : Iv := Block.zero _
  simp only [Announces, announced_data content, Agreeing, content]
  constructor
  next =>
    intro announces
    obtain ⟨value, body, ⟨positive, rfl, small⟩ | ⟨_, rfl⟩, sent, _⟩ := announces iv iv
    · exact ⟨positive, small⟩
    · simp [bodyBytes, content] at sent
  next =>
    rintro ⟨positive, small⟩ _ second
    obtain ⟨count, same⟩ := Int.eq_ofNat_of_zero_le (Int.le_of_lt positive)
    simp only [same] at positive small within ⊢
    have encrypted := Key.encrypt_take evp key second (by omega : 0 < count)
      (by omega : count ≤ data.length) (by omega)
    have total : (Key.cipherText evp key true true second (data.take count)).length =
        count + Key.overhead true true := by
      rw [Key.cipherText_length, List.length_take_of_le (by omega)]
    refine ⟨_, Key.cipherText evp key true true second (data.take count),
      .inl ⟨positive, rfl, small⟩, ?_, ?_⟩
    · have filled : ¬ (count : Int) + Key.overhead true true < 0 := by omega
      simp only [bodyBytes, content, same, encrypted, filled, if_false, Option.bind_eq_bind,
        Option.bind_some, total, Nat.cast_add, if_true]
    · rw [total, Nat.cast_add]

theorem announces_data {name : CString} {data : Bytes} (content : entry.content = .data name data)
    (key : Option SessionKey) (id : Option Id) :
    Announces evp disk entry key id sealed ↔ Agreeing entry key id := by
  have within := wrap_le_self (Int.natCast_nonneg data.length)
  have iv : Iv := Block.zero _
  cases id with
  | some client =>
    simp only [Agreeing, content, iff_true]
    intro _ second
    have sent : bodyBytes evp disk entry key (some client) sealed Identity.ciphertextSize second =
        some (sealed client data).val := by
      simp only [bodyBytes, content]
    refine ⟨_, _, rfl, sent, ?_⟩
    rw [(sealed client data).property]
  | none =>
    cases key with
    | some key => exact announces_data_key content
    | none =>
      have whole (iv : Iv) : announced evp disk entry none (none : Option Id) iv =
          some (some (wrap data.length)) := by
        simp only [announced, Entry.getSize, content]
      simp only [Announces, Agreeing, content, whole, bodyBytes, Option.some.injEq]
      constructor
      · intro announces
        obtain ⟨_, _, rfl, rfl, same⟩ := announces iv iv
        omega
      · intro valid _ _
        refine ⟨_, _, rfl, rfl, ?_⟩
        rw [List.length_take_of_le (by omega)]
        omega

theorem announces_iff (unchanged : Unchanged disk entry) (key : Option SessionKey)
    (id : Option Id) : Announces evp disk entry key id sealed ↔ Agreeing entry key id := by
  cases content : entry.content with
  | file path size => exact announces_file content unchanged key id
  | data name data => exact announces_data content key id

theorem announced_contentLength (unchanged : Unchanged disk entry) {key : Option SessionKey}
    {id : Option Id} {iv : Iv} {size : Int}
    (given : announced evp disk entry key id iv = some (some size)) :
    contentLength disk entry key id = some size := by
  have overhead : Key.overhead true true = 28 := rfl
  cases id with
  | some client =>
    rw [announced, Option.some.injEq] at given
    exact given
  | none =>
    cases key with
    | none =>
      rw [announced, Option.some.injEq] at given
      exact given
    | some key =>
      cases content : entry.content with
      | file path length =>
        simp only [Unchanged, content] at unchanged
        obtain ⟨source, _, sized, _, ⟨clean, _⟩, _⟩ := unchanged
        obtain ⟨rfl, small⟩ := (announced_stream content sized clean iv).1 given
        unfold Source.Clean at clean
        simp only [contentLength, content, sized, Option.map_some, encryptedSize, clean, if_true]
        rw [wrap_of_le (by unfold intMin; omega) small]
      | data name data =>
        have sized := (announced_data content iv).1 given
        simp only [contentLength, content, Option.some.injEq]
        rcases sized with ⟨positive, rfl, small⟩ | ⟨none, rfl⟩
        · rw [if_neg (by omega), Nat.cast_add, ← wrap_wrap_add,
            wrap_of_le (by unfold intMin; omega) small]
        · rw [if_pos none]

theorem sendEntry_announced (unchanged : Unchanged disk entry) {key : Option SessionKey}
    {id : Option Id} {iv : Iv} {size : Int} {resp header : Bytes} {other : Entry} {body : Body Id}
    (given : announced evp disk entry key id iv = some (some size))
    (sent : sendEntry disk resp entry key id = .ok header other body) :
    header = okHeader size resp := by
  have length := announced_contentLength unchanged given
  simp only [sendEntry, length] at sent
  split at sent
  next =>
    split at sent
    next => contradiction
    next =>
      split at sent
      next => exact (Reply.ok.inj sent).1.symm
      next => exact (Reply.ok.inj sent).1.symm
  next =>
    split at sent
    next => exact (Reply.ok.inj sent).1.symm
    next => exact (Reply.ok.inj sent).1.symm
    next => exact (Reply.ok.inj sent).1.symm

end

def note : Entry := { content := .file friends 1 }

def noteDisk : Disk := ⟨fun _ => some [.data 7 []], fun _ => some [.data 7 []]⟩

theorem note_unchanged : Unchanged noteDisk note :=
  ⟨_, _, rfl, rfl, ⟨rfl, rfl⟩, rfl, rfl⟩

theorem announces_iff_public :
    Announces Key.zeroCipher noteDisk note none (none : Option Unit) (fun _ _ => Block.zero _) ↔
      Agreeing note none (none : Option Unit) :=
  announces_iff note_unchanged none none

/-- The file for a client that authenticated: the size of a sealed block, and 29 bytes. -/
theorem announced_wrong :
    (Unchanged noteDisk note ∧
      announced Key.zeroCipher noteDisk note (some (Block.zero _)) (some ()) (Block.zero _) =
        some (some 128) ∧
      ∃ body, bodyBytes Key.zeroCipher noteDisk note (some (Block.zero _)) (some ())
        (fun _ _ => Block.zero _) 128 (Block.zero _) = some body ∧ body.length = 29) ∧
    ¬ ∀ (disk : Disk) (entry : Entry) (key : Option SessionKey) (id : Option Unit),
      Unchanged disk entry →
        Announces Key.zeroCipher disk entry key id (fun _ _ => Block.zero _) := by
  have clean : Source.Clean [Segment.data (7 : Byte) []] := rfl
  have small : ((29 : Nat) : Int) ≤ intMax := by decide
  have sent : bodyBytes Key.zeroCipher noteDisk note (some (Block.zero _)) (some ())
      (fun _ _ => Block.zero _) 128 (Block.zero _) =
        some (Key.cipherText Key.zeroCipher (Block.zero _) true true (Block.zero _) [7]) :=
    (bodyBytes_stream rfl rfl clean (some ()) 128 (Block.zero _)).2 ⟨rfl, small⟩
  have length := Key.cipherText_length Key.zeroCipher (Block.zero _) true true (Block.zero _) [7]
  refine ⟨⟨note_unchanged, rfl, _, sent, length⟩, ?_⟩
  intro all
  obtain ⟨size, body, given, written, same⟩ :=
    all noteDisk note (some (Block.zero _)) (some ()) note_unchanged (Block.zero _) (Block.zero _)
  have sized : (128 : Int) = size := Option.some.inj (Option.some.inj given)
  subst sized
  obtain rfl := Option.some.inj (sent.symm.trans written)
  rw [length] at same
  contradiction

end Trut

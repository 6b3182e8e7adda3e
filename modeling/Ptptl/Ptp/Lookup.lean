import Ptptl.Ptp.CString

set_option autoImplicit false

/-! # The address and port of a URL -/

namespace Ptp.Lookup

def colon : Byte := 58

def slash : Byte := 47

/-- The functions of the system that know names; an address is in native byte order. -/
structure Resolver where
  gethostname : Option CString
  gethostbyname : CString → Option (List Nat)

/-- `strchr`, as an offset. -/
def strchr (text : Bytes) (char : Byte) : Option Nat :=
  if char ∈ text then some (text.idxOf char) else none

def localhost : CString := ⟨ascii "localhost", by decide⟩

def firstAddress (entry : Option (List Nat)) : Nat :=
  match entry with
  | none => 0
  | some addresses => (addresses.find? fun ip => ip ≠ 0).getD 0

def Resolver.resolve (resolver : Resolver) (name : CString) : Nat :=
  let name := if name = localhost then resolver.gethostname.getD name else name
  firstAddress (resolver.gethostbyname name)

def scheme : Bytes := ascii "http://"

/-- The name in front of a separator, copied to a block of `size + 1` bytes. -/
def copyName (text : Bytes) (size : Nat) : Option CString :=
  if size < 2147483647 then some (CString.ofBuffer (text.take size)) else none

/-- The name and the port of a URL; `strtoul` has `ulong` values. -/
def parse (ulong : Nat) (url : CString) (defport : UInt16) : Option (CString × UInt16) := do
  let http := scheme.isPrefixOf url.val
  let p := if http && defport == 0 then 80 else defport
  let text := if http then url.val.drop scheme.length else url.val
  match strchr text colon with
  -- of the path, if there is no port
  | some sep =>
    let name ← copyName text sep
    some (name, UInt16.ofNat (strtoul ulong (text.drop (sep + 1))))
  | none =>
    match strchr text slash with
    | some sep =>
      let name ← copyName text sep
      some (name, p)
    | none => some (CString.ofBuffer text, p)

/-- `Lookup`: the address, and the port that is stored. -/
def lookup (ulong : Nat) (resolver : Resolver) (url : CString) (defport : UInt16) :
    Option (Nat × UInt16) := do
  let (name, p) ← parse ulong url defport
  some (resolver.resolve name, p)

structure Url where
  http : Bool
  host : CString
  port : Option Bytes
  path : CString
  named : host.val ≠ [] ∧ colon ∉ host.val ∧ slash ∉ host.val
  numbered : ∀ digits, port = some digits →
    digits ≠ [] ∧ (∀ char ∈ digits, isdigit char = true) ∧ digitsValue digits ≤ 65535
  rooted : path.val = [] ∨ path.val.head? = some slash

namespace Url

def portText (url : Url) : Bytes :=
  match url.port with
  | some digits => colon :: digits
  | none => []

def tail (url : Url) : Bytes := url.portText ++ url.path.val

def bytes (url : Url) : Bytes := (if url.http then scheme else []) ++ (url.host.val ++ url.tail)

theorem digit_nonzero {char : Byte} (digit : isdigit char = true) : char ≠ 0 ∧ char ≠ slash := by
  constructor
  next =>
    rintro rfl
    exact absurd digit (by decide)
  next =>
    rintro rfl
    exact absurd digit (by decide)

theorem bytes_clean (url : Url) : (0 : Byte) ∉ url.bytes := by
  have front : (0 : Byte) ∉ if url.http then scheme else [] := by
    cases url.http <;> decide
  have numbers : (0 : Byte) ∉ url.portText := by
    unfold portText
    split
    next digits given =>
      intro member
      rcases List.mem_cons.1 member with zero | member
      · exact absurd zero (by decide)
      · exact (digit_nonzero ((url.numbered digits given).2.1 0 member)).1 rfl
    next => exact List.not_mem_nil
  simp only [bytes, tail, List.mem_append, not_or]
  exact ⟨front, url.host.property, numbers, url.path.property⟩

def text (url : Url) : CString := ⟨url.bytes, url.bytes_clean⟩

def wantedPort (url : Url) (defport : UInt16) : UInt16 :=
  -- without a port the default one, or else that of the scheme
  match url.port with
  | some digits => UInt16.ofNat (digitsValue digits)
  | none => if defport ≠ 0 then defport else if url.http then 80 else 0

end Url

def Parsed (ulong : Nat) (url : Url) : Prop :=
  ∀ resolver defport, lookup ulong resolver url.text defport =
    some (resolver.resolve url.host, url.wantedPort defport)

theorem strchr_append {front : Bytes} {char : Byte} (absent : char ∉ front) (back : Bytes) :
    strchr (front ++ char :: back) char = some front.length := by
  have found : (front ++ char :: back).idxOf char = front.length := by
    rw [List.idxOf_append_of_notMem absent, List.idxOf_cons_self, Nat.add_zero]
  simp [strchr, found]

theorem strchr_absent {text : Bytes} {char : Byte} (absent : char ∉ text) :
    strchr text char = none := by
  simp [strchr, absent]

namespace Url

theorem tail_stops (url : Url) :
    url.tail = [] ∨ ∃ rest, url.tail = colon :: rest ∨ url.tail = slash :: rest := by
  unfold tail portText
  cases url.port with
  | some digits => exact .inr ⟨digits ++ url.path.val, .inl rfl⟩
  | none =>
    rcases url.rooted with empty | start
    · exact .inl empty
    · obtain ⟨rest, whole⟩ := List.head?_eq_some_iff.1 start
      exact .inr ⟨rest, .inr whole⟩

theorem host_takeWhile (url : Url) :
    (url.host.val ++ url.tail).takeWhile (fun char => char ≠ colon && char ≠ slash) =
      url.host.val := by
  have inside : ∀ char ∈ url.host.val, (decide (char ≠ colon) && decide (char ≠ slash)) = true := by
    intro char member
    have first : char ≠ colon := fun same => url.named.2.1 (same ▸ member)
    have second : char ≠ slash := fun same => url.named.2.2 (same ▸ member)
    simp [first, second]
  rw [List.takeWhile_append_of_pos inside]
  rcases url.tail_stops with empty | ⟨rest, start | start⟩
  · rw [empty, List.takeWhile_nil, List.append_nil]
  · simp [start]
  · simp [start]

theorem not_scheme (url : Url) : scheme.isPrefixOf (url.host.val ++ url.tail) = false := by
  rw [← Bool.not_eq_true, List.isPrefixOf_iff_prefix]
  rintro ⟨rest, split⟩
  have host : url.host.val = ascii "http" := by
    rw [← url.host_takeWhile, ← split]
    rfl
  have behind : url.tail = ascii "://" ++ rest := by
    have parts : ascii "http" ++ (ascii "://" ++ rest) = ascii "http" ++ url.tail := by
      rw [← host, ← split, host]
      rfl
    exact (List.append_cancel_left parts).symm
  unfold tail portText at behind
  cases given : url.port with
  | some digits =>
    obtain ⟨present, all, -⟩ := url.numbered digits given
    rw [given] at behind
    cases digits with
    | nil => exact present rfl
    | cons first others =>
      have equal : first = slash := (List.cons.inj (List.cons.inj behind).2).1
      exact (digit_nonzero (all first List.mem_cons_self)).2 equal
  | none =>
    rw [given] at behind
    have path : url.path.val = colon :: (ascii "//" ++ rest) := behind
    rcases url.rooted with empty | start
    · rw [empty] at path
      contradiction
    · rw [path] at start
      exact absurd (Option.some.inj start) (by decide)

theorem scheme_off (url : Url) :
    scheme.isPrefixOf url.text.val = url.http ∧
      (if url.http then url.text.val.drop scheme.length else url.text.val) =
        url.host.val ++ url.tail := by
  cases http : url.http with
  | true => simp [text, bytes, http, List.isPrefixOf_iff_prefix]
  | false => simpa [text, bytes, http] using url.not_scheme

theorem host_taken (url : Url) : CString.ofBuffer ((url.host.val ++ url.tail).take
    url.host.val.length) = url.host := by
  rw [List.take_left, CString.ofBuffer_val]

theorem path_undigited (url : Url) : url.path.val.takeWhile isdigit = [] := by
  rcases url.rooted with empty | start
  · rw [empty, List.takeWhile_nil]
  · obtain ⟨rest, whole⟩ := List.head?_eq_some_iff.1 start
    rw [whole]
    rfl

end Url

section

variable {ulong : Nat} {url : Url}

theorem parse_port (wide : 4294967296 ≤ ulong) {digits : Bytes} (given : url.port = some digits)
    (defport : UInt16) : parse ulong url.text defport =
      if url.host.val.length < 2147483647 then
        some (url.host, UInt16.ofNat (digitsValue digits))
      else none := by
  obtain ⟨present, all, small⟩ := url.numbered digits given
  have tail : url.tail = colon :: (digits ++ url.path.val) := by
    simp [Url.tail, Url.portText, given]
  have place : strchr (url.host.val ++ url.tail) colon = some url.host.val.length := by
    rw [tail, strchr_append url.named.2.1]
  have behind : (url.host.val ++ url.tail).drop (url.host.val.length + 1) =
      digits ++ url.path.val := by
    rw [List.drop_length_add_append, tail, List.drop_one, List.tail_cons]
  have number := @strtoul_digits ulong _ _ present all (by omega) url.path_undigited
  unfold parse
  simp only [url.scheme_off.1, url.scheme_off.2, place, behind, number, copyName, url.host_taken]
  split <;> rfl

theorem parse_plain (given : url.port = none) (plain : colon ∉ url.path.val) (defport : UInt16) :
    parse ulong url.text defport =
      if url.path.val = [] ∨ url.host.val.length < 2147483647 then
        some (url.host, url.wantedPort defport)
      else none := by
  have tail : url.tail = url.path.val := by simp [Url.tail, Url.portText, given]
  have colons : strchr (url.host.val ++ url.tail) colon = none := by
    apply strchr_absent
    rw [tail, List.mem_append, not_or]
    exact ⟨url.named.2.1, plain⟩
  have port : (if url.http && defport == 0 then 80 else defport) = url.wantedPort defport := by
    unfold Url.wantedPort
    rw [given]
    by_cases zero : defport = 0
    · cases url.http <;> simp [zero]
    · simp [zero]
  unfold parse
  simp only [url.scheme_off.1, url.scheme_off.2, colons, port]
  rcases url.rooted with empty | start
  · have none : strchr (url.host.val ++ url.tail) slash = none := by
      apply strchr_absent
      rw [tail, empty, List.append_nil]
      exact url.named.2.2
    have whole : CString.ofBuffer (url.host.val ++ url.tail) = url.host := by
      rw [tail, empty, List.append_nil, CString.ofBuffer_val]
    simp only [none, whole, empty, true_or, if_true]
  · obtain ⟨rest, path⟩ := List.head?_eq_some_iff.1 start
    have place : strchr (url.host.val ++ url.tail) slash = some url.host.val.length := by
      rw [tail, path, strchr_append url.named.2.2]
    have present : url.path.val ≠ [] := by simp [path]
    simp only [place, copyName, url.host_taken, present, false_or]
    split <;> rfl

theorem parse_colon (given : url.port = none) (inside : colon ∈ url.path.val) (defport : UInt16) :
    parse ulong url.text defport = none ∨
      ∃ name p, parse ulong url.text defport = some (name, p) ∧ name ≠ url.host := by
  have tail : url.tail = url.path.val := by simp [Url.tail, Url.portText, given]
  obtain ⟨front, back, path, absent⟩ := List.eq_append_cons_of_mem inside
  have start : front.head? = some slash := by
    rcases url.rooted with empty | start
    · simp [empty] at path
    · cases front with
      | nil =>
        rw [path] at start
        exact absurd (Option.some.inj start) (by decide)
      | cons first others =>
        rw [path] at start
        exact start
  have split : url.host.val ++ url.tail = (url.host.val ++ front) ++ colon :: back := by
    rw [tail, path, List.append_assoc]
  have both : colon ∉ url.host.val ++ front := by
    rw [List.mem_append, not_or]
    exact ⟨url.named.2.1, absent⟩
  have place := strchr_append both back
  have clean : (0 : Byte) ∉ url.host.val ++ front := by
    intro member
    rcases List.mem_append.1 member with host | path'
    · exact url.host.property host
    · exact url.path.property (by rw [path]; exact List.mem_append_left _ path')
  unfold parse
  simp only [url.scheme_off.1, url.scheme_off.2, split, place, copyName, List.take_left]
  by_cases fits : (url.host.val ++ front).length < 2147483647
  · rw [if_pos fits]
    refine .inr ⟨_, _, rfl, ?_⟩
    intro same
    have bytes : url.host.val ++ front = url.host.val := by
      rw [← cString_eq clean]
      exact congrArg Subtype.val same
    have none : front = [] := by simpa using bytes
    simp [none] at start
  · rw [if_neg fits]
    exact .inl rfl

end

def knowing (name : CString) : Resolver where
  gethostname := none
  gethostbyname other := if other = name then some [1] else none

theorem knowing_resolve (name other : CString) :
    (knowing name).resolve other = if other = name then 1 else 0 := by
  have known : (knowing name).resolve other = firstAddress (if other = name then some [1] else none) := by
    simp only [Resolver.resolve, knowing, Option.getD_none, ite_self]
  rw [known]
  by_cases same : other = name <;> simp [same, firstAddress]

/-- `Lookup` takes a URL apart as it is meant exactly when a port is given or the path has no colon,
and the size of a name that is copied is an `int`. -/
theorem lookup_iff {ulong : Nat} (wide : 4294967296 ≤ ulong) (url : Url) :
    Parsed ulong url ↔
      (url.port = none → colon ∉ url.path.val) ∧
        (url.host.val.length < 2147483647 ∨ url.port = none ∧ url.path.val = []) := by
  cases given : url.port with
  | some digits =>
    have parsed := parse_port wide given
    constructor
    next =>
      intro holds
      have run := holds (knowing url.host) 0
      rw [lookup, parsed] at run
      by_cases fits : url.host.val.length < 2147483647
      · exact ⟨nofun, .inl fits⟩
      · simp [fits] at run
    next =>
      rintro ⟨-, fits | ⟨none, -⟩⟩
      · intro resolver defport
        simp [lookup, parsed, fits, Url.wantedPort, given]
      · contradiction
  | none =>
    by_cases inside : colon ∈ url.path.val
    next =>
      constructor
      next =>
        intro holds
        have run := holds (knowing url.host) 0
        rcases @parse_colon ulong url given inside 0 with undefined | ⟨name, p, parsed, other⟩
        · simp [lookup, undefined] at run
        · simp [lookup, parsed, knowing_resolve, other] at run
      next => exact fun condition => absurd inside (condition.1 rfl)
    next =>
      have parsed := @parse_plain ulong url given inside
      constructor
      next =>
        intro holds
        have run := holds (knowing url.host) 0
        rw [lookup, parsed] at run
        refine ⟨fun _ => inside, ?_⟩
        by_cases fits : url.path.val = [] ∨ url.host.val.length < 2147483647
        · rcases fits with empty | fits
          · exact .inr ⟨rfl, empty⟩
          · exact .inl fits
        · simp [fits] at run
      next =>
        rintro ⟨-, fits⟩ resolver defport
        have fits' : url.path.val = [] ∨ url.host.val.length < 2147483647 :=
          fits.elim .inr fun alone => .inl alone.2
        simp [lookup, parsed, fits']

def linux : CString := ⟨ascii "www.linux.org", by decide⟩

def linuxUrl (port : Option Bytes) (path : CString)
    (numbered : ∀ digits, port = some digits →
      digits ≠ [] ∧ (∀ char ∈ digits, isdigit char = true) ∧ digitsValue digits ≤ 65535)
    (rooted : path.val = [] ∨ path.val.head? = some slash) : Url :=
  ⟨true, linux, port, path, by decide, numbered, rooted⟩

theorem linux_port : ∀ digits, some (ascii "8080") = some digits →
    digits ≠ [] ∧ (∀ char ∈ digits, isdigit char = true) ∧ digitsValue digits ≤ 65535 := by
  intro digits given
  obtain rfl := Option.some.inj given
  exact ⟨by decide, by decide +kernel, by decide +kernel⟩

/-- `http://www.linux.org:8080/a:b` -/
def portUrl : Url :=
  linuxUrl (some (ascii "8080")) ⟨ascii "/a:b", by decide⟩ linux_port (.inr rfl)

/-- `http://www.linux.org/a:b` -/
def colonUrl : Url := linuxUrl none ⟨ascii "/a:b", by decide⟩ nofun (.inr rfl)

theorem lookup_port : Parsed 4294967296 portUrl :=
  (lookup_iff (by decide) portUrl).2 ⟨nofun, .inl (by decide)⟩

theorem lookup_colon :
    parse 4294967296 colonUrl.text 0 = some (⟨ascii "www.linux.org/a", by decide⟩, 0) ∧
      ¬ Parsed 4294967296 colonUrl := by
  have parsed : parse 4294967296 colonUrl.text 0 =
      some (⟨ascii "www.linux.org/a", by decide⟩, 0) := by rfl
  refine ⟨parsed, fun holds => ?_⟩
  have run := holds (knowing linux) 0
  rw [lookup, parsed] at run
  have other : (⟨ascii "www.linux.org/a", by decide⟩ : CString) ≠ linux := by decide
  have host : colonUrl.host = linux := rfl
  simp [knowing_resolve, other, host] at run

end Ptp.Lookup

import Ptptl.Ptp.CString
import Ptptl.Ptp.Identity

set_option autoImplicit false

namespace Ptp

/-- The value of an `ASN1_TYPE`, by how its members can be read. -/
inductive Asn1Value where
  | bmpString (data : Bytes)
  | string (data : Buffer)
  | null
  -- an ASN1_OBJECT, the one value that is not kept in an ASN1_STRING
  | object
deriving DecidableEq

/-- `value.octet_string`, which is NULL for an ASN.1 NULL. -/
def Asn1Value.octetString : Asn1Value → Option (Option Buffer)
  | .bmpString data => if small : data.length < 2147483647 then some (some ⟨data, small⟩) else none
  | .string data => some (some data)
  | .null => some none
  | .object => none

/-- `asc2uni`, without the terminator that `PKCS12_add_friendlyname_uni` takes off. -/
def asc2uni (text : Bytes) : Bytes := text.flatMap fun char => [0, char]

/-- The bytes that `uni2asc` copies: each second one, and the NUL after an odd number. -/
def lowBytes : Bytes → Bytes
  | [] => []
  | [_] => [0]
  | _ :: low :: rest => low :: lowBytes rest

/-- `uni2asc`: it reads before an empty string, and writes past its block for an odd number of
bytes that ends in zero. -/
def uni2asc (uni : Bytes) : Option CString :=
  match uni.getLast? with
  | none => none
  | some last =>
    if uni.length % 2 = 1 ∧ last = 0 then none
    else some (CString.ofBuffer (lowBytes uni))

/-- The part of a safe bag that its type selects. A shrouded key is kept as the archive has it. -/
inductive BagValue (pki : Pki) (Shrouded : Type) where
  -- `none` where EVP_PKCS82PKEY or d2i_X509 fails
  | keyBag (key : Option pki.PrivateKey)
  | shroudedKeyBag (key : Shrouded)
  | certBag (cert : Option pki.Cert)
  | secretBag (value : Asn1Value)
  | otherBag
  -- a key, certificate or secret bag without its value, or with one of another type
  | badBag

structure SafeBag (pki : Pki) (Shrouded : Type) where
  value : BagValue pki Shrouded
  friendlyName : Option Asn1Value := none
  localKeyId : Option Asn1Value := none

namespace SafeBag

variable {pki : Pki} {Shrouded : Type}

def getFriendlyname (bag : SafeBag pki Shrouded) : Option (Option CString) :=
  match bag.friendlyName with
  | some (.bmpString uni) => (uni2asc uni).map some
  | _ => some none

/-- The octet string of `PKCS12_get_attr(bag, NID_localKeyID)`. -/
def getLocalKeyId (bag : SafeBag pki Shrouded) : Option (Option Buffer) :=
  match bag.localKeyId with
  | some value => value.octetString
  | none => some none

end SafeBag

/-- The PKCS#12 functions of OpenSSL on files and archives; `none` is NULL. -/
structure Pkcs12 (pki : Pki) where
  Shrouded : Type
  File : Type
  Archive : Type
  Safe : Type
  decryptKey : Shrouded → Option CString → Option pki.PrivateKey
  packData : List (SafeBag pki Shrouded) → Safe
  packEncrypted : CString → List (SafeBag pki Shrouded) → Safe
  unpack : Safe → Option CString → Option (List (SafeBag pki Shrouded))
  packAuthsafes : List Safe → Archive
  unpackAuthsafes : Archive → List Safe
  setMac : Archive → Option CString → Archive
  verifyMac : Archive → Option CString → Bool
  encode : Archive → File
  decode : File → Option Archive

/-- Unpacking with the passwords of packing gives back what was packed. -/
structure Pkcs12.Lawful {pki : Pki} (pkcs12 : Pkcs12 pki) : Prop where
  data : ∀ bags passwd, pkcs12.unpack (pkcs12.packData bags) passwd = some bags
  encrypted : ∀ bags passwd,
    pkcs12.unpack (pkcs12.packEncrypted passwd bags) (some passwd) = some bags
  authsafes : ∀ safes macpasswd,
    pkcs12.unpackAuthsafes (pkcs12.setMac (pkcs12.packAuthsafes safes) macpasswd) = safes
  mac : ∀ archive macpasswd, pkcs12.verifyMac (pkcs12.setMac archive macpasswd) macpasswd = true
  file : ∀ archive, pkcs12.decode (pkcs12.encode archive) = some archive

theorem lowBytes_asc2uni (text : Bytes) : lowBytes (asc2uni text) = text := by
  induction text with
  | nil => rfl
  | cons char text ih =>
    change lowBytes (0 :: char :: asc2uni text) = char :: text
    rw [lowBytes, ih]

theorem asc2uni_even (text : Bytes) : (asc2uni text).length % 2 = 0 := by
  simp [asc2uni]

theorem uni2asc_asc2uni (text : CString) :
    uni2asc (asc2uni text.val) = if text.val = [] then none else some text := by
  unfold uni2asc
  have even := asc2uni_even text.val
  by_cases empty : text.val = []
  · simp [empty, asc2uni]
  · cases final : (asc2uni text.val).getLast? with
    | none =>
      rw [List.getLast?_eq_none_iff] at final
      have same := lowBytes_asc2uni text.val
      rw [final] at same
      exact absurd same.symm empty
    | some last =>
      have whole : ¬ ((asc2uni text.val).length % 2 = 1 ∧ last = 0) := by
        rw [even]
        simp
      simp only [if_neg whole, if_neg empty, lowBytes_asc2uni, CString.ofBuffer_val]

end Ptp

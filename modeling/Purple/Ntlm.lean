/-
The type 3 message of NTLM: `purple_ntlm_gen_type3` of ntlm.c, and when its fields are
where its header says.

A text is its characters before the NUL, and the C string their bytes.  `none` is a read
or a write outside a buffer.  The ciphers, `rand` and `g_convert` are parameters.  The
header counts two bytes for each byte of a UTF-8 text, which is the length of its UTF-16LE
form exactly when the text is ASCII.
-/

import Mathlib.Data.Vector.Defs
import Purple.CString
import Purple.Ciphers.DesModes
import Purple.Endian
import Purple.Utf8

namespace Purple.Ntlm

open List hiding Vector
open CString Endian

abbrev Bytes := List UInt8

/-- `des` takes a key and a block; `gConvert` the text that is to become UTF-16LE. -/
structure Primitives where
  des : Bytes → Bytes → Vector UInt8 8
  md4 : Bytes → Vector UInt8 16
  sesskey : Vector UInt8 16
  gConvert : List Char → Option Bytes

variable (prims : Primitives)

def zeros (count : Nat) : Bytes := List.replicate count 0

/-- Seven bytes with a parity bit after every seventh bit. -/
def setupDesKey (key56 : Bytes) : Bytes :=
  let at_ (index : Nat) : UInt8 := key56.getD index 0
  [at_ 0, (at_ 0 <<< 7) ||| (at_ 1 >>> 1), (at_ 1 <<< 6) ||| (at_ 2 >>> 2),
    (at_ 2 <<< 5) ||| (at_ 3 >>> 3), (at_ 3 <<< 4) ||| (at_ 4 >>> 4),
    (at_ 4 <<< 3) ||| (at_ 5 >>> 5), (at_ 5 <<< 2) ||| (at_ 6 >>> 6), at_ 6 <<< 1]

def desEcbEncrypt (plaintext key : Bytes) : Bytes := (prims.des key plaintext).toList

def calcResp (keys plaintext : Bytes) : Bytes :=
  desEcbEncrypt prims plaintext (setupDesKey keys) ++
    desEcbEncrypt prims plaintext (setupDesKey (keys.drop 7)) ++
    desEcbEncrypt prims plaintext (setupDesKey (keys.drop 14))

def toUpper (byte : UInt8) : UInt8 := if 97 ≤ byte ∧ byte ≤ 122 then byte - 32 else byte

def lmPw (passw : Bytes) : Bytes :=
  let front := (passw.take 14).map toUpper
  front ++ zeros (14 - front.length)

def magic : Bytes := [0x4B, 0x47, 0x53, 0x21, 0x40, 0x23, 0x24, 0x25]

def lmResp (passw nonce : Bytes) : Bytes :=
  let lmPw := lmPw passw
  let lmHpw := desEcbEncrypt prims magic (setupDesKey lmPw) ++
    desEcbEncrypt prims magic (setupDesKey (lmPw.drop 7)) ++ zeros 5
  calcResp prims lmHpw nonce

def ntPw (passw : Bytes) : Bytes := passw.flatMap fun byte => [byte, 0]

def ntResp (passw nonce : Bytes) : Bytes :=
  calcResp prims ((prims.md4 (ntPw passw)).toList ++ zeros 5) nonce

/-- The buffer of `nt_pw` holds 128 bytes. -/
def ntResponse (passw nonce : Bytes) : Option Bytes :=
  if 2 * passw.length ≤ 128 then some (ntResp prims passw nonce) else none

/-- A number in `width` bytes. -/
def word (width : Nat) (value : Int) : Bytes := little width (value % 256 ^ width).toNat

def pair (len off : Int) : Bytes := word 2 len ++ word 2 len ++ word 4 off

/-- What an `int` holds of a number. -/
def toInt (value : Int) : Int := value.bmod (2 ^ 32)

/-- `strlen(text) * 2` -/
def doubled (text : List Char) : Int := toInt (2 * (Utf8.encode text).length)

def sessionSize (flags : Bool) : Nat := if flags then 0x10 else 0

/-- `msglen`; the allocation of a negative one fails, as that of one that is too small. -/
def messageLength (username hostname domain : List Char) (flags : Bool) : Nat :=
  (toInt (64 + doubled domain + doubled username + doubled hostname + 24 + 24 +
    sessionSize flags)).toNat

/-- `struct type3_message` with the flags it has in the end. -/
def header (domainlen usernamelen hostnamelen : Int) (flags : Bool) : Bytes :=
  ascii "NTLMSSP" ++ [0] ++ word 4 3 ++
    pair 24 (64 + domainlen + usernamelen + hostnamelen) ++
    pair 24 (64 + domainlen + usernamelen + hostnamelen + 24) ++
    pair domainlen 64 ++
    pair usernamelen (64 + domainlen) ++
    pair hostnamelen (64 + domainlen + usernamelen) ++
    (if flags then pair 16 (64 + domainlen + usernamelen + hostnamelen + 24 + 24) else pair 0 0) ++
    word 4 (if flags then 0x409082d4 else 0x00008201)

/-- A copy to the cursor of a buffer of `msglen` bytes. -/
def put (msglen : Nat) (written data : Bytes) : Option Bytes :=
  if written.length + data.length ≤ msglen then some (written ++ data) else none

/-- The converted text, of which `len` bytes are copied. -/
def putText (msglen : Nat) (written : Bytes) (text : List Char) (len : Int) : Option Bytes :=
  match prims.gConvert text with
  | none => some written
  | some ucs2le =>
    if 0 ≤ len ∧ len.toNat ≤ ucs2le.length then put msglen written (ucs2le.take len.toNat) else none

def session (flags : Bool) : Bytes := if flags then prims.sesskey.toList else []

/-- What is handed to `purple_base64_encode`. -/
def purpleNtlmGenType3 (username : List Char) (passw : Bytes) (hostname domain : List Char)
    (nonce : Bytes) (flags : Bool) : Option Bytes := do
  let msglen := messageLength username hostname domain flags
  let written ← put msglen [] (header (doubled domain) (doubled username) (doubled hostname) flags)
  let written ← putText prims msglen written domain (doubled domain)
  let written ← putText prims msglen written username (doubled username)
  let written ← putText prims msglen written hostname (doubled hostname)
  let written ← put msglen written (lmResp prims passw nonce)
  let nt ← ntResponse prims passw nonce
  let written ← put msglen written nt
  let written ← put msglen written (session prims flags)
  some (written ++ zeros (msglen - written.length))

def utf16Char (char : Char) : Bytes :=
  if char.toNat < 0x10000 then little 2 char.toNat
  else little 2 (0xD800 + (char.toNat - 0x10000) / 0x400) ++ little 2 (0xDC00 + char.toNat % 0x400)

def utf16le (text : List Char) : Bytes := text.flatMap utf16Char

def Ascii (text : List Char) : Prop := ∀ char ∈ text, char.val ≤ 127

theorem utf16Char_length (char : Char) :
    (utf16Char char).length ≤ 2 * char.utf8Size ∧ 2 * char.utf8Size ≤ 3 * (utf16Char char).length ∧
      ((utf16Char char).length = 2 * char.utf8Size ↔ char.val ≤ 127) := by
  have number : char.toNat = char.val.toNat := rfl
  have limit : (127 : UInt32).toNat = 127 := rfl
  rw [utf16Char]
  obtain one | two | three | four := char.utf8Size_eq
  · have range := Char.utf8Size_eq_one_iff.mp one
    rw [UInt32.le_iff_toNat_le] at range ⊢
    rw [if_pos (by omega), little_length, one]
    omega
  · have range := Char.utf8Size_eq_two_iff.mp two
    rw [UInt32.lt_iff_toNat_lt, UInt32.le_iff_toNat_le] at range
    have high : (0x7ff : UInt32).toNat = 0x7ff := rfl
    rw [UInt32.le_iff_toNat_le, if_pos (by omega), little_length, two]
    omega
  · have range := Char.utf8Size_eq_three_iff.mp three
    rw [UInt32.lt_iff_toNat_lt, UInt32.le_iff_toNat_le] at range
    have low : (0x7ff : UInt32).toNat = 0x7ff := rfl
    have high : (0xffff : UInt32).toNat = 0xffff := rfl
    rw [UInt32.le_iff_toNat_le, if_pos (by omega), little_length, three]
    omega
  · have range := Char.utf8Size_eq_four_iff.mp four
    rw [UInt32.lt_iff_toNat_lt] at range
    have low : (0xffff : UInt32).toNat = 0xffff := rfl
    rw [UInt32.le_iff_toNat_le, if_neg (by omega), length_append, little_length, little_length, four]
    omega

theorem utf16le_length (text : List Char) :
    (utf16le text).length ≤ 2 * (Utf8.encode text).length ∧
      2 * (Utf8.encode text).length ≤ 3 * (utf16le text).length ∧
      ((utf16le text).length = 2 * (Utf8.encode text).length ↔ Ascii text) := by
  induction text with
  | nil => exact ⟨Nat.le_refl _, Nat.le_refl _, iff_of_true rfl fun _ member => absurd member not_mem_nil⟩
  | cons char text ih =>
    obtain ⟨short, long, same⟩ := ih
    obtain ⟨shortChar, longChar, sameChar⟩ := utf16Char_length char
    have whole16 : (utf16le (char :: text)).length = (utf16Char char).length + (utf16le text).length := by
      rw [utf16le, flatMap_cons, length_append]
      rfl
    have whole8 : (Utf8.encode (char :: text)).length = char.utf8Size + (Utf8.encode text).length := by
      rw [Utf8.encode, flatMap_cons, length_append, String.length_utf8EncodeChar]
      rfl
    have split : Ascii (char :: text) ↔ char.val ≤ 127 ∧ Ascii text := forall_mem_cons
    rw [split, ← sameChar, ← same, whole16, whole8]
    refine ⟨by omega, by omega, ?_⟩
    omega

open Option

def offsetAt (message : Bytes) (at_ : Nat) : Nat := littleValue ((message.drop (at_ + 4)).take 4)

/-- The pair at `at_` denotes the content. -/
structure Carries (message : Bytes) (at_ : Nat) (content : Bytes) : Prop where
  length1 : littleValue ((message.drop at_).take 2) = content.length
  length2 : littleValue ((message.drop (at_ + 2)).take 2) = content.length
  inside : offsetAt message at_ + content.length ≤ message.length
  slice : (message.drop (offsetAt message at_)).take content.length = content

def Apart (message : Bytes) (left right : Nat × Bytes) : Prop :=
  offsetAt message left.1 + left.2.length ≤ offsetAt message right.1 ∨
    offsetAt message right.1 + right.2.length ≤ offsetAt message left.1

variable (prims : Primitives)

/-- The fields of the message; without flags there is no session key. -/
def parts (username : List Char) (passw : Bytes) (hostname domain : List Char) (nonce : Bytes)
    (flags : Bool) : List (Nat × Bytes) :=
  [(28, utf16le domain), (36, utf16le username), (44, utf16le hostname),
    (12, lmResp prims passw nonce), (20, ntResp prims passw nonce),
    (52, session prims flags)]

/-- The run keeps to its buffers, and the fields are in the message, behind the header and apart. -/
def Delivers (username : List Char) (passw : Bytes) (hostname domain : List Char) (nonce : Bytes)
    (flags : Bool) : Prop :=
  ∃ message, purpleNtlmGenType3 prims username passw hostname domain nonce flags = some message ∧
    let fields := parts prims username passw hostname domain nonce flags
    (∀ field ∈ fields, Carries message field.1 field.2) ∧ fields.Pairwise (Apart message) ∧
      ∀ field ∈ fields, field.2 = [] ∨ 64 ≤ offsetAt message field.1

/-- ASCII whose UTF-16LE form a 16-bit length can count. -/
def Fits (text : List Char) : Prop := Ascii text ∧ 2 * (Utf8.encode text).length ≤ 65535

variable {text username hostname domain : List Char} {msglen : Nat} {written passw : Bytes}

theorem littleValue_word2 (value : Int) : (littleValue (word 2 value) : Int) = value % 65536 := by
  have fits : (value % 256 ^ 2).toNat < 256 ^ 2 := by omega
  rw [word, littleValue_little 2 fits, Int.toNat_of_nonneg (by omega)]
  rfl

theorem littleValue_word4 {value : Int} (low : 0 ≤ value) (high : value < 4294967296) :
    (littleValue (word 4 value) : Int) = value := by
  have fits : (value % 256 ^ 4).toNat < 256 ^ 4 := by omega
  rw [word, littleValue_little 4 fits, Int.toNat_of_nonneg (by omega)]
  omega

theorem header_length (domainlen usernamelen hostnamelen : Int) (flags : Bool) :
    (header domainlen usernamelen hostnamelen flags).length = 64 := by
  cases flags with
  | false => rfl
  | true => rfl

def pairs (domainlen usernamelen hostnamelen : Int) (flags : Bool) : List (Nat × Int × Int) :=
  let texts := 64 + domainlen + usernamelen + hostnamelen
  [(28, domainlen, 64), (36, usernamelen, 64 + domainlen), (44, hostnamelen, 64 + domainlen + usernamelen),
    (12, 24, texts), (20, 24, texts + 24), if flags then (52, 16, texts + 24 + 24) else (52, 0, 0)]

theorem header_pairs (domainlen usernamelen hostnamelen : Int) (flags : Bool) (rest : Bytes) :
    ∀ each ∈ pairs domainlen usernamelen hostnamelen flags,
      let message := header domainlen usernamelen hostnamelen flags ++ rest
      (message.drop each.1).take 2 = word 2 each.2.1 ∧
        (message.drop (each.1 + 2)).take 2 = word 2 each.2.1 ∧
        (message.drop (each.1 + 4)).take 4 = word 4 each.2.2 := by
  cases flags with
  | false =>
    simp only [pairs, forall_mem_cons]
    exact ⟨⟨rfl, rfl, rfl⟩, ⟨rfl, rfl, rfl⟩, ⟨rfl, rfl, rfl⟩, ⟨rfl, rfl, rfl⟩, ⟨rfl, rfl, rfl⟩,
      ⟨rfl, rfl, rfl⟩, fun _ member => absurd member not_mem_nil⟩
  | true =>
    simp only [pairs, forall_mem_cons]
    exact ⟨⟨rfl, rfl, rfl⟩, ⟨rfl, rfl, rfl⟩, ⟨rfl, rfl, rfl⟩, ⟨rfl, rfl, rfl⟩, ⟨rfl, rfl, rfl⟩,
      ⟨rfl, rfl, rfl⟩, fun _ member => absurd member not_mem_nil⟩

/-! ### The message of a run that fits -/

theorem carries_of_pair {message front content back : Bytes} {at_ : Nat} {len off : Int}
    (reads : (message.drop at_).take 2 = word 2 len ∧ (message.drop (at_ + 2)).take 2 = word 2 len ∧
      (message.drop (at_ + 4)).take 4 = word 4 off)
    (split : message = front ++ (content ++ back)) (counted : len = content.length)
    (short : content.length ≤ 65535) (placed : off = front.length) (near : front.length < 4294967296) :
    Carries message at_ content ∧ offsetAt message at_ = front.length := by
  obtain ⟨first, second, third⟩ := reads
  have length := littleValue_word2 len
  have place := littleValue_word4 (show 0 ≤ off by omega) (show off < 4294967296 by omega)
  have offset : offsetAt message at_ = front.length := by
    rw [offsetAt, third]
    omega
  refine ⟨?_, offset⟩
  constructor
  · rw [first]
    omega
  · rw [second]
    omega
  · rw [offset, split, length_append, length_append]
    omega
  · rw [offset, split, drop_left, take_left]

variable {prims}

theorem toInt_small {value : Int} (low : 0 ≤ value) (high : value < 2 ^ 31) : toInt value = value :=
  Int.bmod_eq_of_le (by omega) (by omega)

theorem doubled_of_fits (fits : Fits text) :
    doubled text = (utf16le text).length ∧ (utf16le text).length ≤ 65535 := by
  obtain ⟨ascii_, short⟩ := fits
  have same := (utf16le_length text).2.2.mpr ascii_
  refine ⟨?_, by omega⟩
  rw [doubled, toInt_small (by omega) (by omega)]
  omega

theorem put_room {data : Bytes} (room : written.length + data.length ≤ msglen) :
    put msglen written data = some (written ++ data) := if_pos room

theorem putText_room {len : Int} (converts : prims.gConvert text = some (utf16le text))
    (whole : len = (utf16le text).length) (room : written.length + (utf16le text).length ≤ msglen) :
    putText prims msglen written text len = some (written ++ utf16le text) := by
  have count : len.toNat = (utf16le text).length := by omega
  rw [putText, converts]
  dsimp only
  rw [if_pos ⟨by omega, by omega⟩, count, take_length, put_room room]

theorem calcResp_length (keys plaintext : Bytes) : (calcResp prims keys plaintext).length = 24 := by
  rw [calcResp, length_append, length_append, desEcbEncrypt, desEcbEncrypt, desEcbEncrypt,
    Vector.length_toList, Vector.length_toList, Vector.length_toList]

theorem session_length (flags : Bool) : (session prims flags).length = sessionSize flags := by
  cases flags with
  | false => rfl
  | true => exact Vector.length_toList

def tail (prims : Primitives) (username : List Char) (passw : Bytes) (hostname domain : List Char)
    (nonce : Bytes) (flags : Bool) : Bytes :=
  utf16le domain ++ (utf16le username ++ (utf16le hostname ++ (lmResp prims passw nonce ++
    (ntResp prims passw nonce ++ session prims flags))))

theorem purpleNtlmGenType3_fits (converts : ∀ text, prims.gConvert text = some (utf16le text))
    (fitsDomain : Fits domain) (fitsUsername : Fits username) (fitsHostname : Fits hostname)
    (short : passw.length ≤ 64) (nonce : Bytes) (flags : Bool) :
    purpleNtlmGenType3 prims username passw hostname domain nonce flags =
      some (header (doubled domain) (doubled username) (doubled hostname) flags ++
        tail prims username passw hostname domain nonce flags) := by
  obtain ⟨domainSame, domainShort⟩ := doubled_of_fits fitsDomain
  obtain ⟨usernameSame, usernameShort⟩ := doubled_of_fits fitsUsername
  obtain ⟨hostnameSame, hostnameShort⟩ := doubled_of_fits fitsHostname
  have headerLength := header_length (doubled domain) (doubled username) (doubled hostname) flags
  have lmLength : (lmResp prims passw nonce).length = 24 := calcResp_length _ _
  have ntLength : (ntResp prims passw nonce).length = 24 := calcResp_length _ _
  have sessionLength : (session prims flags).length = sessionSize flags := session_length flags
  have sessionShort : sessionSize flags ≤ 16 := by
    cases flags with
    | false => exact Nat.zero_le 16
    | true => exact Nat.le_refl 16
  have size : messageLength username hostname domain flags =
      64 + (utf16le domain).length + (utf16le username).length + (utf16le hostname).length + 24 + 24 +
        (session prims flags).length := by
    rw [messageLength, domainSame, usernameSame, hostnameSame, sessionLength,
      toInt_small (by omega) (by omega)]
    omega
  unfold purpleNtlmGenType3
  dsimp only
  generalize messageLength username hostname domain flags = msglen at size ⊢
  generalize doubled domain = domainlen at *
  generalize doubled username = usernamelen at *
  generalize doubled hostname = hostnamelen at *
  have nt : ntResponse prims passw nonce = some (ntResp prims passw nonce) := if_pos (by omega)
  rw [put_room (by rw [length_nil, headerLength]; omega), bind_eq_bind, bind_some,
    nil_append]
  rw [putText_room (converts domain) domainSame (by omega), bind_some]
  rw [putText_room (converts username) usernameSame (by rw [length_append]; omega),
    bind_some]
  rw [putText_room (converts hostname) hostnameSame
    (by rw [length_append, length_append]; omega), bind_some]
  rw [put_room (by simp only [length_append]; omega), bind_some, nt, bind_some]
  rw [put_room (by simp only [length_append]; omega), bind_some]
  rw [put_room (by simp only [length_append]; omega), bind_some]
  have full : msglen - (header domainlen usernamelen hostnamelen flags ++ utf16le domain ++
      utf16le username ++ utf16le hostname ++ lmResp prims passw nonce ++ ntResp prims passw nonce ++
      session prims flags).length = 0 := by
    simp only [length_append]
    omega
  rw [full, tail]
  simp only [append_assoc]
  exact congrArg some (by rw [zeros, replicate_zero, append_nil])

theorem fits_delivers (converts : ∀ text, prims.gConvert text = some (utf16le text))
    (fitsDomain : Fits domain) (fitsUsername : Fits username) (fitsHostname : Fits hostname)
    (short : passw.length ≤ 64) (nonce : Bytes) (flags : Bool) :
    Delivers prims username passw hostname domain nonce flags := by
  obtain ⟨domainSame, domainShort⟩ := doubled_of_fits fitsDomain
  obtain ⟨usernameSame, usernameShort⟩ := doubled_of_fits fitsUsername
  obtain ⟨hostnameSame, hostnameShort⟩ := doubled_of_fits fitsHostname
  have lmLength : (lmResp prims passw nonce).length = 24 := calcResp_length _ _
  have ntLength : (ntResp prims passw nonce).length = 24 := calcResp_length _ _
  have sessionLength : (session prims flags).length = sessionSize flags := session_length flags
  refine ⟨_, purpleNtlmGenType3_fits converts fitsDomain fitsUsername fitsHostname short nonce flags, ?_⟩
  have reads := header_pairs (doubled domain) (doubled username) (doubled hostname) flags
    (tail prims username passw hostname domain nonce flags)
  have headerLength := header_length (doubled domain) (doubled username) (doubled hostname) flags
  generalize doubled domain = domainlen at *
  generalize doubled username = usernamelen at *
  generalize doubled hostname = hostnamelen at *
  generalize header domainlen usernamelen hostnamelen flags = front at *
  rw [tail] at *
  rw [parts]
  simp only [pairs, forall_mem_cons] at reads
  generalize utf16le domain = domainText at *
  generalize utf16le username = usernameText at *
  generalize utf16le hostname = hostnameText at *
  generalize lmResp prims passw nonce = lm at *
  generalize ntResp prims passw nonce = nt at *
  generalize session prims flags = key at *
  obtain ⟨domainReads, usernameReads, hostnameReads, lmReads, ntReads, sessionReads, _⟩ := reads
  obtain ⟨domainCarried, domainAt⟩ := carries_of_pair domainReads rfl domainSame domainShort
    (by omega) (by omega)
  have behindDomain := (append_assoc front domainText
    (usernameText ++ (hostnameText ++ (lm ++ (nt ++ key))))).symm
  obtain ⟨usernameCarried, usernameAt⟩ := carries_of_pair usernameReads behindDomain usernameSame
    usernameShort (by rw [length_append]; omega) (by rw [length_append]; omega)
  have behindUsername := behindDomain.trans (append_assoc (front ++ domainText) usernameText
    (hostnameText ++ (lm ++ (nt ++ key)))).symm
  obtain ⟨hostnameCarried, hostnameAt⟩ := carries_of_pair hostnameReads behindUsername hostnameSame
    hostnameShort (by simp only [length_append]; omega) (by simp only [length_append]; omega)
  have behindHostname := behindUsername.trans (append_assoc (front ++ domainText ++ usernameText)
    hostnameText (lm ++ (nt ++ key))).symm
  obtain ⟨lmCarried, lmAt⟩ := carries_of_pair lmReads behindHostname (by omega) (by omega)
    (by simp only [length_append]; omega) (by simp only [length_append]; omega)
  have behindLm := behindHostname.trans (append_assoc
    (front ++ domainText ++ usernameText ++ hostnameText) lm (nt ++ key)).symm
  obtain ⟨ntCarried, ntAt⟩ := carries_of_pair ntReads behindLm (by omega) (by omega)
    (by simp only [length_append]; omega) (by simp only [length_append]; omega)
  have behindNt := behindLm.trans (append_assoc
    (front ++ domainText ++ usernameText ++ hostnameText ++ lm) nt key).symm
  let before := front ++ domainText ++ usernameText ++ hostnameText ++ lm ++ nt
  have beforeLength : before.length =
      64 + domainText.length + usernameText.length + hostnameText.length + 48 := by
    simp only [before, length_append]
    omega
  have sessionCarried :
      Carries (front ++ (domainText ++ (usernameText ++ (hostnameText ++ (lm ++ (nt ++ key)))))) 52 key ∧
      (offsetAt (front ++ (domainText ++ (usernameText ++ (hostnameText ++ (lm ++ (nt ++ key)))))) 52 =
        before.length ∨ key = [] ∧
      offsetAt (front ++ (domainText ++ (usernameText ++ (hostnameText ++ (lm ++ (nt ++ key)))))) 52 = 0) := by
    cases flags with
    | true =>
      have whole := behindNt.trans (congrArg (before ++ ·) (append_nil key).symm)
      have counted : (16 : Int) = key.length := by
        rw [sessionLength]
        rfl
      rw [if_pos rfl] at sessionReads
      dsimp only at sessionReads
      obtain ⟨carried, at_⟩ := carries_of_pair sessionReads whole counted (by omega) (by omega)
        (by omega)
      exact ⟨carried, Or.inl at_⟩
    | false =>
      have empty : key = [] := length_eq_zero_iff.mp sessionLength
      have counted : (0 : Int) = key.length := by
        rw [empty]
        rfl
      have whole : front ++ (domainText ++ (usernameText ++ (hostnameText ++ (lm ++ (nt ++ key))))) =
          [] ++ (key ++ (front ++
            (domainText ++ (usernameText ++ (hostnameText ++ (lm ++ (nt ++ key))))))) := by
        rw [empty]
        rfl
      obtain ⟨carried, at_⟩ := carries_of_pair sessionReads whole counted (by omega) rfl (by decide)
      exact ⟨carried, Or.inr ⟨empty, at_⟩⟩
  generalize front ++ (domainText ++ (usernameText ++ (hostnameText ++ (lm ++ (nt ++ key))))) =
    message at *
  obtain ⟨sessionCarried, sessionAt⟩ := sessionCarried
  simp only [length_append] at usernameAt hostnameAt lmAt ntAt
  refine ⟨?_, ?_, ?_⟩
  · simp only [forall_mem_cons]
    exact ⟨domainCarried, usernameCarried, hostnameCarried, lmCarried, ntCarried, sessionCarried,
      fun _ member => absurd member not_mem_nil⟩
  · -- the offsets grow, but that of a session key that there is not
    obtain sessionAt | ⟨empty, sessionAt⟩ := sessionAt
    all_goals
      simp only [pairwise_cons, forall_mem_cons, Apart, domainAt, usernameAt, hostnameAt, lmAt,
        ntAt, sessionAt, not_mem_nil, false_implies, implies_true, and_true, List.Pairwise.nil]
    · omega
    · rw [empty, length_nil]
      omega
  · simp only [forall_mem_cons, domainAt, usernameAt, hostnameAt, lmAt, ntAt]
    have sessionBehind : key = [] ∨ 64 ≤ offsetAt message 52 := by
      obtain sessionAt | ⟨empty, _⟩ := sessionAt
      · right
        omega
      · exact Or.inl empty
    exact ⟨Or.inr (by omega), Or.inr (by omega), Or.inr (by omega), Or.inr (by omega), Or.inr (by omega),
      sessionBehind, fun _ member => absurd member not_mem_nil⟩

/-! ### What a message shows -/

theorem putText_some {after : Bytes} {len : Int}
    (converts : prims.gConvert text = some (utf16le text))
    (copied : putText prims msglen written text len = some after) :
    (0 ≤ len ∧ len ≤ (utf16le text).length) ∧ ∃ more, after = written ++ more := by
  rw [putText, converts] at copied
  dsimp only at copied
  split at copied
  · rename_i inside
    rw [put] at copied
    split at copied
    · exact ⟨by omega, _, (Option.some.inj copied).symm⟩
    · cases copied
  · cases copied

theorem put_some {data after : Bytes} (copied : put msglen written data = some after) :
    after = written ++ data := by
  rw [put] at copied
  split at copied
  · exact (Option.some.inj copied).symm
  · cases copied

theorem purpleNtlmGenType3_some {nonce message : Bytes} {flags : Bool}
    (converts : ∀ text, prims.gConvert text = some (utf16le text))
    (ran : purpleNtlmGenType3 prims username passw hostname domain nonce flags = some message) :
    (∃ rest, message =
      header (doubled domain) (doubled username) (doubled hostname) flags ++ rest) ∧
    (∀ text ∈ [domain, username, hostname], 0 ≤ doubled text ∧ doubled text ≤ (utf16le text).length) ∧
    passw.length ≤ 64 := by
  unfold purpleNtlmGenType3 at ran
  dsimp only at ran
  obtain ⟨first, put1, ran⟩ := bind_eq_some_iff.mp ran
  obtain ⟨second, put2, ran⟩ := bind_eq_some_iff.mp ran
  obtain ⟨third, put3, ran⟩ := bind_eq_some_iff.mp ran
  obtain ⟨fourth, put4, ran⟩ := bind_eq_some_iff.mp ran
  obtain ⟨fifth, put5, ran⟩ := bind_eq_some_iff.mp ran
  obtain ⟨nt, short, ran⟩ := bind_eq_some_iff.mp ran
  obtain ⟨sixth, put6, ran⟩ := bind_eq_some_iff.mp ran
  obtain ⟨seventh, put7, last⟩ := bind_eq_some_iff.mp ran
  have whole := put_some put1
  obtain ⟨insideDomain, more2, rfl⟩ := putText_some (converts domain) put2
  obtain ⟨insideUsername, more3, rfl⟩ := putText_some (converts username) put3
  obtain ⟨insideHostname, more4, rfl⟩ := putText_some (converts hostname) put4
  have fifthWhole := put_some put5
  have sixthWhole := put_some put6
  have seventhWhole := put_some put7
  refine ⟨?_, ?_, ?_⟩
  · rw [seventhWhole, sixthWhole, fifthWhole, whole] at last
    simp only [nil_append, append_assoc] at last
    exact ⟨_, (Option.some.inj last).symm⟩
  · simp only [forall_mem_cons]
    exact ⟨insideDomain, insideUsername, insideHostname, fun _ member => absurd member not_mem_nil⟩
  · rw [ntResponse] at short
    split at short
    · omega
    · cases short

theorem fits_of_read (high : doubled text ≤ (utf16le text).length)
    (read : doubled text % 65536 = (utf16le text).length) : Fits text := by
  obtain ⟨short, long, same⟩ := utf16le_length text
  have small : doubled text = 2 * (Utf8.encode text).length := by
    rw [doubled, toInt_small (by omega) (by omega)]
  exact ⟨same.mp (by omega), by omega⟩

theorem delivers_fits {nonce : Bytes} {flags : Bool}
    (converts : ∀ text, prims.gConvert text = some (utf16le text))
    (delivers : Delivers prims username passw hostname domain nonce flags) :
    (∀ text ∈ [domain, username, hostname], Fits text) ∧ passw.length ≤ 64 := by
  obtain ⟨message, ran, carried, _, _⟩ := delivers
  obtain ⟨⟨rest, whole⟩, inside, short⟩ := purpleNtlmGenType3_some converts ran
  refine ⟨?_, short⟩
  have reads := header_pairs (doubled domain) (doubled username) (doubled hostname) flags rest
  rw [← whole] at reads
  simp only [pairs, parts, forall_mem_cons] at reads carried inside
  obtain ⟨domainReads, usernameReads, hostnameReads, _⟩ := reads
  obtain ⟨domainCarried, usernameCarried, hostnameCarried, _⟩ := carried
  obtain ⟨insideDomain, insideUsername, insideHostname, _⟩ := inside
  have read {at_ : Nat} {text : List Char} (first : (message.drop at_).take 2 = word 2 (doubled text))
      (carries : Carries message at_ (utf16le text)) :
      doubled text % 65536 = (utf16le text).length := by
    rw [← littleValue_word2, ← first, carries.length1]
  simp only [forall_mem_cons]
  exact ⟨fits_of_read insideDomain.2 (read domainReads.1 domainCarried),
    fits_of_read insideUsername.2 (read usernameReads.1 usernameCarried),
    fits_of_read insideHostname.2 (read hostnameReads.1 hostnameCarried),
    fun _ member => absurd member not_mem_nil⟩

/-- The fields are in place exactly for short ASCII texts and a password that the buffer holds. -/
theorem purpleNtlmGenType3_delivers_iff (prims : Primitives)
    (converts : ∀ text, prims.gConvert text = some (utf16le text))
    (username : List Char) (passw : Bytes) (hostname domain : List Char) (nonce : Bytes) (flags : Bool) :
    Delivers prims username passw hostname domain nonce flags ↔
      (∀ text ∈ [domain, username, hostname], Fits text) ∧ passw.length ≤ 64 := by
  constructor
  · exact delivers_fits converts
  · intro fits
    obtain ⟨texts, short⟩ := fits
    simp only [forall_mem_cons] at texts
    obtain ⟨fitsDomain, fitsUsername, fitsHostname, _⟩ := texts
    exact fits_delivers converts fitsDomain fitsUsername fitsHostname short nonce flags

open Ciphers.Des (desSetKey desEncrypt)

def desBytes (key block : Bytes) : Bytes :=
  (((desSetKey key).bind fun ctx => desEncrypt ctx block).map Prod.fst).getD []

def secretMd4 : Bytes :=
  [0xcd, 0x06, 0xca, 0x7c, 0x7e, 0x10, 0xc9, 0x9b, 0x1d, 0x33, 0xb7, 0x48, 0x5a, 0x2e, 0xd8, 0x08]

def secretPrimitives : Primitives where
  des key block := Vector.ofFn fun index => (desBytes key block).getD index 0
  md4 _ := Vector.ofFn fun index => secretMd4.getD index 0
  sesskey := Vector.replicate 16 7
  gConvert text := some (utf16le text)

def secretNonce : Bytes := [0x01, 0x23, 0x45, 0x67, 0x89, 0xab, 0xcd, 0xef]

theorem ascii_of_all (small : (text.all fun char => char.toNat ≤ 127) = true) : Ascii text := by
  intro char member
  exact UInt32.le_iff_toNat_le.mpr (of_decide_eq_true (List.all_eq_true.mp small char member))

/-- The responses to a nonce, and every field in place. -/
theorem delivers_secret :
    lmResp secretPrimitives (ascii "SecREt01") secretNonce =
        [0xc3, 0x37, 0xcd, 0x5c, 0xbd, 0x44, 0xfc, 0x97, 0x82, 0xa6, 0x67, 0xaf, 0x6d, 0x42, 0x7c, 0x6d,
          0xe6, 0x7c, 0x20, 0xc2, 0xd3, 0xe7, 0x7c, 0x56] ∧
      ntResp secretPrimitives (ascii "SecREt01") secretNonce =
        [0x25, 0xa9, 0x8c, 0x1c, 0x31, 0xe8, 0x18, 0x47, 0x46, 0x6b, 0x29, 0xb2, 0xdf, 0x46, 0x80, 0xf3,
          0x99, 0x58, 0xfb, 0x8c, 0x21, 0x3a, 0x9c, 0xc6] ∧
      Delivers secretPrimitives ("user".toList) (ascii "SecREt01") ("WORKSTATION".toList)
        ("DOMAIN".toList) secretNonce true := by
  refine ⟨by decide +kernel, by decide +kernel, ?_⟩
  apply (purpleNtlmGenType3_delivers_iff secretPrimitives (fun _ => rfl) _ _ _ _ secretNonce true).mpr
  refine ⟨?_, by decide⟩
  simp only [forall_mem_cons]
  exact ⟨⟨ascii_of_all (by decide +kernel), by decide +kernel⟩,
    ⟨ascii_of_all (by decide +kernel), by decide +kernel⟩,
    ⟨ascii_of_all (by decide +kernel), by decide +kernel⟩,
    fun _ member => absurd member not_mem_nil⟩

/-- The four bytes that are copied of a domain of one accented letter are twice what it has. -/
theorem purpleNtlmGenType3_accent :
    doubled ['é'] = 4 ∧ (utf16le ['é']).length = 2 ∧
      purpleNtlmGenType3 secretPrimitives ("user".toList) (ascii "SecREt01") ("WORKSTATION".toList)
        ['é'] secretNonce true = none ∧
      ¬ Delivers secretPrimitives ("user".toList) (ascii "SecREt01") ("WORKSTATION".toList)
        ['é'] secretNonce true := by
  have none_ : purpleNtlmGenType3 secretPrimitives ("user".toList) (ascii "SecREt01")
      ("WORKSTATION".toList) ['é'] secretNonce true = none := by decide +kernel
  refine ⟨by decide +kernel, by decide +kernel, none_, ?_⟩
  intro delivers
  obtain ⟨message, ran, _⟩ := delivers
  rw [none_] at ran
  cases ran

end Purple.Ntlm

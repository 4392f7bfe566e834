import Decibell.Community.Text
import Decibell.Lib.Bytes

/-!
# STUN answers

A STUN server answers with the address it saw a socket at, in a list of attributes padded to four
bytes. The parser walks the list by the lengths in it, which anyone may have sent.

* A read outside the datagram is nothing here (`buf[i]?`, `slice?`), where the program would panic.
-/

namespace Decibell.Stun

open Lib List

def magicCookie : UInt32 := 0x2112A442
def bindingResponse : UInt16 := 0x0101
def attrMappedAddress : UInt16 := 0x0001
def attrXorMappedAddress : UInt16 := 0x0020
def familyIpv4 : UInt8 := 0x01

structure SocketAddrV4 where
  ip : UInt32
  port : UInt16
deriving DecidableEq

/-! ## The parser -/

/-- `u16::from_be_bytes([buf[off], buf[off + 1]])`. -/
def u16At (buf : Bytes) (off : Nat) : Option UInt16 := do
  return .ofNat (ofBeBytes [← buf[off]?, ← buf[off + 1]?])

def u32At (buf : Bytes) (off : Nat) : Option UInt32 := do
  return .ofNat (ofBeBytes [← buf[off]?, ← buf[off + 1]?, ← buf[off + 2]?, ← buf[off + 3]?])

def slice? (buf : Bytes) (start size : Nat) : Option Bytes :=
  if start + size ≤ buf.length then some ((buf.drop start).take size) else none

def isStunMessage (buf : Bytes) : Option Bool :=
  if buf.length < 20 then some false
  else do if (← buf[0]?) &&& 0xC0 ≠ 0 then return false else return (← u32At buf 4) = magicCookie

/-- The guard of an arm: an attribute of its type, with an IPv4 address. -/
def isIpv4 (type t : UInt16) (v : Bytes) : Option Bool :=
  if t = type ∧ 8 ≤ v.length then do return (← v[1]?) = familyIpv4 else some false

/-- The match on an attribute: the address to return, or what is mapped so far. -/
def onAttribute (t : UInt16) (v : Bytes) (mapped : Option SocketAddrV4) :
    Option (Except SocketAddrV4 (Option SocketAddrV4)) := do
  if ← isIpv4 attrXorMappedAddress t v then
    let port := (← u16At v 2) ^^^ (magicCookie >>> 16).toUInt16
    let ip := (← u32At v 4) ^^^ magicCookie
    return .error ⟨ip, port⟩
  else if (← isIpv4 attrMappedAddress t v) && mapped.isNone then
    let port ← u16At v 2
    let ip ← u32At v 4
    return .ok (some ⟨ip, port⟩)
  else return .ok mapped

/-- `(l + 3) & !3`. -/
def padded (l : Nat) : Nat := (l + 3) / 4 * 4

/-- The loop, from an offset of the body. -/
def attributeLoop (body : Bytes) (off : Nat) (mapped : Option SocketAddrV4) :
    Option (Option SocketAddrV4) :=
  if _h : off + 4 ≤ body.length then do
    let t ← u16At body off
    let l := (← u16At body (off + 2)).toNat
    match slice? body (off + 4) l with
    | none => return none
    | some v =>
      match ← onAttribute t v mapped with
      | .error address => return some address
      | .ok mapped => attributeLoop body (off + (4 + padded l)) mapped
  else some mapped
termination_by body.length - off

def parseBindingResponse (buf txid : Bytes) : Option (Option SocketAddrV4) := do
  if !(← isStunMessage buf) then return none
  if (← slice? buf 8 12) ≠ txid then return none
  if (← u16At buf 0) ≠ bindingResponse then return none
  match slice? buf 20 (← u16At buf 2).toNat with
  | none => return none
  | some body => attributeLoop body 0 none

/-! ## Answers -/

/-- An attribute of an answer, with the bytes that pad it. -/
structure Attribute where
  type : UInt16
  value : Bytes
  padding : Bytes
  value_lt : value.length < 65536
  length_padding : value.length + padding.length = padded value.length

def Attribute.toBytes (a : Attribute) : Bytes :=
  beBytes 2 a.type.toNat ++ beBytes 2 a.value.length ++ a.value ++ a.padding

/-- The IPv4 address in the value of an attribute of a type, where it is hidden by a mask. -/
def addressIn (type : UInt16) (mask : UInt32) (t : UInt16) : Bytes → Option SocketAddrV4
  | _ :: family :: p₁ :: p₂ :: a₁ :: a₂ :: a₃ :: a₄ :: _ =>
    if t = type ∧ family = familyIpv4 then
      some ⟨.ofNat (ofBeBytes [a₁, a₂, a₃, a₄]) ^^^ mask,
        .ofNat (ofBeBytes [p₁, p₂]) ^^^ (mask >>> 16).toUInt16⟩
    else none
  | _ => none

def xorMapped (t : UInt16) (v : Bytes) : Option SocketAddrV4 :=
  addressIn attrXorMappedAddress magicCookie t v

def mappedPlain (t : UInt16) (v : Bytes) : Option SocketAddrV4 := addressIn attrMappedAddress 0 t v

/-- A well-formed answer to a request. -/
structure Response where
  txid : Bytes
  attributes : List Attribute
  length_txid : txid.length = 12
  length_lt : (attributes.flatMap Attribute.toBytes).length < 65536

namespace Response

variable (r : Response)

def body : Bytes := r.attributes.flatMap Attribute.toBytes

def toBytes : Bytes :=
  beBytes 2 bindingResponse.toNat ++ beBytes 2 r.body.length ++ beBytes 4 magicCookie.toNat ++
    r.txid ++ r.body

/-- The first address that is hidden, or else the first that is plain. -/
def address : Option SocketAddrV4 :=
  (r.attributes.findSome? fun a => xorMapped a.type a.value).or
    (r.attributes.findSome? fun a => mappedPlain a.type a.value)

end Response

/-! ## What is read -/

variable {buf : Bytes} {off : Nat}

theorem exists_u16At (h : off + 2 ≤ buf.length) : ∃ n, u16At buf off = some n := by
  have h₀ : off < buf.length := by omega
  have h₁ : off + 1 < buf.length := by omega
  exact ⟨_, by rw [u16At, getElem?_eq_getElem h₀, getElem?_eq_getElem h₁]; rfl⟩

theorem exists_u32At (h : off + 4 ≤ buf.length) : ∃ n, u32At buf off = some n := by
  have h₀ : off < buf.length := by omega
  have h₁ : off + 1 < buf.length := by omega
  have h₂ : off + 2 < buf.length := by omega
  have h₃ : off + 3 < buf.length := by omega
  exact ⟨_, by rw [u32At, getElem?_eq_getElem h₀, getElem?_eq_getElem h₁, getElem?_eq_getElem h₂,
    getElem?_eq_getElem h₃]; rfl⟩

theorem isIpv4_eq (type t : UInt16) (reserved : UInt8) {family : UInt8} {rest : Bytes}
    (h : 7 ≤ (family :: rest).length) : isIpv4 type t (reserved :: family :: rest) =
      some (decide (t = type ∧ family = familyIpv4)) := by
  have hlength : 8 ≤ (reserved :: family :: rest).length := Nat.succ_le_succ h
  by_cases htype : t = type
  · rw [isIpv4, if_pos ⟨htype, hlength⟩]
    simp [htype]
  · rw [isIpv4, if_neg fun h => htype h.1]
    simp [htype]

/-- The match finds the address that is hidden, or keeps the first that is plain. -/
theorem onAttribute_eq (t : UInt16) (v : Bytes) (mapped : Option SocketAddrV4) :
    onAttribute t v mapped = some (match xorMapped t v with
      | some address => .error address
      | none => .ok (mapped.or (mappedPlain t v))) := by
  have hmask : (0 : UInt32) >>> 16 = 0 := rfl
  have hne : attrMappedAddress ≠ attrXorMappedAddress := by decide
  by_cases hlength : 8 ≤ v.length
  · match v, hlength with
    | r :: family :: _ :: _ :: _ :: _ :: _ :: _ :: rest, hlength =>
      have hipv4 (type : UInt16) := isIpv4_eq type t r (Nat.le_of_succ_le_succ hlength)
      rw [onAttribute, hipv4, hipv4, xorMapped, mappedPlain, addressIn, addressIn]
      by_cases hxor : t = attrXorMappedAddress ∧ family = familyIpv4
      · simp [hxor, u16At, u32At]
      by_cases hmapped : t = attrMappedAddress ∧ family = familyIpv4
      · cases mapped <;> simp [hmapped, hne, u16At, u32At, hmask]
      · simp [hxor, hmapped]
  · have hno (type : UInt16) : isIpv4 type t v = some false := if_neg fun h => hlength h.2
    have hnone (type : UInt16) (mask : UInt32) : addressIn type mask t v = none := by
      rw [addressIn.eq_def]
      split
      · exact absurd (by simp) hlength
      · rfl
    simp [onAttribute, hno, xorMapped, mappedPlain, hnone]

/-- The loop reads nothing outside the body. -/
theorem exists_attributeLoop (body : Bytes) (off : Nat) (mapped : Option SocketAddrV4) :
    ∃ found, attributeLoop body off mapped = some found := by
  induction off, mapped using attributeLoop.induct body with
  | case1 off mapped h ih =>
    rw [attributeLoop, dif_pos h]
    obtain ⟨t, ht⟩ : ∃ t, u16At body off = some t := exists_u16At (by omega)
    obtain ⟨l, hl⟩ : ∃ l, u16At body (off + 2) = some l := exists_u16At (by omega)
    simp only [ht, hl, onAttribute_eq, Option.bind_eq_bind, Option.bind_some, Option.pure_def]
    split
    · exact ⟨_, rfl⟩
    · split
      · exact ⟨_, rfl⟩
      · exact ih l _
  | case2 off mapped h => exact ⟨mapped, by rw [attributeLoop, dif_neg h]⟩

/-- Neither does the parser, outside the datagram. -/
theorem exists_parse (buf txid : Bytes) : ∃ found, parseBindingResponse buf txid = some found := by
  rw [parseBindingResponse]
  by_cases hlength : buf.length < 20
  · simp [isStunMessage, hlength]
  have hb : buf[0]? = some buf[0] := getElem?_eq_getElem (by omega)
  obtain ⟨cookie, hcookie⟩ : ∃ cookie, u32At buf 4 = some cookie := exists_u32At (by omega)
  obtain ⟨type, htype⟩ : ∃ type, u16At buf 0 = some type := exists_u16At (by omega)
  obtain ⟨l, hl⟩ : ∃ l, u16At buf 2 = some l := exists_u16At (by omega)
  have hid : slice? buf 8 12 = some ((buf.drop 8).take 12) := if_pos (by omega)
  obtain ⟨stun, hstun⟩ : ∃ stun, isStunMessage buf = some stun := by
    rw [isStunMessage, if_neg hlength, hb, hcookie]
    simp only [Option.bind_eq_bind, Option.bind_some]
    split <;> exact ⟨_, rfl⟩
  simp only [hstun, hid, htype, hl, Option.bind_eq_bind, Option.bind_some]
  repeat' split
  all_goals first
    | exact ⟨_, rfl⟩
    | exact exists_attributeLoop _ 0 none

/-! ## What an answer gives -/

theorem getElem?_after (pre x : Bytes) (i : Nat) : (pre ++ x)[pre.length + i]? = x[i]? := by
  rw [getElem?_append_right (Nat.le_add_right _ _), Nat.add_sub_cancel_left]

theorem u16At_beBytes (pre rest : Bytes) {n : Nat} (h : n < 65536) :
    u16At (pre ++ (beBytes 2 n ++ rest)) pre.length = some (.ofNat n) := by
  have hread := ofBeBytes_beBytes (k := 2) h
  rw [u16At, show (pre ++ (beBytes 2 n ++ rest))[pre.length]? = _ from getElem?_after pre _ 0,
    getElem?_after]
  exact congrArg (fun n => some (UInt16.ofNat n)) hread

theorem u32At_beBytes (pre rest : Bytes) {n : Nat} (h : n < 2 ^ 32) :
    u32At (pre ++ (beBytes 4 n ++ rest)) pre.length = some (.ofNat n) := by
  have hread := ofBeBytes_beBytes (k := 4) h
  rw [u32At, show (pre ++ (beBytes 4 n ++ rest))[pre.length]? = _ from getElem?_after pre _ 0,
    getElem?_after, getElem?_after, getElem?_after]
  exact congrArg (fun n => some (UInt32.ofNat n)) hread

theorem slice?_after (pre v rest : Bytes) :
    slice? (pre ++ (v ++ rest)) pre.length v.length = some v := by
  rw [slice?, if_pos (by simp), drop_left, take_left]

theorem Attribute.length_toBytes (a : Attribute) : a.toBytes.length = 4 + padded a.value.length := by
  have h := a.length_padding
  simp only [toBytes, length_append, length_beBytes]
  omega

/-- The loop looks at one attribute after the other, to the first with a hidden address. -/
theorem attributeLoop_attributes (pre : Bytes) (as : List Attribute)
    (mapped : Option SocketAddrV4) :
    attributeLoop (pre ++ as.flatMap Attribute.toBytes) pre.length mapped =
      some ((as.findSome? fun a => xorMapped a.type a.value).or
        (mapped.or (as.findSome? fun a => mappedPlain a.type a.value))) := by
  induction as generalizing pre mapped with
  | nil =>
    rw [attributeLoop, dif_neg (by simp)]
    cases mapped <;> rfl
  | cons a as ih =>
    have htype : u16At (pre ++ (a :: as).flatMap Attribute.toBytes) pre.length = some a.type := by
      have h := u16At_beBytes pre (beBytes 2 a.value.length ++ a.value ++ a.padding ++
        as.flatMap Attribute.toBytes) a.type.toNat_lt
      simpa [Attribute.toBytes] using h
    have hlength : u16At (pre ++ (a :: as).flatMap Attribute.toBytes) (pre.length + 2) =
        some (.ofNat a.value.length) := by
      have h := u16At_beBytes (pre ++ beBytes 2 a.type.toNat) (a.value ++ a.padding ++
        as.flatMap Attribute.toBytes) a.value_lt
      simpa [Attribute.toBytes] using h
    have hvalue : slice? (pre ++ (a :: as).flatMap Attribute.toBytes) (pre.length + 4)
        a.value.length = some a.value := by
      have h := slice?_after (pre ++ beBytes 2 a.type.toNat ++ beBytes 2 a.value.length) a.value
        (a.padding ++ as.flatMap Attribute.toBytes)
      simpa [Attribute.toBytes] using h
    have hnat : (UInt16.ofNat a.value.length).toNat = a.value.length :=
      UInt16.toNat_ofNat_of_lt' a.value_lt
    have hin : pre.length + 4 ≤ (pre ++ (a :: as).flatMap Attribute.toBytes).length := by
      rw [flatMap_cons, length_append, length_append, a.length_toBytes]
      omega
    have hnext := ih (pre ++ a.toBytes)
    rw [length_append, a.length_toBytes, append_assoc, ← flatMap_cons] at hnext
    rw [attributeLoop, dif_pos hin]
    simp only [htype, hlength, hnat, hvalue, onAttribute_eq, Option.bind_eq_bind, Option.bind_some,
      findSome?_cons]
    cases xorMapped a.type a.value with
    | some address => rfl
    | none =>
      refine (hnext _).trans ?_
      cases mapped <;> cases mappedPlain a.type a.value <;> rfl

theorem parse_toBytes (r : Response) (beyond : Bytes) :
    parseBindingResponse (r.toBytes ++ beyond) r.txid = some r.address := by
  let lengthBytes := beBytes 2 r.body.length
  let cookieBytes := beBytes 4 magicCookie.toNat
  have hlt : r.body.length < 65536 := r.length_lt
  have hbuf : r.toBytes ++ beyond =
      1 :: 1 :: (lengthBytes ++ (cookieBytes ++ (r.txid ++ (r.body ++ beyond)))) := by
    simp only [Response.toBytes, append_assoc]
    rfl
  have hlong : ¬(r.toBytes ++ beyond).length < 20 := by
    simp [hbuf, lengthBytes, cookieBytes, r.length_txid]
    omega
  have htype : u16At (r.toBytes ++ beyond) 0 = some bindingResponse := by
    rw [hbuf]
    rfl
  have hlength : u16At (r.toBytes ++ beyond) 2 = some (.ofNat r.body.length) := by
    rw [hbuf]
    exact u16At_beBytes [1, 1] _ hlt
  have hcookie : u32At (r.toBytes ++ beyond) 4 = some magicCookie := by
    have h := u32At_beBytes (1 :: 1 :: lengthBytes) (r.txid ++ (r.body ++ beyond))
      magicCookie.toNat_lt
    rwa [UInt32.ofNat_toNat] at h
  have hid : slice? (r.toBytes ++ beyond) 8 12 = some r.txid := by
    have h := slice?_after (1 :: 1 :: (lengthBytes ++ cookieBytes)) r.txid (r.body ++ beyond)
    simpa [hbuf, lengthBytes, cookieBytes, r.length_txid] using h
  have hbody : slice? (r.toBytes ++ beyond) 20 r.body.length = some r.body := by
    have h := slice?_after (1 :: 1 :: (lengthBytes ++ (cookieBytes ++ r.txid))) r.body beyond
    simpa [hbuf, lengthBytes, cookieBytes, r.length_txid] using h
  have hstun : isStunMessage (r.toBytes ++ beyond) = some true := by
    rw [isStunMessage, if_neg hlong, hcookie, hbuf]
    rfl
  have hloop := attributeLoop_attributes [] r.attributes none
  have hnat : (UInt16.ofNat r.body.length).toNat = r.body.length := UInt16.toNat_ofNat_of_lt' hlt
  rw [parseBindingResponse]
  simp only [hstun, hid, htype, hlength, hnat, hbody, Option.bind_eq_bind, Option.bind_some,
    Bool.not_true, Bool.false_eq_true, ne_eq, not_true_eq_false, if_false]
  exact hloop

/-- The bytes of an address in an attribute. -/
def addressBytes (reserved : UInt8) (mask : UInt32) (a : SocketAddrV4) : Bytes :=
  reserved :: familyIpv4 :: (beBytes 2 (a.port ^^^ (mask >>> 16).toUInt16).toNat ++
    beBytes 4 (a.ip ^^^ mask).toNat)

theorem addressIn_addressBytes (type : UInt16) (reserved : UInt8) (mask : UInt32)
    (a : SocketAddrV4) (rest : Bytes) :
    addressIn type mask type (addressBytes reserved mask a ++ rest) = some a := by
  have hport := ofBeBytes_beBytes (k := 2) (a.port ^^^ (mask >>> 16).toUInt16).toNat_lt
  have hip := ofBeBytes_beBytes (k := 4) (a.ip ^^^ mask).toNat_lt
  change (if type = type ∧ familyIpv4 = familyIpv4 then
    some (SocketAddrV4.mk (.ofNat (ofBeBytes (beBytes 4 (a.ip ^^^ mask).toNat)) ^^^ mask)
      (.ofNat (ofBeBytes (beBytes 2 (a.port ^^^ (mask >>> 16).toUInt16).toNat)) ^^^
        (mask >>> 16).toUInt16)) else none) = some a
  rw [if_pos ⟨rfl, rfl⟩, hip, hport, UInt32.ofNat_toNat, UInt16.ofNat_toNat, UInt32.xor_assoc,
    UInt32.xor_self, UInt32.xor_zero, UInt16.xor_assoc, UInt16.xor_self, UInt16.xor_zero]

/-- The parser reads nothing outside a datagram, and of a well-formed answer to the request it gives
the first hidden address, or else the first plain one, whatever follows the answer. -/
theorem parseBindingResponse_spec :
    (∀ buf txid, (parseBindingResponse buf txid).isSome) ∧
      (∀ (r : Response) (beyond : Bytes),
        parseBindingResponse (r.toBytes ++ beyond) r.txid = some r.address) ∧
      ∀ (reserved : UInt8) (a : SocketAddrV4) (rest : Bytes),
        xorMapped attrXorMappedAddress (addressBytes reserved magicCookie a ++ rest) = some a ∧
          mappedPlain attrMappedAddress (addressBytes reserved 0 a ++ rest) = some a :=
  ⟨fun buf txid => Option.isSome_iff_exists.2 (exists_parse buf txid), parse_toBytes,
    fun _ _ _ => ⟨addressIn_addressBytes _ _ _ _ _, addressIn_addressBytes _ _ _ _ _⟩⟩

end Decibell.Stun

import P2pShare.ByteStream
import P2pShare.LanDiscovery

/-!
# STUN responses

`parse_response` of `nat/stun.rs`.  An index and a slice panic out of range,
`get` returns `None` there.  A well-formed response is a list of attributes of
any types and lengths, each padded to four bytes; the parser takes the first
IPv4 address of either kind that it meets.
-/

namespace P2pShare

open ByteStream

def magicCookie : ℕ := 0x2112A442

/-! ## Indexing -/

inductive Panicked where
  | outOfRange
  deriving DecidableEq

def index (buf : Bytes) (i : ℕ) : Except Panicked UInt8 :=
  match buf[i]? with
  | some byte => .ok byte
  | none => .error .outOfRange

/-- `buf.get(start..stop)`. -/
def getRange (buf : Bytes) (start stop : ℕ) : Option Bytes :=
  if start ≤ stop ∧ stop ≤ buf.length then
    some ((buf.drop start).take (stop - start))
  else none

/-- `&buf[start..stop]`. -/
def slice (buf : Bytes) (start stop : ℕ) : Except Panicked Bytes :=
  match getRange buf start stop with
  | some bytes => .ok bytes
  | none => .error .outOfRange

/-- `u16::from_be_bytes([buf[i], buf[i + 1]])`. -/
def u16At (buf : Bytes) (i : ℕ) : Except Panicked ℕ := do
  let high ← index buf i
  let low ← index buf (i + 1)
  return ofBe [high, low]

/-- The four octets at `i`. -/
def octetsAt (buf : Bytes) (i : ℕ) : Except Panicked Bytes := do
  let a ← index buf i
  let b ← index buf (i + 1)
  let c ← index buf (i + 2)
  let d ← index buf (i + 3)
  return [a, b, c, d]

/-! ## The parser -/

/-- `Ipv4Addr::from` for a `u32`. -/
def IpAddr.ofU32 (raw : ℕ) : IpAddr :=
  .v4 (UInt8.ofNat (raw / 16777216)) (UInt8.ofNat (raw / 65536))
    (UInt8.ofNat (raw / 256)) (UInt8.ofNat raw)

/-- The arm for `0x0020`. -/
def xorMappedArm (val : Bytes) : Except Panicked (Option SocketAddr) := do
  if 8 ≤ val.length then
    let family ← index val 1
    if family = 1 then
      let port ← u16At val 2
      let octets ← octetsAt val 4
      return some ⟨.ofU32 (ofBe octets ^^^ magicCookie), port ^^^ 0x2112⟩
    else return none
  else return none

/-- The arm for `0x0001`. -/
def mappedArm (val : Bytes) : Except Panicked (Option SocketAddr) := do
  if 8 ≤ val.length then
    let family ← index val 1
    if family = 1 then
      let port ← u16At val 2
      let a ← index val 4
      let b ← index val 5
      let c ← index val 6
      let d ← index val 7
      return some ⟨.v4 a b c d, port⟩
    else return none
  else return none

def attributeArm (attrType : ℕ) (val : Bytes) :
    Except Panicked (Option SocketAddr) :=
  if attrType = 0x0020 then xorMappedArm val
  else if attrType = 0x0001 then mappedArm val
  else .ok none

/-- `(len + 3) & !3`. -/
def align4 (len : ℕ) : ℕ := (len + 3) / 4 * 4

/-- The loop over the attributes from offset `i`. -/
def walk (attrs : Bytes) (i : ℕ) : Except Panicked (Option SocketAddr) :=
  if i + 4 ≤ attrs.length then
    match u16At attrs i, u16At attrs (i + 2) with
    | .ok attrType, .ok attrLen =>
        match getRange attrs (i + 4) (i + 4 + attrLen) with
        | none => .ok none
        | some val =>
            match attributeArm attrType val with
            | .error panicked => .error panicked
            | .ok (some addr) => .ok (some addr)
            | .ok none => walk attrs (i + (4 + align4 attrLen))
    | _, _ => .error .outOfRange
  else .ok none
termination_by attrs.length - i

/-- A `[u8; 12]`. -/
abbrev TxnId := { bytes : Bytes // bytes.length = 12 }

def parseResponse (buf : Bytes) (txnId : TxnId) :
    Except Panicked (Option SocketAddr) := do
  if buf.length < 20 then return none
  let kind ← u16At buf 0
  if kind ≠ 0x0101 then return none
  let received ← slice buf 8 20
  if received ≠ txnId.val then return none
  let msgLen ← u16At buf 2
  match getRange buf 20 (20 + msgLen) with
  | none => return none
  | some attrs => walk attrs 0

/-! ## No index is out of range -/

theorem index_of_lt {buf : Bytes} {i : ℕ} (hi : i < buf.length) :
    index buf i = .ok buf[i] := by
  unfold index
  rw [List.getElem?_eq_getElem hi]

theorem u16At_of_lt {buf : Bytes} {i : ℕ} (hi : i + 1 < buf.length) :
    ∃ value, u16At buf i = .ok value := by
  have hfirst : i < buf.length := Nat.lt_of_succ_lt hi
  unfold u16At
  rw [index_of_lt hfirst, index_of_lt hi]
  exact ⟨_, rfl⟩

/-- A value of at least eight bytes, byte by byte. -/
theorem exists_eight_of_le {val : Bytes} (hval : 8 ≤ val.length) :
    ∃ reserved family p q a b c d rest,
      val = reserved :: family :: p :: q :: a :: b :: c :: d :: rest := by
  rcases val with _ | ⟨reserved, _ | ⟨family, _ | ⟨p, _ | ⟨q, _ | ⟨a, _ | ⟨b,
    _ | ⟨c, _ | ⟨d, rest⟩⟩⟩⟩⟩⟩⟩⟩
  iterate 8
    · simp at hval
  · exact ⟨reserved, family, p, q, a, b, c, d, rest, rfl⟩

/-- What the arms make of a value, with the two masks of the XOR. -/
def ipv4Address (portMask ipMask : ℕ) : Bytes → Option SocketAddr
  | _ :: family :: p :: q :: a :: b :: c :: d :: _ =>
      if family = 1 then
        some ⟨.ofU32 (ofBe [a, b, c, d] ^^^ ipMask), ofBe [p, q] ^^^ portMask⟩
      else none
  | _ => none

theorem ipv4Address_of_short {portMask ipMask : ℕ} {val : Bytes}
    (hval : ¬ 8 ≤ val.length) : ipv4Address portMask ipMask val = none := by
  unfold ipv4Address
  split
  next =>
    simp only [List.length_cons] at hval
    omega
  next => rfl

theorem xorMappedArm_eq (val : Bytes) :
    xorMappedArm val = .ok (ipv4Address 0x2112 magicCookie val) := by
  by_cases hval : 8 ≤ val.length
  · obtain ⟨reserved, family, p, q, a, b, c, d, rest, rfl⟩ :=
      exists_eight_of_le hval
    by_cases hfamily : family = 1
    · simp [xorMappedArm, ipv4Address, index, u16At, octetsAt, hfamily, pure,
        Except.pure, bind, Except.bind]
    · simp [xorMappedArm, ipv4Address, index, hfamily, pure, Except.pure, bind,
        Except.bind]
  · rw [ipv4Address_of_short hval]
    unfold xorMappedArm
    rw [if_neg hval]
    rfl

theorem ofU32_ofBe (a b c d : UInt8) :
    IpAddr.ofU32 (ofBe [a, b, c, d]) = .v4 a b c d := by
  have hb : b.toNat < 256 := b.toNat_lt
  have hc : c.toNat < 256 := c.toNat_lt
  have hd : d.toNat < 256 := d.toNat_lt
  have hvalue : ofBe [a, b, c, d] = a.toNat * 16777216 + b.toNat * 65536 +
      c.toNat * 256 + d.toNat := by
    simp [ofBe]
    omega
  have hbyte : ∀ (byte : UInt8) (value : ℕ), value % 256 = byte.toNat →
      UInt8.ofNat value = byte := by
    intro byte value hmod
    apply UInt8.toNat_inj.mp
    rw [UInt8.toNat_ofNat']
    exact hmod
  have ha : a.toNat < 256 := a.toNat_lt
  unfold IpAddr.ofU32
  rw [hvalue, hbyte a _ (by omega), hbyte b _ (by omega),
    hbyte c _ (by omega), hbyte d _ (by omega)]

theorem mappedArm_eq (val : Bytes) :
    mappedArm val = .ok (ipv4Address 0 0 val) := by
  by_cases hval : 8 ≤ val.length
  · obtain ⟨reserved, family, p, q, a, b, c, d, rest, rfl⟩ :=
      exists_eight_of_le hval
    by_cases hfamily : family = 1
    · simp [mappedArm, ipv4Address, index, u16At, hfamily, ofU32_ofBe, pure,
        Except.pure, bind, Except.bind]
    · simp [mappedArm, ipv4Address, index, hfamily, pure, Except.pure, bind,
        Except.bind]
  · rw [ipv4Address_of_short hval]
    unfold mappedArm
    rw [if_neg hval]
    rfl

/-- The address an attribute of this type and value gives. -/
def addressOf (attrType : ℕ) (val : Bytes) : Option SocketAddr :=
  if attrType = 0x0020 then ipv4Address 0x2112 magicCookie val
  else if attrType = 0x0001 then ipv4Address 0 0 val
  else none

theorem attributeArm_eq (attrType : ℕ) (val : Bytes) :
    attributeArm attrType val = .ok (addressOf attrType val) := by
  unfold attributeArm addressOf
  split
  · exact xorMappedArm_eq val
  · split
    · exact mappedArm_eq val
    · rfl

theorem walk_total (attrs : Bytes) (i : ℕ) :
    ∃ addr, walk attrs i = .ok addr := by
  induction i using walk.induct attrs with
  | case1 i hmore attrType attrLen htype hlen hrange =>
      unfold walk
      simp only [if_pos hmore, htype, hlen, hrange]
      exact ⟨none, rfl⟩
  | case2 i hmore attrType attrLen htype hlen val hrange panicked harm =>
      rw [attributeArm_eq] at harm
      contradiction
  | case3 i hmore attrType attrLen htype hlen val hrange addr harm =>
      unfold walk
      simp only [if_pos hmore, htype, hlen, hrange, harm]
      exact ⟨some addr, rfl⟩
  | case4 i hmore attrType attrLen htype hlen val hrange harm ih =>
      unfold walk
      simp only [if_pos hmore, htype, hlen, hrange, harm]
      exact ih
  | case5 i hmore hpanic =>
      obtain ⟨attrType, htype⟩ := @u16At_of_lt attrs i (by omega)
      obtain ⟨attrLen, hlen⟩ := @u16At_of_lt attrs (i + 2) (by omega)
      exact absurd hlen (hpanic attrType attrLen htype)
  | case6 i hdone =>
      unfold walk
      rw [if_neg hdone]
      exact ⟨none, rfl⟩

theorem parseResponse_total (buf : Bytes) (txnId : TxnId) :
    ∃ addr, parseResponse buf txnId = .ok addr := by
  unfold parseResponse
  by_cases hshort : buf.length < 20
  · rw [if_pos hshort]
    exact ⟨none, rfl⟩
  · have hkind : 0 + 1 < buf.length := by omega
    have hlen : 2 + 1 < buf.length := by omega
    have hslice : slice buf 8 20 = .ok ((buf.drop 8).take 12) := by
      unfold slice getRange
      rw [if_pos ⟨by omega, by omega⟩]
    obtain ⟨kind, hkind⟩ := u16At_of_lt hkind
    obtain ⟨msgLen, hlen⟩ := u16At_of_lt hlen
    rw [if_neg hshort, hkind, hslice, hlen]
    by_cases hsuccess : kind ≠ 0x0101
    · exact ⟨none, if_pos hsuccess⟩
    · by_cases htxn : (buf.drop 8).take 12 ≠ txnId.val
      · refine ⟨none, ?_⟩
        simp [hsuccess, htxn, bind, Except.bind, pure, Except.pure]
      · simp only [hsuccess, htxn, bind, Except.bind, pure, Except.pure]
        cases getRange buf 20 (20 + msgLen) with
        | none => exact ⟨none, rfl⟩
        | some attrs => exact walk_total attrs 0

/-! ## Well-formed responses -/

structure Attribute where
  type : ℕ
  value : Bytes
  padding : Bytes
  type_lt : type < 65536
  length_lt : value.length < 65536
  padded : value.length + padding.length = align4 value.length

namespace Attribute

def bytes (attr : Attribute) : Bytes :=
  toBe 2 attr.type ++ toBe 2 attr.value.length ++ attr.value ++
    attr.padding

/-- The address of an IPv4 XOR-MAPPED-ADDRESS, un-XORed. -/
def xorMappedAddress (attr : Attribute) : Option SocketAddr :=
  if attr.type = 0x0020 then
    ipv4Address 0x2112 magicCookie attr.value
  else none

/-- The address of an IPv4 MAPPED-ADDRESS. -/
def mappedAddress (attr : Attribute) : Option SocketAddr :=
  if attr.type = 0x0001 then ipv4Address 0 0 attr.value else none

theorem addressOf_eq (attr : Attribute) :
    addressOf attr.type attr.value =
      attr.xorMappedAddress.or attr.mappedAddress := by
  unfold addressOf xorMappedAddress mappedAddress
  by_cases hxor : attr.type = 0x0020
  · have hmapped : attr.type ≠ 0x0001 := by omega
    rw [if_pos hxor, if_pos hxor, if_neg hmapped, Option.or_none]
  · rw [if_neg hxor, if_neg hxor, Option.none_or]

theorem length_bytes (attr : Attribute) :
    attr.bytes.length = 4 + align4 attr.value.length := by
  have hpadded := attr.padded
  simp only [bytes, List.length_append, length_toBe]
  omega

end Attribute

/-- A Binding Success Response to the request with this transaction id. -/
structure SuccessResponse (txnId : TxnId) where
  attributes : List Attribute
  length_lt : (attributes.flatMap Attribute.bytes).length < 65536

namespace SuccessResponse

variable {txnId : TxnId}

def bytes (response : SuccessResponse txnId) : Bytes :=
  let attrs := response.attributes.flatMap Attribute.bytes
  toBe 2 0x0101 ++ toBe 2 attrs.length ++ toBe 4 magicCookie ++ txnId.val ++
    attrs

/-- XOR-MAPPED-ADDRESS is preferred, MAPPED-ADDRESS the fallback. -/
def preferred (response : SuccessResponse txnId) : Option SocketAddr :=
  (response.attributes.findSome? Attribute.xorMappedAddress).or
    (response.attributes.findSome? Attribute.mappedAddress)

end SuccessResponse

/-- The first IPv4 address is the fallback one, and the preferred one that
comes later differs from it. -/
def FallbackFirst (attributes : List Attribute) : Prop :=
  ∃ before attr after addr preferred,
    attributes = before ++ attr :: after ∧
      (∀ earlier ∈ before, earlier.xorMappedAddress = none ∧
        earlier.mappedAddress = none) ∧
      attr.mappedAddress = some addr ∧
      after.findSome? Attribute.xorMappedAddress = some preferred ∧
      addr ≠ preferred

/-! ## What the parser returns -/

section Suffix

variable (before rest : Bytes)

theorem index_append (i : ℕ) :
    index (before ++ rest) (before.length + i) = index rest i := by
  unfold index
  rw [List.getElem?_append_right (Nat.le_add_right _ _),
    Nat.add_sub_cancel_left]

theorem getRange_append (start stop : ℕ) :
    getRange (before ++ rest) (before.length + start) (before.length + stop) =
      getRange rest start stop := by
  have hrange : (before.length + start ≤ before.length + stop ∧
      before.length + stop ≤ (before ++ rest).length) ↔
      start ≤ stop ∧ stop ≤ rest.length := by
    rw [List.length_append]
    omega
  have hwidth : before.length + stop - (before.length + start) =
      stop - start := by omega
  unfold getRange
  simp only [hrange, hwidth, List.drop_append, Nat.add_sub_cancel_left]
  rw [List.drop_eq_nil_of_le (by omega), List.nil_append]

theorem u16At_toBe {value : ℕ} (hvalue : value < 65536) :
    u16At (before ++ (toBe 2 value ++ rest)) before.length = .ok value := by
  have hfirst := index_append before (toBe 2 value ++ rest) 0
  have hsecond := index_append before (toBe 2 value ++ rest) 1
  have hbe : ofBe (toBe 2 value) = value := by
    rw [ofBe_toBe]
    exact Nat.mod_eq_of_lt hvalue
  rw [Nat.add_zero] at hfirst
  unfold u16At
  rw [hfirst, hsecond]
  exact congrArg Except.ok hbe

theorem getRange_middle (bytes : Bytes) :
    getRange (before ++ (bytes ++ rest)) before.length
      (before.length + bytes.length) = some bytes := by
  have hmove := getRange_append before (bytes ++ rest) 0 bytes.length
  rw [Nat.add_zero] at hmove
  rw [hmove]
  unfold getRange
  rw [if_pos ⟨Nat.zero_le _, by simp⟩]
  simp

end Suffix

/-- The loop takes the first address of either kind. -/
theorem walk_attributes (before : Bytes) (attributes : List Attribute) :
    walk (before ++ attributes.flatMap Attribute.bytes) before.length =
      .ok (attributes.findSome? fun attr =>
        addressOf attr.type attr.value) := by
  induction attributes generalizing before with
  | nil =>
      unfold walk
      rw [if_neg (by simp)]
      rfl
  | cons attr others ih =>
      let rest := others.flatMap Attribute.bytes
      have hwhole : before ++ (attr :: others).flatMap Attribute.bytes =
          before ++ (attr.bytes ++ rest) := rfl
      have htype : u16At (before ++ (attr.bytes ++ rest)) before.length =
          .ok attr.type := by
        have htoBe := u16At_toBe before (toBe 2 attr.value.length ++
          (attr.value ++ (attr.padding ++ rest))) attr.type_lt
        simpa only [Attribute.bytes, List.append_assoc] using htoBe
      have hlen : u16At (before ++ (attr.bytes ++ rest))
          (before.length + 2) = .ok attr.value.length := by
        have htoBe := u16At_toBe (before ++ toBe 2 attr.type)
          (attr.value ++ (attr.padding ++ rest)) attr.length_lt
        simpa only [Attribute.bytes, List.append_assoc, List.length_append,
          length_toBe] using htoBe
      have hval : getRange (before ++ (attr.bytes ++ rest))
          (before.length + 4)
          (before.length + 4 + attr.value.length) =
            some attr.value := by
        have hmiddle := getRange_middle
          (before ++ (toBe 2 attr.type ++ toBe 2 attr.value.length))
          (attr.padding ++ rest) attr.value
        have hheader : (before ++ (toBe 2 attr.type ++
            toBe 2 attr.value.length)).length = before.length + 4 := by
          simp only [List.length_append, length_toBe]
        rw [hheader] at hmiddle
        simpa only [Attribute.bytes, List.append_assoc] using hmiddle
      have hmore : before.length + 4 ≤
          (before ++ (attr.bytes ++ rest)).length := by
        rw [List.length_append, List.length_append, attr.length_bytes]
        omega
      rw [hwhole]
      unfold walk
      rw [if_pos hmore]
      simp only [htype, hlen, hval, attributeArm_eq]
      cases haddr : addressOf attr.type attr.value with
      | some addr => simp [haddr]
      | none =>
          have hnext := ih (before ++ attr.bytes)
          rw [List.length_append, attr.length_bytes,
            List.append_assoc] at hnext
          rw [List.findSome?_cons, haddr]
          exact hnext

theorem parseResponse_bytes {txnId : TxnId}
    (response : SuccessResponse txnId) :
    parseResponse response.bytes txnId =
      .ok (response.attributes.findSome? fun attr =>
        addressOf attr.type attr.value) := by
  let attrs := response.attributes.flatMap Attribute.bytes
  have hcookie : (toBe 4 magicCookie).length = 4 := length_toBe _ _
  have htxnLength : txnId.val.length = 12 := txnId.property
  have hlength : response.bytes.length = 20 + attrs.length := by
    simp only [SuccessResponse.bytes, List.length_append, length_toBe,
      htxnLength]
    rfl
  have hkind : u16At response.bytes 0 = .ok 0x0101 := by
    have hvalue : 0x0101 < 65536 := by omega
    have htoBe := u16At_toBe [] (toBe 2 attrs.length ++ (toBe 4 magicCookie ++
      (txnId.val ++ attrs))) hvalue
    simpa only [SuccessResponse.bytes, List.append_assoc, List.nil_append,
      List.length_nil] using htoBe
  have hlen : u16At response.bytes 2 = .ok attrs.length := by
    have htoBe := u16At_toBe (toBe 2 0x0101) (toBe 4 magicCookie ++
      (txnId.val ++ attrs)) response.length_lt
    simpa only [SuccessResponse.bytes, List.append_assoc, length_toBe]
      using htoBe
  have htxn : slice response.bytes 8 20 = .ok txnId.val := by
    have hmiddle := getRange_middle
      (toBe 2 0x0101 ++ toBe 2 attrs.length ++ toBe 4 magicCookie) attrs
      txnId.val
    have hrange : getRange response.bytes 8 20 = some txnId.val := by
      simpa only [SuccessResponse.bytes, List.append_assoc,
        List.length_append, length_toBe, htxnLength] using hmiddle
    unfold slice
    rw [hrange]
  have hattrs : getRange response.bytes 20 (20 + attrs.length) =
      some attrs := by
    have hmiddle := getRange_middle
      (toBe 2 0x0101 ++ toBe 2 attrs.length ++ toBe 4 magicCookie ++ txnId.val)
      [] attrs
    simpa only [SuccessResponse.bytes, List.append_assoc, List.append_nil,
      List.length_append, length_toBe, htxnLength] using hmiddle
  have hlong : ¬ response.bytes.length < 20 := by omega
  unfold parseResponse
  rw [if_neg hlong]
  simp only [hkind, hlen, htxn, hattrs, bind, Except.bind, pure, Except.pure,
    ne_eq, not_true_eq_false, if_false]
  exact walk_attributes [] response.attributes

theorem Attribute.mapped_of_xorMapped {attr : Attribute} {addr : SocketAddr}
    (hxor : attr.xorMappedAddress = some addr) : attr.mappedAddress = none := by
  unfold Attribute.xorMappedAddress at hxor
  unfold Attribute.mappedAddress
  split at hxor
  next htype =>
    have hother : attr.type ≠ 0x0001 := by omega
    rw [if_neg hother]
  next => contradiction

theorem fallbackFirst_cons (attr : Attribute) (others : List Attribute) :
    FallbackFirst (attr :: others) ↔
      (∃ addr preferred, attr.mappedAddress = some addr ∧
        others.findSome? Attribute.xorMappedAddress = some preferred ∧
        addr ≠ preferred) ∨
      attr.xorMappedAddress = none ∧ attr.mappedAddress = none ∧
        FallbackFirst others := by
  constructor
  · rintro ⟨before, first, after, addr, preferred, hsplit, hearlier, hmapped,
      hlater, hne⟩
    cases before with
    | nil =>
        rw [List.nil_append, List.cons.injEq] at hsplit
        obtain ⟨rfl, rfl⟩ := hsplit
        exact Or.inl ⟨addr, preferred, hmapped, hlater, hne⟩
    | cons earlier before =>
        rw [List.cons_append, List.cons.injEq] at hsplit
        obtain ⟨rfl, rfl⟩ := hsplit
        obtain ⟨hxor, hnone⟩ := hearlier attr List.mem_cons_self
        exact Or.inr ⟨hxor, hnone, before, first, after, addr, preferred, rfl,
          fun other hother => hearlier other (List.mem_cons_of_mem _ hother),
          hmapped, hlater, hne⟩
  · rintro (⟨addr, preferred, hmapped, hlater, hne⟩ | ⟨hxor, hnone, before,
      first, after, addr, preferred, rfl, hearlier, hmapped, hlater, hne⟩)
    · exact ⟨[], attr, others, addr, preferred, rfl, by simp, hmapped, hlater,
        hne⟩
    · refine ⟨attr :: before, first, after, addr, preferred, rfl, ?_, hmapped,
        hlater, hne⟩
      intro earlier hmem
      rcases List.mem_cons.mp hmem with rfl | hmem
      · exact ⟨hxor, hnone⟩
      · exact hearlier earlier hmem

/-- The first address of either kind is the preferred one unless a fallback
comes first. -/
theorem findSome?_eq_preferred_iff (attributes : List Attribute) :
    (attributes.findSome? fun attr => addressOf attr.type attr.value) =
        (attributes.findSome? Attribute.xorMappedAddress).or
          (attributes.findSome? Attribute.mappedAddress) ↔
      ¬ FallbackFirst attributes := by
  induction attributes with
  | nil =>
      refine iff_of_true rfl ?_
      rintro ⟨before, attr, after, _, _, hsplit, _⟩
      simp at hsplit
  | cons attr others ih =>
      rw [fallbackFirst_cons]
      simp only [List.findSome?_cons, attr.addressOf_eq]
      cases hxor : attr.xorMappedAddress with
      | some addr => simp [Attribute.mapped_of_xorMapped hxor]
      | none =>
          cases hmapped : attr.mappedAddress with
          | some addr =>
              cases others.findSome? Attribute.xorMappedAddress with
              | some preferred => simp
              | none => simp
          | none => simpa using ih

/-- The parser returns the preferred address exactly if no fallback comes
first, and never panics. -/
theorem parse_response_iff (txnId : TxnId) :
    (∀ response : SuccessResponse txnId,
      parseResponse response.bytes txnId = .ok response.preferred ↔
        ¬ FallbackFirst response.attributes) ∧
      ∀ buf, ∃ addr, parseResponse buf txnId = .ok addr := by
  constructor
  · intro response
    rw [parseResponse_bytes, Except.ok.injEq]
    exact findSome?_eq_preferred_iff response.attributes
  · exact fun buf => parseResponse_total buf txnId

/-! ## A rewritten fallback in front

A NAT rewrites the plain address on its way, and the server put it first. -/

def sampleTxnId : TxnId := ⟨List.replicate 12 7, rfl⟩

def rewrittenAttribute : Attribute where
  type := 0x0001
  value := [0, 1, 0, 80, 10, 0, 0, 1]
  padding := []
  type_lt := by decide
  length_lt := by decide
  padded := rfl

def truthfulAttribute : Attribute where
  type := 0x0020
  value := [0, 1, 49, 128, 234, 18, 213, 69]
  padding := []
  type_lt := by decide
  length_lt := by decide
  padded := rfl

def rewrittenResponse : SuccessResponse sampleTxnId where
  attributes := [rewrittenAttribute, truthfulAttribute]
  length_lt := by decide

theorem fallback_beats_preferred :
    parseResponse rewrittenResponse.bytes sampleTxnId =
        .ok (some ⟨.v4 10 0 0 1, 80⟩) ∧
      rewrittenResponse.preferred = some ⟨.v4 203 0 113 7, 4242⟩ ∧
      parseResponse rewrittenResponse.bytes sampleTxnId ≠
        .ok rewrittenResponse.preferred := by
  have hfirst : (rewrittenResponse.attributes.findSome? fun attr =>
      addressOf attr.type attr.value) = some ⟨.v4 10 0 0 1, 80⟩ := by
    decide
  have hpreferred :
      rewrittenResponse.preferred = some ⟨.v4 203 0 113 7, 4242⟩ := by
    decide
  rw [parseResponse_bytes, hfirst, hpreferred]
  exact ⟨rfl, rfl, by decide⟩

end P2pShare

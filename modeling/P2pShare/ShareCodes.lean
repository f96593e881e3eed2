import P2pShare.Contacts
import P2pShare.LanDiscovery
import P2pShare.MessagePack

/-!
# Share codes

`discovery/share_code.rs`, what the sender announces under its code on the local
network, and the pairing token of `nat/relay.rs`.  The receiver's user types the
code, in whatever case, and every channel compares it in its own way.
-/

namespace P2pShare

open Announcement ByteStream MessagePack

/-! ## What the sender publishes -/

section Publishing

variable (texts : Texts)

/-- The code of one draw of the random numbers. -/
def generateShareCode (draw number : ℕ) : List Char :=
  toUppercase texts.upper (texts.word (draw % 2048)) ++ ['-'] ++
    fourDigits (number % 10000)

/-- The datagram of `start_multicast` and `start_broadcast`. -/
def announcement (code : List Char) (port : ℕ) : Bytes :=
  utf8 (String.ofList (headerText ++
    (toUppercase texts.upper code ++ ':' :: ' ' :: Nat.toDigits 10 port)))

/-- The property `code` of the mDNS service. -/
def mdnsProperty (code : List Char) : String :=
  String.ofList (toUppercase texts.upper code)

def currentHour (now : ℕ) : ℕ := now / 3600

def infohashText (code : List Char) (now : ℕ) : List Char :=
  code ++ ':' :: Nat.toDigits 10 (currentHour now)

def recvInfohashText (code : List Char) (now : ℕ) : List Char :=
  code ++ ":recv:".toList ++ Nat.toDigits 10 (currentHour now)

variable (sha1 sha256 : Bytes → Bytes)

def toInfohash (code : List Char) (now : ℕ) : Bytes :=
  sha1 (utf8 (String.ofList (infohashText code now)))

def toRecvInfohash (code : List Char) (now : ℕ) : Bytes :=
  sha1 (utf8 (String.ofList (recvInfohashText code now)))

def relayTokenText (code : List Char) : List Char :=
  toUppercase texts.upper code ++ ":relay".toList

def relayTokenFor (code : List Char) : Bytes :=
  (sha256 (utf8 (String.ofList (relayTokenText texts code)))).take 16

end Publishing

/-! ## Where the two meet -/

/-- What Unicode says of upper case. -/
structure UpperCases (upper : Char → List Char) : Prop where
  idempotent : ∀ c, ∀ d ∈ upper c, upper d = [d]
  ascii : ∀ c, c.isUpper ∨ c.isDigit ∨ c = '-' → upper c = [c]
  lower : ∀ c, c.isLower → upper c = [c.toUpper]

/-- What BIP-39 says of its words. -/
structure WordList (texts : Texts) : Prop where
  isLower : ∀ i < 2048, ∀ c ∈ texts.word i, c.isLower
  length_le : ∀ i < 2048, (texts.word i).length ≤ 8

section Meeting

variable (Key : Type) (texts : Texts) (code : List Char)
  (setting : LookupSetting)

/-- The receiver meets the sender of the code on every channel; on the DHT, when
both look at the clock in the same hour. -/
structure Meets : Prop where
  lan : ∀ port (peer : SocketAddr), 0 < port → port < 65536 →
    @heardDatagram Key setting
        (.datagram (announcement texts code port) peer) =
      .result (.ok ⟨peer.ip, port⟩)
  mdns : ∀ addresses ip port, serviceIp addresses = some ip →
    @heardService Key setting
        (.resolved (some (mdnsProperty texts code)) addresses port) =
      .result (.ok ⟨ip, port⟩)
  send : ∀ sha1 now later, currentHour now = currentHour later →
    toInfohash sha1 code now = toInfohash sha1 setting.codeUpper later
  receive : ∀ sha1 now later, currentHour now = currentHour later →
    toRecvInfohash sha1 code now = toRecvInfohash sha1 setting.codeUpper later
  relay : ∀ sha256, relayTokenFor texts sha256 code =
    relayTokenFor texts sha256 setting.codeUpper

/-- The receiver meets the sender on no channel, but for a collision of a
hash. -/
structure Misses : Prop where
  lan : ∀ port (peer : SocketAddr), port < 65536 →
    @heardDatagram Key setting
        (.datagram (announcement texts code port) peer) = .skipped
  mdns : ∀ addresses port,
    @heardService Key setting
        (.resolved (some (mdnsProperty texts code)) addresses port) = .skipped
  send : ∀ now later,
    infohashText code now ≠ infohashText setting.codeUpper later
  receive : ∀ now later,
    recvInfohashText code now ≠ recvInfohashText setting.codeUpper later
  relay : relayTokenText texts code ≠ relayTokenText texts setting.codeUpper

/-- On the DHT nobody is found under a key of another hour, nor a sender where
a receiver is looked for or the other way round. -/
structure KeepsApart : Prop where
  send : ∀ now later, currentHour now ≠ currentHour later →
    infohashText code now ≠ infohashText setting.codeUpper later
  receive : ∀ now later, currentHour now ≠ currentHour later →
    recvInfohashText code now ≠ recvInfohashText setting.codeUpper later
  crossed : ∀ now later,
    infohashText code now ≠ recvInfohashText setting.codeUpper later
  crossed' : ∀ now later,
    recvInfohashText code now ≠ infohashText setting.codeUpper later

end Meeting

/-! ## Upper case -/

section Upper

variable {texts : Texts}

theorem toUppercase_eq_self {upper : Char → List Char} {text : List Char}
    (htext : ∀ c ∈ text, upper c = [c]) : toUppercase upper text = text := by
  unfold toUppercase
  induction text with
  | nil => rfl
  | cons c text ih =>
      rw [List.flatMap_cons, htext c List.mem_cons_self,
        ih fun d hd => htext d (List.mem_cons_of_mem c hd),
        List.singleton_append]

theorem UpperCases.toUppercase_twice {upper : Char → List Char}
    (hupper : UpperCases upper) (text : List Char) :
    toUppercase upper (toUppercase upper text) = toUppercase upper text := by
  apply toUppercase_eq_self
  intro d hd
  obtain ⟨c, _, hc⟩ := List.mem_flatMap.mp hd
  exact hupper.idempotent c d hc

/-! ## The characters of a code -/

def IsCodeChar (c : Char) : Prop := c.isUpper ∨ c.isDigit ∨ c = '-'

theorem isUpper_toUpper {c : Char} (hc : c.isLower) : c.toUpper.isUpper := by
  have hcodes : ∀ code ∈ List.range 26,
      (Char.ofNat (97 + code)).toUpper.isUpper = true := by decide
  unfold Char.isLower at hc
  rw [Bool.and_eq_true, decide_eq_true_eq, decide_eq_true_eq] at hc
  have hlow : 97 ≤ c.toNat := UInt32.le_iff_toNat_le.mp hc.1
  have hhigh : c.toNat ≤ 122 := UInt32.le_iff_toNat_le.mp hc.2
  have hcode := hcodes (c.toNat - 97) (List.mem_range.mpr (by omega))
  rw [Nat.add_sub_cancel' hlow, Char.ofNat_toNat] at hcode
  exact hcode

theorem isDigit_hexDigit {value : ℕ} (hvalue : value < 10) :
    (Hex.digit value).isDigit := by
  have hdigits : ∀ value ∈ List.range 10, (Hex.digit value).isDigit = true := by
    decide
  exact hdigits value (List.mem_range.mpr hvalue)

theorem generateShareCode_chars (hupper : UpperCases texts.upper)
    (hwords : WordList texts) (draw number : ℕ) :
    ∀ c ∈ generateShareCode texts draw number, IsCodeChar c := by
  intro c hc
  rcases List.mem_append.mp hc with hc | hc
  · rcases List.mem_append.mp hc with hc | hc
    · obtain ⟨letter, hletter, hc⟩ := List.mem_flatMap.mp hc
      have hlower := hwords.isLower _ (Nat.mod_lt draw (by decide)) letter hletter
      rw [hupper.lower letter hlower, List.mem_singleton] at hc
      rw [hc]
      exact .inl (isUpper_toUpper hlower)
    · exact .inr (.inr (List.mem_singleton.mp hc))
  · simp only [fourDigits, List.mem_cons, List.not_mem_nil, or_false] at hc
    rcases hc with rfl | rfl | rfl | rfl
    · exact .inr (.inl (isDigit_hexDigit (Nat.mod_lt _ (by decide))))
    · exact .inr (.inl (isDigit_hexDigit (Nat.mod_lt _ (by decide))))
    · exact .inr (.inl (isDigit_hexDigit (Nat.mod_lt _ (by decide))))
    · exact .inr (.inl (isDigit_hexDigit (Nat.mod_lt _ (by decide))))

theorem length_toUppercase {upper : Char → List Char} {text : List Char}
    (htext : ∀ c ∈ text, (upper c).length = 1) :
    (toUppercase upper text).length = text.length := by
  unfold toUppercase
  induction text with
  | nil => rfl
  | cons c text ih =>
      rw [List.flatMap_cons, List.length_append, htext c List.mem_cons_self,
        ih fun d hd => htext d (List.mem_cons_of_mem c hd), List.length_cons,
        Nat.add_comm]

theorem length_generateShareCode (hupper : UpperCases texts.upper)
    (hwords : WordList texts) (draw number : ℕ) :
    (generateShareCode texts draw number).length ≤ 13 := by
  have hdraw : draw % 2048 < 2048 := Nat.mod_lt draw (by decide)
  have hword := hwords.length_le _ hdraw
  have hsame : (toUppercase texts.upper (texts.word (draw % 2048))).length =
      (texts.word (draw % 2048)).length := by
    apply length_toUppercase
    intro c hc
    rw [hupper.lower c (hwords.isLower _ hdraw c hc), List.length_singleton]
  unfold generateShareCode
  rw [List.length_append, List.length_append, hsame, List.length_singleton]
  change _ + 1 + 4 ≤ 13
  omega

theorem IsCodeChar.toNat_cases {c : Char} (hc : IsCodeChar c) :
    c.toNat ∈ (List.range 91).filter fun code =>
      code = 45 ∨ 48 ≤ code ∧ code ≤ 57 ∨ 65 ≤ code := by
  rw [List.mem_filter, List.mem_range, decide_eq_true_eq]
  rcases hc with hc | hc | rfl
  · unfold Char.isUpper at hc
    rw [decide_eq_true_eq] at hc
    have hlow : 65 ≤ c.toNat := UInt32.le_iff_toNat_le.mp hc.1
    have hhigh : c.toNat ≤ 90 := UInt32.le_iff_toNat_le.mp hc.2
    omega
  · unfold Char.isDigit at hc
    rw [Bool.and_eq_true, decide_eq_true_eq, decide_eq_true_eq] at hc
    have hlow : 48 ≤ c.toNat := UInt32.le_iff_toNat_le.mp hc.1
    have hhigh : c.toNat ≤ 57 := UInt32.le_iff_toNat_le.mp hc.2
    omega
  · decide

/-- What no character of a code is. -/
theorem IsCodeChar.excludes {c : Char} (hc : IsCodeChar c) :
    c ≠ ':' ∧ isWhitespace c = false ∧ c.isLower = false := by
  have hcodes : ∀ code ∈ (List.range 91).filter (fun code =>
      code = 45 ∨ 48 ≤ code ∧ code ≤ 57 ∨ 65 ≤ code),
      Char.ofNat code ≠ ':' ∧ isWhitespace (Char.ofNat code) = false ∧
        (Char.ofNat code).isLower = false := by
    decide
  have hcode := hcodes c.toNat hc.toNat_cases
  rw [Char.ofNat_toNat] at hcode
  exact hcode

end Upper

/-! ## The datagram -/

section Datagram

theorem splitOnce_append {code rest : List Char} (hcode : ∀ c ∈ code, c ≠ ':') :
    splitOnce (code ++ ':' :: ' ' :: rest) = (code, some rest) := by
  induction code with
  | nil => rfl
  | cons c code ih =>
      have hc : c ≠ ':' := hcode c List.mem_cons_self
      have htail := ih fun d hd => hcode d (List.mem_cons_of_mem c hd)
      rw [List.cons_append, splitOnce, htail]
      intro rest h
      cases h
      exact fun _ => hc rfl

theorem trim_eq_self {text : List Char}
    (htext : ∀ c ∈ text, isWhitespace c = false) : trim text = text := by
  have hdrop : ∀ letters : List Char,
      (∀ c ∈ letters, isWhitespace c = false) →
      letters.dropWhile isWhitespace = letters := by
    intro letters hletters
    cases letters with
    | nil => rfl
    | cons c letters =>
        exact List.dropWhile_cons_of_neg
          (by rw [hletters c List.mem_cons_self]; exact Bool.false_ne_true)
  unfold trim
  rw [hdrop text htext,
    hdrop text.reverse fun c hc => htext c (List.mem_reverse.mp hc),
    List.reverse_reverse]

theorem digitsValue_toDigits (value : ℕ) :
    digitsValue (Nat.toDigits 10 value) = value := by
  have hdigits : ∀ (digits : List Char) (start : ℕ),
      digits.foldl (fun value c => value * 10 + (c.toNat - 48)) start =
        Nat.ofDigitChars 10 digits start := by
    intro digits
    induction digits with
    | nil => exact fun _ => rfl
    | cons c digits ih =>
        intro start
        rw [List.foldl_cons, ih, Nat.mul_comm]
        rfl
  unfold digitsValue
  rw [hdigits, Nat.ofDigitChars_ten_toDigits]

theorem isCodeChar_toDigits (value : ℕ) :
    ∀ c ∈ Nat.toDigits 10 value, IsCodeChar c := fun _ hc =>
  .inr (.inl (Nat.isDigit_of_mem_toDigits (by decide) (by decide) hc))

theorem parsePort_toDigits {port : ℕ} (hport : port < 65536) :
    parsePort (trim (Nat.toDigits 10 port)) = some port := by
  have hdigit : (Nat.toDigits 10 port).all Char.isDigit = true :=
    List.all_eq_true.mpr fun c hc =>
      Nat.isDigit_of_mem_toDigits (by decide) (by decide) hc
  have htrim : trim (Nat.toDigits 10 port) = Nat.toDigits 10 port :=
    trim_eq_self fun c hc => (isCodeChar_toDigits port c hc).excludes.2.1
  rw [htrim]
  unfold parsePort
  extract_lets digits
  have hsign : digits = Nat.toDigits 10 port := by
    unfold digits
    split
    next rest hplus =>
        rw [hplus, List.all_cons] at hdigit
        exact absurd hdigit (by simp [Char.isDigit])
    next => rfl
  have hvalue : digitsValue digits = port := by
    rw [hsign, digitsValue_toDigits]
  have hfits : digits ≠ [] ∧ digits.all Char.isDigit = true ∧
      digitsValue digits < 65536 := by
    refine ⟨?_, ?_, by rw [hvalue]; exact hport⟩
    · rw [hsign]
      exact Nat.toDigits_ne_nil
    · rw [hsign]
      exact hdigit
  rw [if_pos hfits, hvalue]

theorem length_utf8_le (text : List Char) :
    (utf8 (String.ofList text)).length ≤ 4 * text.length := by
  unfold utf8
  rw [String.toByteArray_ofList]
  induction text with
  | nil => exact Nat.le_refl _
  | cons c text ih =>
      have hsize := Char.utf8Size_le_four c
      rw [List.utf8Encode_cons, List.utf8Encode_singleton,
        ByteArray.data_append, Array.toList_append, List.length_append,
        List.length_cons]
      have hc : (String.utf8EncodeChar c).toByteArray.data.toList.length =
          c.utf8Size := by
        simp
      omega

/-- What a listener makes of the datagram of any code without a colon. -/
theorem announcedAddr_announcement {texts : Texts} {code heard : List Char}
    (hcode : ∀ c ∈ toUppercase texts.upper code, IsCodeChar c)
    (hlength : (toUppercase texts.upper code).length ≤ 13) {port : ℕ}
    (hport : port < 65536) (peer : SocketAddr) :
    announcedAddr texts.upper heard (announcement texts code port) peer =
      if toUppercase texts.upper (toUppercase texts.upper code) = heard then
        if 0 < port then some ⟨peer.ip, port⟩ else none
      else none := by
  have hdigits : (Nat.toDigits 10 port).length ≤ 5 :=
    (Nat.length_toDigits_le_iff (by decide) (by decide)).mpr (by omega)
  have hwhole : (announcement texts code port).take 256 =
      announcement texts code port := by
    have hbytes := length_utf8_le (headerText ++
      (toUppercase texts.upper code ++ ':' :: ' ' :: Nat.toDigits 10 port))
    apply List.take_of_length_le
    have hheader : headerText.length = 6 := rfl
    rw [List.length_append, List.length_append, List.length_cons,
      List.length_cons, hheader] at hbytes
    unfold announcement
    omega
  have hread := ofUtf8_utf8 (String.ofList (headerText ++
    (toUppercase texts.upper code ++ ':' :: ' ' :: Nat.toDigits 10 port)))
  have hheader : headerText.isPrefixOf (headerText ++
      (toUppercase texts.upper code ++ ':' :: ' ' :: Nat.toDigits 10 port)) =
      true := List.isPrefixOf_iff_prefix.mpr (List.prefix_append _ _)
  unfold announcedAddr
  rw [hwhole]
  unfold announcement
  unfold ofUtf8 at hread
  rw [hread]
  dsimp only
  rw [String.toList_ofList, if_pos hheader, List.drop_left,
    splitOnce_append fun c hc => (hcode c hc).excludes.1]
  dsimp only
  rw [trim_eq_self fun c hc => (hcode c hc).excludes.2.1, Option.bind_some,
    parsePort_toDigits hport]

end Datagram

/-! ## The keys on the DHT and at the relay -/

section Keys

/-- Texts with a colon are the same only if both sides of their last colon
are. -/
theorem colon_inj {first second rest more : List Char}
    (hrest : ∀ c ∈ rest, c ≠ ':') (hmore : ∀ c ∈ more, c ≠ ':')
    (htext : first ++ ':' :: rest = second ++ ':' :: more) :
    first = second ∧ rest = more := by
  rcases List.append_eq_append_iff.mp htext with
    ⟨middle, rfl, htail⟩ | ⟨middle, rfl, htail⟩
  · cases middle with
    | nil => exact ⟨(List.append_nil _).symm, (List.cons.inj htail).2⟩
    | cons c middle =>
        have hcolon : ':' ∈ rest := by
          rw [(List.cons.inj htail).2]
          exact List.mem_append_right _ List.mem_cons_self
        exact absurd rfl (hrest ':' hcolon)
  · cases middle with
    | nil => exact ⟨List.append_nil _, (List.cons.inj htail).2.symm⟩
    | cons c middle =>
        have hcolon : ':' ∈ more := by
          rw [(List.cons.inj htail).2]
          exact List.mem_append_right _ List.mem_cons_self
        exact absurd rfl (hmore ':' hcolon)

theorem toDigits_ne_colon (value : ℕ) :
    ∀ c ∈ Nat.toDigits 10 value, c ≠ ':' := fun c hc =>
  (isCodeChar_toDigits value c hc).excludes.1

theorem toDigits_inj {value other : ℕ}
    (hdigits : Nat.toDigits 10 value = Nat.toDigits 10 other) :
    value = other := by
  have hvalue := digitsValue_toDigits value
  rw [hdigits, digitsValue_toDigits] at hvalue
  exact hvalue.symm

variable {first second : List Char} {now later : ℕ}

theorem infohashText_inj
    (htext : infohashText first now = infohashText second later) :
    first = second ∧ currentHour now = currentHour later := by
  obtain ⟨hcode, hhour⟩ :=
    colon_inj (toDigits_ne_colon _) (toDigits_ne_colon _) htext
  exact ⟨hcode, toDigits_inj hhour⟩

theorem recvInfohashText_eq (code : List Char) (now : ℕ) :
    recvInfohashText code now = infohashText (code ++ ":recv".toList) now := by
  unfold recvInfohashText infohashText
  rw [List.append_assoc, List.append_assoc]
  rfl

theorem recvInfohashText_inj
    (htext : recvInfohashText first now = recvInfohashText second later) :
    first = second ∧ currentHour now = currentHour later := by
  rw [recvInfohashText_eq, recvInfohashText_eq] at htext
  obtain ⟨hcode, hhour⟩ := infohashText_inj htext
  exact ⟨List.append_cancel_right hcode, hhour⟩

end Keys

section Codes

variable {Key : Type} {texts : Texts} {code : List Char}
  {setting : LookupSetting}

theorem UpperCases.of_code (hupper : UpperCases texts.upper)
    (hcode : ∀ c ∈ code, IsCodeChar c) : toUppercase texts.upper code = code :=
  toUppercase_eq_self fun c hc => hupper.ascii c (hcode c hc)

theorem UpperCases.not_mem_lower {upper : Char → List Char}
    (hupper : UpperCases upper) (text : List Char) :
    'r' ∉ toUppercase upper text := by
  intro hmem
  obtain ⟨c, _, hc⟩ := List.mem_flatMap.mp hmem
  have hfixed := hupper.idempotent c 'r' hc
  have hlower := hupper.lower 'r' rfl
  rw [hfixed] at hlower
  exact absurd hlower (by decide)

/-- The device of the receiver upper-cases as that of the sender does. -/
theorem UpperCases.codeUpper_twice (hupper : UpperCases texts.upper)
    (hsetting : setting.upper = texts.upper) :
    toUppercase texts.upper setting.codeUpper = setting.codeUpper := by
  unfold LookupSetting.codeUpper
  rw [hsetting, hupper.toUppercase_twice]

theorem heardDatagram_announcement (hupper : UpperCases texts.upper)
    (hsetting : setting.upper = texts.upper)
    (hcode : ∀ c ∈ code, IsCodeChar c) (hlength : code.length ≤ 13) {port : ℕ}
    (hport : port < 65536) (peer : SocketAddr) :
    announcedAddr setting.upper (toUppercase setting.upper setting.codeUpper)
        (announcement texts code port) peer =
      if code = setting.codeUpper then
        if 0 < port then some ⟨peer.ip, port⟩ else none
      else none := by
  have hself := hupper.of_code hcode
  have hchars : ∀ c ∈ toUppercase texts.upper code, IsCodeChar c := by
    rw [hself]
    exact hcode
  have hshort : (toUppercase texts.upper code).length ≤ 13 := by
    rw [hself]
    exact hlength
  rw [hsetting, announcedAddr_announcement hchars hshort hport,
    hupper.codeUpper_twice hsetting, hself, hself]

theorem heardService_mdnsProperty (hupper : UpperCases texts.upper)
    (hsetting : setting.upper = texts.upper)
    (hcode : ∀ c ∈ code, IsCodeChar c) :
    toUppercase setting.upper
          ((some (mdnsProperty texts code)).getD "").toList =
        toUppercase setting.upper setting.codeUpper ↔
      code = setting.codeUpper := by
  unfold mdnsProperty
  rw [Option.getD_some, String.toList_ofList, hsetting,
    hupper.toUppercase_twice, hupper.of_code hcode,
    hupper.codeUpper_twice hsetting]

theorem meets_of_code (hupper : UpperCases texts.upper)
    (hsetting : setting.upper = texts.upper)
    (hcode : ∀ c ∈ code, IsCodeChar c) (hlength : code.length ≤ 13)
    (htyped : code = setting.codeUpper) : Meets Key texts code setting := by
  refine ⟨?_, ?_, ?_, ?_, ?_⟩
  · intro port peer hpos hport
    unfold heardDatagram
    dsimp only
    rw [heardDatagram_announcement hupper hsetting hcode hlength hport,
      if_pos htyped, if_pos hpos]
  · intro addresses ip port hip
    unfold heardService
    dsimp only
    rw [if_pos ((heardService_mdnsProperty hupper hsetting hcode).mpr htyped),
      hip]
  · intro sha1 now later hhour
    unfold toInfohash infohashText
    rw [← htyped, hhour]
  · intro sha1 now later hhour
    unfold toRecvInfohash recvInfohashText
    rw [← htyped, hhour]
  · intro sha256
    rw [← htyped]

theorem misses_of_code (hupper : UpperCases texts.upper)
    (hsetting : setting.upper = texts.upper)
    (hcode : ∀ c ∈ code, IsCodeChar c) (hlength : code.length ≤ 13)
    (htyped : code ≠ setting.codeUpper) : Misses Key texts code setting := by
  refine ⟨?_, ?_, ?_, ?_, ?_⟩
  · intro port peer hport
    unfold heardDatagram
    dsimp only
    rw [heardDatagram_announcement hupper hsetting hcode hlength hport,
      if_neg htyped]
  · intro addresses port
    unfold heardService
    dsimp only
    rw [if_neg fun h =>
      htyped ((heardService_mdnsProperty hupper hsetting hcode).mp h)]
  · exact fun now later h => htyped (infohashText_inj h).1
  · exact fun now later h => htyped (recvInfohashText_inj h).1
  · unfold relayTokenText
    rw [hupper.of_code hcode, hupper.codeUpper_twice hsetting]
    exact fun h => htyped (List.append_cancel_right h)

theorem keepsApart_of_code (hupper : UpperCases texts.upper)
    (hsetting : setting.upper = texts.upper)
    (hcode : ∀ c ∈ code, IsCodeChar c) : KeepsApart code setting := by
  refine ⟨?_, ?_, ?_, ?_⟩
  · exact fun now later hhour h => hhour (infohashText_inj h).2
  · exact fun now later hhour h => hhour (recvInfohashText_inj h).2
  · intro now later h
    rw [recvInfohashText_eq] at h
    have hmem : 'r' ∈ code := by
      rw [(infohashText_inj h).1]
      exact List.mem_append_right _ (by decide)
    exact absurd (hcode 'r' hmem).excludes.2.2 (by decide)
  · intro now later h
    rw [recvInfohashText_eq] at h
    have hmem : 'r' ∈ setting.codeUpper := by
      rw [← (infohashText_inj h).1]
      exact List.mem_append_right _ (by decide)
    unfold LookupSetting.codeUpper at hmem
    rw [hsetting] at hmem
    exact hupper.not_mem_lower setting.code hmem

end Codes

/-- A receiver meets the sender of a share code on every channel when its user
types the code in any case, and on none when the user types another text; on the
DHT both must look at the clock in the same hour, and the keys of senders and of
receivers never coincide. -/
theorem share_code_meets (Key : Type) {texts : Texts}
    (hupper : UpperCases texts.upper) (hwords : WordList texts)
    (draw number : ℕ) (setting : LookupSetting)
    (hsetting : setting.upper = texts.upper) :
    (generateShareCode texts draw number = setting.codeUpper →
        Meets Key texts (generateShareCode texts draw number) setting) ∧
      (generateShareCode texts draw number ≠ setting.codeUpper →
        Misses Key texts (generateShareCode texts draw number) setting) ∧
      KeepsApart (generateShareCode texts draw number) setting := by
  have hcode := generateShareCode_chars hupper hwords draw number
  have hlength := length_generateShareCode hupper hwords draw number
  exact ⟨meets_of_code hupper hsetting hcode hlength,
    misses_of_code hupper hsetting hcode hlength,
    keepsApart_of_code hupper hsetting hcode⟩

/-! ## A code of one word -/

theorem toUpper_of_not_isLower {c : Char} (hc : c.isLower = false) :
    c.toUpper = c := by
  unfold Char.isLower at hc
  rw [Bool.and_eq_false_iff, decide_eq_false_iff_not, decide_eq_false_iff_not]
    at hc
  unfold Char.toUpper
  rw [dif_neg fun h => hc.elim (fun hlow => hlow h.1) fun hhigh => hhigh h.2]

theorem isLower_toUpper (c : Char) : c.toUpper.isLower = false := by
  cases hc : c.isLower with
  | true => exact (IsCodeChar.excludes (.inl (isUpper_toUpper hc))).2.2
  | false => rw [toUpper_of_not_isLower hc, hc]

theorem upperCases_asciiTexts : UpperCases asciiTexts.upper where
  idempotent := by
    intro c d hd
    rw [List.mem_singleton.mp hd]
    exact congrArg (fun c => [c]) (toUpper_of_not_isLower (isLower_toUpper c))
  ascii := fun c hc => congrArg (fun c => [c])
    (toUpper_of_not_isLower (IsCodeChar.excludes hc).2.2)
  lower := fun _ _ => rfl

def mangoTexts : Texts where
  word := fun _ => ['m', 'a', 'n', 'g', 'o']
  upper := asciiTexts.upper

def mangoLookup : LookupSetting where
  upper := asciiTexts.upper
  code := "mango-4471".toList
  ios := false
  allowRelay := true

theorem share_code_meets_sample :
    Meets Unit mangoTexts (generateShareCode mangoTexts 0 4471) mangoLookup := by
  have hword : ∀ i, mangoTexts.word i = ['m', 'a', 'n', 'g', 'o'] :=
    fun _ => rfl
  have hwords : WordList mangoTexts := by
    refine ⟨fun i _ => ?_, fun i _ => ?_⟩
    · have hlower : ['m', 'a', 'n', 'g', 'o'].all Char.isLower = true := rfl
      rw [hword]
      exact List.all_eq_true.mp hlower
    · rw [hword]
      exact Nat.le_of_ble_eq_true rfl
  have hupper : UpperCases mangoTexts.upper := upperCases_asciiTexts
  exact (share_code_meets Unit hupper hwords 0 4471 mangoLookup rfl).1
    (by decide)

end P2pShare

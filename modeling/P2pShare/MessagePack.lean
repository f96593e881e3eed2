import P2pShare.ByteStream

/-!
# MessagePack

The part of the format that a serializer of plain records writes: integers,
texts, arrays and maps whose lengths come first, and the tagged values of an
enumeration.  An integer and a length take the first of a list of forms that
has room for them, so the number of bytes depends on the magnitude.
-/

namespace MessagePack

open ByteStream

/-- A value is read back from the front of a stream; `Fits` holds of the values
the format has room for. -/
structure Codec (α : Type) where
  put : α → Bytes
  get : Bytes → Option (α × Bytes)
  Fits : α → Prop
  get_put : ∀ {value}, Fits value → ∀ rest,
    get (put value ++ rest) = some (value, rest)

/-! ## Forms of a number -/

/-- A number below `count` is one byte from `base` on; another is a marker and
a big-endian integer of the width that belongs to it. -/
structure Form where
  base : ℕ
  count : ℕ
  wide : List (ℕ × ℕ)
  base_add_count_le : base + count ≤ 256
  marker : ∀ entry ∈ wide,
    entry.1 < 256 ∧ ¬ (base ≤ entry.1 ∧ entry.1 < base + count)
  nodup : (wide.map Prod.fst).Nodup

namespace Form

variable (form : Form)

def choice (value : ℕ) : Option (ℕ × ℕ) :=
  form.wide.find? fun entry => decide (value < 256 ^ entry.2)

def put (value : ℕ) : Bytes :=
  if value < form.count then toBe 1 (form.base + value)
  else
    match form.choice value with
    | some (marker, width) => toBe 1 marker ++ toBe width value
    | none => []

def get (input : Bytes) : Option (ℕ × Bytes) :=
  (readBe 1 input).bind fun (byte, rest) =>
    if form.base ≤ byte ∧ byte < form.base + form.count then
      some (byte - form.base, rest)
    else
      match form.wide.find? fun entry => decide (entry.1 = byte) with
      | some (_, width) => readBe width rest
      | none => none

/-- The number of bytes. -/
def size (value : ℕ) : ℕ :=
  if value < form.count then 1
  else
    match form.choice value with
    | some (_, width) => 1 + width
    | none => 0

def Fits (value : ℕ) : Prop :=
  value < form.count ∨ (form.choice value).isSome

instance (value : ℕ) : Decidable (form.Fits value) :=
  inferInstanceAs (Decidable (_ ∨ _))

theorem length_put (value : ℕ) : (form.put value).length = form.size value := by
  unfold put size
  split
  · exact length_toBe _ _
  · split <;> simp

variable {form}

theorem find_marker {wide : List (ℕ × ℕ)} {entry : ℕ × ℕ}
    (hnodup : (wide.map Prod.fst).Nodup) (hmem : entry ∈ wide) :
    wide.find? (fun other => decide (other.1 = entry.1)) = some entry := by
  induction wide with
  | nil => contradiction
  | cons head tail ih =>
      rw [List.map_cons, List.nodup_cons] at hnodup
      by_cases hhead : head.1 = entry.1
      · have hsame : head = entry := by
          cases hmem with
          | head => rfl
          | tail _ htail =>
              have hmarker := List.mem_map_of_mem (f := Prod.fst) htail
              rw [← hhead] at hmarker
              exact absurd hmarker hnodup.1
        rw [List.find?_cons_of_pos (by simpa using hhead), hsame]
      · have htail : entry ∈ tail := by
          cases hmem with
          | head => exact absurd rfl hhead
          | tail _ htail => exact htail
        rw [List.find?_cons_of_neg (by simpa using hhead)]
        exact ih hnodup.2 htail

theorem get_put {value : ℕ} (hfits : form.Fits value) (rest : Bytes) :
    form.get (form.put value ++ rest) = some (value, rest) := by
  unfold put get
  by_cases hsmall : value < form.count
  · have hbyte : form.base + value < 256 ^ 1 := by
      have hle := form.base_add_count_le
      omega
    rw [if_pos hsmall, readBe_append hbyte, Option.bind_some]
    dsimp only
    rw [if_pos (by omega), Nat.add_sub_cancel_left]
  · have hchoice := hfits.resolve_left hsmall
    rcases Option.isSome_iff_exists.mp hchoice with ⟨⟨marker, width⟩, hentry⟩
    have hmem := List.mem_of_find?_eq_some hentry
    have hwidth : value < 256 ^ width := by
      simpa using List.find?_some hentry
    rcases form.marker _ hmem with ⟨hbyte, hforeign⟩
    rw [if_neg hsmall, hentry]
    dsimp only
    rw [List.append_assoc, readBe_append (by simpa using hbyte),
      Option.bind_some]
    dsimp only
    rw [if_neg hforeign, find_marker form.nodup hmem]
    exact readBe_append hwidth

/-- A stream that begins with a byte of no form of the number. -/
theorem get_eq_none {byte : ℕ} (hbyte : byte < 256) (rest : Bytes)
    (hbase : ¬ (form.base ≤ byte ∧ byte < form.base + form.count))
    (hwide : ∀ entry ∈ form.wide, entry.1 ≠ byte) :
    form.get (toBe 1 byte ++ rest) = none := by
  have hfind : (form.wide.find? fun entry => decide (entry.1 = byte)) = none := by
    rw [List.find?_eq_none]
    intro entry hentry
    simpa using hwide entry hentry
  unfold get
  rw [readBe_append (by simpa using hbyte), Option.bind_some]
  dsimp only
  rw [if_neg hbase, hfind]

variable (form) in
def codec : Codec ℕ where
  put := form.put
  get := form.get
  Fits := form.Fits
  get_put := get_put

end Form

def uint : Form where
  base := 0
  count := 128
  wide := [(0xcc, 1), (0xcd, 2), (0xce, 4), (0xcf, 8)]
  base_add_count_le := by decide
  marker := by decide
  nodup := by decide

def textLength : Form where
  base := 0xa0
  count := 32
  wide := [(0xd9, 1), (0xda, 2), (0xdb, 4)]
  base_add_count_le := by decide
  marker := by decide
  nodup := by decide

def arrayLength : Form where
  base := 0x90
  count := 16
  wide := [(0xdc, 2), (0xdd, 4)]
  base_add_count_le := by decide
  marker := by decide
  nodup := by decide

def mapLength : Form where
  base := 0x80
  count := 16
  wide := [(0xde, 2), (0xdf, 4)]
  base_add_count_le := by decide
  marker := by decide
  nodup := by decide

theorem uint_fits {value : ℕ} (hvalue : value < 2 ^ 64) : uint.Fits value := by
  refine Or.inr (List.find?_isSome.mpr ⟨(0xcf, 8), ?_, ?_⟩)
  · decide
  · rw [decide_eq_true_eq]
    exact hvalue.trans_eq (by norm_num)

theorem arrayLength_fits {length : ℕ} (hlength : length < 2 ^ 32) :
    arrayLength.Fits length := by
  refine Or.inr (List.find?_isSome.mpr ⟨(0xdd, 4), ?_, ?_⟩)
  · decide
  · rw [decide_eq_true_eq]
    exact hlength.trans_eq (by norm_num)

theorem textLength_fits {length : ℕ} (hlength : length < 2 ^ 32) :
    textLength.Fits length := by
  refine Or.inr (List.find?_isSome.mpr ⟨(0xdb, 4), ?_, ?_⟩)
  · decide
  · rw [decide_eq_true_eq]
    exact hlength.trans_eq (by norm_num)

/-! ## Texts -/

def utf8 (text : String) : Bytes := text.toByteArray.data.toList

theorem length_utf8 (text : String) : (utf8 text).length = text.utf8ByteSize :=
  String.size_toByteArray

def ofUtf8 (bytes : Bytes) : Option String :=
  String.fromUTF8? ⟨bytes.toArray⟩

theorem ofUtf8_utf8 (text : String) : ofUtf8 (utf8 text) = some text := by
  have hbytes : (⟨(utf8 text).toArray⟩ : ByteArray) = text.toByteArray := rfl
  unfold ofUtf8
  rw [hbytes, String.fromUTF8?, dif_pos text.isValidUTF8]
  rfl

def putText (text : String) : Bytes :=
  textLength.put (utf8 text).length ++ utf8 text

def getText (input : Bytes) : Option (String × Bytes) :=
  (textLength.get input).bind fun (length, rest) =>
    (readExact length rest).bind fun (bytes, rest) =>
      (ofUtf8 bytes).map fun text => (text, rest)

def textSize (text : String) : ℕ :=
  textLength.size text.utf8ByteSize + text.utf8ByteSize

theorem length_putText (text : String) :
    (putText text).length = textSize text := by
  unfold putText textSize
  rw [List.length_append, Form.length_put, length_utf8]

theorem getText_putText {text : String}
    (hfits : textLength.Fits text.utf8ByteSize) (rest : Bytes) :
    getText (putText text ++ rest) = some (text, rest) := by
  unfold putText getText
  rw [List.append_assoc, length_utf8, Form.get_put hfits, Option.bind_some]
  dsimp only
  rw [readExact_append (length_utf8 text), Option.bind_some]
  dsimp only
  rw [ofUtf8_utf8, Option.map_some]

def text : Codec String where
  put := putText
  get := getText
  Fits := fun text => textLength.Fits text.utf8ByteSize
  get_put := getText_putText

/-! ## Records -/

namespace Codec

variable {α β : Type}

/-- One value after the other. -/
def pair (first : Codec α) (second : Codec β) : Codec (α × β) where
  put := fun (left, right) => first.put left ++ second.put right
  get := fun input =>
    (first.get input).bind fun (left, rest) =>
      (second.get rest).map fun (right, rest) => ((left, right), rest)
  Fits := fun (left, right) => first.Fits left ∧ second.Fits right
  get_put := by
    rintro ⟨left, right⟩ ⟨hleft, hright⟩ rest
    dsimp only
    rw [List.append_assoc, first.get_put hleft, Option.bind_some]
    dsimp only
    rw [second.get_put hright, Option.map_some]

/-- A field of a map: its name and its value. -/
def keyed (name : String) (codec : Codec α) : Codec α where
  put := fun value => putText name ++ codec.put value
  get := fun input =>
    (getText input).bind fun (key, rest) =>
      if key = name then codec.get rest else none
  Fits := fun value => textLength.Fits name.utf8ByteSize ∧ codec.Fits value
  get_put := by
    rintro value ⟨hname, hvalue⟩ rest
    rw [List.append_assoc, getText_putText hname, Option.bind_some]
    dsimp only
    rw [if_pos rfl, codec.get_put hvalue]

/-- A map of `count` entries that `codec` writes. -/
def map (count : ℕ) (codec : Codec α) : Codec α where
  put := fun value => mapLength.put count ++ codec.put value
  get := fun input =>
    (mapLength.get input).bind fun (found, rest) =>
      if found = count then codec.get rest else none
  Fits := fun value => mapLength.Fits count ∧ codec.Fits value
  get_put := by
    rintro value ⟨hcount, hvalue⟩ rest
    rw [List.append_assoc, Form.get_put hcount, Option.bind_some]
    dsimp only
    rw [if_pos rfl, codec.get_put hvalue]

def getItems (codec : Codec α) : ℕ → Bytes → Option (List α × Bytes)
  | 0, input => some ([], input)
  | count + 1, input =>
      (codec.get input).bind fun (item, rest) =>
        (getItems codec count rest).map fun (items, rest) =>
          (item :: items, rest)

theorem getItems_flatMap {codec : Codec α} {items : List α}
    (hitems : ∀ item ∈ items, codec.Fits item) (rest : Bytes) :
    getItems codec items.length (items.flatMap codec.put ++ rest) =
      some (items, rest) := by
  induction items with
  | nil => rfl
  | cons item items ih =>
      have hitem := hitems item List.mem_cons_self
      have htail := ih fun other hother =>
        hitems other (List.mem_cons_of_mem _ hother)
      rw [List.length_cons, getItems, List.flatMap_cons, List.append_assoc,
        codec.get_put hitem, Option.bind_some]
      dsimp only
      rw [htail, Option.map_some]

def array (codec : Codec α) : Codec (List α) where
  put := fun items => arrayLength.put items.length ++ items.flatMap codec.put
  get := fun input =>
    (arrayLength.get input).bind fun (count, rest) => getItems codec count rest
  Fits := fun items =>
    arrayLength.Fits items.length ∧ ∀ item ∈ items, codec.Fits item
  get_put := by
    rintro items ⟨hcount, hitems⟩ rest
    rw [List.append_assoc, Form.get_put hcount, Option.bind_some]
    exact getItems_flatMap hitems rest

theorem length_array_put (codec : Codec α) (items : List α) :
    (codec.array.put items).length =
      arrayLength.size items.length +
        (items.map fun item => (codec.put item).length).sum := by
  unfold array
  rw [List.length_append, Form.length_put, List.length_flatMap]

/-- The values of `β` that have a form in `α`. -/
def via (codec : Codec α) (fields : β → α) (build : α → Option β)
    (build_fields : ∀ value, build (fields value) = some value) : Codec β where
  put := fun value => codec.put (fields value)
  get := fun input =>
    (codec.get input).bind fun (found, rest) =>
      (build found).map fun value => (value, rest)
  Fits := fun value => codec.Fits (fields value)
  get_put := by
    intro value hfits rest
    rw [codec.get_put hfits, Option.bind_some]
    dsimp only
    rw [build_fields, Option.map_some]

end Codec

/-! ## Enumerations -/

/-- The front of a value of an enumeration: the name of its variant, and whether
a value of the variant follows. -/
structure Tag where
  name : String
  carries : Bool
  deriving DecidableEq

namespace Tag

def put (tag : Tag) : Bytes :=
  if tag.carries then mapLength.put 1 ++ putText tag.name else putText tag.name

def get (input : Bytes) : Option (Tag × Bytes) :=
  match mapLength.get input with
  | some (count, rest) =>
      if count = 1 then
        (getText rest).map fun (name, rest) => (⟨name, true⟩, rest)
      else none
  | none => (getText input).map fun (name, rest) => (⟨name, false⟩, rest)

def size (tag : Tag) : ℕ :=
  if tag.carries then 1 + textSize tag.name else textSize tag.name

theorem length_put (tag : Tag) : tag.put.length = tag.size := by
  unfold put size
  split
  · rw [List.length_append, Form.length_put, length_putText]
    rfl
  · exact length_putText _

/-- A text does not begin as a map does. -/
theorem mapLength_get_putText {name : String}
    (hfits : textLength.Fits name.utf8ByteSize) (rest : Bytes) :
    mapLength.get (putText name ++ rest) = none := by
  unfold putText Form.put
  rw [length_utf8, List.append_assoc]
  by_cases hsmall : name.utf8ByteSize < textLength.count
  · have hcount : textLength.count = 32 := rfl
    rw [if_pos hsmall]
    apply Form.get_eq_none
    · simp only [textLength]
      omega
    · simp only [textLength, mapLength]
      omega
    · intro entry hentry
      simp only [mapLength, List.mem_cons, List.not_mem_nil, or_false] at hentry
      simp only [textLength]
      rcases hentry with rfl | rfl <;> dsimp only <;> omega
  · have hchoice := hfits.resolve_left hsmall
    rcases Option.isSome_iff_exists.mp hchoice with ⟨⟨marker, width⟩, hentry⟩
    have hmem := List.mem_of_find?_eq_some hentry
    rw [if_neg hsmall, hentry]
    dsimp only
    rw [List.append_assoc]
    simp only [textLength, List.mem_cons, List.not_mem_nil, or_false,
      Prod.mk.injEq] at hmem
    rcases hmem with ⟨rfl, rfl⟩ | ⟨rfl, rfl⟩ | ⟨rfl, rfl⟩ <;>
      exact Form.get_eq_none (by decide) _ (by decide) (by decide)

theorem get_put {tag : Tag} (hfits : textLength.Fits tag.name.utf8ByteSize)
    (rest : Bytes) : get (tag.put ++ rest) = some (tag, rest) := by
  rcases tag with ⟨name, carries⟩
  unfold get put
  cases carries with
  | true =>
      have hone : mapLength.Fits 1 := by decide
      rw [if_pos rfl, List.append_assoc, Form.get_put hone]
      dsimp only
      rw [if_pos rfl, getText_putText hfits, Option.map_some]
  | false =>
      rw [if_neg Bool.false_ne_true, mapLength_get_putText hfits]
      dsimp only
      rw [getText_putText hfits, Option.map_some]

end Tag

end MessagePack

import Mathlib.Data.List.Basic
import Mathlib.Data.List.TakeDrop
import Mathlib.Data.List.Range
import Mathlib.Algebra.Order.Floor.Div
import Mathlib.Data.Nat.Cast.Order.Basic
import Mathlib.Algebra.Order.Ring.Nat
import Mathlib.Tactic.Ring

/-!
# Byte streams

Big-endian integers of a fixed width, exact reads from the front of a stream,
and the division of a byte string into pieces of bounded length.  A read that
needs more bytes than are there returns `none`: on a socket the reader waits.
-/

namespace ByteStream

abbrev Bytes := List UInt8

/-! ## Big-endian integers -/

/-- The `width` low bytes of `value`, most significant first. -/
def toBe : ℕ → ℕ → Bytes
  | 0, _ => []
  | width + 1, value =>
      UInt8.ofNat (value / 256 ^ width % 256) :: toBe width value

def ofBe : Bytes → ℕ
  | [] => 0
  | byte :: rest => byte.toNat * 256 ^ rest.length + ofBe rest

@[simp] theorem length_toBe (width value : ℕ) :
    (toBe width value).length = width := by
  induction width with
  | zero => rfl
  | succ width ih => simp [toBe, ih]

theorem ofBe_toBe (width value : ℕ) :
    ofBe (toBe width value) = value % 256 ^ width := by
  induction width with
  | zero => simp [toBe, ofBe, Nat.mod_one]
  | succ width ih =>
      have hbyte :
          (UInt8.ofNat (value / 256 ^ width % 256)).toNat =
            value / 256 ^ width % 256 := by
        rw [UInt8.toNat_ofNat']
        exact Nat.mod_eq_of_lt (Nat.mod_lt _ (by norm_num))
      rw [toBe, ofBe, ih, length_toBe, hbyte, pow_succ, Nat.mod_mul]
      ring

theorem ofBe_lt (bytes : Bytes) : ofBe bytes < 256 ^ bytes.length := by
  induction bytes with
  | nil => simp [ofBe]
  | cons byte rest ih =>
      have hbyte : byte.toNat + 1 ≤ 256 := byte.toNat_lt
      calc
        ofBe (byte :: rest) =
            byte.toNat * 256 ^ rest.length + ofBe rest := rfl
        _ < byte.toNat * 256 ^ rest.length + 256 ^ rest.length := by omega
        _ = (byte.toNat + 1) * 256 ^ rest.length := by ring
        _ ≤ 256 * 256 ^ rest.length := Nat.mul_le_mul_right _ hbyte
        _ = 256 ^ (byte :: rest).length := by
            rw [List.length_cons, pow_succ]
            ring

/-! ## Exact reads -/

/-- The next `count` bytes and what follows them. -/
def readExact (count : ℕ) (input : Bytes) : Option (Bytes × Bytes) :=
  if count ≤ input.length then
    some (input.take count, input.drop count)
  else none

/-- The next `width` bytes as a big-endian integer. -/
def readBe (width : ℕ) (input : Bytes) : Option (ℕ × Bytes) :=
  (readExact width input).map fun (bytes, rest) => (ofBe bytes, rest)

theorem readExact_append {count : ℕ} {bytes rest : Bytes}
    (hlength : bytes.length = count) :
    readExact count (bytes ++ rest) = some (bytes, rest) := by
  subst count
  simp [readExact]

theorem readExact_eq_some {count : ℕ} {input bytes rest : Bytes} :
    readExact count input = some (bytes, rest) ↔
      input = bytes ++ rest ∧ bytes.length = count := by
  constructor
  · intro hread
    unfold readExact at hread
    split at hread
    · next hlength =>
        simp only [Option.some.injEq, Prod.mk.injEq] at hread
        obtain ⟨rfl, rfl⟩ := hread
        exact ⟨(List.take_append_drop count input).symm, by simpa using hlength⟩
    · contradiction
  · rintro ⟨rfl, hlength⟩
    exact readExact_append hlength

theorem readBe_append {width value : ℕ} {rest : Bytes}
    (hvalue : value < 256 ^ width) :
    readBe width (toBe width value ++ rest) = some (value, rest) := by
  unfold readBe
  rw [readExact_append (length_toBe width value)]
  simp [ofBe_toBe, Nat.mod_eq_of_lt hvalue]

theorem readBe_eq_some {width value : ℕ} {input rest : Bytes}
    (hread : readBe width input = some (value, rest)) :
    ∃ bytes : Bytes, input = bytes ++ rest ∧ bytes.length = width ∧
      ofBe bytes = value := by
  unfold readBe at hread
  simp only [Option.map_eq_some_iff, Prod.exists, Prod.mk.injEq] at hread
  obtain ⟨bytes, tail, hexact, hvalue, rfl⟩ := hread
  obtain ⟨hinput, hlength⟩ := readExact_eq_some.mp hexact
  exact ⟨bytes, hinput, hlength, hvalue⟩

theorem readBe_lt {width value : ℕ} {input rest : Bytes}
    (hread : readBe width input = some (value, rest)) :
    value < 256 ^ width := by
  obtain ⟨bytes, _, hlength, hvalue⟩ := readBe_eq_some hread
  rw [← hvalue, ← hlength]
  exact ofBe_lt bytes

/-! ## Pieces of bounded length -/

/-- `bytes` cut into pieces of `size` bytes, the last one possibly shorter. -/
def pieces (size : ℕ) (bytes : Bytes) : List Bytes :=
  (List.range (bytes.length ⌈/⌉ size)).map fun index =>
    (bytes.drop (index * size)).take size

@[simp] theorem length_pieces (size : ℕ) (bytes : Bytes) :
    (pieces size bytes).length = bytes.length ⌈/⌉ size := by
  simp [pieces]

theorem getElem?_pieces {size : ℕ} {bytes piece : Bytes} {index : ℕ}
    (hpiece : (pieces size bytes)[index]? = some piece) :
    index < bytes.length ⌈/⌉ size ∧
      piece = (bytes.drop (index * size)).take size := by
  unfold pieces at hpiece
  rw [List.getElem?_map, Option.map_eq_some_iff] at hpiece
  obtain ⟨position, hposition, rfl⟩ := hpiece
  obtain ⟨hlt, heq⟩ := List.getElem?_eq_some_iff.mp hposition
  rw [List.getElem_range] at heq
  subst position
  exact ⟨by simpa using hlt, rfl⟩

theorem length_le_of_mem_pieces {size : ℕ} {bytes piece : Bytes}
    (hmem : piece ∈ pieces size bytes) : piece.length ≤ size := by
  unfold pieces at hmem
  obtain ⟨index, _, rfl⟩ := List.mem_map.mp hmem
  simp

theorem length_le_ceilDiv_mul {size : ℕ} (hsize : 0 < size)
    (bytes : Bytes) :
    bytes.length ≤ bytes.length ⌈/⌉ size * size := by
  have hle : bytes.length ≤ size • (bytes.length ⌈/⌉ size) :=
    le_smul_ceilDiv hsize
  rw [smul_eq_mul, Nat.mul_comm] at hle
  exact hle

/-- The first `count` pieces are the first `count * size` bytes. -/
theorem flatten_take_pieces {size count : ℕ} {bytes : Bytes}
    (hcount : count ≤ bytes.length ⌈/⌉ size) :
    ((pieces size bytes).take count).flatten =
      bytes.take (count * size) := by
  induction count with
  | zero => simp
  | succ count ih =>
      have hlt : count < (pieces size bytes).length := by
        rw [length_pieces]
        omega
      have hpiece :
          (pieces size bytes)[count] =
            (bytes.drop (count * size)).take size :=
        (getElem?_pieces (List.getElem?_eq_getElem hlt)).2
      rw [List.take_succ_eq_append_getElem hlt, List.flatten_append,
        ih (by omega), hpiece, Nat.succ_mul, List.take_add]
      simp

theorem flatten_pieces {size : ℕ} (hsize : 0 < size) (bytes : Bytes) :
    (pieces size bytes).flatten = bytes := by
  have hall :
      ((pieces size bytes).take (bytes.length ⌈/⌉ size)).flatten =
        bytes.take (bytes.length ⌈/⌉ size * size) :=
    flatten_take_pieces le_rfl
  rw [← length_pieces, List.take_length, length_pieces] at hall
  rw [hall]
  exact List.take_of_length_le (length_le_ceilDiv_mul hsize bytes)

end ByteStream

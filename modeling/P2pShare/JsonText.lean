import P2pShare.MessagePack
import Mathlib.Data.List.Basic

/-!
# JSON texts

The part of the format that a pretty printer writes for a flat record of texts
and numbers.  Each writer is undone from the front of a longer text, so no text
that a writer writes is a proper prefix of another one.
-/

namespace JsonText

open ByteStream MessagePack

/-- A value is read back from the front of a text. -/
structure Writer (α : Type) where
  put : α → List Char
  get : List Char → Option (α × List Char)
  get_put : ∀ value rest, get (put value ++ rest) = some (value, rest)

namespace Writer

variable {α β : Type} (writer : Writer α)

/-- Two texts of a writer agree up to the end of the shorter one only if they
are the same. -/
theorem eq_nil_of_put_eq_append {value other : α} {rest : List Char}
    (happend : writer.put value = writer.put other ++ rest) : rest = [] := by
  have hvalue := writer.get_put value []
  have hother := writer.get_put other rest
  rw [List.append_nil, happend, hother] at hvalue
  simp only [Option.some.injEq, Prod.mk.injEq] at hvalue
  exact hvalue.2

/-- The whole text is one that `put` writes. -/
def read (text : List Char) : Option α :=
  (writer.get text).bind fun (value, _) =>
    if writer.put value = text then some value else none

theorem read_put (value : α) : writer.read (writer.put value) = some value := by
  have hget := writer.get_put value []
  rw [List.append_nil] at hget
  unfold read
  rw [hget, Option.bind_some]
  exact if_pos rfl

/-- A text that is cut short is not read. -/
theorem read_of_cut {value : α} {cut rest : List Char}
    (htext : writer.put value = cut ++ rest) (hrest : rest ≠ []) :
    writer.read cut = none := by
  cases hread : writer.read cut with
  | none => rfl
  | some other =>
      unfold read at hread
      obtain ⟨found, hfound, hput⟩ := Option.bind_eq_some_iff.mp hread
      dsimp only at hput
      split at hput
      · next hcut =>
          rw [← hcut] at htext
          exact absurd (writer.eq_nil_of_put_eq_append htext) hrest
      · cases hput

/-! ## Fields -/

/-- A fixed text. -/
def literal (text : List Char) : Writer Unit where
  put := fun _ => text
  get := fun input =>
    if text.isPrefixOf input then some ((), input.drop text.length) else none
  get_put := by
    intro value rest
    have hprefix : text.isPrefixOf (text ++ rest) = true :=
      List.isPrefixOf_iff_prefix.mpr (List.prefix_append _ _)
    rw [if_pos hprefix, List.drop_left]

/-- One value after the other. -/
def pair (first : Writer α) (second : Writer β) : Writer (α × β) where
  put := fun (left, right) => first.put left ++ second.put right
  get := fun input =>
    (first.get input).bind fun (left, rest) =>
      (second.get rest).map fun (right, rest) => ((left, right), rest)
  get_put := by
    rintro ⟨left, right⟩ rest
    dsimp only
    rw [List.append_assoc, first.get_put, Option.bind_some]
    dsimp only
    rw [second.get_put, Option.map_some]

/-- The values of `β` that have a form in `α`. -/
def via (fields : β → α) (build : α → Option β)
    (build_fields : ∀ value, build (fields value) = some value) : Writer β where
  put := fun value => writer.put (fields value)
  get := fun input =>
    (writer.get input).bind fun (found, rest) =>
      (build found).map fun value => (value, rest)
  get_put := by
    intro value rest
    rw [writer.get_put, Option.bind_some]
    dsimp only
    rw [build_fields, Option.map_some]

/-- The value behind a fixed text. -/
def after (text : List Char) : Writer α :=
  ((literal text).pair writer).via (fun value => ((), value))
    (fun (_, value) => some value) fun _ => rfl

/-- The value before a fixed text. -/
def before (text : List Char) : Writer α :=
  (writer.pair (literal text)).via (fun value => (value, ()))
    (fun (value, _) => some value) fun _ => rfl

end Writer

/-! ## Numbers -/

/-- The decimal digits of a number, up to the end of their line. -/
def putLine (value : ℕ) : List Char :=
  Nat.toDigits 10 value ++ ['\n']

def getLine (input : List Char) : Option (ℕ × List Char) :=
  match input.span Char.isDigit with
  | (digits, '\n' :: rest) => some (Nat.ofDigitChars 10 digits 0, rest)
  | _ => none

theorem getLine_putLine (value : ℕ) (rest : List Char) :
    getLine (putLine value ++ rest) = some (value, rest) := by
  have hdigits : ∀ c ∈ Nat.toDigits 10 value, c.isDigit = true := fun c hc =>
    Nat.isDigit_of_mem_toDigits (by decide) (by decide) hc
  have hspan : (putLine value ++ rest).span Char.isDigit =
      (Nat.toDigits 10 value, '\n' :: rest) := by
    unfold putLine
    rw [List.span_eq_takeWhile_dropWhile, List.append_assoc]
    rw [List.takeWhile_append_of_pos hdigits,
      List.dropWhile_append_of_pos hdigits]
    simp [Char.isDigit]
  unfold getLine
  rw [hspan]
  simp only [Nat.ofDigitChars_ten_toDigits]

def line : Writer ℕ where
  put := putLine
  get := getLine
  get_put := getLine_putLine

/-! ## Quoted texts -/

/-- The characters that have an escape of their own, with its letter. -/
def shortEscapes : List (Char × Char) :=
  [('"', '"'), ('\\', '\\'), (Char.ofNat 8, 'b'), (Char.ofNat 9, 't'),
    (Char.ofNat 10, 'n'), (Char.ofNat 12, 'f'), (Char.ofNat 13, 'r')]

/-- The other control characters are escaped by their codes. -/
def escape (c : Char) : List Char :=
  match shortEscapes.lookup c with
  | some letter => ['\\', letter]
  | none =>
      if c.toNat < 32 then
        ['\\', 'u', '0', '0', (c.toNat / 16).digitChar,
          (c.toNat % 16).digitChar]
      else [c]

def digitValue (c : Char) : ℕ :=
  if c.isDigit then c.toNat - 48 else c.toNat - 87

/-- What follows the backslash. -/
def getEscaped : List Char → Option (Char × List Char)
  | 'u' :: _ :: _ :: high :: low :: rest =>
      some (Char.ofNat (16 * digitValue high + digitValue low), rest)
  | letter :: rest =>
      ((shortEscapes.map Prod.swap).lookup letter).map fun c => (c, rest)
  | [] => none

def getChar : List Char → Option (Char × List Char)
  | '\\' :: rest => getEscaped rest
  | c :: rest => some (c, rest)
  | [] => none

/-- At most `fuel` characters and the quote that ends them. -/
def getChars : ℕ → List Char → Option (List Char × List Char)
  | 0, _ => none
  | _ + 1, '"' :: rest => some ([], rest)
  | fuel + 1, input =>
      (getChar input).bind fun (c, rest) =>
        (getChars fuel rest).map fun (text, rest) => (c :: text, rest)

theorem control_digits : ∀ code ∈ List.range 32,
    16 * digitValue (code / 16).digitChar +
      digitValue (code % 16).digitChar = code := by
  decide

/-- The letters are those of no other escape. -/
theorem lookup_letter {c letter : Char}
    (hlookup : shortEscapes.lookup c = some letter) :
    letter ≠ 'u' ∧ (shortEscapes.map Prod.swap).lookup letter = some c := by
  have hall : ∀ entry ∈ shortEscapes, entry.2 ≠ 'u' ∧
      (shortEscapes.map Prod.swap).lookup entry.2 = some entry.1 := by
    decide
  obtain ⟨before, after, hsplit, -⟩ := List.lookup_eq_some_iff.mp hlookup
  apply hall (c, letter)
  rw [hsplit]
  exact List.mem_append_right _ List.mem_cons_self

theorem getEscaped_letter {c letter : Char}
    (hlookup : shortEscapes.lookup c = some letter) (rest : List Char) :
    getEscaped (letter :: rest) = some (c, rest) := by
  obtain ⟨hne, hback⟩ := lookup_letter hlookup
  rw [getEscaped.eq_2 letter rest fun _ _ _ _ _ hu _ => hne hu, hback,
    Option.map_some]

theorem getChar_escape (c : Char) (rest : List Char) :
    getChar (escape c ++ rest) = some (c, rest) := by
  unfold escape
  split
  · next letter hlookup => exact getEscaped_letter hlookup rest
  · next hlookup =>
      by_cases hcontrol : c.toNat < 32
      · have hdigits := control_digits c.toNat (List.mem_range.mpr hcontrol)
        rw [if_pos hcontrol]
        simp only [List.cons_append, List.nil_append, getChar, getEscaped]
        rw [hdigits, Char.ofNat_toNat]
      · have hback : c ≠ '\\' := by
          rintro rfl
          cases hlookup
        rw [if_neg hcontrol, List.singleton_append]
        exact getChar.eq_2 c rest fun h => hback h

/-- No character begins with the quote that ends the text. -/
theorem escape_head (c : Char) :
    ∃ first rest, escape c = first :: rest ∧ first ≠ '"' := by
  unfold escape
  split
  · exact ⟨'\\', _, rfl, by decide⟩
  · next hlookup =>
      by_cases hcontrol : c.toNat < 32
      · rw [if_pos hcontrol]
        exact ⟨'\\', _, rfl, by decide⟩
      · have hquote : c ≠ '"' := by
          rintro rfl
          cases hlookup
        rw [if_neg hcontrol]
        exact ⟨c, [], rfl, hquote⟩

theorem getChars_of_ne_quote {first : Char} (hfirst : first ≠ '"')
    (fuel : ℕ) (input : List Char) :
    getChars (fuel + 1) (first :: input) =
      (getChar (first :: input)).bind fun (c, rest) =>
        (getChars fuel rest).map fun (text, rest) => (c :: text, rest) :=
  getChars.eq_3 (first :: input) fuel fun rest h => by
    cases h
    exact hfirst rfl

theorem getChars_flatMap_escape (text rest : List Char) :
    ∀ fuel, text.length < fuel →
      getChars fuel (text.flatMap escape ++ '"' :: rest) =
        some (text, rest) := by
  induction text with
  | nil =>
      intro fuel hfuel
      obtain ⟨fuel, rfl⟩ := Nat.exists_eq_succ_of_ne_zero (Nat.ne_of_gt hfuel)
      rfl
  | cons c text ih =>
      intro fuel hfuel
      rw [List.length_cons] at hfuel
      obtain ⟨fuel, rfl⟩ :=
        Nat.exists_eq_succ_of_ne_zero (Nat.ne_of_gt (Nat.zero_lt_of_lt hfuel))
      have htail := ih fuel (Nat.lt_of_succ_lt_succ hfuel)
      have hchar := getChar_escape c (text.flatMap escape ++ '"' :: rest)
      obtain ⟨first, more, hescape, hfirst⟩ := escape_head c
      rw [List.flatMap_cons, List.append_assoc]
      rw [hescape, List.cons_append] at hchar ⊢
      rw [Nat.succ_eq_add_one, getChars_of_ne_quote hfirst, hchar,
        Option.bind_some]
      dsimp only
      rw [htail, Option.map_some]

def putQuoted (text : List Char) : List Char :=
  '"' :: (text.flatMap escape ++ ['"'])

def getQuoted : List Char → Option (List Char × List Char)
  | '"' :: rest => getChars rest.length rest
  | _ => none

theorem length_le_length_flatMap_escape (text : List Char) :
    text.length ≤ (text.flatMap escape).length := by
  induction text with
  | nil => exact Nat.le_refl _
  | cons c text ih =>
      obtain ⟨first, more, hescape, _⟩ := escape_head c
      rw [List.flatMap_cons, List.length_append, List.length_cons, hescape,
        List.length_cons]
      omega

theorem getQuoted_putQuoted (text rest : List Char) :
    getQuoted (putQuoted text ++ rest) = some (text, rest) := by
  unfold putQuoted
  rw [List.cons_append, getQuoted, List.append_assoc, List.singleton_append]
  apply getChars_flatMap_escape
  have hlength := length_le_length_flatMap_escape text
  rw [List.length_append, List.length_cons]
  omega

def quoted : Writer (List Char) where
  put := putQuoted
  get := getQuoted
  get_put := getQuoted_putQuoted

end JsonText

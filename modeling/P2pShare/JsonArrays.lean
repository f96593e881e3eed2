import P2pShare.JsonText

/-!
# Nested JSON texts

What a pretty printer writes for a number between other fields, for an array of
numbers and for a value that has one of two forms.
-/

namespace JsonText

/-! ## Numbers before a character -/

def getNumber (stop : Char) (input : List Char) : Option (ℕ × List Char) :=
  match input.span Char.isDigit with
  | (digits, c :: rest) =>
      if c = stop then some (Nat.ofDigitChars 10 digits 0, rest) else none
  | (_, []) => none

theorem getNumber_digits {stop c : Char} (hc : c.isDigit = false) (value : ℕ)
    (rest : List Char) :
    getNumber stop (Nat.toDigits 10 value ++ c :: rest) =
      if c = stop then some (value, rest) else none := by
  have hdigits : ∀ d ∈ Nat.toDigits 10 value, d.isDigit = true := fun d hd =>
    Nat.isDigit_of_mem_toDigits (by decide) (by decide) hd
  have hspan : (Nat.toDigits 10 value ++ c :: rest).span Char.isDigit =
      (Nat.toDigits 10 value, c :: rest) := by
    rw [List.span_eq_takeWhile_dropWhile,
      List.takeWhile_append_of_pos hdigits,
      List.dropWhile_append_of_pos hdigits,
      List.takeWhile_cons_of_neg (by rw [hc]; exact Bool.false_ne_true),
      List.dropWhile_cons_of_neg (by rw [hc]; exact Bool.false_ne_true),
      List.append_nil]
  unfold getNumber
  rw [hspan]
  dsimp only
  rw [Nat.ofDigitChars_ten_toDigits]

namespace Writer

variable {α β : Type}

def number (stop : Char) (hstop : stop.isDigit = false) : Writer ℕ where
  put := fun value => Nat.toDigits 10 value ++ [stop]
  get := getNumber stop
  get_put := by
    intro value rest
    rw [List.append_assoc, List.singleton_append, getNumber_digits hstop,
      if_pos rfl]

/-! ## One of two forms -/

def either (left : Writer α) (right : Writer β)
    (apart : ∀ value rest, left.get (right.put value ++ rest) = none) :
    Writer (α ⊕ β) where
  put := Sum.elim left.put right.put
  get := fun input =>
    match left.get input with
    | some (value, rest) => some (.inl value, rest)
    | none => (right.get input).map fun (value, rest) => (.inr value, rest)
  get_put := by
    intro value rest
    cases value with
    | inl value =>
        dsimp only [Sum.elim_inl]
        rw [left.get_put]
    | inr value =>
        dsimp only [Sum.elim_inr]
        rw [apart, right.get_put, Option.map_some]

/-! ## Many values and a last one -/

/-- At most `fuel` values that more follow, and the last one. -/
def getChain (next last : Writer α) :
    ℕ → List Char → Option ((List α × α) × List Char)
  | 0, input => (last.get input).map fun (value, rest) => (([], value), rest)
  | fuel + 1, input =>
      match next.get input with
      | some (value, rest) =>
          (getChain next last fuel rest).map fun ((values, final), rest) =>
            ((value :: values, final), rest)
      | none => (last.get input).map fun (value, rest) => (([], value), rest)

theorem getChain_put {next last : Writer α}
    (apart : ∀ value rest, next.get (last.put value ++ rest) = none)
    (values : List α) (final : α) (rest : List Char) :
    ∀ fuel, values.length ≤ fuel →
      getChain next last fuel
          (values.flatMap next.put ++ last.put final ++ rest) =
        some ((values, final), rest) := by
  induction values with
  | nil =>
      intro fuel _
      rw [List.flatMap_nil, List.nil_append]
      cases fuel with
      | zero => rw [getChain, last.get_put, Option.map_some]
      | succ fuel => rw [getChain, apart, last.get_put, Option.map_some]
  | cons value values ih =>
      intro fuel hfuel
      rw [List.length_cons] at hfuel
      obtain ⟨fuel, rfl⟩ :=
        Nat.exists_eq_succ_of_ne_zero (Nat.ne_of_gt (Nat.zero_lt_of_lt hfuel))
      have htail := ih fuel (Nat.le_of_succ_le_succ hfuel)
      rw [List.flatMap_cons, List.append_assoc, List.append_assoc,
        Nat.succ_eq_add_one, getChain, next.get_put]
      dsimp only
      rw [← List.append_assoc, htail, Option.map_some]

theorem length_le_length_flatMap_put {writer : Writer α}
    (hput : ∀ value, writer.put value ≠ []) (values : List α) :
    values.length ≤ (values.flatMap writer.put).length := by
  induction values with
  | nil => exact Nat.le_refl _
  | cons value values ih =>
      have hone := List.length_pos_iff.mpr (hput value)
      rw [List.flatMap_cons, List.length_append, List.length_cons]
      omega

def chain (next last : Writer α)
    (apart : ∀ value rest, next.get (last.put value ++ rest) = none)
    (hput : ∀ value, next.put value ≠ []) : Writer (List α × α) where
  put := fun (values, final) => values.flatMap next.put ++ last.put final
  get := fun input => getChain next last input.length input
  get_put := by
    intro (values, final) rest
    have hlength := length_le_length_flatMap_put hput values
    apply getChain_put apart
    rw [List.length_append, List.length_append]
    omega

/-! ## Arrays -/

theorem get_after {writer : Writer α} (text input : List Char) :
    (writer.after text).get (text ++ input) = writer.get input := by
  have hliteral := (literal text).get_put () input
  change (((literal text).get (text ++ input)).bind fun (left, rest) =>
    (writer.get rest).map fun (right, rest) => ((left, right), rest)).bind
      (fun (found, rest) => (some found.2).map fun value => (value, rest)) = _
  change (literal text).get (text ++ input) = _ at hliteral
  rw [hliteral, Option.bind_some]
  dsimp only
  cases writer.get input with
  | none => rfl
  | some found => rfl

variable (indent outer : List Char)

/-- A number of an array, which stands on a line of its own. -/
def entry (stop : Char) (hstop : stop.isDigit = false) : Writer ℕ :=
  (number stop hstop).after ('\n' :: indent)

theorem entry_apart (value : ℕ) (rest : List Char) :
    (entry indent ',' rfl).get ((entry indent '\n' rfl).put value ++ rest) =
      none := by
  have hput : (entry indent '\n' rfl).put value ++ rest =
      ('\n' :: indent) ++ (Nat.toDigits 10 value ++ '\n' :: rest) := by
    change ('\n' :: indent) ++ (Nat.toDigits 10 value ++ ['\n']) ++ rest = _
    simp only [List.append_assoc, List.cons_append, List.nil_append]
  rw [hput]
  unfold entry
  rw [get_after]
  change getNumber ',' _ = none
  rw [getNumber_digits rfl, if_neg (by decide)]

/-- The entries of an array that is not empty. -/
def entries : Writer (List ℕ × ℕ) :=
  ((chain (entry indent ',' rfl) (entry indent '\n' rfl) (entry_apart indent)
    fun _ => List.cons_ne_nil _ _).after ['[']).before (outer ++ [']'])

theorem entries_head (values : List ℕ × ℕ) :
    ∃ rest, (entries indent outer).put values = '[' :: '\n' :: rest := by
  obtain ⟨values, final⟩ := values
  cases values with
  | nil => exact ⟨_, rfl⟩
  | cons value values => exact ⟨_, rfl⟩

theorem entries_apart (values : List ℕ × ℕ) (rest : List Char) :
    (literal ['[', ']']).get ((entries indent outer).put values ++ rest) =
      none := by
  obtain ⟨more, hmore⟩ := entries_head indent outer values
  rw [hmore]
  rfl

def splitLast : List ℕ → Unit ⊕ (List ℕ × ℕ)
  | [] => .inl ()
  | value :: values =>
      .inr ((value :: values).dropLast, (value :: values).getLast (by simp))

def joinLast : Unit ⊕ (List ℕ × ℕ) → List ℕ
  | .inl () => []
  | .inr (values, final) => values ++ [final]

theorem joinLast_splitLast (values : List ℕ) :
    joinLast (splitLast values) = values := by
  cases values with
  | nil => rfl
  | cons value values => exact List.dropLast_append_getLast _

/-- An array whose entries are indented by `indent` and its end by `outer`. -/
def array : Writer (List ℕ) :=
  ((literal ['[', ']']).either (entries indent outer)
    (entries_apart indent outer)).via splitLast
      (fun values => some (joinLast values)) fun values =>
        congrArg some (joinLast_splitLast values)

end Writer

end JsonText

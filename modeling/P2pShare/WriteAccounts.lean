import P2pShare.SharedCursor

/-!
# What a write has put where

The account of a write lists the parts of it that have landed, each with the
place where it landed, and whether a buffer of it or the write itself has
failed.  A write that finds the cursor where its last part ended puts its bytes
one part behind the other at its own place.
-/

namespace SharedCursor

open ByteStream RandomAccessFile

/-- `parts` in the order in which they landed. -/
structure Account where
  parts : List (ℕ × Bytes)
  erred : Bool
  deriving DecidableEq

namespace Account

def empty : Account where
  parts := []
  erred := false

def bytes (account : Account) : Bytes :=
  (account.parts.map Prod.snd).flatten

/-- The parts lie one behind the other, the first at `place`. -/
def Adjoin : ℕ → List (ℕ × Bytes) → Prop
  | _, [] => True
  | place, part :: rest => part.1 = place ∧ Adjoin (place + part.2.length) rest

/-- The bytes were written at `place` without an error, and nowhere else. -/
structure Wrote (account : Account) (place : ℕ) (bytes : Bytes) : Prop where
  adjoin : Adjoin place account.parts
  bytes : account.bytes = bytes
  erred : account.erred = false

/-- What an event of the write adds, with the cursor before it. -/
def enter (account : Account) (cursor : ℕ) (write : Write) :
    DiskEvent → Account
  | .lands count =>
      { account with
        parts := account.parts ++
          [(cursor, (write.bytes.drop write.landed).take count)] }
  | .loses | .fails => { account with erred := true }
  | .seeks | .gives _ | .returns => account

/-- The account of a write that has kept to its place. -/
structure Of (write : Write) (account : Account) : Prop where
  adjoin : Adjoin write.place account.parts
  bytes : account.bytes = write.bytes.take write.landed
  erred : account.erred = true →
    write.lost = true ∨ write.stage = .returned false

theorem adjoin_concat {place : ℕ} {parts : List (ℕ × Bytes)}
    (hadjoin : Adjoin place parts) (bytes : Bytes) :
    Adjoin place (parts ++
      [(place + (parts.map Prod.snd).flatten.length, bytes)]) := by
  induction parts generalizing place with
  | nil => exact ⟨rfl, True.intro⟩
  | cons part rest ih =>
      refine ⟨hadjoin.1, ?_⟩
      have hrest := ih hadjoin.2
      rw [Nat.add_assoc] at hrest
      rw [List.map_cons, List.flatten_cons, List.length_append]
      exact hrest

variable {account : Account} {write moved : Write}

theorem Of.new (place : ℕ) (bytes : Bytes) : empty.Of (Write.new place bytes) where
  adjoin := True.intro
  bytes := List.take_zero.symm
  erred := fun herred => Bool.noConfusion herred

theorem bytes_lands (cursor count : ℕ) :
    (account.enter cursor write (.lands count)).bytes =
      account.bytes ++ (write.bytes.drop write.landed).take count := by
  simp [enter, Account.bytes]

/-- A write that has landed as a whole, without an error. -/
theorem Of.wrote (hof : account.Of write)
    (hlanded : write.landed = write.bytes.length) (hlost : write.lost = false)
    (hreturned : write.stage = .returned true) :
    account.Wrote write.place write.bytes where
  adjoin := hof.adjoin
  bytes := by
    rw [hof.bytes, hlanded, List.take_length]
  erred := by
    by_contra herred
    rcases hof.erred (Bool.eq_true_of_not_eq_false herred) with hlost' | hfailed
    · rw [hlost] at hlost'
      contradiction
    · rw [hreturned] at hfailed
      cases hfailed

/-- A part that lands where the last one ended. -/
theorem Of.lands {cursor count : ℕ} (hof : account.Of write)
    (hcounted : write.Counted) (hunder : write.UnderWay)
    (hcursor : cursor = write.place + write.landed) :
    (account.enter cursor write (.lands count)).Of
      { write with landed := write.landed + count } := by
  have hlanded : account.bytes.length = write.landed := by
    rw [hof.bytes, List.length_take]
    exact Nat.min_eq_left (hcounted.landed.trans hcounted.handed)
  constructor
  · have hadjoin := adjoin_concat hof.adjoin
      ((write.bytes.drop write.landed).take count)
    have hplace : write.place + (account.parts.map Prod.snd).flatten.length =
        cursor := by
      rw [hcursor, ← hlanded]
      rfl
    rw [hplace] at hadjoin
    exact hadjoin
  · rw [bytes_lands, hof.bytes]
    exact List.take_add.symm
  · intro herred
    rcases hof.erred herred with hlost | hfailed
    · rw [hunder.2] at hlost
      contradiction
    · exact Or.inr hfailed

/-- Each step of a write keeps its account. -/
theorem Of.step {disk : SharedFile} {event : DiskEvent} {file : Bytes}
    {cursor : ℕ} (hof : account.Of write) (hcounted : write.Counted)
    (hcursor : write.UnderWay → disk.cursor = write.place + write.landed)
    (hstep : disk.step write event = some (file, cursor, moved)) :
    (account.enter disk.cursor write event).Of moved := by
  unfold SharedFile.step at hstep
  cases event with
  | seeks =>
      dsimp only at hstep
      split at hstep
      next hstage =>
        cases hstep
        refine ⟨hof.adjoin, hof.bytes, fun herred => ?_⟩
        rcases hof.erred herred with hlost | hfailed
        · exact Or.inl hlost
        · rw [hstage] at hfailed
          cases hfailed
      next => contradiction
  | gives count =>
      dsimp only at hstep
      split at hstep
      next =>
        cases hstep
        exact ⟨hof.adjoin, hof.bytes, hof.erred⟩
      next => contradiction
  | lands count =>
      dsimp only at hstep
      split at hstep
      next hguard =>
        cases hstep
        exact hof.lands hcounted hguard.1 (hcursor hguard.1)
      next => contradiction
  | loses =>
      dsimp only at hstep
      split at hstep
      next =>
        cases hstep
        exact ⟨hof.adjoin, hof.bytes, fun _ => Or.inl rfl⟩
      next => contradiction
  | returns =>
      dsimp only at hstep
      split at hstep
      next hguard =>
        cases hstep
        refine ⟨hof.adjoin, hof.bytes, fun herred => ?_⟩
        rcases hof.erred herred with hlost | hfailed
        · exact Or.inl hlost
        · rw [hguard.1] at hfailed
          cases hfailed
      next => contradiction
  | fails =>
      dsimp only at hstep
      split at hstep
      next =>
        cases hstep
        exact ⟨hof.adjoin, hof.bytes, fun _ => Or.inr rfl⟩
      next => contradiction

end Account

/-! ## The accounts of all writes -/

namespace SharedFile

/-- What an event adds to the account of the write it is about. -/
def enter (disk : SharedFile) (number : ℕ) (event : DiskEvent)
    (account : Account) : Account :=
  match disk.writes[number]? with
  | some write => account.enter disk.cursor write event
  | none => account

structure Accounted (disk : SharedFile) (accounts : ℕ → Account) : Prop where
  of : ∀ number write, disk.writes[number]? = some write →
    (accounts number).Of write
  empty : ∀ number, disk.writes.length ≤ number →
    accounts number = .empty

variable {disk next : SharedFile} {accounts : ℕ → Account}

theorem Accounted.of_nil (hwrites : disk.writes = []) :
    disk.Accounted fun _ => .empty where
  of := by
    intro number write hwrite
    rw [hwrites] at hwrite
    contradiction
  empty := fun _ _ => rfl

/-- The account of a new copy is empty. -/
theorem Accounted.copy (haccounted : disk.Accounted accounts) (place : ℕ)
    (bytes : Bytes) : (disk.copy place bytes).Accounted accounts where
  of := by
    intro number write hwrite
    rcases Nat.lt_trichotomy number disk.writes.length with hlt | rfl | hgt
    · apply haccounted.of
      rw [← hwrite]
      exact (List.getElem?_append_left hlt).symm
    · have hnew : write = .new place bytes := by
        simpa [SharedFile.copy] using hwrite.symm
      rw [hnew, haccounted.empty _ (Nat.le_refl _)]
      exact Account.Of.new place bytes
    · have hlength : (disk.copy place bytes).writes.length ≤ number := by
        simp only [SharedFile.copy, List.length_append, List.length_singleton]
        exact hgt
      rw [List.getElem?_eq_none hlength] at hwrite
      contradiction
  empty := by
    intro number hlength
    apply haccounted.empty
    simp only [SharedFile.copy, List.length_append] at hlength
    exact (Nat.le_add_right _ _).trans hlength

/-- As long as no copy seeks while a buffer is under way, every write keeps to
its place. -/
theorem Accounted.step {base : Bytes} {number : ℕ} {event : DiskEvent}
    (haccounted : disk.Accounted accounts) (hsettled : disk.Settled base)
    (hnext : disk.next number event = some next) :
    next.Accounted (Function.update accounts number
      (disk.enter number event (accounts number))) := by
  unfold SharedFile.next at hnext
  obtain ⟨write, hwrite, hmap⟩ := Option.bind_eq_some_iff.mp hnext
  obtain ⟨⟨file, cursor, moved⟩, hstep, rfl⟩ := Option.map_eq_some_iff.mp hmap
  have hlt : number < disk.writes.length :=
    (List.getElem?_eq_some_iff.mp hwrite).1
  have hmem : write ∈ disk.writes := List.mem_of_getElem? hwrite
  have hof := (haccounted.of number write hwrite).step
    (hsettled.counted write hmem)
    (fun hunder => hsettled.cursor write hmem (Or.inr hunder)) hstep
  constructor
  · intro other moved' hother
    dsimp only at hother
    by_cases hsame : number = other
    · subst hsame
      rw [List.getElem?_set_self hlt, Option.some.injEq] at hother
      rw [Function.update_self, ← hother]
      unfold SharedFile.enter
      rw [hwrite]
      exact hof
    · rw [List.getElem?_set_ne hsame] at hother
      rw [Function.update_of_ne (Ne.symm hsame)]
      exact haccounted.of other moved' hother
  · intro other hlength
    dsimp only at hlength
    rw [List.length_set] at hlength
    rw [Function.update_of_ne (by omega)]
    exact haccounted.empty other hlength

/-- Where nothing is under way or lost, each write was made in its place. -/
theorem Accounted.wrote {base : Bytes} {number : ℕ} {write : Write}
    (haccounted : disk.Accounted accounts) (hsettled : disk.Settled base)
    (hreturned : disk.Returned) (hclean : disk.Clean)
    (hwrite : disk.writes[number]? = some write) :
    (accounts number).Wrote write.place write.bytes := by
  have hmem : write ∈ disk.writes := List.mem_of_getElem? hwrite
  have hstage := hreturned write hmem
  exact (haccounted.of number write hwrite).wrote
    (hsettled.landed_of_clean hclean hmem hstage) (hclean write hmem).2 hstage

end SharedFile

end SharedCursor

import P2pShare.TransitionMachine
import Mathlib.Data.Sigma.Basic
import Mathlib.Logic.Function.Basic

/-!
# Racing futures

A future is resumed by events until it is ready or panics.  A `Select` races a
family of futures: a branch whose pattern does not match is disabled, the first
branch that matches decides, and when every branch is disabled the `else`
branch is taken, or the task panics where there is none.

The state of a race is what became of each arm, so that a decided race still
shows which arm decided it.
-/

namespace RacingFutures

open TransitionMachine

/-- What became of a future: suspended at a stage, finished, or unwinding. -/
inductive Poll (Stage ε α : Type*) where
  | pending (stage : Stage)
  | ready (result : Except ε α)
  | panicked

namespace Poll

variable {Stage Stage' ε α : Type*}

def Failed : Poll Stage ε α → Prop
  | ready (.error _) => True
  | _ => False

instance (poll : Poll Stage ε α) : Decidable poll.Failed := by
  unfold Failed
  split <;> infer_instance

theorem failed_iff {poll : Poll Stage ε α} :
    poll.Failed ↔ ∃ error, poll = ready (.error error) := by
  unfold Failed
  split
  next error => simp
  next hother =>
      simp only [false_iff, not_exists]
      intro error heq
      exact hother error heq

def mapStage (f : Stage → Stage') : Poll Stage ε α → Poll Stage' ε α
  | pending stage => pending (f stage)
  | ready result => ready result
  | panicked => panicked

@[simp] theorem mapStage_eq_panicked {f : Stage → Stage'}
    {poll : Poll Stage ε α} :
    poll.mapStage f = panicked ↔ poll = panicked := by
  cases poll <;> simp [mapStage]

theorem mapStage_failed_iff {f : Stage → Stage'} {poll : Poll Stage ε α} :
    (poll.mapStage f).Failed ↔ poll.Failed := by
  cases poll with
  | pending stage => rfl
  | ready result => cases result <;> rfl
  | panicked => rfl

end Poll

structure Future (Stage Event ε α : Type*) where
  start : Poll Stage ε α
  resume : Stage → Event → Option (Poll Stage ε α)

namespace Future

variable {Stage Stage' Event Event' ε α β : Type*}

/-- The runs of one future on its own. -/
def machine (future : Future Stage Event ε α) :
    Machine (Poll Stage ε α) Event where
  start := fun poll => poll = future.start
  next := fun poll event =>
    match poll with
    | .pending stage => future.resume stage event
    | _ => none

theorem machine_next_eq_some {future : Future Stage Event ε α}
    {poll after : Poll Stage ε α} {event : Event} :
    future.machine.next poll event = some after ↔
      ∃ stage, poll = .pending stage ∧
        future.resume stage event = some after := by
  cases poll with
  | pending stage => simp [machine]
  | ready result => simp [machine]
  | panicked => simp [machine]

/-- A future under a time limit.  The event `none` is the limit running out. -/
def timeout (future : Future Stage Event ε α) (late : ε) :
    Future Stage (Option Event) ε α where
  start := future.start
  resume := fun stage event =>
    match event with
    | none => some (.ready (.error late))
    | some event => future.resume stage event

/-- Hand the value of the first part to what follows it; `?` on an error. -/
def follow (continued : β → Poll Stage' ε α) :
    Poll Stage ε β → Poll (Stage ⊕ Stage') ε α
  | .pending stage => .pending (.inl stage)
  | .ready (.ok value) => (continued value).mapStage .inr
  | .ready (.error error) => .ready (.error error)
  | .panicked => .panicked

def andThen (future : Future Stage Event ε β)
    (continued : β → Poll Stage' ε α)
    (resume : Stage' → Event' → Option (Poll Stage' ε α)) :
    Future (Stage ⊕ Stage') (Event ⊕ Event') ε α where
  start := follow continued future.start
  resume := fun stage event =>
    match stage, event with
    | .inl stage, .inl event =>
        (future.resume stage event).map (follow continued)
    | .inr stage, .inr event => (resume stage event).map (·.mapStage .inr)
    | _, _ => none

theorem follow_eq_panicked {continued : β → Poll Stage' ε α}
    (hcontinued : ∀ value, continued value ≠ .panicked)
    {poll : Poll Stage ε β} :
    follow continued poll = .panicked ↔ poll = .panicked := by
  unfold follow
  split
  · simp
  next value => simp [hcontinued value]
  · simp
  · simp

/-- What `future.timeout` panics on, `future` panics on. -/
theorem timeout_resume_eq_panicked {future : Future Stage Event ε α}
    {late : ε} {stage : Stage} {event : Option Event} :
    (future.timeout late).resume stage event = some .panicked ↔
      ∃ inner, event = some inner ∧
        future.resume stage inner = some .panicked := by
  cases event with
  | none => simp [timeout]
  | some event => simp [timeout]

/-- If nothing after the first part panics, the whole panics exactly where the
first part does. -/
theorem andThen_resume_eq_panicked {future : Future Stage Event ε β}
    {continued : β → Poll Stage' ε α}
    {resume : Stage' → Event' → Option (Poll Stage' ε α)}
    (hcontinued : ∀ value, continued value ≠ .panicked)
    (hresume : ∀ stage event, resume stage event ≠ some .panicked)
    {stage : Stage ⊕ Stage'} {event : Event ⊕ Event'} :
    (future.andThen continued resume).resume stage event = some .panicked ↔
      ∃ first inner, stage = .inl first ∧ event = .inl inner ∧
        future.resume first inner = some .panicked := by
  cases stage with
  | inl first =>
      cases event with
      | inl inner =>
          simp [andThen, follow_eq_panicked hcontinued]
      | inr inner => simp [andThen]
  | inr second =>
      cases event with
      | inl inner => simp [andThen]
      | inr inner => simp [andThen, hresume second inner]

end Future

/-! ## Select -/

structure Select (ι : Type*) (Stage Event : ι → Type*) (ε α : Type*) where
  arms : ∀ i, Future (Stage i) (Event i) ε α
  order : List ι
  complete : ∀ i, i ∈ order
  /-- The branch is written `Ok(..) = ..`. -/
  refutable : ι → Bool
  /-- The `else` branch, if there is one. -/
  otherwise : Option (Except ε α)

namespace Select

variable {ι : Type*} {Stage Event : ι → Type*} {ε α : Type*}
  (select : Select ι Stage Event ε α)

/-- What a branch decides, if it does. -/
def verdict (slots : ∀ i, Poll (Stage i) ε α) (i : ι) :
    Option (Poll (∀ i, Poll (Stage i) ε α) ε α) :=
  match slots i with
  | .pending _ => none
  | .ready (.ok value) => some (.ready (.ok value))
  | .ready (.error error) =>
      if select.refutable i then none else some (.ready (.error error))
  | .panicked => some .panicked

def settle (slots : ∀ i, Poll (Stage i) ε α) :
    Poll (∀ i, Poll (Stage i) ε α) ε α :=
  match select.order.findSome? (select.verdict slots) with
  | some decided => decided
  | none =>
      if ∀ i ∈ select.order, (slots i).Failed then
        match select.otherwise with
        | some result => .ready result
        | none => .panicked
      else .pending slots

variable [DecidableEq ι]

/-- One arm takes one event. -/
def advance (slots : ∀ i, Poll (Stage i) ε α) (event : Σ i, Event i) :
    Option (∀ i, Poll (Stage i) ε α) :=
  match slots event.1 with
  | .pending stage =>
      ((select.arms event.1).resume stage event.2).map
        (Function.update slots event.1)
  | _ => none

/-- The race as a future of its own. -/
def future : Future (∀ i, Poll (Stage i) ε α) (Σ i, Event i) ε α where
  start := select.settle fun i => (select.arms i).start
  resume := fun slots event => (select.advance slots event).map select.settle

/-- The runs of the race.  Once it is decided, the other arms are dropped. -/
def machine : Machine (∀ i, Poll (Stage i) ε α) (Σ i, Event i) where
  start := fun slots => slots = fun i => (select.arms i).start
  next := fun slots event =>
    match select.settle slots with
    | .pending _ => select.advance slots event
    | _ => none

variable {select}

omit [DecidableEq ι] in
theorem settle_of_verdict {slots : ∀ i, Poll (Stage i) ε α}
    {decided : Poll (∀ i, Poll (Stage i) ε α) ε α} {i : ι}
    (hverdict : select.verdict slots i = some decided)
    (honly : ∀ j other, select.verdict slots j = some other → j = i) :
    select.settle slots = decided := by
  have hsome : ∃ found,
      select.order.findSome? (select.verdict slots) = some found := by
    cases hfind : select.order.findSome? (select.verdict slots) with
    | some found => exact ⟨found, rfl⟩
    | none =>
        have hnone := List.findSome?_eq_none_iff.mp hfind i (select.complete i)
        rw [hverdict] at hnone
        contradiction
  obtain ⟨found, hfind⟩ := hsome
  obtain ⟨j, _, hj⟩ := List.exists_of_findSome?_eq_some hfind
  have hji := honly j found hj
  subst j
  have hfound : found = decided := by
    rw [hverdict] at hj
    exact (Option.some.inj hj).symm
  unfold settle
  rw [hfind, hfound]

omit [DecidableEq ι] in
/-- Where a settled race comes from: a branch that decides, the `else` branch,
or nothing yet. -/
theorem settle_cases (slots : ∀ i, Poll (Stage i) ε α) :
    (∃ i, select.verdict slots i = some (select.settle slots)) ∨
      ((∀ i, select.verdict slots i = none) ∧
        (∀ i, (slots i).Failed) ∧
        select.settle slots =
          match select.otherwise with
          | some result => .ready result
          | none => .panicked) ∨
      ((∀ i, select.verdict slots i = none) ∧
        (∃ i, ¬ (slots i).Failed) ∧ select.settle slots = .pending slots) := by
  cases hfind : select.order.findSome? (select.verdict slots) with
  | some found =>
      obtain ⟨i, _, hi⟩ := List.exists_of_findSome?_eq_some hfind
      refine Or.inl ⟨i, ?_⟩
      unfold settle
      rw [hfind]
      exact hi
  | none =>
      have hnone : ∀ i, select.verdict slots i = none := fun i =>
        List.findSome?_eq_none_iff.mp hfind i (select.complete i)
      by_cases hfailed : ∀ i ∈ select.order, (slots i).Failed
      · have hall : ∀ i, (slots i).Failed := fun i =>
          hfailed i (select.complete i)
        refine Or.inr (Or.inl ⟨hnone, hall, ?_⟩)
        unfold settle
        rw [hfind]
        simp only [if_pos hfailed]
      · have hsome : ∃ i, ¬ (slots i).Failed := by
          push Not at hfailed
          obtain ⟨i, _, hi⟩ := hfailed
          exact ⟨i, hi⟩
        refine Or.inr (Or.inr ⟨hnone, hsome, ?_⟩)
        unfold settle
        rw [hfind]
        simp only [if_neg hfailed]

section Settle

omit [DecidableEq ι]

variable {slots : ∀ i, Poll (Stage i) ε α} {i : ι}

theorem verdict_eq_ok {value : α} (hslot : slots i = .ready (.ok value)) :
    select.verdict slots i = some (.ready (.ok value)) := by
  unfold verdict
  rw [hslot]

theorem verdict_eq_panicked (hslot : slots i = .panicked) :
    select.verdict slots i = some .panicked := by
  unfold verdict
  rw [hslot]

theorem verdict_cases {decided : Poll (∀ i, Poll (Stage i) ε α) ε α}
    (hverdict : select.verdict slots i = some decided) :
    (∃ value, slots i = .ready (.ok value) ∧ decided = .ready (.ok value)) ∨
      (∃ error, slots i = .ready (.error error) ∧
        select.refutable i = false ∧ decided = .ready (.error error)) ∨
      (slots i = .panicked ∧ decided = .panicked) := by
  unfold verdict at hverdict
  split at hverdict
  · contradiction
  next value hslot =>
      cases hverdict
      exact Or.inl ⟨value, hslot, rfl⟩
  next error hslot =>
      split at hverdict
      · contradiction
      next hmust =>
          cases hverdict
          have hmust' : select.refutable i = false := by simpa using hmust
          exact Or.inr (Or.inl ⟨error, hslot, hmust', rfl⟩)
  next hslot =>
      cases hverdict
      exact Or.inr (Or.inr ⟨hslot, rfl⟩)

/-- A race that goes on has no branch that decides. -/
theorem verdict_eq_none_of_pending {stage : ∀ i, Poll (Stage i) ε α}
    (hsettle : select.settle slots = .pending stage) (i : ι) :
    select.verdict slots i = none := by
  obtain ⟨j, hj⟩ | ⟨_, _, heq⟩ | ⟨hnone, _, _⟩ := select.settle_cases slots
  · rw [hsettle] at hj
    obtain ⟨_, _, hbad⟩ | ⟨_, _, _, hbad⟩ | ⟨_, hbad⟩ := verdict_cases hj
    · contradiction
    · contradiction
    · contradiction
  · rw [hsettle] at heq
    cases hotherwise : select.otherwise with
    | none =>
        rw [hotherwise] at heq
        contradiction
    | some result =>
        rw [hotherwise] at heq
        contradiction
  · exact hnone i

theorem eq_of_settle_pending {stage : ∀ i, Poll (Stage i) ε α}
    (hsettle : select.settle slots = .pending stage) : stage = slots := by
  obtain ⟨j, hj⟩ | ⟨_, _, heq⟩ | ⟨_, _, heq⟩ := select.settle_cases slots
  · rw [verdict_eq_none_of_pending hsettle j] at hj
    contradiction
  · rw [hsettle] at heq
    cases hotherwise : select.otherwise with
    | none =>
        rw [hotherwise] at heq
        cases heq
    | some result =>
        rw [hotherwise] at heq
        cases heq
  · rw [hsettle] at heq
    cases heq
    rfl

/-- No arm of a race that goes on has panicked. -/
theorem ne_panicked_of_pending {stage : ∀ i, Poll (Stage i) ε α}
    (hsettle : select.settle slots = .pending stage) (i : ι) :
    stage i ≠ .panicked := by
  intro hpanicked
  rw [eq_of_settle_pending hsettle] at hpanicked
  have hnone := verdict_eq_none_of_pending hsettle i
  rw [verdict_eq_panicked hpanicked] at hnone
  contradiction

theorem ok_of_settle {value : α}
    (hsettle : select.settle slots = .ready (.ok value)) :
    (∃ i, slots i = .ready (.ok value)) ∨
      select.otherwise = some (.ok value) := by
  obtain ⟨j, hj⟩ | ⟨_, _, heq⟩ | ⟨_, _, heq⟩ := select.settle_cases slots
  · rw [hsettle] at hj
    obtain ⟨other, hslot, heq⟩ | ⟨_, _, _, hbad⟩ | ⟨_, hbad⟩ :=
      verdict_cases hj
    · cases heq
      exact Or.inl ⟨j, hslot⟩
    · cases hbad
    · cases hbad
  · rw [hsettle] at heq
    cases hotherwise : select.otherwise with
    | none =>
        rw [hotherwise] at heq
        cases heq
    | some result =>
        rw [hotherwise] at heq
        cases heq
        exact Or.inr rfl
  · rw [hsettle] at heq
    cases heq

/-- An error is that of a branch which takes any result, or comes after every
arm has failed. -/
theorem error_of_settle {error : ε}
    (hsettle : select.settle slots = .ready (.error error)) :
    (∃ i, select.refutable i = false ∧ slots i = .ready (.error error)) ∨
      ∀ i, (slots i).Failed := by
  obtain ⟨j, hj⟩ | ⟨_, hfailed, _⟩ | ⟨_, _, heq⟩ := select.settle_cases slots
  · rw [hsettle] at hj
    obtain ⟨_, _, hbad⟩ | ⟨other, hslot, hmust, heq⟩ | ⟨_, hbad⟩ :=
      verdict_cases hj
    · cases hbad
    · cases heq
      exact Or.inl ⟨j, hmust, hslot⟩
    · cases hbad
  · exact Or.inr hfailed
  · rw [hsettle] at heq
    cases heq

theorem panic_of_settle (hsettle : select.settle slots = .panicked) :
    (∃ i, slots i = .panicked) ∨
      (select.otherwise = none ∧ ∀ i, (slots i).Failed) := by
  obtain ⟨j, hj⟩ | ⟨_, hfailed, heq⟩ | ⟨_, _, heq⟩ :=
    select.settle_cases slots
  · rw [hsettle] at hj
    obtain ⟨_, _, hbad⟩ | ⟨_, _, _, hbad⟩ | ⟨hslot, _⟩ := verdict_cases hj
    · cases hbad
    · cases hbad
    · exact Or.inl ⟨j, hslot⟩
  · rw [hsettle] at heq
    cases hotherwise : select.otherwise with
    | none => exact Or.inr ⟨rfl, hfailed⟩
    | some result =>
        rw [hotherwise] at heq
        cases heq
  · rw [hsettle] at heq
    cases heq

/-- Every branch refutable, every arm failed: the `else` branch decides. -/
theorem settle_of_failed (hrefutable : ∀ i, select.refutable i = true)
    (hfailed : ∀ i, (slots i).Failed) :
    select.settle slots =
      match select.otherwise with
      | some result => .ready result
      | none => .panicked := by
  obtain ⟨j, hj⟩ | ⟨_, _, heq⟩ | ⟨_, ⟨j, hj⟩, _⟩ := select.settle_cases slots
  · obtain ⟨error, herror⟩ := Poll.failed_iff.mp (hfailed j)
    obtain ⟨_, hslot, _⟩ | ⟨_, _, hmust, _⟩ | ⟨hslot, _⟩ := verdict_cases hj
    · rw [herror] at hslot
      cases hslot
    · rw [hrefutable j] at hmust
      contradiction
    · rw [herror] at hslot
      cases hslot
  · exact heq
  · exact absurd (hfailed j) hj

end Settle

/-! ## Steps and runs of a race -/

theorem advance_eq_some {slots after : ∀ i, Poll (Stage i) ε α}
    {event : Σ i, Event i} :
    select.advance slots event = some after ↔
      ∃ stage poll, slots event.1 = .pending stage ∧
        (select.arms event.1).resume stage event.2 = some poll ∧
        after = Function.update slots event.1 poll := by
  unfold advance
  split
  next stage hslot =>
      simp only [Option.map_eq_some_iff]
      constructor
      · rintro ⟨poll, hresume, rfl⟩
        exact ⟨stage, poll, hslot, hresume, rfl⟩
      · rintro ⟨other, poll, hother, hresume, rfl⟩
        rw [hslot] at hother
        cases hother
        exact ⟨poll, hresume, rfl⟩
  next hslot =>
      constructor
      · intro h
        contradiction
      · rintro ⟨stage, _, hstage, _⟩
        exact absurd hstage (hslot stage)

theorem machine_next_eq_some {slots after : ∀ i, Poll (Stage i) ε α}
    {event : Σ i, Event i} :
    select.machine.next slots event = some after ↔
      (∃ stage, select.settle slots = .pending stage) ∧
        ∃ stage poll, slots event.1 = .pending stage ∧
          (select.arms event.1).resume stage event.2 = some poll ∧
          after = Function.update slots event.1 poll := by
  rw [← advance_eq_some]
  cases hsettle : select.settle slots with
  | pending stage => simp [machine, hsettle]
  | ready result => simp [machine, hsettle]
  | panicked => simp [machine, hsettle]

/-- At most one branch decides. -/
def OneDecides (select : Select ι Stage Event ε α)
    (slots : ∀ i, Poll (Stage i) ε α) : Prop :=
  ∀ i j, select.verdict slots i ≠ none → select.verdict slots j ≠ none →
    i = j

theorem verdict_update_of_ne {slots : ∀ i, Poll (Stage i) ε α} {i j : ι}
    {poll : Poll (Stage i) ε α} (hne : j ≠ i) :
    select.verdict (Function.update slots i poll) j =
      select.verdict slots j := by
  unfold verdict
  rw [Function.update_of_ne hne]

/-- Only the arm that took the last event can have decided. -/
theorem OneDecides.update {slots : ∀ i, Poll (Stage i) ε α} {i : ι}
    {poll : Poll (Stage i) ε α}
    (hnone : ∀ j, select.verdict slots j = none) :
    select.OneDecides (Function.update slots i poll) := by
  have honly : ∀ j,
      select.verdict (Function.update slots i poll) j ≠ none → j = i := by
    intro j hj
    by_contra hne
    rw [verdict_update_of_ne hne] at hj
    exact hj (hnone j)
  intro j k hj hk
  rw [honly j hj, honly k hk]

theorem oneDecides_of_reachable {slots : ∀ i, Poll (Stage i) ε α}
    (hstart : ∀ i,
      select.verdict (fun i => (select.arms i).start) i = none)
    (hreach : select.machine.Reachable slots) : select.OneDecides slots := by
  apply hreach.invariant
  · intro s₀ hs₀
    have heq : s₀ = fun i => (select.arms i).start := hs₀
    subst s₀
    intro i _ hi
    exact absurd (hstart i) hi
  · intro u event v _ hnext
    obtain ⟨⟨stage, hsettle⟩, _, poll, _, _, rfl⟩ :=
      machine_next_eq_some.mp hnext
    exact OneDecides.update (verdict_eq_none_of_pending hsettle)

omit [DecidableEq ι] in
theorem OneDecides.settle_ok {slots : ∀ i, Poll (Stage i) ε α} {i : ι}
    {value : α} (hone : select.OneDecides slots)
    (hslot : slots i = .ready (.ok value)) :
    select.settle slots = .ready (.ok value) := by
  have hverdict : select.verdict slots i = some (.ready (.ok value)) :=
    verdict_eq_ok hslot
  apply settle_of_verdict hverdict
  intro j other hj
  apply hone
  · simp [hj]
  · simp [hverdict]

omit [DecidableEq ι] in
theorem OneDecides.settle_error {slots : ∀ i, Poll (Stage i) ε α} {i : ι}
    {error : ε} (hone : select.OneDecides slots)
    (hmust : select.refutable i = false)
    (hslot : slots i = .ready (.error error)) :
    select.settle slots = .ready (.error error) := by
  have hverdict : select.verdict slots i = some (.ready (.error error)) := by
    simp [verdict, hslot, hmust]
  apply settle_of_verdict hverdict
  intro j other hj
  apply hone
  · simp [hj]
  · simp [hverdict]

omit [DecidableEq ι] in
theorem OneDecides.settle_panicked {slots : ∀ i, Poll (Stage i) ε α} {i : ι}
    (hone : select.OneDecides slots) (hslot : slots i = .panicked) :
    select.settle slots = .panicked := by
  have hverdict : select.verdict slots i = some .panicked :=
    verdict_eq_panicked hslot
  apply settle_of_verdict hverdict
  intro j other hj
  apply hone
  · simp [hj]
  · simp [hverdict]

end Select

end RacingFutures

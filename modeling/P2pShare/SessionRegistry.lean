import P2pShare.TransitionMachine
import Mathlib.Logic.Function.Basic

/-!
# The session registry

`store_session` and `take_session` of `api.rs`, under the calls of the app.  A
call that has connected takes its number from an atomic counter and puts its
session into the map in a step of its own; a call that drives or closes a
session takes it out of the map.  Any number of calls run side by side, with
any handles.

A session bears the number of the call that stored it.  The counter has 64 bits,
so the handle of a session is its place in the order of the numbers, reduced.
-/

namespace P2pShare

open TransitionMachine

inductive SessionType where
  | direct
  | relay
  deriving DecidableEq

/-- `api_session_type`. -/
def SessionType.name : Option SessionType → String
  | some .direct => "direct"
  | some .relay => "relay"
  | none => "unknown"

/-- Where `api_begin_send`, `api_connect_to_code` and their like stand.  The
ticket counts the numbers handed out before. -/
inductive StoreStage where
  | connecting
  | connected
  | numbered (ticket : ℕ)
  | stored (ticket : ℕ)
  deriving DecidableEq

/-- The number that the call has taken. -/
def StoreStage.ticket? : StoreStage → Option ℕ
  | .numbered ticket | .stored ticket => some ticket
  | _ => none

/-- Where `api_drive_send`, `api_drive_receive` and `api_close_session` stand:
the handle they were given, and the session that they found under it. -/
inductive TakeStage where
  | idle
  | missed (handle : ℕ)
  | driving (handle session : ℕ)
  | dropped (handle session : ℕ)
  deriving DecidableEq

/-- `replaced` notes which session an insertion put out of the map. -/
structure SessionRegistry where
  tickets : ℕ
  sessions : ℕ → Option ℕ
  stores : ℕ → StoreStage
  takes : ℕ → TakeStage
  replaced : ℕ → Option ℕ

inductive RegistryEvent where
  | connects (call : ℕ)
  | fetchAdd (call : ℕ)
  | inserts (call : ℕ)
  | drives (call handle : ℕ)
  | ends (call : ℕ)
  | closes (call handle : ℕ)
  deriving DecidableEq

/-- `NEXT_SESSION_ID` starts at one and wraps. -/
def handleOf (ticket : ℕ) : ℕ := (1 + ticket) % 18446744073709551616

namespace SessionRegistry

def insert (s : SessionRegistry) (call ticket : ℕ) : SessionRegistry :=
  { s with
    stores := Function.update s.stores call (.stored ticket)
    sessions := Function.update s.sessions (handleOf ticket) (some call)
    replaced := fun session =>
      if s.sessions (handleOf ticket) = some session then some call
      else s.replaced session }

/-- `take_session`, with what becomes of the call that makes it. -/
def take (s : SessionRegistry) (call handle : ℕ)
    (found : ℕ → TakeStage) : SessionRegistry :=
  match s.sessions handle with
  | none => { s with takes := Function.update s.takes call (.missed handle) }
  | some session =>
      { s with
        takes := Function.update s.takes call (found session)
        sessions := Function.update s.sessions handle none }

def next (s : SessionRegistry) : RegistryEvent → Option SessionRegistry
  | .connects call =>
      match s.stores call with
      | .connecting =>
          some { s with stores := Function.update s.stores call .connected }
      | _ => none
  | .fetchAdd call =>
      match s.stores call with
      | .connected =>
          some
            { s with
              stores := Function.update s.stores call (.numbered s.tickets)
              tickets := s.tickets + 1 }
      | _ => none
  | .inserts call =>
      match s.stores call with
      | .numbered ticket => some (s.insert call ticket)
      | _ => none
  | .drives call handle =>
      match s.takes call with
      | .idle => some (s.take call handle (.driving handle))
      | _ => none
  | .ends call =>
      match s.takes call with
      | .driving handle session =>
          some
            { s with
              takes :=
                Function.update s.takes call (.dropped handle session) }
      | _ => none
  | .closes call handle =>
      match s.takes call with
      | .idle => some (s.take call handle (.dropped handle))
      | _ => none

structure Starts (s : SessionRegistry) : Prop where
  tickets : s.tickets = 0
  sessions : s.sessions = fun _ => none
  stores : s.stores = fun _ => .connecting
  takes : s.takes = fun _ => .idle
  replaced : s.replaced = fun _ => none

def machine : Machine SessionRegistry RegistryEvent where
  start := Starts
  next := next

/-- What `api_session_type` answers, where `kind` tells what each session is. -/
def sessionType (s : SessionRegistry) (kind : ℕ → SessionType)
    (handle : ℕ) : String :=
  SessionType.name ((s.sessions handle).map kind)

/-- The session that a call took out of the map, with the handle. -/
def taken? (s : SessionRegistry) (call : ℕ) : Option (ℕ × ℕ) :=
  match s.takes call with
  | .driving handle session | .dropped handle session => some (handle, session)
  | _ => none

def ticket? (s : SessionRegistry) (call : ℕ) : Option ℕ :=
  (s.stores call).ticket?

def IsTaken (s : SessionRegistry) (session : ℕ) : Prop :=
  ∃ call handle, s.taken? call = some (handle, session)

def IsReplaced (s : SessionRegistry) (session : ℕ) : Prop :=
  ∃ other, s.replaced session = some other

def IsStored (s : SessionRegistry) (session handle : ℕ) : Prop :=
  ∃ ticket, s.stores session = .stored ticket ∧ handleOf ticket = handle

/-! ## The places of a session -/

/-- A stored session is in the map, was taken once or was replaced, and no two
of these. -/
structure Booked (s : SessionRegistry) : Prop where
  bounded : ∀ call ticket, s.ticket? call = some ticket → ticket < s.tickets
  distinct : ∀ call other ticket, s.ticket? call = some ticket →
    s.ticket? other = some ticket → call = other
  mapped : ∀ handle session, s.sessions handle = some session →
    s.IsStored session handle
  taken : ∀ call handle session, s.taken? call = some (handle, session) →
    s.IsStored session handle ∧ ∀ other, s.sessions other ≠ some session
  once : ∀ call other handle handle' session,
    s.taken? call = some (handle, session) →
      s.taken? other = some (handle', session) → call = other
  replaced : ∀ session other, s.replaced session = some other →
    (∃ ticket ticket', s.stores session = .stored ticket ∧
      s.stores other = .stored ticket' ∧ ticket ≠ ticket' ∧
      handleOf ticket = handleOf ticket') ∧
    (∀ handle, s.sessions handle ≠ some session) ∧ ¬ s.IsTaken session
  somewhere : ∀ session ticket, s.stores session = .stored ticket →
    s.sessions (handleOf ticket) = some session ∨ s.IsTaken session ∨
      s.IsReplaced session

variable {s t : SessionRegistry}

theorem taken?_update (call : ℕ) (stage : TakeStage) (other : ℕ) :
    ({ s with takes := Function.update s.takes call stage } :
        SessionRegistry).taken? other =
      if other = call then
        match stage with
        | .driving handle session | .dropped handle session =>
            some (handle, session)
        | _ => none
      else s.taken? other := by
  unfold taken?
  dsimp only
  by_cases hother : other = call
  · subst hother
    rw [Function.update_self, if_pos rfl]
  · rw [Function.update_of_ne hother, if_neg hother]

theorem handle_unique (hbooked : s.Booked) {handle other session : ℕ}
    (hhandle : s.sessions handle = some session)
    (hother : s.sessions other = some session) : handle = other := by
  obtain ⟨ticket, hstored, hticket⟩ := hbooked.mapped handle session hhandle
  obtain ⟨ticket', hstored', hticket'⟩ := hbooked.mapped other session hother
  rw [hstored] at hstored'
  cases hstored'
  rw [← hticket, hticket']

/-- A session that is in the map, was taken or was replaced has been stored. -/
theorem isStored_of_placed (hbooked : s.Booked) {session : ℕ}
    (hplaced : (∃ handle, s.sessions handle = some session) ∨
      s.IsTaken session ∨ s.IsReplaced session) :
    ∃ handle, s.IsStored session handle := by
  rcases hplaced with ⟨handle, hmapped⟩ | ⟨call, handle, htaken⟩ |
    ⟨other, hreplaced⟩
  · exact ⟨handle, hbooked.mapped handle session hmapped⟩
  · exact ⟨handle, (hbooked.taken call handle session htaken).1⟩
  · obtain ⟨⟨ticket, _, hstored, _⟩, _⟩ :=
      hbooked.replaced session other hreplaced
    exact ⟨handleOf ticket, ticket, hstored, rfl⟩

/-! ## The steps of a call that stores -/

/-- The stage of one call changes, and its ticket stays its own. -/
theorem Booked.tickets (hbooked : s.Booked) {call tickets : ℕ}
    {stage : StoreStage} (hle : s.tickets ≤ tickets)
    (hticket : ∀ ticket, stage.ticket? = some ticket →
      ticket < tickets ∧
        ∀ other, s.ticket? other = some ticket → other = call) :
    (∀ other ticket,
      (Function.update s.stores call stage other).ticket? = some ticket →
        ticket < tickets) ∧
    ∀ other another ticket,
      (Function.update s.stores call stage other).ticket? = some ticket →
      (Function.update s.stores call stage another).ticket? = some ticket →
        other = another := by
  constructor
  · intro other ticket hother
    by_cases hcall : other = call
    · rw [hcall, Function.update_self] at hother
      exact (hticket ticket hother).1
    · rw [Function.update_of_ne hcall] at hother
      exact Nat.lt_of_lt_of_le (hbooked.bounded other ticket hother) hle
  · intro other another ticket hother hanother
    by_cases hcall : other = call
    · by_cases hcall' : another = call
      · rw [hcall, hcall']
      · rw [hcall, Function.update_self] at hother
        rw [Function.update_of_ne hcall'] at hanother
        exact absurd ((hticket ticket hother).2 another hanother) hcall'
    · rw [Function.update_of_ne hcall] at hother
      by_cases hcall' : another = call
      · rw [hcall', Function.update_self] at hanother
        exact absurd ((hticket ticket hanother).2 other hother) hcall
      · rw [Function.update_of_ne hcall'] at hanother
        exact hbooked.distinct other another ticket hother hanother

/-- A call that has stored nothing goes on, and stores nothing. -/
theorem Booked.advance (hbooked : s.Booked) {call tickets : ℕ}
    {stage : StoreStage} (hle : s.tickets ≤ tickets)
    (hfresh : ∀ ticket, s.stores call ≠ .stored ticket)
    (hnew : ∀ ticket, stage ≠ .stored ticket)
    (hticket : ∀ ticket, stage.ticket? = some ticket →
      ticket < tickets ∧
        ∀ other, s.ticket? other = some ticket → other = call) :
    ({ s with stores := Function.update s.stores call stage, tickets } :
      SessionRegistry).Booked := by
  have hkept : ∀ session ticket, s.stores session = .stored ticket →
      Function.update s.stores call stage session = .stored ticket := by
    intro session ticket hstored
    have hne : session ≠ call := fun heq => hfresh ticket (heq ▸ hstored)
    rw [Function.update_of_ne hne, hstored]
  obtain ⟨hbounded, hdistinct⟩ := hbooked.tickets hle hticket
  constructor
  · exact hbounded
  · exact hdistinct
  · intro handle session hmapped
    obtain ⟨ticket, hstored, hhandle⟩ :=
      hbooked.mapped handle session hmapped
    exact ⟨ticket, hkept session ticket hstored, hhandle⟩
  · intro taker handle session htaken
    obtain ⟨⟨ticket, hstored, hhandle⟩, hout⟩ :=
      hbooked.taken taker handle session htaken
    exact ⟨⟨ticket, hkept session ticket hstored, hhandle⟩, hout⟩
  · exact hbooked.once
  · intro session other hreplaced
    obtain ⟨⟨ticket, ticket', hstored, hstored', hne, hsame⟩, hout⟩ :=
      hbooked.replaced session other hreplaced
    exact ⟨⟨ticket, ticket', hkept session ticket hstored,
      hkept other ticket' hstored', hne, hsame⟩, hout⟩
  · intro session ticket hstored
    apply hbooked.somewhere session ticket
    have hstored : Function.update s.stores call stage session =
        .stored ticket := hstored
    by_cases hsession : session = call
    · rw [hsession, Function.update_self] at hstored
      exact absurd hstored (hnew ticket)
    · rwa [Function.update_of_ne hsession] at hstored

/-- The session whose handle comes round again is replaced. -/
theorem Booked.insert (hbooked : s.Booked) {call ticket : ℕ}
    (hnumbered : s.stores call = .numbered ticket) :
    (s.insert call ticket).Booked := by
  have hfresh : ∀ other, s.stores call ≠ .stored other := by
    intro other hstored
    rw [hnumbered] at hstored
    cases hstored
  have hne : ∀ session other, s.stores session = .stored other →
      session ≠ call :=
    fun session other hstored heq => hfresh other (heq ▸ hstored)
  have hkept : ∀ session other, s.stores session = .stored other →
      Function.update s.stores call (.stored ticket) session =
        .stored other := by
    intro session other hstored
    rw [Function.update_of_ne (hne session other hstored), hstored]
  have hself : s.ticket? call = some ticket := by
    unfold ticket?
    rw [hnumbered]
    rfl
  have hunplaced : ¬ ((∃ handle, s.sessions handle = some call) ∨
      s.IsTaken call ∨ s.IsReplaced call) := by
    intro hplaced
    obtain ⟨_, other, hstored, _⟩ := isStored_of_placed hbooked hplaced
    exact hfresh other hstored
  have hticket : ∀ other, (StoreStage.stored ticket).ticket? = some other →
      other < s.tickets ∧
        ∀ another, s.ticket? another = some other → another = call := by
    intro other hother
    cases hother
    exact ⟨hbooked.bounded call ticket hself, fun another hanother =>
      hbooked.distinct another call ticket hanother hself⟩
  obtain ⟨hbounded, hdistinct⟩ := hbooked.tickets (Nat.le_refl _) hticket
  have hcall : (s.insert call ticket).stores call = .stored ticket :=
    Function.update_self _ _ _
  have hmapped : ∀ handle session,
      (s.insert call ticket).sessions handle = some session →
        handle = handleOf ticket ∧ session = call ∨
          handle ≠ handleOf ticket ∧ s.sessions handle = some session := by
    intro handle session hsession
    have hsession : Function.update s.sessions (handleOf ticket) (some call)
        handle = some session := hsession
    by_cases hhandle : handle = handleOf ticket
    · rw [hhandle, Function.update_self] at hsession
      exact Or.inl ⟨hhandle, (Option.some.inj hsession).symm⟩
    · rw [Function.update_of_ne hhandle] at hsession
      exact Or.inr ⟨hhandle, hsession⟩
  have hreplaced : ∀ session other,
      (s.insert call ticket).replaced session = some other →
        s.replaced session = some other ∨
          s.sessions (handleOf ticket) = some session ∧ other = call := by
    intro session other hother
    have hother : (if s.sessions (handleOf ticket) = some session then
        some call else s.replaced session) = some other := hother
    by_cases hoccupied : s.sessions (handleOf ticket) = some session
    · rw [if_pos hoccupied] at hother
      exact Or.inr ⟨hoccupied, (Option.some.inj hother).symm⟩
    · rw [if_neg hoccupied] at hother
      exact Or.inl hother
  constructor
  · exact hbounded
  · exact hdistinct
  · intro handle session hsession
    rcases hmapped handle session hsession with ⟨rfl, rfl⟩ | ⟨_, hold⟩
    · exact ⟨ticket, hcall, rfl⟩
    · obtain ⟨other, hstored, hhandle⟩ := hbooked.mapped handle session hold
      exact ⟨other, hkept session other hstored, hhandle⟩
  · intro taker handle session htaken
    obtain ⟨⟨other, hstored, hhandle⟩, hout⟩ :=
      hbooked.taken taker handle session htaken
    refine ⟨⟨other, hkept session other hstored, hhandle⟩, ?_⟩
    intro another hsession
    rcases hmapped another session hsession with ⟨_, rfl⟩ | ⟨_, hold⟩
    · exact hunplaced (Or.inr (Or.inl ⟨taker, handle, htaken⟩))
    · exact hout another hold
  · exact hbooked.once
  · intro session other hother
    rcases hreplaced session other hother with hold | ⟨hoccupied, rfl⟩
    · obtain ⟨⟨first, second, hfirst, hsecond, hne', hsame⟩, hout, htaken⟩ :=
        hbooked.replaced session other hold
      refine ⟨⟨first, second, hkept session first hfirst,
        hkept other second hsecond, hne', hsame⟩, ?_, htaken⟩
      intro handle hsession
      rcases hmapped handle session hsession with ⟨_, rfl⟩ | ⟨_, hin⟩
      · exact hunplaced (Or.inr (Or.inr ⟨other, hold⟩))
      · exact hout handle hin
    · obtain ⟨first, hfirst, hsame⟩ := hbooked.mapped _ session hoccupied
      refine ⟨⟨first, ticket, hkept session first hfirst, hcall, ?_, hsame⟩,
        ?_, ?_⟩
      · rintro rfl
        have hticket' : s.ticket? session = some first := by
          unfold ticket?
          rw [hfirst]
          rfl
        exact hne session first hfirst
          (hbooked.distinct session other first hticket' hself)
      · intro handle hsession
        rcases hmapped handle session hsession with ⟨_, rfl⟩ | ⟨hhandle, hin⟩
        · exact hunplaced (Or.inl ⟨_, hoccupied⟩)
        · exact hhandle (handle_unique hbooked hin hoccupied)
      · rintro ⟨taker, handle, htaken⟩
        exact (hbooked.taken taker handle session htaken).2 _ hoccupied
  · intro session other hstored
    by_cases hsession : session = call
    · rw [hsession, hcall] at hstored
      cases hstored
      rw [hsession]
      exact Or.inl (Function.update_self _ _ _)
    · have hstored : Function.update s.stores call (.stored ticket) session =
          .stored other := hstored
      rw [Function.update_of_ne hsession] at hstored
      rcases hbooked.somewhere session other hstored with
        hin | htaken | ⟨another, hold⟩
      · by_cases hhandle : handleOf other = handleOf ticket
        · rw [hhandle] at hin
          exact Or.inr (Or.inr ⟨call, if_pos hin⟩)
        · refine Or.inl ?_
          have hupdate : (s.insert call ticket).sessions (handleOf other) =
              s.sessions (handleOf other) := Function.update_of_ne hhandle _ _
          rw [hupdate]
          exact hin
      · exact Or.inr (Or.inl htaken)
      · refine Or.inr (Or.inr ⟨another, ?_⟩)
        have hout := (hbooked.replaced session another hold).2.1
        have hupdate : (s.insert call ticket).replaced session =
            s.replaced session := if_neg (hout _)
        rw [hupdate]
        exact hold

/-! ## The steps of a call that takes -/

/-- What `take` does, whether it finds a session or not. -/
theorem take_cases (s : SessionRegistry) (call handle : ℕ)
    (found : ℕ → TakeStage) :
    (s.sessions handle = none ∧ s.take call handle found =
      { s with takes := Function.update s.takes call (.missed handle) }) ∨
    ∃ session, s.sessions handle = some session ∧
      s.take call handle found =
        { s with
          takes := Function.update s.takes call (found session)
          sessions := Function.update s.sessions handle none } := by
  unfold take
  cases hsession : s.sessions handle with
  | none => exact Or.inl ⟨rfl, rfl⟩
  | some session => exact Or.inr ⟨session, rfl, rfl⟩

/-- What a call has taken stays taken, and nothing else is. -/
theorem Booked.restage (hbooked : s.Booked) {call : ℕ} {stage : TakeStage}
    (hsame : ∀ other, ({ s with
        takes := Function.update s.takes call stage } :
          SessionRegistry).taken? other = s.taken? other) :
    ({ s with takes := Function.update s.takes call stage } :
      SessionRegistry).Booked := by
  have htaken : ∀ session, ({ s with
      takes := Function.update s.takes call stage } :
        SessionRegistry).IsTaken session ↔ s.IsTaken session := by
    intro session
    unfold IsTaken
    simp only [hsame]
  constructor
  · exact hbooked.bounded
  · exact hbooked.distinct
  · exact hbooked.mapped
  · intro other handle session hother
    rw [hsame] at hother
    exact hbooked.taken other handle session hother
  · intro other another handle handle' session hother hanother
    rw [hsame] at hother hanother
    exact hbooked.once other another handle handle' session hother hanother
  · intro session other hreplaced
    rw [htaken]
    exact hbooked.replaced session other hreplaced
  · intro session ticket hstored
    rw [htaken]
    exact hbooked.somewhere session ticket hstored

/-- A call that has taken nothing takes the session under its handle. -/
theorem Booked.take (hbooked : s.Booked) {call handle : ℕ}
    {found : ℕ → TakeStage} (hidle : s.takes call = .idle)
    (hfound : ∀ session, found session = .driving handle session ∨
      found session = .dropped handle session) :
    (s.take call handle found).Booked := by
  have hnone : s.taken? call = none := by
    unfold taken?
    rw [hidle]
  rcases take_cases s call handle found with
    ⟨_, htake⟩ | ⟨session, hmapped, htake⟩
  · rw [htake]
    apply hbooked.restage
    intro other
    rw [taken?_update]
    split
    next hother => rw [hother, hnone]
    next => rfl
  · rw [htake]
    have htaken : ∀ other, ({ s with
        takes := Function.update s.takes call (found session)
        sessions := Function.update s.sessions handle none } :
          SessionRegistry).taken? other =
        if other = call then some (handle, session) else s.taken? other := by
      intro other
      have hupdate := @taken?_update s call (found session) other
      refine Eq.trans hupdate ?_
      rcases hfound session with hstage | hstage
      · rw [hstage]
      · rw [hstage]
    have hlast : ∀ other handle' session',
        (if other = call then some (handle, session) else s.taken? other) =
          some (handle', session') →
        other = call ∧ handle' = handle ∧ session' = session ∨
          other ≠ call ∧ s.taken? other = some (handle', session') := by
      intro other handle' session' hother
      by_cases hcall : other = call
      · rw [if_pos hcall] at hother
        cases hother
        exact Or.inl ⟨hcall, rfl, rfl⟩
      · rw [if_neg hcall] at hother
        exact Or.inr ⟨hcall, hother⟩
    have hleft : ∀ other session',
        Function.update s.sessions handle none other = some session' →
          other ≠ handle ∧ s.sessions other = some session' := by
      intro other session' hother
      by_cases hhandle : other = handle
      · rw [hhandle, Function.update_self] at hother
        cases hother
      · rw [Function.update_of_ne hhandle] at hother
        exact ⟨hhandle, hother⟩
    constructor
    · exact hbooked.bounded
    · exact hbooked.distinct
    · intro other session' hother
      exact hbooked.mapped other session' (hleft other session' hother).2
    · intro other handle' session' hother
      rw [htaken] at hother
      rcases hlast other handle' session' hother with
        ⟨_, rfl, rfl⟩ | ⟨_, hold⟩
      · refine ⟨hbooked.mapped _ _ hmapped, ?_⟩
        intro another hanother
        obtain ⟨hne, hin⟩ := hleft another _ hanother
        exact hne (handle_unique hbooked hin hmapped)
      · obtain ⟨hstored, hout⟩ := hbooked.taken other handle' session' hold
        exact ⟨hstored, fun another hanother =>
          hout another (hleft another _ hanother).2⟩
    · intro other another handle' handle'' session' hother hanother
      rw [htaken] at hother hanother
      rcases hlast other handle' session' hother with
        ⟨hcall, _, hsession⟩ | ⟨_, hold⟩
      · rcases hlast another handle'' session' hanother with
          ⟨hcall', _, _⟩ | ⟨_, hold'⟩
        · rw [hcall, hcall']
        · rw [hsession] at hold'
          exact absurd hmapped ((hbooked.taken another _ _ hold').2 handle)
      · rcases hlast another handle'' session' hanother with
          ⟨_, _, hsession⟩ | ⟨_, hold'⟩
        · rw [hsession] at hold
          exact absurd hmapped ((hbooked.taken other _ _ hold).2 handle)
        · exact hbooked.once other another _ _ session' hold hold'
    · intro session' other hreplaced
      obtain ⟨htickets, hout, hfree⟩ :=
        hbooked.replaced session' other hreplaced
      refine ⟨htickets, fun another hanother =>
        hout another (hleft another _ hanother).2, ?_⟩
      rintro ⟨taker, handle', htaker⟩
      rw [htaken] at htaker
      rcases hlast taker handle' session' htaker with
        ⟨_, _, hsession⟩ | ⟨_, hold⟩
      · rw [hsession] at hout
        exact hout handle hmapped
      · exact hfree ⟨taker, handle', hold⟩
    · intro session' ticket hstored
      rcases hbooked.somewhere session' ticket hstored with
        hin | ⟨taker, handle', hold⟩ | hreplaced
      · by_cases hhandle : handleOf ticket = handle
        · refine Or.inr (Or.inl ⟨call, handle, ?_⟩)
          rw [hhandle, hmapped, Option.some.injEq] at hin
          rw [htaken, if_pos rfl, hin]
        · refine Or.inl ?_
          have hupdate : Function.update s.sessions handle none
              (handleOf ticket) = s.sessions (handleOf ticket) :=
            Function.update_of_ne hhandle _ _
          exact hupdate.trans hin
      · refine Or.inr (Or.inl ⟨taker, handle', ?_⟩)
        have hne : taker ≠ call := by
          rintro rfl
          rw [hnone] at hold
          cases hold
        rw [htaken, if_neg hne]
        exact hold
      · exact Or.inr (Or.inr hreplaced)

/-- One step keeps every session in its place. -/
theorem Booked.step (hbooked : s.Booked) {event : RegistryEvent}
    (hnext : s.next event = some t) : t.Booked := by
  cases event with
  | connects call =>
      cases hstage : s.stores call <;> simp only [next, hstage] at hnext <;>
        cases hnext
      apply hbooked.advance (Nat.le_refl _)
      · simp [hstage]
      · simp
      · intro ticket hticket
        cases hticket
  | fetchAdd call =>
      cases hstage : s.stores call <;> simp only [next, hstage] at hnext <;>
        cases hnext
      apply hbooked.advance (Nat.le_succ _)
      · simp [hstage]
      · simp
      · intro ticket hticket
        cases hticket
        refine ⟨Nat.lt_succ_self _, fun other hother => ?_⟩
        exact absurd (hbooked.bounded other _ hother) (Nat.lt_irrefl _)
  | inserts call =>
      cases hstage : s.stores call <;> simp only [next, hstage] at hnext <;>
        cases hnext
      exact hbooked.insert hstage
  | drives call handle =>
      cases hstage : s.takes call <;> simp only [next, hstage] at hnext <;>
        cases hnext
      exact hbooked.take hstage fun _ => Or.inl rfl
  | ends call =>
      cases hstage : s.takes call <;> simp only [next, hstage] at hnext <;>
        cases hnext
      apply hbooked.restage
      intro other
      rw [taken?_update]
      split
      next hother =>
        unfold taken?
        rw [hother, hstage]
      next => rfl
  | closes call handle =>
      cases hstage : s.takes call <;> simp only [next, hstage] at hnext <;>
        cases hnext
      exact hbooked.take hstage fun _ => Or.inr rfl

theorem Starts.booked (hstart : s.Starts) : s.Booked := by
  constructor <;>
    simp [ticket?, StoreStage.ticket?, taken?, hstart.stores, hstart.sessions,
      hstart.takes, hstart.replaced]

theorem booked_of_reachable (hreach : machine.Reachable s) : s.Booked :=
  hreach.invariant (fun _ hstart => hstart.booked)
    fun _ _ _ hbooked hnext => hbooked.step hnext

/-! ## Handles that are used once -/

/-- Until the counter comes round, a handle belongs to one session. -/
theorem handleOf_inj {ticket other : ℕ} (hticket : ticket < 18446744073709551616)
    (hother : other < 18446744073709551616)
    (hsame : handleOf ticket = handleOf other) : ticket = other := by
  unfold handleOf at hsame
  omega

theorem Booked.lt_of_replaced (hbooked : s.Booked) {session : ℕ}
    (hreplaced : s.IsReplaced session) : 18446744073709551616 < s.tickets := by
  obtain ⟨other, hother⟩ := hreplaced
  obtain ⟨⟨ticket, ticket', hstored, hstored', hne, hsame⟩, _⟩ :=
    hbooked.replaced session other hother
  have hticket : s.ticket? session = some ticket := by
    unfold ticket?
    rw [hstored]
    rfl
  have hticket' : s.ticket? other = some ticket' := by
    unfold ticket?
    rw [hstored']
    rfl
  have hlt := hbooked.bounded session ticket hticket
  have hlt' := hbooked.bounded other ticket' hticket'
  by_contra hfew
  exact hne (handleOf_inj (by omega) (by omega) hsame)

/-- Where a session is that was stored with this ticket, and what a call finds
that is given its handle. -/
structure OneShot (s : SessionRegistry) (session ticket : ℕ) : Prop where
  place : s.sessions (handleOf ticket) = some session ∧
      ¬ s.IsTaken session ∧ ¬ s.IsReplaced session ∨
    (∀ handle, s.sessions handle ≠ some session) ∧
      (∃ call, s.taken? call = some (handleOf ticket, session) ∧
        ∀ other handle, s.taken? other = some (handle, session) →
          other = call) ∧ ¬ s.IsReplaced session ∨
    (∀ handle, s.sessions handle ≠ some session) ∧
      ¬ s.IsTaken session ∧ s.IsReplaced session ∧
        18446744073709551616 < s.tickets
  found : ∀ call next, s.next (.drives call (handleOf ticket)) = some next →
    s.sessions (handleOf ticket) = some session →
      next.takes call = .driving (handleOf ticket) session
  missed : ∀ call next, s.next (.drives call (handleOf ticket)) = some next →
    s.IsTaken session → s.tickets ≤ 18446744073709551616 →
      next.takes call = .missed (handleOf ticket)
  typed : ∀ kind, s.sessions (handleOf ticket) = some session →
    s.sessionType kind (handleOf ticket) = SessionType.name (kind session)
  untyped : ∀ kind, s.IsTaken session → s.tickets ≤ 18446744073709551616 →
    s.sessionType kind (handleOf ticket) = "unknown"

theorem takes_of_drives {call handle : ℕ}
    (hnext : s.next (.drives call handle) = some t) :
    t.takes call = match s.sessions handle with
      | none => .missed handle
      | some session => .driving handle session := by
  cases hstage : s.takes call <;> simp only [next, hstage] at hnext <;>
    cases hnext
  rcases take_cases s call handle (.driving handle) with
    ⟨hnone, htake⟩ | ⟨session, hmapped, htake⟩
  · rw [htake, hnone]
    exact Function.update_self _ _ _
  · rw [htake, hmapped]
    exact Function.update_self _ _ _

theorem Booked.place (hbooked : s.Booked) {session ticket : ℕ}
    (hstored : s.stores session = .stored ticket) :
    s.sessions (handleOf ticket) = some session ∧
        ¬ s.IsTaken session ∧ ¬ s.IsReplaced session ∨
      (∀ handle, s.sessions handle ≠ some session) ∧
        (∃ call, s.taken? call = some (handleOf ticket, session) ∧
          ∀ other handle, s.taken? other = some (handle, session) →
            other = call) ∧ ¬ s.IsReplaced session ∨
      (∀ handle, s.sessions handle ≠ some session) ∧
        ¬ s.IsTaken session ∧ s.IsReplaced session ∧
          18446744073709551616 < s.tickets := by
  rcases hbooked.somewhere session ticket hstored with
    hin | ⟨call, handle, htaken⟩ | hreplaced
  · refine Or.inl ⟨hin, ?_, ?_⟩
    · rintro ⟨call, handle, htaken⟩
      exact (hbooked.taken call handle session htaken).2 _ hin
    · rintro ⟨other, hother⟩
      exact (hbooked.replaced session other hother).2.1 _ hin
  · obtain ⟨⟨ticket', hstored', hhandle⟩, hout⟩ :=
      hbooked.taken call handle session htaken
    rw [hstored] at hstored'
    cases hstored'
    refine Or.inr (Or.inl ⟨hout, ⟨call, ?_, ?_⟩, ?_⟩)
    · rw [hhandle]
      exact htaken
    · intro other handle' hother
      exact hbooked.once other call handle' handle session hother htaken
    · rintro ⟨other, hother⟩
      exact (hbooked.replaced session other hother).2.2 ⟨call, handle, htaken⟩
  · obtain ⟨other, hother⟩ := hreplaced
    obtain ⟨_, hout, hfree⟩ := hbooked.replaced session other hother
    exact Or.inr (Or.inr ⟨hout, hfree, ⟨other, hother⟩,
      hbooked.lt_of_replaced ⟨other, hother⟩⟩)

/-- Nothing else comes under the handle of a session that was taken. -/
theorem Booked.none_of_taken (hbooked : s.Booked) {session ticket : ℕ}
    (hstored : s.stores session = .stored ticket) (htaken : s.IsTaken session)
    (hfew : s.tickets ≤ 18446744073709551616) :
    s.sessions (handleOf ticket) = none := by
  cases hother : s.sessions (handleOf ticket) with
  | none => rfl
  | some other =>
      obtain ⟨ticket', hstored', hsame⟩ := hbooked.mapped _ other hother
      have hnumber : s.ticket? session = some ticket := by
        unfold ticket?
        rw [hstored]
        rfl
      have hnumber' : s.ticket? other = some ticket' := by
        unfold ticket?
        rw [hstored']
        rfl
      have hlt := hbooked.bounded session ticket hnumber
      have hlt' := hbooked.bounded other ticket' hnumber'
      have heq := handleOf_inj (Nat.lt_of_lt_of_le hlt' hfew)
        (Nat.lt_of_lt_of_le hlt hfew) hsame
      rw [heq] at hnumber'
      have hsession := hbooked.distinct other session ticket hnumber' hnumber
      obtain ⟨taker, handle, htaker⟩ := htaken
      rw [hsession] at hother
      exact absurd hother ((hbooked.taken taker handle session htaker).2 _)

end SessionRegistry

/-- In every run of the calls of the app, whatever handles they are given, a
stored session is under its own handle, or was taken by one call alone, or its
handle came round after more than `2 ^ 64` numbers; and the call that drives the
handle gets this session, until one has taken it. -/
theorem sessions_are_one_shot {s : SessionRegistry}
    (hreach : SessionRegistry.machine.Reachable s) {session ticket : ℕ}
    (hstored : s.stores session = .stored ticket) :
    s.OneShot session ticket := by
  have hbooked := SessionRegistry.booked_of_reachable hreach
  refine ⟨hbooked.place hstored, ?_, ?_, ?_, ?_⟩
  · intro call next hnext hin
    rw [SessionRegistry.takes_of_drives hnext, hin]
  · intro call next hnext htaken hfew
    rw [SessionRegistry.takes_of_drives hnext,
      hbooked.none_of_taken hstored htaken hfew]
  · intro kind hin
    unfold SessionRegistry.sessionType
    rw [hin, Option.map_some]
  · intro kind htaken hfew
    unfold SessionRegistry.sessionType
    rw [hbooked.none_of_taken hstored htaken hfew]
    rfl

namespace SessionRegistry

def fresh : SessionRegistry where
  tickets := 0
  sessions := fun _ => none
  stores := fun _ => .connecting
  takes := fun _ => .idle
  replaced := fun _ => none

/-- Two calls store their sessions in the other order than they were numbered,
and one session is driven. -/
def crossed : List RegistryEvent :=
  [.connects 0, .connects 1, .fetchAdd 0, .fetchAdd 1, .inserts 1, .drives 0 1,
    .inserts 0, .drives 1 1, .closes 2 1]

end SessionRegistry

theorem sessions_are_one_shot_sample :
    ∃ s, SessionRegistry.machine.runFrom SessionRegistry.fresh
        SessionRegistry.crossed = some s ∧
      s.takes 0 = .missed 1 ∧ s.takes 1 = .driving 1 0 ∧
      s.takes 2 = .missed 1 ∧ s.OneShot 0 0 ∧ s.OneShot 1 1 := by
  have hrun : (SessionRegistry.machine.runFrom SessionRegistry.fresh
      SessionRegistry.crossed).map (fun s =>
        ([s.takes 0, s.takes 1, s.takes 2], [s.stores 0, s.stores 1])) =
        some ([.missed 1, .driving 1 0, .missed 1],
          [.stored 0, .stored 1]) := by
    decide +kernel
  obtain ⟨s, hs, hstages⟩ := Option.map_eq_some_iff.mp hrun
  simp only [Prod.mk.injEq, List.cons.injEq, and_true] at hstages
  obtain ⟨⟨hmissed, hdriving, hclosed⟩, hfirst, hsecond⟩ := hstages
  have hreach : SessionRegistry.machine.Reachable s :=
    Machine.Reachable.of_runFrom ⟨rfl, rfl, rfl, rfl, rfl⟩ hs
  exact ⟨s, hs, hmissed, hdriving, hclosed,
    sessions_are_one_shot hreach hfirst, sessions_are_one_shot hreach hsecond⟩

end P2pShare

import P2pShare.ConnectSteps

/-!
# Two hole punches

Both sides call `hole_punch` with the address of the other.  Each has a NAT that
lets a datagram of the other in once it has let one out to it.  The machine takes
one step for each datagram that is sent, dropped at a NAT, received or lost, and
other datagrams may reach both sockets.
-/

namespace P2pShare

open TransitionMachine

inductive PunchSide where
  | announcer
  | finder
  deriving DecidableEq

def PunchSide.other : PunchSide → PunchSide
  | announcer => finder
  | finder => announcer

def punchCount : ℕ := 150

inductive PunchCall where
  | idle
  | running (stage : PunchStage)
  | returned (result : Except ConnectError Unit)

/-- `punches` counts those of the spawned task, `sent` all that the side has
sent, and `sentOpen` those it sent when the NAT of the other side was open.
`flying` and `lost` count the punches towards this side. -/
structure Puncher where
  call : PunchCall
  punches : ℕ
  queue : List (List UInt8 × SocketAddr)
  sent : ℕ
  sentOpen : ℕ
  flying : ℕ
  lost : ℕ

structure PunchPair where
  announcer : Puncher
  finder : Puncher

inductive PunchEvent where
  | begins (side : PunchSide)
  | punches (side : PunchSide)
  | arrives (side : PunchSide)
  | loses (side : PunchSide)
  | stray (side : PunchSide) (bytes : List UInt8) (peer : SocketAddr)
  | hears (side : PunchSide)
  | elapses (side : PunchSide)
  | fails (side : PunchSide) (text : String)

/-- What `hole_punch` waits for. -/
def isPunch (peer : SocketAddr) (datagram : List UInt8 × SocketAddr) : Bool :=
  decide (datagram.2 = peer ∧ datagram.1.take 64 = punchMagic)

namespace PunchPair

def side (s : PunchPair) : PunchSide → Puncher
  | .announcer => s.announcer
  | .finder => s.finder

def set (s : PunchPair) (which : PunchSide) (puncher : Puncher) : PunchPair :=
  match which with
  | .announcer => { s with announcer := puncher }
  | .finder => { s with finder := puncher }

@[simp] theorem side_set_self (s : PunchPair) (which : PunchSide)
    (puncher : Puncher) : (s.set which puncher).side which = puncher := by
  cases which <;> rfl

@[simp] theorem side_set_other (s : PunchPair) (which : PunchSide)
    (puncher : Puncher) :
    (s.set which puncher).side which.other = s.side which.other := by
  cases which <;> rfl

@[simp] theorem side_other_set (s : PunchPair) (which : PunchSide)
    (puncher : Puncher) :
    (s.set which.other puncher).side which = s.side which := by
  cases which <;> rfl

@[simp] theorem set_set (s : PunchPair) (which : PunchSide)
    (puncher last : Puncher) :
    (s.set which puncher).set which last = s.set which last := by
  cases which <;> rfl

def emit (s : PunchPair) (which : PunchSide) : PunchPair :=
  let puncher := s.side which
  let other := s.side which.other
  (s.set which
    { puncher with
      sent := puncher.sent + 1
      sentOpen := puncher.sentOpen + if 0 < other.sent then 1 else 0 }).set
    which.other { other with flying := other.flying + 1 }

variable (addr : PunchSide → SocketAddr)

/-- The call goes on.  It sends a punch whenever it begins another round of
warming. -/
def resume (s : PunchPair) (which : PunchSide) (event : NetEvent Unit) :
    Option PunchPair :=
  match (s.side which).call with
  | .running stage =>
      (holePunch (addr which.other) stage event).map fun poll =>
        match poll with
        | .pending .receiving => s
        | .pending (.warming left) =>
            (s.set which
              { s.side which with call := .running (.warming left) }).emit which
        | .ready result =>
            s.set which { s.side which with call := .returned result }
        | .panicked => s
  | _ => none

def next (s : PunchPair) : PunchEvent → Option PunchPair
  | .begins which =>
      match (s.side which).call with
      | .idle =>
          some (s.set which { s.side which with call := .running .receiving })
      | _ => none
  | .punches which =>
      match (s.side which).call with
      | .running .receiving =>
          if (s.side which).punches < punchCount then
            some ((s.set which
              { s.side which with
                punches := (s.side which).punches + 1 }).emit which)
          else none
      | _ => none
  | .arrives which =>
      if 0 < (s.side which).flying then
        some (s.set which
          { s.side which with
            flying := (s.side which).flying - 1
            queue := (s.side which).queue ++
              if 0 < (s.side which).sent then [(punchMagic, addr which.other)]
              else [] })
      else none
  | .loses which =>
      if 0 < (s.side which).flying then
        some (s.set which
          { s.side which with
            flying := (s.side which).flying - 1
            lost := (s.side which).lost + 1 })
      else none
  | .stray which bytes peer =>
      if isPunch (addr which.other) (bytes, peer) then none
      else
        some (s.set which
          { s.side which with
            queue := (s.side which).queue ++ [(bytes, peer)] })
  | .hears which =>
      match (s.side which).queue with
      | [] => none
      | datagram :: queue =>
          (s.set which { s.side which with queue }).resume addr which
            (.datagram datagram.1 datagram.2)
  | .elapses which => s.resume addr which .elapsed
  | .fails which text => s.resume addr which (.failed text)

/-- Nothing has been sent yet. -/
structure Starts (s : PunchPair) : Prop where
  fresh : ∀ which, s.side which = ⟨.idle, 0, [], 0, 0, 0, 0⟩

def machine : Machine PunchPair PunchEvent where
  start := Starts
  next := next addr

/-- No call runs out of time, and no socket fails. -/
def Patient (s : PunchPair) : PunchEvent → Prop
  | .elapses which => (s.side which).call ≠ .running .receiving
  | .fails _ _ => False
  | _ => True

/-- Nothing is left to do but to wait for datagrams of others. -/
def Rests (s : PunchPair) : Prop :=
  ∀ event, s.Patient event → (∀ which bytes peer,
    event ≠ .stray which bytes peer) → s.next addr event = none

def ReturnedOk (s : PunchPair) (which : PunchSide) : Prop :=
  (s.side which).call = .returned (.ok ())

end PunchPair

/-! ## The books of one side -/

namespace Puncher

/-- The call has taken a punch from its socket. -/
def heard (puncher : Puncher) : ℕ :=
  match puncher.call with
  | .idle | .running .receiving => 0
  | .running (.warming _) | .returned _ => 1

structure Sound (peer : SocketAddr) (puncher other : Puncher) : Prop where
  punches_le : puncher.punches ≤ puncher.sent
  sentOpen_le : puncher.sentOpen ≤ puncher.sent
  closed : other.sent = 0 → puncher.sentOpen = 0
  flying : 0 < puncher.flying → 0 < other.sent
  queued : 0 < puncher.queue.countP (isPunch peer) → 0 < other.sent
  balance : other.sentOpen ≤ puncher.heard +
    puncher.queue.countP (isPunch peer) + puncher.flying + puncher.lost

/-- A call that has heard of the other side sends it ten punches, and its NAT
lets them in. -/
def CallSound (puncher other : Puncher) : Prop :=
  match puncher.call with
  | .idle => puncher.sent = 0
  | .running .receiving => True
  | .running (.warming left) =>
      0 < other.sent ∧ 0 < left ∧ 11 ≤ puncher.sentOpen + left
  | .returned result =>
      result = .ok () ∧ 10 ≤ puncher.sentOpen

end Puncher

namespace PunchPair

/-- Of two sides that have sent, one has sent nothing before the NAT of the
other was open. -/
structure Sound (addr : PunchSide → SocketAddr) (s : PunchPair) : Prop where
  sides : ∀ which,
    (s.side which).Sound (addr which.other) (s.side which.other)
  calls : ∀ which, (s.side which).CallSound (s.side which.other)
  later : (∀ which, 0 < (s.side which).sent) →
    ∃ which, (s.side which).sentOpen = (s.side which).sent

end PunchPair

/-! ## One step -/

theorem PunchSide.forall_iff {P : PunchSide → Prop} (which : PunchSide) :
    (∀ other, P other) ↔ P which ∧ P which.other := by
  constructor
  · exact fun h => ⟨h which, h which.other⟩
  · rintro ⟨hself, hother⟩ side
    cases which with
    | announcer =>
        cases side with
        | announcer => exact hself
        | finder => exact hother
    | finder =>
        cases side with
        | announcer => exact hother
        | finder => exact hself

theorem PunchSide.exists_iff {P : PunchSide → Prop} (which : PunchSide) :
    (∃ other, P other) ↔ P which ∨ P which.other := by
  have hnone := PunchSide.forall_iff (P := fun side => ¬ P side) which
  rw [← not_exists, ← not_or] at hnone
  exact not_iff_not.mp hnone

@[simp] theorem PunchSide.other_other (which : PunchSide) :
    which.other.other = which := by
  cases which <;> rfl

namespace Puncher

variable {peer : SocketAddr} {puncher other moved : Puncher}

/-- A side depends on what the other one has sent and on nothing else of it. -/
theorem Sound.of_sent (hsound : puncher.Sound peer other)
    (hsent : moved.sent = other.sent) (hopen : moved.sentOpen = other.sentOpen) :
    puncher.Sound peer moved where
  punches_le := hsound.punches_le
  sentOpen_le := hsound.sentOpen_le
  closed := by
    rw [hsent]
    exact hsound.closed
  flying := by
    rw [hsent]
    exact hsound.flying
  queued := by
    rw [hsent]
    exact hsound.queued
  balance := by
    rw [hopen]
    exact hsound.balance

/-- A step of the side itself that sends nothing. -/
theorem Sound.move (hsound : puncher.Sound peer other)
    (hpunches : moved.punches = puncher.punches)
    (hsent : moved.sent = puncher.sent)
    (hopen : moved.sentOpen = puncher.sentOpen)
    (hflying : moved.flying ≤ puncher.flying)
    (hqueued : 0 < moved.queue.countP (isPunch peer) → 0 < other.sent)
    (hbalance : other.sentOpen ≤ moved.heard +
      moved.queue.countP (isPunch peer) + moved.flying + moved.lost) :
    moved.Sound peer other where
  punches_le := by
    rw [hpunches, hsent]
    exact hsound.punches_le
  sentOpen_le := by
    rw [hopen, hsent]
    exact hsound.sentOpen_le
  closed := by
    rw [hopen]
    exact hsound.closed
  flying := fun hpos => hsound.flying (Nat.lt_of_lt_of_le hpos hflying)
  queued := hqueued
  balance := hbalance

theorem CallSound.of_sent_le (hcall : puncher.CallSound other)
    (hsent : other.sent ≤ moved.sent) : puncher.CallSound moved := by
  unfold CallSound at hcall ⊢
  split
  next hstage =>
      rw [hstage] at hcall
      exact hcall
  next hstage => exact True.intro
  next left hstage =>
      rw [hstage] at hcall
      exact ⟨Nat.lt_of_lt_of_le hcall.1 hsent, hcall.2⟩
  next result hstage =>
      rw [hstage] at hcall
      exact hcall

end Puncher

namespace PunchPair

variable {addr : PunchSide → SocketAddr} {s t : PunchPair} {which : PunchSide}
  {moved : Puncher}

/-- A step of one side that sends nothing. -/
theorem Sound.set (hsound : s.Sound addr)
    (hsent : moved.sent = (s.side which).sent)
    (hopen : moved.sentOpen = (s.side which).sentOpen)
    (hmoved : moved.Sound (addr which.other) (s.side which.other))
    (hcall : moved.CallSound (s.side which.other)) :
    (s.set which moved).Sound addr where
  sides := by
    have hother := hsound.sides which.other
    rw [PunchSide.other_other] at hother
    refine (PunchSide.forall_iff which).mpr ⟨?_, ?_⟩
    · rw [side_set_self, side_set_other]
      exact hmoved
    · rw [side_set_other, PunchSide.other_other, side_set_self]
      exact hother.of_sent hsent hopen
  calls := by
    have hother := hsound.calls which.other
    rw [PunchSide.other_other] at hother
    refine (PunchSide.forall_iff which).mpr ⟨?_, ?_⟩
    · rw [side_set_self, side_set_other]
      exact hcall
    · rw [side_set_other, PunchSide.other_other, side_set_self]
      exact hother.of_sent_le (Nat.le_of_eq hsent.symm)
  later := by
    have hlater := hsound.later
    rw [PunchSide.forall_iff which, PunchSide.exists_iff which] at hlater
    rw [PunchSide.forall_iff which, PunchSide.exists_iff which, side_set_self,
      side_set_other, hsent, hopen]
    exact hlater

theorem side_emit_self (s : PunchPair) (which : PunchSide) :
    (s.emit which).side which =
      { s.side which with
        sent := (s.side which).sent + 1
        sentOpen := (s.side which).sentOpen +
          if 0 < (s.side which.other).sent then 1 else 0 } := by
  unfold emit
  rw [side_other_set, side_set_self]

theorem side_emit_other (s : PunchPair) (which : PunchSide) :
    (s.emit which).side which.other =
      { s.side which.other with
        flying := (s.side which.other).flying + 1 } := by
  unfold emit
  rw [side_set_self]

/-- A step of one side that sends a punch. -/
theorem Sound.emit (hsound : s.Sound addr)
    (hsent : moved.sent = (s.side which).sent)
    (hopen : moved.sentOpen = (s.side which).sentOpen)
    (hflying : moved.flying = (s.side which).flying)
    (hpunches : moved.punches ≤ moved.sent + 1)
    (hqueued : 0 < moved.queue.countP (isPunch (addr which.other)) →
      0 < (s.side which.other).sent)
    (hbalance : (s.side which.other).sentOpen ≤ moved.heard +
      moved.queue.countP (isPunch (addr which.other)) + moved.flying +
        moved.lost)
    (hcall : Puncher.CallSound
      { moved with
        sent := moved.sent + 1
        sentOpen := moved.sentOpen +
          if 0 < (s.side which.other).sent then 1 else 0 }
      (s.side which.other)) :
    ((s.set which moved).emit which).Sound addr := by
  have hself := hsound.sides which
  have hother := hsound.sides which.other
  have hcalls := hsound.calls which.other
  have hlater := hsound.later
  rw [PunchSide.other_other] at hother hcalls
  rw [PunchSide.forall_iff which, PunchSide.exists_iff which] at hlater
  have hopened : (if 0 < (s.side which.other).sent then 1 else 0) ≤ 1 := by
    split
    · exact Nat.le_refl 1
    · exact Nat.zero_le 1
  refine ⟨?sides, ?calls, ?later⟩
  case sides =>
      rw [PunchSide.forall_iff which, PunchSide.other_other, side_emit_self,
        side_emit_other, side_set_self, side_set_other]
      refine ⟨⟨hpunches, ?opened, ?closed, ?flying, hqueued, hbalance⟩,
        ⟨hother.punches_le, hother.sentOpen_le, ?closedOther, ?flyingOther,
          ?queuedOther, ?balanceOther⟩⟩
      case opened =>
          have hle := hself.sentOpen_le
          dsimp only
          omega
      case closed =>
          intro hzero
          have hclosed := hself.closed hzero
          dsimp only at hzero ⊢
          rw [hzero, hopen, hclosed]
          rfl
      case flying =>
          intro hpos
          dsimp only at hpos
          rw [hflying] at hpos
          exact hself.flying hpos
      case closedOther =>
          intro hzero
          exact absurd hzero (Nat.succ_ne_zero _)
      case flyingOther => exact fun _ => Nat.succ_pos _
      case queuedOther => exact fun _ => Nat.succ_pos _
      case balanceOther =>
          have hle := hother.balance
          dsimp only [Puncher.heard] at hle ⊢
          omega
  case calls =>
      rw [PunchSide.forall_iff which, PunchSide.other_other, side_emit_self,
        side_emit_other, side_set_self, side_set_other]
      refine ⟨hcall.of_sent_le (Nat.le_refl _), ?_⟩
      have hgrown : (s.side which.other).CallSound
          { moved with
            sent := moved.sent + 1
            sentOpen := moved.sentOpen +
              if 0 < (s.side which.other).sent then 1 else 0 } :=
        hcalls.of_sent_le (by
          dsimp only
          omega)
      exact hgrown
  case later =>
      rw [PunchSide.forall_iff which, PunchSide.exists_iff which, side_emit_self,
        side_emit_other, side_set_self, side_set_other]
      rintro ⟨-, hpos⟩
      dsimp only at hpos ⊢
      rw [if_pos hpos, hsent, hopen]
      have hle := hself.sentOpen_le
      by_cases hfirst : (s.side which).sent = 0
      · left
        omega
      · rcases hlater ⟨Nat.pos_of_ne_zero hfirst, hpos⟩ with hall | hall
        · left
          omega
        · exact Or.inr hall

/-! ## The events -/

theorem holePunch_punch {peer : SocketAddr} {datagram : List UInt8 × SocketAddr}
    (hpunch : isPunch peer datagram) :
    holePunch peer .receiving
      (NetEvent.datagram datagram.1 datagram.2 : NetEvent Unit) =
        some (.pending (.warming 10)) := if_pos (of_decide_eq_true hpunch)

theorem holePunch_stray {peer : SocketAddr} {datagram : List UInt8 × SocketAddr}
    (hstray : ¬ isPunch peer datagram) :
    holePunch peer .receiving
      (NetEvent.datagram datagram.1 datagram.2 : NetEvent Unit) =
        some (.pending .receiving) :=
  if_neg fun hpunch => hstray (decide_eq_true hpunch)

theorem sound_begins (hsound : s.Sound addr)
    (hnext : s.next addr (.begins which) = some t) : t.Sound addr := by
  dsimp only [next] at hnext
  split at hnext
  · next hcall =>
      obtain rfl := Option.some.inj hnext
      have hself := hsound.sides which
      have hbalance := hself.balance
      unfold Puncher.heard at hbalance
      rw [hcall] at hbalance
      exact hsound.set rfl rfl
        (hself.move rfl rfl rfl (Nat.le_refl _) hself.queued hbalance)
        True.intro
  · cases hnext

theorem sound_punches (hsound : s.Sound addr)
    (hnext : s.next addr (.punches which) = some t) : t.Sound addr := by
  dsimp only [next] at hnext
  split at hnext
  · next hcall =>
      split at hnext
      · obtain rfl := Option.some.inj hnext
        have hself := hsound.sides which
        refine hsound.emit rfl rfl rfl ?_ hself.queued hself.balance ?_
        · exact Nat.succ_le_succ hself.punches_le
        · unfold Puncher.CallSound
          dsimp only
          rw [hcall]
          exact True.intro
      · cases hnext
  · cases hnext

theorem sound_arrives (hsound : s.Sound addr)
    (hnext : s.next addr (.arrives which) = some t) : t.Sound addr := by
  dsimp only [next] at hnext
  split at hnext
  · next hflying =>
      obtain rfl := Option.some.inj hnext
      have hself := hsound.sides which
      have hother := hsound.sides which.other
      rw [PunchSide.other_other] at hother
      refine hsound.set rfl rfl
        (hself.move rfl rfl rfl (Nat.sub_le _ _) ?queued ?balance)
        (hsound.calls which)
      case queued => exact fun _ => hself.flying hflying
      case balance =>
          have hbalance := hself.balance
          by_cases hopen : 0 < (s.side which).sent
          · have hpunch : isPunch (addr which.other)
                (punchMagic, addr which.other) = true :=
              decide_eq_true ⟨rfl, rfl⟩
            rw [if_pos hopen, List.countP_append, List.countP_singleton,
              if_pos hpunch]
            change _ ≤ (s.side which).heard + _ + ((s.side which).flying - 1) +
              (s.side which).lost
            omega
          · have hnone := hother.closed (Nat.eq_zero_of_not_pos hopen)
            rw [hnone]
            exact Nat.zero_le _
  · cases hnext

theorem sound_loses (hsound : s.Sound addr)
    (hnext : s.next addr (.loses which) = some t) : t.Sound addr := by
  dsimp only [next] at hnext
  split at hnext
  · next hflying =>
      obtain rfl := Option.some.inj hnext
      have hself := hsound.sides which
      have hbalance := hself.balance
      refine hsound.set rfl rfl
        (hself.move rfl rfl rfl (Nat.sub_le _ _) hself.queued ?balance)
        (hsound.calls which)
      case balance =>
          dsimp only [Puncher.heard] at hbalance ⊢
          omega
  · cases hnext

theorem sound_stray {bytes : List UInt8} {peer : SocketAddr}
    (hsound : s.Sound addr)
    (hnext : s.next addr (.stray which bytes peer) = some t) :
    t.Sound addr := by
  dsimp only [next] at hnext
  split at hnext
  · cases hnext
  · next hstray =>
      obtain rfl := Option.some.inj hnext
      have hself := hsound.sides which
      have hcount : ((s.side which).queue ++ [(bytes, peer)]).countP
          (isPunch (addr which.other)) =
            (s.side which).queue.countP (isPunch (addr which.other)) := by
        rw [List.countP_append, List.countP_singleton, if_neg hstray,
          Nat.add_zero]
      refine hsound.set rfl rfl
        (hself.move rfl rfl rfl (Nat.le_refl _) ?queued ?balance)
        (hsound.calls which)
      case queued =>
          rw [hcount]
          exact hself.queued
      case balance =>
          rw [hcount]
          exact hself.balance

theorem resume_eq_some {event : NetEvent Unit}
    (hresume : s.resume addr which event = some t) :
    ∃ stage poll, (s.side which).call = .running stage ∧
      holePunch (addr which.other) stage event = some poll := by
  unfold resume at hresume
  split at hresume
  · next stage hcall =>
      obtain ⟨poll, hpoll, -⟩ := Option.map_eq_some_iff.mp hresume
      exact ⟨stage, poll, hcall, hpoll⟩
  · cases hresume

theorem resume_eq {event : NetEvent Unit} {stage : PunchStage}
    (hcall : (s.side which).call = .running stage) :
    s.resume addr which event =
      (holePunch (addr which.other) stage event).map fun poll =>
        match poll with
        | .pending .receiving => s
        | .pending (.warming left) =>
            (s.set which
              { s.side which with call := .running (.warming left) }).emit which
        | .ready result =>
            s.set which { s.side which with call := .returned result }
        | .panicked => s := by
  unfold resume
  rw [hcall]

/-- Only a call that receives takes from the queue. -/
theorem sound_hears (hsound : s.Sound addr)
    (hnext : s.next addr (.hears which) = some t) : t.Sound addr := by
  dsimp only [next] at hnext
  split at hnext
  · cases hnext
  · next datagram queue hqueue =>
      have hself := hsound.sides which
      have hqueued := hself.queued
      have hbalance := hself.balance
      rw [hqueue, List.countP_cons] at hqueued hbalance
      obtain ⟨stage, poll, hcall, hpoll⟩ := resume_eq_some hnext
      rw [resume_eq hcall] at hnext
      rw [side_set_self] at hcall hnext
      cases stage with
      | receiving =>
          have hheard : (s.side which).heard = 0 := by
            unfold Puncher.heard
            rw [hcall]
          rw [hheard] at hbalance
          by_cases hpunch : isPunch (addr which.other) datagram
          · rw [if_pos hpunch] at hqueued hbalance
            have hpos := hqueued (Nat.succ_pos _)
            rw [holePunch_punch hpunch] at hnext
            obtain rfl := Option.some.inj hnext
            dsimp only
            rw [set_set]
            refine hsound.emit rfl rfl rfl ?_ (fun _ => hpos) ?_
              ⟨hpos, by decide, ?_⟩
            · exact Nat.le_succ_of_le hself.punches_le
            · dsimp only [Puncher.heard]
              omega
            · rw [if_pos hpos]
              dsimp only
              omega
          · rw [if_neg hpunch, Nat.add_zero] at hqueued hbalance
            rw [holePunch_stray hpunch] at hnext
            obtain rfl := Option.some.inj hnext
            refine hsound.set rfl rfl
              (hself.move rfl rfl rfl (Nat.le_refl _) hqueued ?_)
              (hsound.calls which)
            dsimp only [Puncher.heard]
            rw [hcall]
            exact hbalance
      | warming left => cases left <;> cases hpoll

/-- Time passes between the punches of a call that has heard of the other
side. -/
theorem sound_elapses (hsound : s.Sound addr)
    (hpatient : (s.side which).call ≠ .running .receiving)
    (hnext : s.next addr (.elapses which) = some t) : t.Sound addr := by
  have hself := hsound.sides which
  have hcalls := hsound.calls which
  have hbalance := hself.balance
  obtain ⟨stage, poll, hcall, hpoll⟩ := resume_eq_some hnext
  dsimp only [next] at hnext
  rw [resume_eq hcall] at hnext
  unfold Puncher.CallSound at hcalls
  unfold Puncher.heard at hbalance
  rw [hcall] at hcalls hbalance
  cases stage with
  | receiving => exact absurd hcall hpatient
  | warming left =>
      obtain ⟨hother, -, hleft⟩ := hcalls
      cases left with
      | zero => cases hpoll
      | succ left =>
          by_cases hlast : left = 0
          · have hready : holePunch (addr which.other) (.warming (left + 1))
                (NetEvent.elapsed : NetEvent Unit) = some (.ready (.ok ())) :=
              if_pos hlast
            rw [hready] at hnext
            obtain rfl := Option.some.inj hnext
            refine hsound.set rfl rfl
              (hself.move rfl rfl rfl (Nat.le_refl _) hself.queued hbalance)
              ⟨rfl, ?_⟩
            dsimp only
            omega
          · have hagain : holePunch (addr which.other) (.warming (left + 1))
                (NetEvent.elapsed : NetEvent Unit) =
                  some (.pending (.warming left)) := if_neg hlast
            rw [hagain] at hnext
            obtain rfl := Option.some.inj hnext
            refine hsound.emit rfl rfl rfl ?_ hself.queued hbalance
              ⟨hother, Nat.pos_of_ne_zero hlast, ?_⟩
            · exact Nat.le_succ_of_le hself.punches_le
            · rw [if_pos hother]
              dsimp only
              omega

theorem sound_of_starts (hs : s.Starts) : s.Sound addr where
  sides := fun which => by
    rw [hs.fresh which, hs.fresh which.other]
    exact {
      punches_le := Nat.le_refl 0
      sentOpen_le := Nat.le_refl 0
      closed := fun _ => rfl
      flying := id
      queued := id
      balance := Nat.le_refl 0 }
  calls := fun which => by
    rw [hs.fresh which]
    exact rfl
  later := fun hall => by
    have hpos := hall .announcer
    rw [hs.fresh .announcer] at hpos
    exact absurd hpos (Nat.lt_irrefl 0)

theorem sound_next {event : PunchEvent} (hsound : s.Sound addr)
    (hnext : ((machine addr).restrict Patient).next s event = some t) :
    t.Sound addr := by
  obtain ⟨hnext, hpatient⟩ := Machine.restrict_next_eq_some.mp hnext
  cases event with
  | begins which => exact sound_begins hsound hnext
  | punches which => exact sound_punches hsound hnext
  | arrives which => exact sound_arrives hsound hnext
  | loses which => exact sound_loses hsound hnext
  | stray which bytes peer => exact sound_stray hsound hnext
  | hears which => exact sound_hears hsound hnext
  | elapses which => exact sound_elapses hsound hpatient hnext
  | fails which text => exact hpatient.elim

theorem sound_of_reachable
    (hs : ((machine addr).restrict Patient).Reachable s) : s.Sound addr :=
  hs.invariant (fun _ hstart => sound_of_starts hstart)
    fun _ _ _ hsound hnext => sound_next hsound hnext

/-! ## Rest -/

namespace Rests

theorem flying_eq_zero (hrests : s.Rests addr) (which : PunchSide) :
    (s.side which).flying = 0 := by
  have hloses := hrests (.loses which) True.intro (fun _ _ _ h => nomatch h)
  dsimp only [next] at hloses
  split at hloses
  · cases hloses
  · next hflying => exact Nat.eq_zero_of_not_pos hflying

theorem sent_all (hrests : s.Rests addr) (hsound : s.Sound addr)
    (hcall : (s.side which).call = .running .receiving) :
    punchCount ≤ (s.side which).sent := by
  have hpunches := hrests (.punches which) True.intro
    (fun _ _ _ h => nomatch h)
  dsimp only [next] at hpunches
  rw [hcall] at hpunches
  dsimp only at hpunches
  split at hpunches
  · cases hpunches
  · next hall =>
      exact Nat.le_trans (Nat.le_of_not_lt hall)
        (hsound.sides which).punches_le

theorem queue_eq_nil (hrests : s.Rests addr)
    (hcall : (s.side which).call = .running .receiving) :
    (s.side which).queue = [] := by
  have hhears := hrests (.hears which) True.intro (fun _ _ _ h => nomatch h)
  dsimp only [next] at hhears
  cases hqueue : (s.side which).queue with
  | nil => rfl
  | cons datagram queue =>
      rw [hqueue] at hhears
      dsimp only at hhears
      rw [resume_eq (by rw [side_set_self]; exact hcall),
        Option.map_eq_none_iff] at hhears
      by_cases hpunch : isPunch (addr which.other) datagram
      · rw [holePunch_punch hpunch] at hhears
        cases hhears
      · rw [holePunch_stray hpunch] at hhears
        cases hhears

/-- A call that has heard of the other side goes on. -/
theorem not_warming (hrests : s.Rests addr) (hsound : s.Sound addr)
    (left : ℕ) : (s.side which).call ≠ .running (.warming left) := by
  intro hcall
  have hcalls := hsound.calls which
  unfold Puncher.CallSound at hcalls
  rw [hcall] at hcalls
  obtain ⟨-, hpos, -⟩ := hcalls
  have hpatient : s.Patient (.elapses which) := by
    change (s.side which).call ≠ .running .receiving
    rw [hcall]
    exact fun h => nomatch h
  have helapses := hrests _ hpatient (fun _ _ _ h => nomatch h)
  dsimp only [next] at helapses
  rw [resume_eq hcall, Option.map_eq_none_iff] at helapses
  cases left with
  | zero => exact absurd hpos (Nat.lt_irrefl 0)
  | succ left =>
      have hsome : holePunch (addr which.other) (.warming (left + 1))
          (NetEvent.elapsed : NetEvent Unit) =
            if left = 0 then some (.ready (.ok ()))
            else some (.pending (.warming left)) := rfl
      rw [hsome] at helapses
      split at helapses
      · cases helapses
      · cases helapses

/-- A call that has not returned is still waiting. -/
theorem receiving (hrests : s.Rests addr) (hsound : s.Sound addr)
    (hnot : ¬ s.ReturnedOk which) :
    (s.side which).call = .running .receiving := by
  have hcalls := hsound.calls which
  unfold Puncher.CallSound at hcalls
  cases hcall : (s.side which).call with
  | idle =>
      have hbegins := hrests (.begins which) True.intro
        (fun _ _ _ h => nomatch h)
      dsimp only [next] at hbegins
      rw [hcall] at hbegins
      cases hbegins
  | returned result =>
      rw [hcall] at hcalls
      unfold ReturnedOk at hnot
      rw [hcall, hcalls.1] at hnot
      exact absurd rfl hnot
  | running stage =>
      cases stage with
      | warming left => exact absurd hcall (hrests.not_warming hsound left)
      | receiving => rfl

/-- What the other side sent to it in time is lost. -/
theorem sentOpen_le_lost (hrests : s.Rests addr) (hsound : s.Sound addr)
    (which : PunchSide) (hnot : ¬ s.ReturnedOk which) :
    (s.side which.other).sentOpen ≤ (s.side which).lost := by
  have hcall := hrests.receiving hsound hnot
  have hqueue := hrests.queue_eq_nil hcall
  have hbalance := (hsound.sides which).balance
  unfold Puncher.heard at hbalance
  rw [hcall, hqueue, hrests.flying_eq_zero which] at hbalance
  rw [List.countP_nil] at hbalance
  dsimp only at hbalance
  omega

end Rests

theorem Sound.sentOpen_of_returned (hsound : s.Sound addr)
    (hreturned : s.ReturnedOk which) : 10 ≤ (s.side which).sentOpen := by
  have hcalls := hsound.calls which
  unfold ReturnedOk at hreturned
  unfold Puncher.CallSound at hcalls
  rw [hreturned] at hcalls
  exact hcalls.2

/-- The side that has heard nothing has lost what was sent to it. -/
theorem Rests.returned_or_lost (hrests : s.Rests addr)
    (hsound : s.Sound addr) :
    (∀ which, s.ReturnedOk which) ∨
      ∃ which, ¬ s.ReturnedOk which ∧ 10 ≤ (s.side which).lost ∧
        (¬ s.ReturnedOk which.other → punchCount ≤ (s.side which).lost) := by
  by_cases hall : ∀ which, s.ReturnedOk which
  · exact Or.inl hall
  · right
    obtain ⟨which, hnot⟩ := not_forall.mp hall
    by_cases hother : s.ReturnedOk which.other
    · have hlost := hrests.sentOpen_le_lost hsound which hnot
      exact ⟨which, hnot,
        Nat.le_trans (hsound.sentOpen_of_returned hother) hlost,
        fun hcontra => absurd hother hcontra⟩
    · have hneither : ∀ side, ¬ s.ReturnedOk side :=
        (PunchSide.forall_iff which).mpr ⟨hnot, hother⟩
      have hsent : ∀ side, punchCount ≤ (s.side side).sent := fun side =>
        hrests.sent_all hsound (hrests.receiving hsound (hneither side))
      obtain ⟨found, hfound⟩ := hsound.later fun side =>
        Nat.lt_of_lt_of_le (Nat.succ_pos 149) (hsent side)
      have hlost := hrests.sentOpen_le_lost hsound found.other
        (hneither found.other)
      rw [PunchSide.other_other, hfound] at hlost
      have hmany := Nat.le_trans (hsent found) hlost
      exact ⟨found.other, hneither found.other,
        Nat.le_trans (Nat.le_of_ble_eq_true rfl) hmany, fun _ => hmany⟩

/-! ## The length of a run -/

/-- The steps a call still takes, with those of the punches it sends. -/
def callWork (punches : ℕ) : PunchCall → ℕ
  | .idle => 3 * (punchCount - punches) + 33
  | .running .receiving => 3 * (punchCount - punches) + 32
  | .running (.warming left) => 3 * left
  | .returned _ => 0

def sideWork (puncher : Puncher) : ℕ :=
  callWork puncher.punches puncher.call + 2 * puncher.flying +
    puncher.queue.length

def work (s : PunchPair) : ℕ :=
  sideWork s.announcer + sideWork s.finder

def credit : PunchEvent → ℕ
  | .stray _ _ _ => 2
  | _ => 0

theorem work_eq (s : PunchPair) (which : PunchSide) :
    s.work = sideWork (s.side which) + sideWork (s.side which.other) := by
  cases which with
  | announcer => rfl
  | finder => exact Nat.add_comm _ _

theorem work_set (s : PunchPair) (which : PunchSide) (puncher : Puncher) :
    (s.set which puncher).work =
      sideWork puncher + sideWork (s.side which.other) := by
  rw [work_eq _ which, side_set_self, side_set_other]

/-- A punch costs its sender nothing more, and its way two steps. -/
theorem work_emit (s : PunchPair) (which : PunchSide) :
    (s.emit which).work = s.work + 2 := by
  rw [work_eq _ which, work_eq s which, side_emit_self, side_emit_other]
  unfold sideWork
  dsimp only
  omega

/-- Work of the call alone. -/
theorem work_call (s : PunchPair) (which : PunchSide) (call : PunchCall) :
    (s.set which { s.side which with call }).work +
        callWork (s.side which).punches (s.side which).call =
      s.work + callWork (s.side which).punches call := by
  rw [work_set, work_eq s which]
  unfold sideWork
  dsimp only
  omega

theorem work_returned {call : PunchCall} {result : Except ConnectError Unit}
    (hcall : (s.side which).call = call)
    (hpos : 0 < callWork (s.side which).punches call) :
    (s.set which { s.side which with call := .returned result }).work <
      s.work := by
  have hwork := work_call s which (.returned result)
  have hzero : callWork (s.side which).punches (.returned result) = 0 := rfl
  rw [hcall, hzero] at hwork
  omega

/-- Only hearing of the other side costs the call nothing. -/
theorem work_resume {event : NetEvent Unit}
    (hresume : s.resume addr which event = some t) :
    t.work ≤ s.work ∧
      ((∀ bytes peer, event ≠ .datagram bytes peer) → t.work < s.work) := by
  obtain ⟨stage, poll, hcall, hpoll⟩ := resume_eq_some hresume
  rw [resume_eq hcall, hpoll] at hresume
  obtain rfl := Option.some.inj hresume
  have of_lt : ∀ u : PunchPair, u.work < s.work → u.work ≤ s.work ∧
      ((∀ bytes peer, event ≠ .datagram bytes peer) → u.work < s.work) :=
    fun _ hlower => ⟨Nat.le_of_lt hlower, fun _ => hlower⟩
  unfold holePunch at hpoll
  split at hpoll
  · next bytes peer =>
      refine ⟨?_, fun hnot => absurd rfl (hnot bytes peer)⟩
      split at hpoll
      · obtain rfl := Option.some.inj hpoll
        have hwork := work_call s which (.running (.warming 10))
        rw [hcall] at hwork
        unfold callWork at hwork
        dsimp only at hwork ⊢
        rw [work_emit]
        omega
      · obtain rfl := Option.some.inj hpoll
        exact Nat.le_refl _
  · obtain rfl := Option.some.inj hpoll
    exact of_lt _ (work_returned hcall (Nat.succ_pos _))
  · obtain rfl := Option.some.inj hpoll
    exact of_lt _ (work_returned hcall (Nat.succ_pos _))
  · next left =>
      split at hpoll
      · obtain rfl := Option.some.inj hpoll
        exact of_lt _ (work_returned hcall (Nat.succ_pos _))
      · obtain rfl := Option.some.inj hpoll
        have hwork := work_call s which (.running (.warming left))
        rw [hcall] at hwork
        unfold callWork at hwork
        refine of_lt _ ?_
        dsimp only at hwork ⊢
        rw [work_emit]
        omega
  · cases hpoll

/-- What a step of one side costs beside the call. -/
theorem work_moved {moved : Puncher} {bound : ℕ}
    (hlower : sideWork moved < sideWork (s.side which) + bound) :
    (s.set which moved).work < s.work + bound := by
  rw [work_set, work_eq s which]
  omega

theorem work_next {event : PunchEvent} (hnext : s.next addr event = some t) :
    t.work < s.work + credit event := by
  cases event with
  | begins which =>
      dsimp only [next] at hnext
      split at hnext
      · next hcall =>
          obtain rfl := Option.some.inj hnext
          refine work_moved ?_
          unfold sideWork
          rw [hcall]
          unfold callWork credit
          dsimp only
          omega
      · cases hnext
  | punches which =>
      dsimp only [next] at hnext
      split at hnext
      · next hcall =>
          split at hnext
          · next hleft =>
              obtain rfl := Option.some.inj hnext
              rw [work_emit, work_set, work_eq s which]
              unfold sideWork
              rw [hcall]
              unfold callWork credit
              dsimp only
              omega
          · cases hnext
      · cases hnext
  | arrives which =>
      dsimp only [next] at hnext
      split at hnext
      · next hflying =>
          obtain rfl := Option.some.inj hnext
          refine work_moved ?_
          unfold sideWork credit
          dsimp only
          rw [List.length_append]
          split
          · rw [List.length_singleton]
            omega
          · rw [List.length_nil]
            omega
      · cases hnext
  | loses which =>
      dsimp only [next] at hnext
      split at hnext
      · next hflying =>
          obtain rfl := Option.some.inj hnext
          refine work_moved ?_
          unfold sideWork credit
          dsimp only
          omega
      · cases hnext
  | stray which bytes peer =>
      dsimp only [next] at hnext
      split at hnext
      · cases hnext
      · obtain rfl := Option.some.inj hnext
        refine work_moved ?_
        unfold sideWork credit
        dsimp only
        rw [List.length_append, List.length_singleton]
        omega
  | hears which =>
      dsimp only [next] at hnext
      split at hnext
      · cases hnext
      · next datagram queue hqueue =>
          refine Nat.lt_of_le_of_lt (work_resume hnext).1 (work_moved ?_)
          unfold sideWork credit
          dsimp only
          rw [hqueue, List.length_cons]
          omega
  | elapses which => exact (work_resume hnext).2 fun _ _ h => nomatch h
  | fails which text => exact (work_resume hnext).2 fun _ _ h => nomatch h

theorem work_of_starts (hs : s.Starts) : s.work = 966 := by
  rw [work_eq s .announcer, hs.fresh .announcer,
    hs.fresh PunchSide.announcer.other]
  rfl

end PunchPair

/-- The datagrams of others in a run. -/
def strays : List PunchEvent → ℕ
  | [] => 0
  | .stray _ _ _ :: rest => strays rest + 1
  | _ :: rest => strays rest

theorem total_credit_punches (events : List PunchEvent) :
    Machine.total PunchPair.credit events = 2 * strays events := by
  induction events with
  | nil => rfl
  | cons event rest ih =>
      rw [Machine.total, ih]
      cases event with
      | stray which bytes peer => exact Nat.add_comm _ _
      | begins which => exact Nat.zero_add _
      | punches which => exact Nat.zero_add _
      | arrives which => exact Nat.zero_add _
      | loses which => exact Nat.zero_add _
      | hears which => exact Nat.zero_add _
      | elapses which => exact Nat.zero_add _
      | fails which text => exact Nat.zero_add _

/-! ## Main result -/

/-- Two hole punches take a bounded number of steps beside the datagrams of
others.  Where neither runs out of time and nothing is left to do, both have
succeeded, unless a side has lost ten punches, or as many as one call sends where
the other side has not succeeded either. -/
theorem hole_punches_meet (addr : PunchSide → SocketAddr) (s₀ : PunchPair)
    (hs₀ : s₀.Starts) :
    (∀ events s, (PunchPair.machine addr).runFrom s₀ events = some s →
      events.length ≤ 966 + 2 * strays events) ∧
    ∀ s, ((PunchPair.machine addr).restrict PunchPair.Patient).Leads s₀ s →
      s.Rests addr →
      (∀ which, s.ReturnedOk which) ∨
      ∃ which, ¬ s.ReturnedOk which ∧
        10 ≤ (s.side which).lost ∧
        (¬ s.ReturnedOk which.other → punchCount ≤ (s.side which).lost) := by
  constructor
  · intro events s hrun
    have hlength := Machine.length_le_of_credit (P := fun _ => True)
      hrun True.intro fun u event v _ hnext =>
        ⟨True.intro, PunchPair.work_next hnext⟩
    rw [total_credit_punches, PunchPair.work_of_starts hs₀] at hlength
    exact hlength
  · intro s hleads hrests
    exact hrests.returned_or_lost
      (PunchPair.sound_of_reachable ⟨s₀, hs₀, hleads⟩)

/-! ### An instance -/

namespace PunchPair

def fresh : PunchPair where
  announcer := ⟨.idle, 0, [], 0, 0, 0, 0⟩
  finder := ⟨.idle, 0, [], 0, 0, 0, 0⟩

theorem starts_fresh : fresh.Starts where
  fresh := fun which => by
    cases which with
    | announcer => rfl
    | finder => rfl

/-- Both sides have heard of each other, and nothing is under way. -/
theorem rests_of_returned {addr : PunchSide → SocketAddr} {s : PunchPair}
    (hall : ∀ which, s.ReturnedOk which)
    (hflying : ∀ which, (s.side which).flying = 0) : s.Rests addr := by
  have hresume : ∀ which queue event,
      (s.set which { s.side which with queue }).resume addr which event =
        none := by
    intro which queue event
    unfold resume
    rw [side_set_self]
    dsimp only
    rw [hall which]
  intro event hpatient hstray
  cases event with
  | begins which =>
      dsimp only [next]
      rw [hall which]
  | punches which =>
      dsimp only [next]
      rw [hall which]
  | arrives which =>
      dsimp only [next]
      rw [hflying which, if_neg (Nat.lt_irrefl 0)]
  | loses which =>
      dsimp only [next]
      rw [hflying which, if_neg (Nat.lt_irrefl 0)]
  | stray which bytes peer => exact absurd rfl (hstray which bytes peer)
  | hears which =>
      dsimp only [next]
      split
      · rfl
      · exact hresume which _ _
  | elapses which =>
      dsimp only [next]
      unfold resume
      rw [hall which]
  | fails which text => exact hpatient.elim

instance decidablePatient (s : PunchPair) (event : PunchEvent) :
    Decidable (s.Patient event) :=
  match event with
  | .elapses which =>
      match hcall : (s.side which).call with
      | .running .receiving => isFalse fun hpatient => hpatient hcall
      | .idle => isTrue fun heq => nomatch hcall.symm.trans heq
      | .running (.warming _) => isTrue fun heq => nomatch hcall.symm.trans heq
      | .returned _ => isTrue fun heq => nomatch hcall.symm.trans heq
  | .fails _ _ => isFalse id
  | .begins _ | .punches _ | .arrives _ | .loses _ | .stray _ _ _ | .hears _ =>
      isTrue True.intro

end PunchPair

def punchAddr : PunchSide → SocketAddr
  | .announcer => ⟨.v4 203 0 113 5, 4001⟩
  | .finder => ⟨.v4 198 51 100 7, 4002⟩

/-- The NAT of the finder drops the first punch. -/
def punchRun : List PunchEvent :=
  [.begins .announcer, .punches .announcer, .arrives .finder,
    .begins .finder, .punches .finder, .arrives .announcer, .hears .announcer,
    .arrives .finder, .hears .finder] ++
  (List.replicate 10 [.elapses .announcer, .elapses .finder]).flatten ++
  List.replicate 9 (.arrives .finder) ++
  List.replicate 10 (.arrives .announcer)

def punchedThrough : PunchPair where
  announcer := ⟨.returned (.ok ()), 1,
    List.replicate 10 (punchMagic, punchAddr .finder), 11, 10, 0, 0⟩
  finder := ⟨.returned (.ok ()), 1,
    List.replicate 9 (punchMagic, punchAddr .announcer), 11, 11, 0, 0⟩

theorem hole_punches_meet_sample :
    ((PunchPair.machine punchAddr).runFrom PunchPair.fresh punchRun =
        some punchedThrough ∧
      punchRun.length ≤ 966) ∧
    ((∀ which, punchedThrough.ReturnedOk which) ∨
      ∃ which, ¬ punchedThrough.ReturnedOk which ∧
        10 ≤ (punchedThrough.side which).lost ∧
        (¬ punchedThrough.ReturnedOk which.other →
          punchCount ≤ (punchedThrough.side which).lost)) := by
  have hrun : (PunchPair.machine punchAddr).runFrom PunchPair.fresh punchRun =
      some punchedThrough := rfl
  have hmeets : (PunchPair.machine punchAddr).Meets PunchPair.Patient
      PunchPair.fresh punchRun := by
    decide +kernel
  have hrests : punchedThrough.Rests punchAddr := by
    refine PunchPair.rests_of_returned ?_ ?_
    · exact (PunchSide.forall_iff .announcer).mpr ⟨rfl, rfl⟩
    · exact (PunchSide.forall_iff .announcer).mpr ⟨rfl, rfl⟩
  obtain ⟨hlength, hends⟩ := hole_punches_meet punchAddr PunchPair.fresh
    PunchPair.starts_fresh
  exact ⟨⟨hrun, hlength punchRun punchedThrough hrun⟩,
    hends punchedThrough (Machine.leads_restrict_of_runFrom hrun hmeets) hrests⟩

end P2pShare

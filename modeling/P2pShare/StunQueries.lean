import P2pShare.StunResponse
import P2pShare.TransitionMachine

/-!
# STUN queries

`external_addr` of `nat/stun.rs` on a socket behind a NAT whose mapping may
change.  The servers answer honestly, but what they send may be read late, twice
or never, and datagrams of others may come between.
-/

namespace P2pShare

open ByteStream TransitionMachine

/-! ## The call -/

/-- The length of `STUN_SERVERS`. -/
def stunServers : ℕ := 4

def stunAttempts : ℕ := 2

def stunBuffer : ℕ := 512

/-- `left` counts the servers still to be queried. -/
inductive QueryStage where
  | sending (left : ℕ) (pending : List (TxnId × SocketAddr))
  | receiving (pending : List (TxnId × SocketAddr))
  | returned (result : Option SocketAddr)
  | panicked

/-- The loop over the pending requests for a datagram. -/
def firstAnswer (buf : Bytes) (peer : SocketAddr) :
    List (TxnId × SocketAddr) → Except Panicked (Option SocketAddr)
  | [] => .ok none
  | (txnId, server) :: rest =>
      if peer = server then
        match parseResponse buf txnId with
        | .ok none => firstAnswer buf peer rest
        | result => result
      else firstAnswer buf peer rest

/-- A request on its way, with the address that the NAT has given it. -/
structure StunRequest where
  attempt : ℕ
  txnId : TxnId
  server : SocketAddr
  mapped : SocketAddr

structure StunAnswer where
  request : StunRequest
  bytes : Bytes

/-- A datagram and the attempt that has read it. -/
structure StunRead where
  attempt : ℕ
  bytes : Bytes
  peer : SocketAddr

structure StunRun where
  attempt : ℕ
  stage : QueryStage
  mapping : SocketAddr → SocketAddr
  requests : List StunRequest
  answers : List StunAnswer
  reads : List StunRead

inductive StunEvent where
  | skips
  | sends (txnId : TxnId) (server : SocketAddr)
  | remaps (mapping : SocketAddr → SocketAddr)
  | answers (number : ℕ) (attributes : List Attribute)
  | hears (number : ℕ)
  | stray (bytes : Bytes) (peer : SocketAddr)
  | ends

namespace StunRun

/-- `query_all` has returned `None`. -/
def noAnswer (s : StunRun) : StunRun :=
  if s.attempt + 1 < stunAttempts then
    { s with
      attempt := s.attempt + 1
      stage := .sending stunServers [] }
  else { s with stage := .returned none }

/-- The loop over the servers goes on. -/
def sent (s : StunRun) (left : ℕ) (pending : List (TxnId × SocketAddr)) :
    StunRun :=
  if left = 0 then
    if pending = [] then s.noAnswer else { s with stage := .receiving pending }
  else { s with stage := .sending left pending }

def receive (s : StunRun) (pending : List (TxnId × SocketAddr))
    (bytes : Bytes) (peer : SocketAddr) : StunRun :=
  { s with
    reads := ⟨s.attempt, bytes, peer⟩ :: s.reads
    stage :=
      match firstAnswer (bytes.take stunBuffer) peer pending with
      | .ok none => .receiving pending
      | .ok (some addr) => .returned (some addr)
      | .error _ => .panicked }

/-- An answer fits the buffer and names the address under which its server has
seen the request, before any other address. -/
def next (s : StunRun) : StunEvent → Option StunRun
  | .skips =>
      match s.stage with
      | .sending (left + 1) pending => some (s.sent left pending)
      | _ => none
  | .sends txnId server =>
      match s.stage with
      | .sending (left + 1) pending =>
          some (sent
            { s with
              requests :=
                ⟨s.attempt, txnId, server, s.mapping server⟩ :: s.requests }
            left (pending ++ [(txnId, server)]))
      | _ => none
  | .remaps mapping => some { s with mapping }
  | .answers number attributes =>
      s.requests[number]?.bind fun request =>
        if hlength : (attributes.flatMap Attribute.bytes).length < 65536 then
          let response : SuccessResponse request.txnId := ⟨attributes, hlength⟩
          if (attributes.findSome? fun attr => addressOf attr.type attr.value) =
                some request.mapped ∧
              response.bytes.length ≤ stunBuffer then
            some { s with answers := ⟨request, response.bytes⟩ :: s.answers }
          else none
        else none
  | .hears number =>
      match s.stage with
      | .receiving pending =>
          s.answers[number]?.map fun answer =>
            s.receive pending answer.bytes answer.request.server
      | _ => none
  | .stray bytes peer =>
      match s.stage with
      | .receiving pending =>
          if s.requests.all fun request => decide (request.server ≠ peer) then
            some (s.receive pending bytes peer)
          else none
      | _ => none
  | .ends =>
      match s.stage with
      | .receiving _ => some s.noAnswer
      | _ => none

structure Starts (s : StunRun) : Prop where
  attempt : s.attempt = 0
  stage : s.stage = .sending stunServers []
  requests : s.requests = []
  answers : s.answers = []
  reads : s.reads = []

def machine : Machine StunRun StunEvent where
  start := Starts
  next := next

/-- The random transaction ids do not repeat. -/
def FreshIds (s : StunRun) : StunEvent → Prop
  | .sends txnId _ => ∀ request ∈ s.requests, request.txnId ≠ txnId
  | _ => True

/-- An answer has been read by the attempt that asked for it. -/
def Heard (s : StunRun) (answer : StunAnswer) : Prop :=
  answer ∈ s.answers ∧
    ⟨answer.request.attempt, answer.bytes, answer.request.server⟩ ∈ s.reads

/-! ## The books of a call -/

def result? (s : StunRun) : Option SocketAddr :=
  match s.stage with
  | .returned result => result
  | _ => none

/-- The pending requests are those of this attempt. -/
def Pending (s : StunRun) (pending : List (TxnId × SocketAddr)) : Prop :=
  ∀ txnId server, (txnId, server) ∈ pending ↔
    ∃ request ∈ s.requests, request.attempt = s.attempt ∧
      request.txnId = txnId ∧ request.server = server

def StageBooked (s : StunRun) : Prop :=
  match s.stage with
  | .sending left pending =>
      s.Pending pending ∧
        s.requests.length + left ≤ stunServers * (s.attempt + 1) ∧
        ∀ read ∈ s.reads, read.attempt < s.attempt
  | .receiving pending => s.Pending pending
  | .returned _ => True
  | .panicked => False

structure Booked (s : StunRun) : Prop where
  attempt_lt : s.attempt < stunAttempts
  count : s.requests.length ≤ stunServers * (s.attempt + 1)
  earlier : ∀ request ∈ s.requests, request.attempt ≤ s.attempt
  readEarlier : ∀ read ∈ s.reads, read.attempt ≤ s.attempt
  unique : ∀ request ∈ s.requests, ∀ other ∈ s.requests,
    request.txnId = other.txnId → request = other
  asked : ∀ answer ∈ s.answers, answer.request ∈ s.requests
  honest : ∀ answer ∈ s.answers,
    parseResponse (answer.bytes.take stunBuffer) answer.request.txnId =
      .ok (some answer.request.mapped)
  known : ∀ read ∈ s.reads,
    (∃ answer ∈ s.answers, answer.bytes = read.bytes ∧
      answer.request.server = read.peer) ∨
    ∀ request ∈ s.requests, request.attempt = read.attempt →
      request.server ≠ read.peer
  outcome : ∀ addr, s.result? = some addr ↔
    ∃ answer, s.Heard answer ∧ answer.request.mapped = addr

structure Sound (s : StunRun) : Prop extends s.Booked where
  stage : s.StageBooked

end StunRun

/-! ## One datagram -/

theorem slice_of_parseResponse {buf : Bytes} {txnId : TxnId} {addr : SocketAddr}
    (hparse : parseResponse buf txnId = .ok (some addr)) :
    slice buf 8 20 = .ok txnId.val := by
  unfold parseResponse at hparse
  simp only [bind, Except.bind, pure, Except.pure] at hparse
  split at hparse
  · cases hparse
  · split at hparse
    · cases hparse
    · split at hparse
      · cases hparse
      · split at hparse
        · cases hparse
        · next received hslice =>
            split at hparse
            · cases hparse
            · next hsame =>
                rw [hslice, not_not.mp hsame]

/-- A response answers one transaction. -/
theorem txnId_of_parseResponse {buf : Bytes} {txnId other : TxnId}
    {addr otherAddr : SocketAddr}
    (hparse : parseResponse buf txnId = .ok (some addr))
    (hother : parseResponse buf other = .ok (some otherAddr)) :
    txnId = other := by
  have hslice := slice_of_parseResponse hparse
  rw [slice_of_parseResponse hother] at hslice
  exact Subtype.ext (Except.ok.inj hslice).symm

theorem firstAnswer_cases (buf : Bytes) (peer : SocketAddr)
    (pending : List (TxnId × SocketAddr)) :
    (∃ addr txnId, firstAnswer buf peer pending = .ok (some addr) ∧
      (txnId, peer) ∈ pending ∧ parseResponse buf txnId = .ok (some addr)) ∨
    firstAnswer buf peer pending = .ok none ∧
      ∀ txnId, (txnId, peer) ∈ pending → parseResponse buf txnId = .ok none := by
  induction pending with
  | nil => exact Or.inr ⟨rfl, fun _ hmem => nomatch hmem⟩
  | cons entry rest ih =>
      obtain ⟨txnId, server⟩ := entry
      obtain ⟨found, hfound⟩ := parseResponse_total buf txnId
      unfold firstAnswer
      by_cases hpeer : peer = server
      · rw [if_pos hpeer, hfound]
        cases found with
        | some addr =>
            refine Or.inl ⟨addr, txnId, rfl, ?_, hfound⟩
            rw [hpeer]
            exact List.mem_cons_self
        | none =>
            rcases ih with ⟨addr, other, hfirst, hmem, hparse⟩ | ⟨hfirst, hnone⟩
            · exact Or.inl ⟨addr, other, hfirst, List.mem_cons_of_mem _ hmem,
                hparse⟩
            · refine Or.inr ⟨hfirst, ?_⟩
              intro other hmem
              rcases List.mem_cons.mp hmem with hhead | htail
              · rw [(Prod.mk.inj hhead).1]
                exact hfound
              · exact hnone other htail
      · rw [if_neg hpeer]
        rcases ih with ⟨addr, other, hfirst, hmem, hparse⟩ | ⟨hfirst, hnone⟩
        · exact Or.inl ⟨addr, other, hfirst, List.mem_cons_of_mem _ hmem, hparse⟩
        · refine Or.inr ⟨hfirst, ?_⟩
          intro other hmem
          rcases List.mem_cons.mp hmem with hhead | htail
          · exact absurd (Prod.mk.inj hhead).2 hpeer
          · exact hnone other htail

namespace StunRun

variable {s t : StunRun}

theorem Sound.sending {left : ℕ} {pending : List (TxnId × SocketAddr)}
    (hsound : s.Sound) (hstage : s.stage = .sending left pending) :
    s.Pending pending ∧
      s.requests.length + left ≤ stunServers * (s.attempt + 1) ∧
      ∀ read ∈ s.reads, read.attempt < s.attempt := by
  have hstaged := hsound.stage
  unfold StageBooked at hstaged
  rw [hstage] at hstaged
  exact hstaged

theorem Sound.receiving {pending : List (TxnId × SocketAddr)}
    (hsound : s.Sound) (hstage : s.stage = .receiving pending) :
    s.Pending pending := by
  have hstaged := hsound.stage
  unfold StageBooked at hstaged
  rw [hstage] at hstaged
  exact hstaged

theorem result_of_sending {left : ℕ} {pending : List (TxnId × SocketAddr)}
    (hstage : s.stage = .sending left pending) : s.result? = none := by
  unfold result?
  rw [hstage]

theorem result_of_receiving {pending : List (TxnId × SocketAddr)}
    (hstage : s.stage = .receiving pending) : s.result? = none := by
  unfold result?
  rw [hstage]

theorem Booked.same_request (hbooked : s.Booked) {answer other : StunAnswer}
    (hanswer : answer ∈ s.answers) (hother : other ∈ s.answers)
    (hbytes : answer.bytes = other.bytes) : answer.request = other.request := by
  have hhonest := hbooked.honest answer hanswer
  rw [hbytes] at hhonest
  exact hbooked.unique _ (hbooked.asked answer hanswer) _
    (hbooked.asked other hother)
    (txnId_of_parseResponse hhonest (hbooked.honest other hother))

/-- A call that has not returned an address has read no answer in time. -/
theorem Booked.not_heard (hbooked : s.Booked) (hopen : s.result? = none)
    (answer : StunAnswer) : ¬ s.Heard answer := by
  intro hheard
  have hresult := (hbooked.outcome _).mpr ⟨answer, hheard, rfl⟩
  rw [hopen] at hresult
  cases hresult

/-- A new stage without a result. -/
theorem Booked.restage (hbooked : s.Booked) {stage : QueryStage}
    (hopen : s.result? = none)
    (hresult : StunRun.result? { s with stage } = none) :
    StunRun.Booked { s with stage } where
  attempt_lt := hbooked.attempt_lt
  count := hbooked.count
  earlier := hbooked.earlier
  readEarlier := hbooked.readEarlier
  unique := hbooked.unique
  asked := hbooked.asked
  honest := hbooked.honest
  known := hbooked.known
  outcome := by
    rw [hresult, ← hopen]
    exact hbooked.outcome

/-! ## Attempts -/

theorem Booked.noAnswer (hbooked : s.Booked) (hopen : s.result? = none) :
    s.noAnswer.Sound := by
  unfold StunRun.noAnswer
  split
  · next hattempt =>
      have hcount := hbooked.count
      refine ⟨?booked, ?stage⟩
      case booked =>
          exact {
            attempt_lt := hattempt
            count := Nat.le_trans hcount
              (Nat.mul_le_mul_left _ (Nat.le_succ _))
            earlier := fun request hmem =>
              Nat.le_succ_of_le (hbooked.earlier request hmem)
            readEarlier := fun read hmem =>
              Nat.le_succ_of_le (hbooked.readEarlier read hmem)
            unique := hbooked.unique
            asked := hbooked.asked
            honest := hbooked.honest
            known := hbooked.known
            outcome := fun addr => by
              have houtcome := hbooked.outcome addr
              rw [hopen] at houtcome
              exact houtcome }
      case stage =>
          refine ⟨?_, ?_, ?_⟩
          · intro txnId server
            refine iff_of_false (fun hmem => nomatch hmem) ?_
            rintro ⟨request, hmem, hsame, -⟩
            have hle := hbooked.earlier request hmem
            dsimp only at hsame
            omega
          · dsimp only
            unfold stunServers at hcount ⊢
            omega
          · intro read hmem
            exact Nat.lt_succ_of_le (hbooked.readEarlier read hmem)
  · exact ⟨hbooked.restage hopen rfl, True.intro⟩

theorem Booked.sent (hbooked : s.Booked) (hopen : s.result? = none)
    {left : ℕ} {pending : List (TxnId × SocketAddr)}
    (hpending : s.Pending pending)
    (hcount : s.requests.length + left ≤ stunServers * (s.attempt + 1))
    (hreads : ∀ read ∈ s.reads, read.attempt < s.attempt) :
    (s.sent left pending).Sound := by
  unfold StunRun.sent
  split
  · split
    · exact hbooked.noAnswer hopen
    · exact ⟨hbooked.restage hopen rfl, hpending⟩
  · exact ⟨hbooked.restage hopen rfl, hpending, hcount, hreads⟩

theorem sound_sends {txnId : TxnId} {server : SocketAddr}
    (hsound : s.Sound) (hfresh : ∀ request ∈ s.requests, request.txnId ≠ txnId)
    (hnext : s.next (.sends txnId server) = some t) : t.Sound := by
  dsimp only [next] at hnext
  split at hnext
  · next left pending hstage =>
      obtain rfl := Option.some.inj hnext
      obtain ⟨hpending, hcount, hreads⟩ := hsound.sending hstage
      have hopen := result_of_sending hstage
      have hbooked : Booked
          { s with
            requests :=
              ⟨s.attempt, txnId, server, s.mapping server⟩ :: s.requests } := {
        attempt_lt := hsound.attempt_lt
        count := by
          rw [List.length_cons]
          dsimp only
          omega
        earlier := by
          intro request hmem
          rcases List.mem_cons.mp hmem with rfl | hold
          · exact Nat.le_refl _
          · exact hsound.earlier request hold
        readEarlier := hsound.readEarlier
        unique := by
          intro request hmem other hother hsame
          rcases List.mem_cons.mp hmem with rfl | hold
          · rcases List.mem_cons.mp hother with rfl | hotherOld
            · rfl
            · exact absurd hsame.symm (hfresh other hotherOld)
          · rcases List.mem_cons.mp hother with rfl | hotherOld
            · exact absurd hsame (hfresh request hold)
            · exact hsound.unique request hold other hotherOld hsame
        asked := fun answer hmem =>
          List.mem_cons_of_mem _ (hsound.asked answer hmem)
        honest := hsound.honest
        known := by
          intro read hmem
          rcases hsound.known read hmem with hanswer | hstray
          · exact Or.inl hanswer
          · right
            intro request hrequest hattempt
            rcases List.mem_cons.mp hrequest with rfl | hold
            · exact absurd hattempt
                (Nat.ne_of_gt (hreads read hmem))
            · exact hstray request hold hattempt
        outcome := hsound.outcome }
      refine hbooked.sent hopen ?pending ?count hreads
      case pending =>
          intro id peer
          rw [List.mem_append, List.mem_singleton, hpending id peer]
          constructor
          · rintro (⟨request, hmem, hfacts⟩ | hlast)
            · exact ⟨request, List.mem_cons_of_mem _ hmem, hfacts⟩
            · obtain ⟨rfl, rfl⟩ := Prod.mk.inj hlast
              exact ⟨_, List.mem_cons_self, rfl, rfl, rfl⟩
          · rintro ⟨request, hmem, hattempt, hid, hpeer⟩
            rcases List.mem_cons.mp hmem with rfl | hold
            · right
              rw [← hid, ← hpeer]
            · exact Or.inl ⟨request, hold, hattempt, hid, hpeer⟩
      case count =>
          rw [List.length_cons]
          dsimp only
          omega
  · cases hnext

theorem sound_skips (hsound : s.Sound) (hnext : s.next .skips = some t) :
    t.Sound := by
  dsimp only [next] at hnext
  split at hnext
  · next left pending hstage =>
      obtain rfl := Option.some.inj hnext
      obtain ⟨hpending, hcount, hreads⟩ := hsound.sending hstage
      have hopen := result_of_sending hstage
      exact hsound.toBooked.sent hopen hpending
        (Nat.le_trans (Nat.add_le_add_left (Nat.le_succ left) _) hcount) hreads
  · cases hnext

theorem sound_ends (hsound : s.Sound) (hnext : s.next .ends = some t) :
    t.Sound := by
  dsimp only [next] at hnext
  split at hnext
  · next pending hstage =>
      obtain rfl := Option.some.inj hnext
      exact hsound.toBooked.noAnswer (result_of_receiving hstage)
  · cases hnext

/-! ## Answers -/

/-- Bytes that answer a request are read only where the server has sent them as
its answer before. -/
theorem Booked.heard_of_read (hbooked : s.Booked) {request : StunRequest}
    {bytes : Bytes} (hrequest : request ∈ s.requests)
    (hhonest : parseResponse (bytes.take stunBuffer) request.txnId =
      .ok (some request.mapped))
    (hread : ⟨request.attempt, bytes, request.server⟩ ∈ s.reads) :
    ∃ answer, s.Heard answer ∧ answer.request = request := by
  rcases hbooked.known _ hread with ⟨first, hfirst, hbytes, -⟩ | hstray
  · have hfirstHonest := hbooked.honest first hfirst
    rw [hbytes] at hfirstHonest
    have hsame : first.request = request :=
      hbooked.unique _ (hbooked.asked first hfirst) _ hrequest
        (txnId_of_parseResponse hfirstHonest hhonest)
    refine ⟨first, ⟨hfirst, ?_⟩, hsame⟩
    rw [hsame, hbytes]
    exact hread
  · exact absurd rfl (hstray request hrequest rfl)

theorem sound_answers {number : ℕ} {attributes : List Attribute}
    (hsound : s.Sound)
    (hnext : s.next (.answers number attributes) = some t) : t.Sound := by
  dsimp only [next] at hnext
  obtain ⟨request, hrequest?, hanswers⟩ := Option.bind_eq_some_iff.mp hnext
  have hrequest : request ∈ s.requests := List.mem_of_getElem? hrequest?
  split at hanswers
  · next hlength =>
      split at hanswers
      · next hguard =>
          obtain rfl := Option.some.inj hanswers
          obtain ⟨hmapped, hshort⟩ := hguard
          have hhonest : parseResponse
              ((⟨attributes, hlength⟩ :
                SuccessResponse request.txnId).bytes.take stunBuffer)
              request.txnId = .ok (some request.mapped) := by
            rw [List.take_of_length_le hshort, parseResponse_bytes, hmapped]
          refine ⟨?booked, hsound.stage⟩
          case booked =>
              exact {
                attempt_lt := hsound.attempt_lt
                count := hsound.count
                earlier := hsound.earlier
                readEarlier := hsound.readEarlier
                unique := hsound.unique
                asked := by
                  intro answer hmem
                  rcases List.mem_cons.mp hmem with rfl | hold
                  · exact hrequest
                  · exact hsound.asked answer hold
                honest := by
                  intro answer hmem
                  rcases List.mem_cons.mp hmem with rfl | hold
                  · exact hhonest
                  · exact hsound.honest answer hold
                known := by
                  intro read hmem
                  rcases hsound.known read hmem with
                    ⟨answer, hanswer, hfacts⟩ | hstray
                  · exact Or.inl ⟨answer, List.mem_cons_of_mem _ hanswer, hfacts⟩
                  · exact Or.inr hstray
                outcome := by
                  intro addr
                  refine (hsound.outcome addr).trans ?_
                  constructor
                  · rintro ⟨answer, ⟨hanswer, hread⟩, haddr⟩
                    exact ⟨answer, ⟨List.mem_cons_of_mem _ hanswer, hread⟩, haddr⟩
                  · rintro ⟨answer, ⟨hanswer, hread⟩, haddr⟩
                    rcases List.mem_cons.mp hanswer with rfl | hold
                    · obtain ⟨first, hheard, hsame⟩ :=
                        hsound.heard_of_read hrequest hhonest hread
                      exact ⟨first, hheard, hsame ▸ haddr⟩
                    · exact ⟨answer, ⟨hold, hread⟩, haddr⟩ }
      · cases hanswers
  · cases hanswers

/-! ## Reading -/

section Reading

variable {pending : List (TxnId × SocketAddr)} {bytes : Bytes}
  {peer : SocketAddr}

theorem heard_receive {answer : StunAnswer} :
    (s.receive pending bytes peer).Heard answer ↔
      s.Heard answer ∨
        answer ∈ s.answers ∧ answer.request.attempt = s.attempt ∧
          answer.bytes = bytes ∧ answer.request.server = peer := by
  unfold Heard receive
  dsimp only
  rw [List.mem_cons, StunRead.mk.injEq]
  tauto

/-- A datagram that is read comes from a server that has sent it, or from
somewhere else. -/
def Source (s : StunRun) (bytes : Bytes) (peer : SocketAddr) : Prop :=
  (∃ answer ∈ s.answers, answer.bytes = bytes ∧
    answer.request.server = peer) ∨
  ∀ request ∈ s.requests, request.server ≠ peer

theorem Booked.receive (hbooked : s.Booked) (hsource : s.Source bytes peer)
    (houtcome : ∀ addr, (s.receive pending bytes peer).result? = some addr ↔
      ∃ answer, (s.receive pending bytes peer).Heard answer ∧
        answer.request.mapped = addr) :
    (s.receive pending bytes peer).Booked where
  attempt_lt := hbooked.attempt_lt
  count := hbooked.count
  earlier := hbooked.earlier
  readEarlier := by
    intro read hmem
    rcases List.mem_cons.mp hmem with rfl | hold
    · exact Nat.le_refl _
    · exact hbooked.readEarlier read hold
  unique := hbooked.unique
  asked := hbooked.asked
  honest := hbooked.honest
  known := by
    intro read hmem
    rcases List.mem_cons.mp hmem with rfl | hold
    · exact hsource.imp_right fun hstray request hrequest _ =>
        hstray request hrequest
    · exact hbooked.known read hold
  outcome := houtcome

/-- What a pending request takes as its answer is the answer to it. -/
theorem answered (hsound : s.Sound) (hpending : s.Pending pending)
    (hsource : s.Source bytes peer) {txnId : TxnId} {addr : SocketAddr}
    (hmem : (txnId, peer) ∈ pending)
    (hparse : parseResponse (bytes.take stunBuffer) txnId =
      .ok (some addr)) :
    ∃ answer ∈ s.answers, answer.request.attempt = s.attempt ∧
      answer.bytes = bytes ∧ answer.request.server = peer ∧
      answer.request.mapped = addr := by
  obtain ⟨request, hrequest, hattempt, htxnId, hserver⟩ :=
    (hpending txnId peer).mp hmem
  rcases hsource with ⟨answer, hanswer, hbytes, hpeer⟩ | hstray
  · have hhonest := hsound.honest answer hanswer
    rw [hbytes] at hhonest
    have hsameId := txnId_of_parseResponse hparse hhonest
    have hsame : answer.request = request :=
      hsound.unique _ (hsound.asked answer hanswer) _ hrequest
        (hsameId.symm.trans htxnId.symm)
    refine ⟨answer, hanswer, ?_, hbytes, hpeer, ?_⟩
    · rw [hsame]
      exact hattempt
    · rw [← hsameId, hparse] at hhonest
      exact (Option.some.inj (Except.ok.inj hhonest)).symm
  · exact absurd hserver (hstray request hrequest)

/-- A datagram that no pending request takes is no answer in time. -/
theorem not_heard_receive (hsound : s.Sound) (hpending : s.Pending pending)
    (hopen : s.result? = none)
    (hnone : ∀ txnId, (txnId, peer) ∈ pending →
      parseResponse (bytes.take stunBuffer) txnId = .ok none)
    (answer : StunAnswer) : ¬ (s.receive pending bytes peer).Heard answer := by
  intro hheard
  rcases heard_receive.mp hheard with
    hold | ⟨hanswer, hattempt, hbytes, hserver⟩
  · exact hsound.not_heard hopen answer hold
  · have hmem := (hpending answer.request.txnId peer).mpr
      ⟨answer.request, hsound.asked answer hanswer, hattempt, rfl, hserver⟩
    have hhonest := hsound.honest answer hanswer
    rw [hbytes, hnone _ hmem] at hhonest
    cases hhonest

theorem sound_receive (hsound : s.Sound)
    (hstage : s.stage = .receiving pending)
    (hsource : s.Source bytes peer) :
    (s.receive pending bytes peer).Sound := by
  have hpending := hsound.receiving hstage
  have hopen := result_of_receiving hstage
  rcases firstAnswer_cases (bytes.take stunBuffer) peer pending with
    ⟨addr, txnId, hfirst, hmem, hparse⟩ | ⟨hfirst, hnone⟩
  · have hreturned : (s.receive pending bytes peer).stage =
        .returned (some addr) := by
      unfold StunRun.receive
      rw [hfirst]
    obtain ⟨answer, hanswer, hattempt, hbytes, hpeer, haddr⟩ :=
      answered hsound hpending hsource hmem hparse
    refine ⟨hsound.toBooked.receive hsource ?outcome, ?stage⟩
    case outcome =>
        intro other
        unfold result?
        rw [hreturned]
        constructor
        · intro hother
          have hheard : (s.receive pending bytes peer).Heard answer :=
            heard_receive.mpr (Or.inr ⟨hanswer, hattempt, hbytes, hpeer⟩)
          exact ⟨answer, hheard, haddr.trans (Option.some.inj hother)⟩
        · rintro ⟨second, hheard, hmapped⟩
          rcases heard_receive.mp hheard with
            hold | ⟨hsecond, -, hsecondBytes, -⟩
          · exact absurd hold (hsound.not_heard hopen second)
          · rw [hsound.same_request hsecond hanswer
              (hsecondBytes.trans hbytes.symm), haddr] at hmapped
            rw [hmapped]
    case stage =>
        unfold StageBooked
        rw [hreturned]
        exact True.intro
  · have hwaits : (s.receive pending bytes peer).stage =
        .receiving pending := by
      unfold StunRun.receive
      rw [hfirst]
    refine ⟨hsound.toBooked.receive hsource ?outcome, ?stage⟩
    case outcome =>
        intro addr
        rw [result_of_receiving hwaits]
        refine iff_of_false (fun hresult => nomatch hresult) ?_
        rintro ⟨answer, hheard, -⟩
        exact not_heard_receive hsound hpending hopen hnone answer hheard
    case stage =>
        unfold StageBooked
        rw [hwaits]
        exact hpending

theorem sound_hears {number : ℕ} (hsound : s.Sound)
    (hnext : s.next (.hears number) = some t) : t.Sound := by
  dsimp only [next] at hnext
  split at hnext
  · next pending hstage =>
      obtain ⟨answer, hanswer?, rfl⟩ := Option.map_eq_some_iff.mp hnext
      have hanswer : answer ∈ s.answers := List.mem_of_getElem? hanswer?
      exact sound_receive hsound hstage (Or.inl ⟨answer, hanswer, rfl, rfl⟩)
  · cases hnext

theorem sound_stray (hsound : s.Sound)
    (hnext : s.next (.stray bytes peer) = some t) : t.Sound := by
  dsimp only [next] at hnext
  split at hnext
  · next pending hstage =>
      split at hnext
      · next hstray =>
          obtain rfl := Option.some.inj hnext
          refine sound_receive hsound hstage (Or.inr fun request hmem => ?_)
          exact of_decide_eq_true (List.all_eq_true.mp hstray request hmem)
      · cases hnext
  · cases hnext

end Reading

/-! ## Runs -/

theorem sound_of_starts (hs : s.Starts) : s.Sound where
  attempt_lt := by
    rw [hs.attempt]
    exact Nat.succ_pos 1
  count := by
    rw [hs.requests]
    exact Nat.zero_le _
  earlier := by
    rw [hs.requests]
    exact fun _ hmem => nomatch hmem
  readEarlier := by
    rw [hs.reads]
    exact fun _ hmem => nomatch hmem
  unique := by
    rw [hs.requests]
    exact fun _ hmem => nomatch hmem
  asked := by
    rw [hs.answers]
    exact fun _ hmem => nomatch hmem
  honest := by
    rw [hs.answers]
    exact fun _ hmem => nomatch hmem
  known := by
    rw [hs.reads]
    exact fun _ hmem => nomatch hmem
  outcome := by
    intro addr
    unfold result? Heard
    rw [hs.stage, hs.answers]
    refine iff_of_false (fun hresult => nomatch hresult) ?_
    rintro ⟨answer, ⟨hmem, -⟩, -⟩
    cases hmem
  stage := by
    unfold StageBooked Pending
    rw [hs.stage, hs.requests, hs.reads, hs.attempt]
    refine ⟨?_, Nat.le_refl _, fun _ hmem => nomatch hmem⟩
    intro txnId server
    refine iff_of_false (fun hmem => nomatch hmem) ?_
    rintro ⟨request, hmem, -⟩
    cases hmem

theorem sound_next {event : StunEvent} (hsound : s.Sound)
    (hnext : (machine.restrict FreshIds).next s event = some t) : t.Sound := by
  obtain ⟨hnext, hfresh⟩ := Machine.restrict_next_eq_some.mp hnext
  cases event with
  | skips => exact sound_skips hsound hnext
  | sends txnId server => exact sound_sends hsound hfresh hnext
  | remaps mapping =>
      obtain rfl := Option.some.inj hnext
      exact {
        attempt_lt := hsound.attempt_lt
        count := hsound.count
        earlier := hsound.earlier
        readEarlier := hsound.readEarlier
        unique := hsound.unique
        asked := hsound.asked
        honest := hsound.honest
        known := hsound.known
        outcome := hsound.outcome
        stage := hsound.stage }
  | answers number attributes => exact sound_answers hsound hnext
  | hears number => exact sound_hears hsound hnext
  | stray bytes peer => exact sound_stray hsound hnext
  | ends => exact sound_ends hsound hnext

theorem sound_of_reachable (hs : (machine.restrict FreshIds).Reachable s) :
    s.Sound :=
  hs.invariant (fun _ hstart => sound_of_starts hstart)
    fun _ _ _ hsound hnext => sound_next hsound hnext

end StunRun

/-! ## Main result -/

/-- The call never panics and sends at most eight requests.  It has returned an
address exactly if an answer has been read by the attempt that asked for it, and
then it is the address that the NAT gave that request. -/
theorem external_addr_current (s : StunRun)
    (hs : (StunRun.machine.restrict StunRun.FreshIds).Reachable s) :
    s.stage ≠ .panicked ∧
      s.requests.length ≤ 8 ∧
      ∀ addr, s.stage = .returned (some addr) ↔
        ∃ answer, s.Heard answer ∧ answer.request.mapped = addr := by
  have hsound := StunRun.sound_of_reachable hs
  refine ⟨?_, ?_, ?_⟩
  · intro hpanicked
    have hstage := hsound.stage
    unfold StunRun.StageBooked at hstage
    rw [hpanicked] at hstage
    exact hstage
  · have hcount := hsound.count
    have hattempt := hsound.attempt_lt
    unfold stunServers at hcount
    unfold stunAttempts at hattempt
    omega
  · intro addr
    refine Iff.trans ?_ (hsound.outcome addr)
    unfold StunRun.result?
    cases s.stage with
    | sending left pending =>
        exact iff_of_false (fun h => nomatch h) (fun h => nomatch h)
    | receiving pending =>
        exact iff_of_false (fun h => nomatch h) (fun h => nomatch h)
    | returned result =>
        constructor
        · intro hstage
          exact QueryStage.returned.inj hstage
        · intro hresult
          exact congrArg QueryStage.returned hresult
    | panicked => exact iff_of_false (fun h => nomatch h) (fun h => nomatch h)

/-! ### An instance

The mapping changes between the attempts, and the answer to the first one comes
in the second. -/

namespace StunRun

def fresh : StunRun where
  attempt := 0
  stage := .sending stunServers []
  mapping := fun _ => ⟨.v4 10 0 0 1, 80⟩
  requests := []
  answers := []
  reads := []

theorem starts_fresh : fresh.Starts where
  attempt := rfl
  stage := rfl
  requests := rfl
  answers := rfl
  reads := rfl

def laterTxnId : TxnId := ⟨List.replicate 12 8, rfl⟩

def stunServer : SocketAddr := ⟨.v4 192 0 2 3, 3478⟩

def newMapping : SocketAddr := ⟨.v4 203 0 113 7, 4242⟩

def lateAnswer : StunAnswer where
  request := ⟨0, sampleTxnId, stunServer, ⟨.v4 10 0 0 1, 80⟩⟩
  bytes := SuccessResponse.bytes
    (⟨[rewrittenAttribute], by decide⟩ : SuccessResponse sampleTxnId)

def goodAnswer : StunAnswer where
  request := ⟨1, laterTxnId, stunServer, newMapping⟩
  bytes := SuccessResponse.bytes
    (⟨[truthfulAttribute], by decide⟩ : SuccessResponse laterTxnId)

def askedTwice : List StunEvent :=
  [.sends sampleTxnId stunServer, .skips, .skips, .skips, .ends,
    .remaps (fun _ => newMapping), .sends laterTxnId stunServer, .skips, .skips,
    .skips, .answers 1 [rewrittenAttribute], .answers 0 [truthfulAttribute]]

def asked : StunRun where
  attempt := 1
  stage := .receiving [(laterTxnId, stunServer)]
  mapping := fun _ => newMapping
  requests := [goodAnswer.request, lateAnswer.request]
  answers := [goodAnswer, lateAnswer]
  reads := []

theorem asked_reached : machine.runFrom fresh askedTwice = some asked := rfl

/-- What the second attempt has read. -/
def lateRead : StunRead := ⟨1, lateAnswer.bytes, stunServer⟩

def goodRead : StunRead := ⟨1, goodAnswer.bytes, stunServer⟩

def found : StunRun :=
  { asked with
    stage := .returned (some newMapping)
    reads := [goodRead, lateRead] }

theorem late_skipped :
    asked.next (.hears 1) = some { asked with reads := [lateRead] } := rfl

theorem good_returned :
    StunRun.next { asked with reads := [lateRead] } (.hears 0) =
      some found := by
  have hshort : goodAnswer.bytes.length ≤ stunBuffer := by decide
  have hfirst : ([truthfulAttribute].findSome? fun attr =>
      addressOf attr.type attr.value) = some newMapping := by
    decide
  have hparse : parseResponse (goodAnswer.bytes.take stunBuffer) laterTxnId =
      .ok (some newMapping) := by
    rw [List.take_of_length_le hshort]
    exact (parseResponse_bytes _).trans (congrArg Except.ok hfirst)
  have hanswer : firstAnswer (goodAnswer.bytes.take stunBuffer) stunServer
      [(laterTxnId, stunServer)] = .ok (some newMapping) := by
    unfold firstAnswer
    rw [if_pos rfl, hparse]
  change some (receive _ [(laterTxnId, stunServer)] goodAnswer.bytes
    stunServer) = _
  unfold receive
  rw [hanswer]
  rfl

instance decidableFreshIds (s : StunRun) (event : StunEvent) :
    Decidable (s.FreshIds event) :=
  match event with
  | .sends txnId _ =>
      inferInstanceAs (Decidable (∀ request ∈ s.requests,
        request.txnId ≠ txnId))
  | .skips | .remaps _ | .answers _ _ | .hears _ | .stray _ _ | .ends =>
      isTrue True.intro

end StunRun

theorem external_addr_current_sample :
    ∃ s, StunRun.machine.runFrom StunRun.fresh
        (StunRun.askedTwice ++ [.hears 1, .hears 0]) = some s ∧
      s.requests.length ≤ 8 ∧
      ∃ answer, s.Heard answer ∧
        answer.request.mapped = StunRun.newMapping := by
  have hmeets : StunRun.machine.Meets StunRun.FreshIds StunRun.fresh
      StunRun.askedTwice := by
    decide +kernel
  have hasked := Machine.leads_restrict_of_runFrom StunRun.asked_reached hmeets
  have hlate : (StunRun.machine.restrict StunRun.FreshIds).next StunRun.asked
      (.hears 1) = some { StunRun.asked with reads := [StunRun.lateRead] } :=
    Machine.restrict_next_eq_some.mpr ⟨StunRun.late_skipped, True.intro⟩
  have hgood : (StunRun.machine.restrict StunRun.FreshIds).next
      { StunRun.asked with reads := [StunRun.lateRead] } (.hears 0) =
        some StunRun.found :=
    Machine.restrict_next_eq_some.mpr ⟨StunRun.good_returned, True.intro⟩
  have hrun : StunRun.machine.runFrom StunRun.asked [.hears 1, .hears 0] =
      some StunRun.found := by
    change (StunRun.asked.next (.hears 1)).bind (fun t =>
      (t.next (.hears 0)).bind some) = _
    rw [StunRun.late_skipped, Option.bind_some, StunRun.good_returned,
      Option.bind_some]
  obtain ⟨-, hcount, hreturned⟩ := external_addr_current StunRun.found
    ⟨StunRun.fresh, StunRun.starts_fresh,
      Machine.Leads.step _ (Machine.Leads.step _ hasked hlate) hgood⟩
  exact ⟨StunRun.found, Machine.runFrom_append StunRun.asked_reached hrun, hcount,
    (hreturned StunRun.newMapping).mp rfl⟩

end P2pShare

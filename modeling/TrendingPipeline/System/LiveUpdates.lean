/- Unit: TrendingPipeline/System/LiveUpdates
   source: frontend/components/job-detail.tsx, frontend/lib/api.ts, backend/api/server.go
   digest: JobDetail and the stream it opens and reopens, beside the process that runs the job. -/

import TrendingPipeline.Base.Resubscribing
import TrendingPipeline.Frontend.JobDetail
import TrendingPipeline.System.Watching

set_option autoImplicit false
set_option relaxedAutoImplicit false

namespace TrendingPipeline.System.LiveUpdates

open TrendingPipeline.Base.Calendar (Time)
open TrendingPipeline.Base.Resubscribing (Feed Orderly Steps orderly_start)
open TrendingPipeline.Base.Runs
open TrendingPipeline.Proto.Messages (JobState JobStatus JobUpdate)
open TrendingPipeline.Store.Tables (JobRow)
open TrendingPipeline.Store.Statements (getJobByID)
open TrendingPipeline.Etl.WatchJob (Before Event Point Watch afterUpdate scanJobStatus stateOf
  steps_or_fails updateOf)
open TrendingPipeline.Frontend.JobDetail
open TrendingPipeline.System.Step (Anything Cold cold_of_migrated)
open TrendingPipeline.System.ExactlyOnce (submitted submitted_reachable)
open TrendingPipeline.System.Watching (awaitsCalls pendingState pendingState_afterUpdate
  row_of_process)

/-- An EventSource: the WatchJob call behind it, how many of its messages the page has
had, and whether the process ended with the call. -/
structure Stream where
  watch : Watch
  received : ℕ := 0
  lost : Bool := false

/-- A getJobStatus on its way: whether it is the first load, and what it settles with
once that is decided. -/
structure Fetch where
  first : Bool
  answer : Option Loaded := none

/-- The process; the page of a job; `job?.state` when the effect last ran; the open
EventSource; and the loads on their way. -/
structure State where
  sys : Step.State
  jobId : String
  page : Page := {}
  deps : Option JobState := none
  stream : Option Stream := none
  fetches : List Fetch := []

inductive Act
  | process (a : Step.Act)
  /-- the call behind the stream takes its next step -/
  | watch (ev : Event)
  /-- the next message reaches the page -/
  | deliver
  /-- the response has ended; EventSource reports an error and sends its request again -/
  | reconnect
  /-- the effect runs, after a render in which `job?.state` is another one -/
  | effect
  /-- GetJobStatus reads the row for the `i`-th load -/
  | read (i : ℕ)
  | reject (i : ℕ) (message : Option String)
  | settle (i : ℕ)

/-- A fresh call, which the process takes on while it serves. -/
def State.request (s : State) : Stream where
  watch := { req := { jobId := s.jobId } }
  lost := s.sys.phase ≠ .up

def Stream.running (c : Stream) : Bool := !c.lost && !c.watch.hasReturned

/-- Everything that was sent has arrived, and nothing more will be sent. -/
def Stream.ended (c : Stream) : Bool :=
  c.lost || (c.watch.hasReturned && c.received = c.watch.sent.length)

def Stream.next (c : Stream) : Option JobUpdate := c.watch.sent[c.received]?

/-- The process takes a step, which may end the call. -/
def State.withSys (s : State) (sys : Step.State) : State :=
  { s with
    sys := sys
    stream := s.stream.map fun c => { c with lost := c.lost || sys.phase = .down } }

def State.withWatch (s : State) (c : Stream) (w : Watch) : State :=
  { s with stream := some { c with watch := w } }

/-- The handler of the event "update". -/
def State.onUpdate (s : State) (c : Stream) (update : JobUpdate) : State :=
  { s with
    page := s.page.onUpdate update
    stream := some { c with received := c.received + 1 }
    fetches :=
      if isTerminalState (number update.state) then s.fetches ++ [{ first := false }]
      else s.fetches }

/-- What the effect returned when it last ran: `stop()` and `setLiveConnected(false)`. -/
def State.cleanup (s : State) : State :=
  match s.stream with
  | some _ => { s with page := s.page.disconnected, stream := none }
  | none => s

def State.subscribe (s : State) : State :=
  match s.page.job with
  | some job =>
      if isTerminalState (number job.state) then s
      else { s with page := { s.page with liveConnected := true }, stream := some s.request }
  | none => s

/-- `.then` and `.catch` of a load. -/
def State.settled (s : State) (i : ℕ) (f : Fetch) (answer : Loaded) : State :=
  { s with
    page := if f.first then s.page.loaded answer else s.page.refetched answer
    fetches := s.fetches.eraseIdx i }

/-- The `i`-th load will settle with `answer`, unless that was decided before. -/
def State.answered (s : State) (i : ℕ) (answer : Loaded) : Option State :=
  match s.fetches[i]? with
  | some ⟨first, none⟩ => some { s with fetches := s.fetches.set i ⟨first, some answer⟩ }
  | _ => none

def step (s : State) : Act → Option State
  | .process a =>
      if awaitsCalls a && s.stream.any Stream.running then none
      else (Step.step s.sys a).map s.withSys
  | .watch ev =>
      s.stream.bind fun c =>
        if c.lost then none
        else (Etl.WatchJob.step s.sys.db c.watch ev).map (s.withWatch c)
  | .deliver => s.stream.bind fun c => c.next.map (s.onUpdate c)
  | .reconnect =>
      s.stream.bind fun c =>
        if c.ended then
          some { s with page := s.page.disconnected, stream := some s.request }
        else none
  | .effect =>
      let key := s.page.job.map (·.state)
      if key = s.deps then none else some { s.cleanup.subscribe with deps := key }
  | .read i =>
      if s.sys.phase = .down then none
      else (getJobByID s.sys.db s.jobId).bind fun row => s.answered i (.ok (scanJobStatus row))
  | .reject i message => s.answered i (.error message)
  | .settle i =>
      match s.fetches[i]? with
      | some ⟨first, some answer⟩ => some (s.settled i ⟨first, some answer⟩ answer)
      | _ => none

/-- The page is opened: the first load starts, and the effect finds no job. -/
def mounted (sys : Step.State) (jobId : String) : State where
  sys := sys
  jobId := jobId
  fetches := [{ first := true }]

def Opens (s : State) : Prop :=
  ∃ sys jobId r, Reachable Cold Step.step Anything sys ∧
    sys.db.jobs.byId jobId = some r ∧ s = mounted sys jobId

def Undisturbed (_ : State) : Act → Prop
  | .watch ev => ev.undisturbed = true
  | .reject _ _ => False
  | .process _ | .deliver | .reconnect | .effect | .read _ | .settle _ => True

instance (s : State) : ∀ a, Decidable (Undisturbed s a)
  | .watch _ => inferInstanceAs (Decidable (_ = true))
  | .reject _ _ => inferInstanceAs (Decidable False)
  | .process _ | .deliver | .reconnect | .effect | .read _ | .settle _ =>
      inferInstanceAs (Decidable True)

def OnceEach (s : State) : Prop := s.page.states.Nodup

/-- The message that arrives next, if it is the first one of its stream. -/
def Stream.first (c : Stream) : Option JobUpdate := if c.received = 0 then c.next else none

/-- The first message of a stream to arrive has another state than the newest update. -/
def MovedOn (s : State) : Act → Prop
  | .deliver => ∀ u ∈ s.stream.bind Stream.first, s.page.states.head? ≠ some u.state
  | .process _ | .watch _ | .reconnect | .effect | .read _ | .reject _ _ | .settle _ => True

instance (s : State) : Decidable (OnceEach s) := inferInstanceAs (Decidable (List.Nodup _))

instance (s : State) : ∀ a, Decidable (MovedOn s a)
  | .deliver => inferInstanceAs (Decidable (∀ u ∈ s.stream.bind Stream.first, _))
  | .process _ | .watch _ | .reconnect | .effect | .read _ | .reject _ _ | .settle _ =>
      inferInstanceAs (Decidable True)

def Stream.arriving (c : Stream) : List JobUpdate := c.watch.sent.drop c.received

/-- The feed of a stream, given the row of its job. -/
def Stream.feed (c : Stream) (s : State) (r : JobRow) : Feed JobState where
  current := stateOf r
  kept := s.page.states
  sent := c.arriving.map (·.state)
  pending := pendingState c.watch.point
  last := (c.watch.sent.map (·.state)).getLast?
  heard := 0 < c.received

def feed (s : State) (r : JobRow) : Feed JobState :=
  match s.stream with
  | none => { current := stateOf r, kept := s.page.states }
  | some c => c.feed s r

/-- A stream asks for the job, has delivered no more than was sent, and its call remembers
what it sent last. -/
structure Stream.Sound (jobId : String) (c : Stream) : Prop where
  jobId : c.watch.req.jobId = jobId
  received : c.received ≤ c.watch.sent.length
  lastState : c.watch.lastState = (c.watch.sent.map (·.state)).getLast?.getD .unspecified

structure Consistent (s : State) (r : JobRow) : Prop where
  sound : ∀ c ∈ s.stream, c.Sound s.jobId
  orderly : Orderly Before (feed s r)

/-- The process is where it can get to, and the page agrees with it. -/
def Tracked (s : State) : Prop :=
  Reachable Cold Step.step Anything s.sys ∧
    ∃ r, s.sys.db.jobs.byId s.jobId = some r ∧ Consistent s r

variable {s t : State} {r : JobRow} {c : Stream}

private theorem sound_request (s : State) : s.request.Sound s.jobId where
  jobId := rfl
  received := Nat.zero_le _
  lastState := rfl

private theorem feed_of_stream (h : s.stream = some c) (r : JobRow) : feed s r = c.feed s r := by
  rw [feed, h]

private theorem feed_pending (h : s.stream = some c) (r : JobRow) :
    (feed s r).pending = pendingState c.watch.point := by
  rw [feed_of_stream h]
  rfl

private theorem feed_last (h : s.stream = some c) (r : JobRow) :
    (feed s r).last = (c.watch.sent.map (·.state)).getLast? := by
  rw [feed_of_stream h]
  rfl

private theorem feed_heard (h : s.stream = some c) (r : JobRow) :
    (feed s r).heard = true ↔ c.received ≠ 0 := by
  rw [feed_of_stream h, Stream.feed, decide_eq_true_iff]
  exact Nat.pos_iff_ne_zero

@[simp] theorem feed_kept (s : State) (r : JobRow) : (feed s r).kept = s.page.states := by
  unfold feed
  split <;> rfl

@[simp] theorem feed_current (s : State) (r : JobRow) : (feed s r).current = stateOf r := by
  unfold feed
  split <;> rfl

/-- Nothing has been sent on the stream of `s`, if there is one. -/
def Unused (s : State) : Prop :=
  s.stream = none ∨ s.stream = some s.request

private theorem feed_unused (h : Unused s) (r : JobRow) :
    feed s r = { current := stateOf r, kept := s.page.states } := by
  rcases h with h | h
  · rw [feed, h]
  · rw [feed_of_stream h]
    rfl

private theorem Consistent.unused (h : Consistent s r) (hstates : t.page.states = s.page.states)
    (hnew : Unused t) : Consistent t r := by
  constructor
  · intro c hc
    rcases hnew with hnone | hrequest
    · rw [hnone] at hc
      cases hc
    · rw [hrequest] at hc
      obtain rfl := Option.some.inj hc
      exact sound_request t
  · have hfeed : feed t r = (feed s r).resubscribed := by
      rw [feed_unused hnew, Feed.resubscribed, feed_current, feed_kept, hstates]
    rw [hfeed]
    exact h.orderly.resubscribed

theorem Consistent.same (h : Consistent s r) (hjob : t.jobId = s.jobId)
    (hstates : t.page.states = s.page.states) (hstream : t.stream = s.stream) :
    Consistent t r := by
  constructor
  · rw [hstream, hjob]
    exact h.sound
  · have hfeed : feed t r = feed s r := by
      unfold feed Stream.feed
      rw [hstream, hstates]
    rw [hfeed]
    exact h.orderly

private theorem feed_withSys (s : State) (sys : Step.State) (r r' : JobRow) :
    feed (s.withSys sys) r' = { feed s r with current := stateOf r' } := by
  cases hstream : s.stream with
  | none =>
      have hnone : (s.withSys sys).stream = none := by rw [State.withSys, hstream]; rfl
      rw [feed, feed, hnone, hstream]
      rfl
  | some c =>
      have hsome : (s.withSys sys).stream =
          some { c with lost := c.lost || sys.phase = .down } := by
        rw [State.withSys, hstream]
        rfl
      rw [feed_of_stream hsome, feed_of_stream hstream]
      rfl

theorem Consistent.process {r' : JobRow} {sys : Step.State} (h : Consistent s r)
    (hmove : r'.state = r.state ∨ Before (stateOf r) (stateOf r')) :
    Consistent (s.withSys sys) r' := by
  constructor
  · intro c hc
    obtain ⟨c₀, hc₀, rfl⟩ := Option.map_eq_some_iff.mp hc
    have hsound := h.sound c₀ hc₀
    exact ⟨hsound.jobId, hsound.received, hsound.lastState⟩
  · rw [feed_withSys s sys r r']
    refine h.orderly.step (n := maxUpdates) ?_
    rcases hmove with heq | hbefore
    · have hsame : stateOf r' = (feed s r).current := by
        rw [feed_current, stateOf, stateOf, heq]
      rw [hsame]
      exact .quiet
    · refine .move _ ?_
      rw [feed_current]
      exact hbefore

private theorem feed_goes_on (hstream : s.stream = some c) (p : Point) (r : JobRow) :
    feed (s.withWatch c { c.watch with point := p }) r =
      { feed s r with pending := pendingState p } := by
  rw [feed_of_stream hstream]
  rfl

private theorem Consistent.goes_on {p : Point} (h : Consistent s r) (hstream : s.stream = some c)
    (hfeed : Steps Before maxUpdates (feed s r) { feed s r with pending := pendingState p }) :
    Consistent (s.withWatch c { c.watch with point := p }) r := by
  constructor
  · intro c' hc'
    obtain rfl := Option.some.inj hc'
    have hsound := h.sound c hstream
    exact ⟨hsound.jobId, hsound.received, hsound.lastState⟩
  · rw [feed_goes_on hstream]
    exact h.orderly.step hfeed

private theorem quiet_of_pending {p : Point} (hstream : s.stream = some c)
    (hpending : pendingState c.watch.point = pendingState p) :
    Steps Before maxUpdates (feed s r) { feed s r with pending := pendingState p } := by
  have hsame : { feed s r with pending := pendingState p } = feed s r := by
    rw [← hpending, ← feed_pending hstream r]
  rw [hsame]
  exact .quiet

private theorem last_ne_of_differs (hsound : c.Sound s.jobId) (hstream : s.stream = some c)
    (hne : stateOf r ≠ c.watch.lastState) : (feed s r).last ≠ some (feed s r).current := by
  rw [feed_last hstream, feed_current]
  intro hlast
  refine hne ?_
  rw [hsound.lastState, hlast]
  rfl

theorem Consistent.sends {status : JobStatus} (h : Consistent s r) (hstream : s.stream = some c)
    (hpoint : c.watch.point = .send status) (now : Time) :
    Consistent (s.withWatch c
      { c.watch with
        lastState := status.state
        point := afterUpdate status
        sent := c.watch.sent ++ [updateOf status now] }) r := by
  have hsound := h.sound c hstream
  have hstates : (c.watch.sent ++ [updateOf status now]).map (·.state) =
      c.watch.sent.map (·.state) ++ [status.state] := by
    rw [List.map_append]
    rfl
  constructor
  · intro c' hc'
    obtain rfl := Option.some.inj hc'
    refine ⟨hsound.jobId, ?_, ?_⟩
    · refine hsound.received.trans ?_
      rw [List.length_append]
      exact Nat.le_add_right _ _
    · change status.state = ((c.watch.sent ++ [updateOf status now]).map (·.state)).getLast?.getD _
      rw [hstates, List.getLast?_concat]
      rfl
  · have hpending : (feed s r).pending = some status.state := by
      rw [feed_pending hstream, hpoint]
      rfl
    have hfeed : feed (s.withWatch c
        { c.watch with
          lastState := status.state
          point := afterUpdate status
          sent := c.watch.sent ++ [updateOf status now] }) r =
        { feed s r with
          sent := (feed s r).sent ++ [status.state]
          pending := none
          last := some status.state } := by
      rw [feed_of_stream hstream, feed_of_stream rfl]
      simp only [Stream.feed, Stream.arriving, List.drop_append_of_le_length hsound.received,
        List.map_append, hstates, List.getLast?_concat, pendingState_afterUpdate]
      rfl
    rw [hfeed]
    exact h.orderly.step (.send (n := maxUpdates) status.state hpending)

theorem Consistent.watch {w : Watch} {ev : Event} (h : Consistent s r)
    (hstream : s.stream = some c) (hrow : s.sys.db.jobs.byId s.jobId = some r)
    (hstep : Etl.WatchJob.step s.sys.db c.watch ev = some w) :
    Consistent (s.withWatch c w) r := by
  have hsound := h.sound c hstream
  rcases steps_or_fails hstep (by rw [hsound.jobId]; exact hrow) with hsteps | ⟨err, rfl⟩
  · cases hsteps with
    | check hpoint =>
        exact h.goes_on hstream (quiet_of_pending hstream (by rw [hpoint]; rfl))
    | differs hpoint hne =>
        refine h.goes_on hstream ?_
        have hidle : (feed s r).pending = none := by rw [feed_pending hstream, hpoint]; rfl
        have hnext : pendingState (.send (scanJobStatus r)) = some (feed s r).current := by
          rw [feed_current]
          rfl
        rw [hnext]
        exact .sample hidle (last_ne_of_differs hsound hstream hne)
    | same hpoint =>
        refine h.goes_on hstream (quiet_of_pending hstream ?_)
        rw [hpoint, pendingState_afterUpdate]
        rfl
    | sent status now hpoint => exact h.sends hstream hpoint now
    | woken hpoint =>
        exact h.goes_on hstream (quiet_of_pending hstream (by rw [hpoint]; rfl))
  · exact h.goes_on hstream .drop

theorem arriving_of_next {u : JobUpdate} (h : c.next = some u) :
    c.arriving = u :: c.watch.sent.drop (c.received + 1) := by
  obtain ⟨hlt, rfl⟩ := List.getElem?_eq_some_iff.mp h
  exact List.drop_eq_getElem_cons hlt

theorem feed_sent_of_next {u : JobUpdate} (hstream : s.stream = some c) (hnext : c.next = some u)
    (r : JobRow) :
    (feed s r).sent = u.state :: (c.watch.sent.drop (c.received + 1)).map (·.state) := by
  rw [feed_of_stream hstream, Stream.feed, arriving_of_next hnext]
  rfl

private theorem feed_onUpdate (hstream : s.stream = some c) (u : JobUpdate) (r : JobRow) :
    feed (s.onUpdate c u) r =
      { feed s r with
        kept := (u.state :: (feed s r).kept).take maxUpdates
        sent := (c.watch.sent.drop (c.received + 1)).map (·.state)
        heard := true } := by
  have hheard : decide (0 < c.received + 1) = true := decide_eq_true (Nat.succ_pos _)
  rw [feed_kept, feed_of_stream hstream, ← Page.states_onUpdate]
  simp only [State.onUpdate, feed, Stream.feed, Stream.arriving, hheard]

theorem Consistent.receives {u : JobUpdate} (h : Consistent s r) (hstream : s.stream = some c)
    (hnext : c.next = some u) : Consistent (s.onUpdate c u) r := by
  constructor
  · intro c' hc'
    obtain rfl := Option.some.inj hc'
    have hsound := h.sound c hstream
    refine ⟨hsound.jobId, ?_, hsound.lastState⟩
    exact (List.getElem?_eq_some_iff.mp hnext).1
  · rw [feed_onUpdate hstream]
    exact h.orderly.step (.deliver _ _ (feed_sent_of_next hstream hnext r))

/-- What an action does to the process, the stream and the updates. -/
inductive Moves (s : State) : Act → State → Prop
  | process (a : Step.Act) (sys : Step.State) : Step.step s.sys a = some sys →
      Moves s (.process a) (s.withSys sys)
  | watch (ev : Event) (c : Stream) (w : Watch) : s.stream = some c →
      Etl.WatchJob.step s.sys.db c.watch ev = some w → Moves s (.watch ev) (s.withWatch c w)
  | deliver (c : Stream) (u : JobUpdate) : s.stream = some c → c.next = some u →
      Moves s .deliver (s.onUpdate c u)
  | aside (a : Act) (t : State) : a ≠ .deliver → t.sys = s.sys → t.jobId = s.jobId →
      t.page.states = s.page.states → t.stream = s.stream ∨ Unused t → Moves s a t

theorem cleanup_cases (s : State) :
    s.cleanup.sys = s.sys ∧ s.cleanup.jobId = s.jobId ∧
      s.cleanup.page.states = s.page.states ∧ s.cleanup.stream = none := by
  unfold State.cleanup
  cases hstream : s.stream with
  | none => exact ⟨rfl, rfl, rfl, hstream⟩
  | some c => exact ⟨rfl, rfl, rfl, rfl⟩

theorem subscribe_cases (s : State) :
    s.subscribe.sys = s.sys ∧ s.subscribe.jobId = s.jobId ∧
      s.subscribe.page.states = s.page.states ∧
      (s.subscribe.stream = s.stream ∨ s.subscribe.stream = some s.request) := by
  unfold State.subscribe
  split
  · split
    · exact ⟨rfl, rfl, rfl, .inl rfl⟩
    · exact ⟨rfl, rfl, rfl, .inr rfl⟩
  · exact ⟨rfl, rfl, rfl, .inl rfl⟩

private theorem moves_of_effect (s : State) (key : Option JobState) :
    Moves s .effect { s.cleanup.subscribe with deps := key } := by
  obtain ⟨hsys, hjob, hstates, hstream⟩ := cleanup_cases s
  obtain ⟨hsys', hjob', hstates', hstream'⟩ := subscribe_cases s.cleanup
  refine .aside _ _ nofun (hsys'.trans hsys) (hjob'.trans hjob) (hstates'.trans hstates) (.inr ?_)
  rcases hstream' with hkept | hopened
  · exact .inl (hkept.trans hstream)
  · refine .inr (hopened.trans ?_)
    rw [State.request, State.request, ← hsys', ← hjob']

private theorem moves_of_answered {i : ℕ} {answer : Loaded} {a : Act} (ha : a ≠ .deliver)
    (h : s.answered i answer = some t) : Moves s a t := by
  unfold State.answered at h
  split at h
  · obtain rfl := Option.some.inj h
    exact .aside _ _ ha rfl rfl rfl (.inl rfl)
  · cases h

theorem moves_of_step {a : Act} (h : step s a = some t) : Moves s a t := by
  cases a with
  | process a =>
      simp only [step] at h
      split at h
      · cases h
      · obtain ⟨sys, hsys, rfl⟩ := Option.map_eq_some_iff.mp h
        exact .process a sys hsys
  | watch ev =>
      obtain ⟨c, hc, hrest⟩ := Option.bind_eq_some_iff.mp h
      split at hrest
      · cases hrest
      · obtain ⟨w, hw, rfl⟩ := Option.map_eq_some_iff.mp hrest
        exact .watch ev c w hc hw
  | deliver =>
      obtain ⟨c, hc, hrest⟩ := Option.bind_eq_some_iff.mp h
      obtain ⟨u, hu, rfl⟩ := Option.map_eq_some_iff.mp hrest
      exact .deliver c u hc hu
  | reconnect =>
      obtain ⟨c, hc, hrest⟩ := Option.bind_eq_some_iff.mp h
      split at hrest
      · obtain rfl := Option.some.inj hrest
        exact .aside _ _ nofun rfl rfl rfl (.inr (.inr rfl))
      · cases hrest
  | effect =>
      simp only [step] at h
      split at h
      · cases h
      · obtain rfl := Option.some.inj h
        exact moves_of_effect s _
  | read i =>
      simp only [step] at h
      split at h
      · cases h
      · obtain ⟨row, -, hanswered⟩ := Option.bind_eq_some_iff.mp h
        exact moves_of_answered nofun hanswered
  | reject i message => exact moves_of_answered nofun h
  | settle i =>
      simp only [step] at h
      split at h
      · obtain rfl := Option.some.inj h
        refine .aside _ _ nofun rfl rfl ?_ (.inl rfl)
        unfold State.settled
        split
        · exact Page.states_loaded _ _
        · exact Page.states_refetched _ _
      · cases h

theorem tracked_of_opens (h : Opens s) : Tracked s := by
  obtain ⟨sys, jobId, r, hreach, hr, rfl⟩ := h
  have hsound : ∀ c ∈ (mounted sys jobId).stream, c.Sound jobId :=
    fun c hnone => absurd hnone (Option.not_mem_none c)
  exact ⟨hreach, r, hr, hsound, orderly_start _⟩

theorem tracked_of_step {a : Act} (h : Tracked s) (hstep : step s a = some t) : Tracked t := by
  obtain ⟨hreach, r, hr, hconsistent⟩ := h
  cases moves_of_step hstep with
  | process a sys hsys =>
      obtain ⟨r', hr', hmove, -⟩ := row_of_process hreach hr hsys
      exact ⟨hreach.next trivial hsys, r', hr', hconsistent.process hmove⟩
  | watch ev c w hc hw => exact ⟨hreach, r, hr, hconsistent.watch hc hr hw⟩
  | deliver c u hc hu => exact ⟨hreach, r, hr, hconsistent.receives hc hu⟩
  | aside _ _ _ hsys hjob hstates hstream =>
      refine ⟨hsys ▸ hreach, r, by rw [hsys, hjob]; exact hr, ?_⟩
      rcases hstream with hsame | hnew
      · exact hconsistent.same hjob hstates hsame
      · exact hconsistent.unused hstates hnew

private theorem first_of_received {u : JobUpdate} (hu : c.next = some u) :
    c.first = if c.received = 0 then some u else none := by
  rw [Stream.first, hu]

private theorem onceEach_step_iff {a : Act} (h : Tracked s) (honce : OnceEach s)
    (hstep : step s a = some t) : OnceEach t ↔ MovedOn s a := by
  obtain ⟨-, r, -, hconsistent⟩ := h
  cases moves_of_step hstep with
  | process => exact iff_of_true honce trivial
  | watch => exact iff_of_true honce trivial
  | deliver c u hc hu =>
      have hnodup := hconsistent.orderly.nodup_iff (n := maxUpdates) (by decide)
        (feed_sent_of_next hc hu r) (by rw [feed_kept]; exact honce)
      rw [feed_kept, feed_heard hc] at hnodup
      rw [OnceEach, State.onUpdate, Page.states_onUpdate, hnodup, MovedOn, hc, Option.bind_some,
        first_of_received hu]
      split
      · next hfirst =>
          simp [hfirst]
      · next hlater =>
          simp [hlater]
  | aside a t hother _ _ hstates _ =>
      have hkept : OnceEach t := by
        rw [OnceEach, hstates]
        exact honce
      refine iff_of_true hkept ?_
      cases a with
      | deliver => exact absurd rfl hother
      | process | watch | reconnect | effect | read | reject | settle => trivial

/-- From the opening of the page on, through any steps of the process, of the calls and
of the page: no two updates carry the same state exactly as long as the first message
of every stream finds the job moved on from the newest update. -/
theorem onceEach_iff_movedOn {as : List Act} (hopens : Opens s) (hrun : run step s as = some t) :
    Always step OnceEach s as ↔ Meets step MovedOn s as := by
  have honce : OnceEach s := by
    obtain ⟨sys, jobId, r, -, -, rfl⟩ := hopens
    exact List.nodup_nil
  exact always_iff_meets (fun _ _ _ h _ hstep => tracked_of_step h hstep)
    (fun _ _ _ h hP _ hstep => onceEach_step_iff h hP hstep) (tracked_of_opens hopens) honce
    (meets_true s as) hrun

/-- The first load finds the job and the effect opens a stream. -/
def loading : List Act := [.read 0, .settle 0, .effect]

/-- The call polls, and its message arrives. -/
def poll : List Act :=
  [.watch (.check false), .watch (.read true), .watch (.send true Time.zero), .deliver]

def starting : List Act :=
  [.process (.call 0 (.send Time.zero)), .process (.receive 0), .process (.work 0 {})]

def finishing : List Act :=
  [.process (.work 0 { get := fun _ => .response 200 "\x7b\x7d" }), .process (.work 0 {})]

def opened : State := mounted submitted "job-1"

theorem opens_opened : Opens opened := by
  have hsubmitted : Reachable Cold Step.step Anything submitted :=
    (cold_of_migrated submitted_reachable).mono fun _ _ _ => trivial
  obtain ⟨r, hr⟩ : ∃ r, submitted.db.jobs.byId "job-1" = some r := ⟨_, rfl⟩
  exact ⟨submitted, "job-1", r, hsubmitted, hr, rfl⟩

/-- The second poll finds the job running; its message makes the effect open another
stream, whose first poll comes after the job is done. -/
def movingRun : List Act :=
  loading ++ poll ++ starting ++ [.watch .wake] ++ poll ++ [.effect] ++ finishing ++ poll

def movedEnd : State := (run step opened movingRun).getD opened

private theorem run_movingRun : run step opened movingRun = some movedEnd :=
  run_eq_getD (by decide +kernel) opened

theorem onceEach_iff_movedOn_movingRun :
    Always step OnceEach opened movingRun ∧
      movedEnd.page.states = [.done, .running, .queued] :=
  ⟨(onceEach_iff_movedOn opens_opened run_movingRun).mpr (by decide +kernel), by decide +kernel⟩

/-- The first poll of the other stream finds the job running as well. -/
def slowRun : List Act := loading ++ poll ++ starting ++ [.watch .wake] ++ poll ++ [.effect] ++ poll

def slowEnd : State := (run step opened slowRun).getD opened

/-- Nothing fails, and running stands twice in the updates. -/
theorem slowRun_repeats :
    Opens opened ∧ Meets step Undisturbed opened slowRun ∧
      run step opened slowRun = some slowEnd ∧
      slowEnd.page.states = [.running, .running, .queued] ∧ ¬ OnceEach slowEnd :=
  ⟨opens_opened, by decide +kernel, run_eq_getD (by decide +kernel) opened, by decide +kernel,
    by decide +kernel⟩

end TrendingPipeline.System.LiveUpdates

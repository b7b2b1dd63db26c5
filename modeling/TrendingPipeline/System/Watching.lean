/- Unit: TrendingPipeline/System/Watching
   source: backend/etl/server.go, backend/worker/worker.go
   digest: A WatchJob call beside the process whose workers write the job it watches. -/

import TrendingPipeline.Base.Sampling
import TrendingPipeline.Etl.WatchJob
import TrendingPipeline.System.Lifecycle

/-!
The call polls a row that the workers write meanwhile. Under any step of the process the
state of the row stays or rises, and a terminal row stays for good; so the call is a sampler
of a rising history, and what it has sent is decided by where its polls fell.
-/

set_option autoImplicit false
set_option relaxedAutoImplicit false

namespace TrendingPipeline.System.Watching

open Relation (ReflTransGen)
open TrendingPipeline.Base.Calendar (Time)
open TrendingPipeline.Base.Runs (Next Reachable run)
open TrendingPipeline.Base.Sampling (Faithful Sampler faithful_start)
open TrendingPipeline.Proto.Messages (JobState JobStatus JobUpdate)
open TrendingPipeline.Store.Tables (Db JobRow JobsTable RowState)
open TrendingPipeline.Store.Statements (getJobByID)
open TrendingPipeline.Etl.WatchJob
open TrendingPipeline.System.Step (Anything Cold cold_of_migrated)
open TrendingPipeline.System.ExactlyOnce (submitted submitted_reachable)
open TrendingPipeline.System.Rows
open TrendingPipeline.System.Lifecycle (Follows follows_of_path)

/-- The process and one call in it; whether the process ended with the call; and two
history fields: the states of the row since the call began, each once while it stays,
and the states the polls found. -/
structure State where
  sys : Step.State
  watch : Watch
  lost : Bool := false
  history : List RowState
  polled : List RowState := []

inductive Act
  | process (a : Step.Act)
  | watch (ev : Event)

def State.jobId (s : State) : String := s.watch.req.jobId

def rowState (db : Db) (id : String) : Option RowState := (getJobByID db id).map (·.state)

/-- The history after the row was written, or not. -/
def noteState (history : List RowState) : Option RowState → List RowState
  | none => history
  | some st => if history.getLast? = some st then history else history ++ [st]

def awaitsCalls : Step.Act → Bool
  | .exit => true
  | .submitJob _ | .submitBatch | .call _ _ | .receive _ | .work _ _ | .shutdown | .boot _ => false

def State.found (s : State) : List RowState :=
  if s.watch.point = .read then (rowState s.sys.db s.jobId).toList else []

def step (s : State) : Act → Option State
  | .process a =>
      if awaitsCalls a && !s.watch.hasReturned then none
      else
        (Step.step s.sys a).map fun t =>
          { s with
            sys := t
            lost := s.lost || t.phase = .down
            history := noteState s.history (rowState t.db s.jobId) }
  | .watch ev =>
      if s.lost then none
      else
        (Etl.WatchJob.step s.sys.db s.watch ev).map fun w =>
          { s with watch := w, polled := s.polled ++ s.found }

/-- A call for a job in state `st` comes in. -/
def begin (sys : Step.State) (jobId : String) (st : RowState) : State where
  sys := sys
  watch := { req := { jobId := jobId } }
  history := [st]

/-- The process serves, and the job exists. -/
def Starts (s : State) : Prop :=
  ∃ sys jobId r, Reachable Cold Step.step Anything sys ∧ sys.phase = .up ∧
    sys.db.jobs.byId jobId = some r ∧ s = begin sys jobId r.state

def Undisturbed (_ : State) : Act → Prop
  | .process _ => True
  | .watch ev => ev.undisturbed = true

instance (s : State) : ∀ a, Decidable (Undisturbed s a)
  | .process _ => inferInstanceAs (Decidable True)
  | .watch _ => inferInstanceAs (Decidable (_ = true))

def State.states (s : State) : List JobState := s.watch.sent.map (·.state)

def jobState (st : RowState) : JobState := stringToJobState st.text

def pendingState : Point → Option JobState
  | .send status => some status.state
  | .check | .read | .sleep | .returned _ => none

/-- The observer the call is, given the row of its job. -/
def sampler (s : State) (r : JobRow) : Sampler JobState where
  history := s.history.map jobState
  current := jobState r.state
  seen := s.polled.map jobState
  pending := pendingState s.watch.point
  reported := s.states

/-- The stops of the call, by what was sent last. -/
def Stops (w : Watch) (r : JobRow) : Prop :=
  match w.point with
  | .returned err => err = none ∧ isTerminal w.lastState = true
  | .send status =>
      isTerminal w.lastState = false ∧
        (isTerminal status.state = true → status = scanJobStatus r)
  | .check | .read | .sleep => isTerminal w.lastState = false

structure Consistent (s : State) (r : JobRow) : Prop where
  latest : s.history.getLast? = some r.state
  faithful : Faithful Before (sampler s r)
  lastState : s.watch.lastState = s.states.getLast?.getD .unspecified
  stops : Stops s.watch r
  ends : ∀ u ∈ s.watch.sent, isTerminal u.state = true → ∃ now, u = updateOf (scanJobStatus r) now

/-- The process is where it can get to, and the call agrees with it. -/
def Watched (s : State) : Prop :=
  Reachable Cold Step.step Anything s.sys ∧
    ∃ r, s.sys.db.jobs.byId s.jobId = some r ∧ Consistent s r

private theorem watched_of_starts {s : State} (h : Starts s) : Watched s := by
  obtain ⟨sys, jobId, r, hreach, -, hr, rfl⟩ := h
  refine ⟨hreach, r, hr, ?_⟩
  exact
    { latest := rfl
      faithful := faithful_start (jobState r.state)
      lastState := rfl
      stops := rfl
      ends := fun u hu => absurd hu List.not_mem_nil }

@[simp] theorem rank_jobState (st : RowState) :
    rank (jobState st) =
      match st with
      | .queued => 1
      | .running => 2
      | .retrying => 3
      | .done | .dead => 4 := by
  cases st <;> decide

private theorem before_of_advances {x y : RowState × Int} (h : Advances x y) :
    y.1 = x.1 ∨ Before (jobState x.1) (jobState y.1) := by
  unfold Before
  cases h with
  | started => simp
  | refused => simp
  | failed => simp
  | finished => simp
  | stopped => simp
  | failedAgain => exact .inl rfl
  | finishedLate => simp
  | exhausted => simp

/-- A step of the process leaves the row's state or moves it on, and a terminal row
stays as it is. -/
theorem row_of_process {sys t : Step.State} {a : Step.Act} {id : String} {r : JobRow}
    (h : Reachable Cold Step.step Anything sys) (hr : sys.db.jobs.byId id = some r)
    (hstep : Step.step sys a = some t) :
    ∃ r', t.db.jobs.byId id = some r' ∧
      (r'.state = r.state ∨ Before (jobState r.state) (jobState r'.state)) ∧
      (r.state.terminal = true → r' = r) := by
  obtain ⟨r', hr', hprogress⟩ :=
    progresses_of_moves (tended_of_reachable h) (Custody.moves_any hstep) hr
  refine ⟨r', hr', ?_, ?_⟩
  · rcases hprogress with rfl | ⟨-, hadv⟩
    · exact .inl rfl
    · exact before_of_advances hadv
  · intro hterm
    rcases hprogress with rfl | ⟨hopen, -⟩
    · rfl
    · rw [hopen.not_terminal] at hterm
      cases hterm

private theorem consistent_of_process {s t : State} {r r' : JobRow} (h : Consistent s r)
    (hwatch : t.watch = s.watch) (hpolled : t.polled = s.polled)
    (hhistory : t.history = noteState s.history (some r'.state))
    (hmove : r'.state = r.state ∨ Before (jobState r.state) (jobState r'.state))
    (hend : r.state.terminal = true → r' = r) : Consistent t r' := by
  have hstates : t.states = s.states := by rw [State.states, hwatch]; rfl
  have hterm : ∀ status : JobStatus, isTerminal status.state = true →
      status = scanJobStatus r → status = scanJobStatus r' := by
    rintro _ hstatus rfl
    have hrow : r.state.terminal = true := by rwa [← stateOf_terminal]
    rw [hend hrow]
  have hsampler : sampler t r' =
      { sampler s r with
        history := t.history.map jobState, current := jobState r'.state } := by
    rw [sampler, sampler, hwatch, hpolled, hstates]
  constructor
  · rw [hhistory, noteState]
    split
    · assumption
    · exact List.getLast?_concat
  · rw [hsampler, hhistory, noteState]
    by_cases hsame : r'.state = r.state
    · rw [if_pos (by rw [hsame]; exact h.latest), hsame]
      exact h.faithful
    · have hbefore := hmove.resolve_left hsame
      rw [if_neg (by rw [h.latest]; exact fun heq => hsame (Option.some.inj heq).symm),
        List.map_append]
      exact h.faithful.step (.move _ _ hbefore)
  · rw [hwatch, hstates]
    exact h.lastState
  · have hstops := h.stops
    unfold Stops at hstops ⊢
    rw [hwatch]
    split at hstops
    · exact hstops
    · exact ⟨hstops.1, fun hst => hterm _ hst (hstops.2 hst)⟩
    · exact hstops
    · exact hstops
    · exact hstops
  · intro u hu hst
    rw [hwatch] at hu
    obtain ⟨now, rfl⟩ := h.ends u hu hst
    exact ⟨now, by rw [← hterm _ hst rfl]⟩

/-- The call in state `s` after a step that leads to `w`. -/
def State.withWatch (s : State) (w : Watch) : State :=
  { s with watch := w, polled := s.polled ++ s.found }

private theorem found_of_ne_read {s : State} (h : s.watch.point ≠ .read) : s.found = [] := if_neg h

private theorem found_of_read {s : State} {r : JobRow} (h : s.watch.point = .read)
    (hr : s.sys.db.jobs.byId s.jobId = some r) : s.found = [r.state] := by
  rw [State.found, if_pos h, rowState, getJobByID, hr]
  rfl

private theorem getLast_states_iff {s : State} {r : JobRow} (h : Consistent s r) :
    s.states.getLast? = some (stateOf r) ↔ stateOf r = s.watch.lastState := by
  have hpos := rank_stateOf_pos r
  rw [h.lastState]
  cases s.states.getLast? with
  | none =>
      refine ⟨nofun, ?_⟩
      intro heq
      rw [heq] at hpos
      exact absurd hpos (Nat.lt_irrefl 0)
  | some a => exact ⟨fun heq => (Option.some.inj heq).symm, fun heq => congrArg some heq.symm⟩

private theorem stops_afterUpdate {w : Watch} {r : JobRow} {status : JobStatus}
    (hpoint : w.point = afterUpdate status) (hlast : w.lastState = status.state) : Stops w r := by
  unfold Stops
  rw [hpoint, afterUpdate, hlast]
  cases hterm : isTerminal status.state with
  | true => exact ⟨rfl, rfl⟩
  | false => rfl

theorem pendingState_afterUpdate (status : JobStatus) :
    pendingState (afterUpdate status) = none := by
  unfold afterUpdate
  split <;> rfl

private theorem consistent_of_goes_on {s : State} {r : JobRow} {p : Point} (h : Consistent s r)
    (hread : s.watch.point ≠ .read) (hpending : pendingState s.watch.point = pendingState p)
    (hstops : Stops s.watch r → Stops { s.watch with point := p } r) :
    Consistent (s.withWatch { s.watch with point := p }) r := by
  have hfound : s.found = [] := found_of_ne_read hread
  have hsame : sampler (s.withWatch { s.watch with point := p }) r = sampler s r := by
    simp only [sampler, State.withWatch, State.states, hfound, List.append_nil, hpending]
  exact
    { latest := h.latest
      faithful := hsame ▸ h.faithful
      lastState := h.lastState
      stops := hstops h.stops
      ends := h.ends }

private theorem consistent_of_differs {s : State} {r : JobRow} (h : Consistent s r)
    (hr : s.sys.db.jobs.byId s.jobId = some r) (hpoint : s.watch.point = .read)
    (hne : stateOf r ≠ s.watch.lastState) :
    Consistent (s.withWatch { s.watch with point := .send (scanJobStatus r) }) r := by
  have hfound := found_of_read hpoint hr
  have hidle : pendingState s.watch.point = none := by rw [hpoint]; rfl
  have hnext : sampler (s.withWatch { s.watch with point := .send (scanJobStatus r) }) r =
      { sampler s r with
        seen := s.polled.map jobState ++ [jobState r.state]
        pending := some (jobState r.state) } := by
    simp only [sampler, State.withWatch, State.states, hfound, List.map_append, List.map_cons,
      List.map_nil, pendingState]
    rfl
  have hunsent : s.states.getLast? ≠ some (jobState r.state) := by
    intro heq
    exact hne ((getLast_states_iff h).mp heq)
  have hstops := h.stops
  unfold Stops at hstops
  rw [hpoint] at hstops
  exact
    { latest := h.latest
      faithful := hnext ▸ h.faithful.step (.differs _ hidle hunsent)
      lastState := h.lastState
      stops := ⟨hstops, fun _ => rfl⟩
      ends := h.ends }

private theorem consistent_of_same {s : State} {r : JobRow} (h : Consistent s r)
    (hr : s.sys.db.jobs.byId s.jobId = some r) (hpoint : s.watch.point = .read)
    (heq : stateOf r = s.watch.lastState) :
    Consistent (s.withWatch { s.watch with point := afterUpdate (scanJobStatus r) }) r := by
  have hfound := found_of_read hpoint hr
  have hidle : pendingState s.watch.point = none := by rw [hpoint]; rfl
  have hnext : sampler (s.withWatch { s.watch with point := afterUpdate (scanJobStatus r) }) r =
      { sampler s r with seen := s.polled.map jobState ++ [jobState r.state] } := by
    simp only [sampler, State.withWatch, State.states, hfound, List.map_append, List.map_cons,
      List.map_nil, pendingState_afterUpdate, hidle]
  have hlast := (getLast_states_iff h).mpr heq
  exact
    { latest := h.latest
      faithful := hnext ▸ h.faithful.step (.same _ hidle hlast)
      lastState := h.lastState
      stops := stops_afterUpdate rfl heq.symm
      ends := h.ends }

private theorem consistent_of_sent {s : State} {r : JobRow} {status : JobStatus}
    (h : Consistent s r)
    (hpoint : s.watch.point = .send status) (now : Time) :
    Consistent (s.withWatch
      { s.watch with
        lastState := status.state
        point := afterUpdate status
        sent := s.watch.sent ++ [updateOf status now] }) r := by
  have hfound : s.found = [] := found_of_ne_read (by rw [hpoint]; nofun)
  have hstops := h.stops
  unfold Stops at hstops
  rw [hpoint] at hstops
  have hpending : (sampler s r).pending = some status.state := by
    simp only [sampler, hpoint, pendingState]
  have hstates : ∀ w : Watch, w.sent = s.watch.sent ++ [updateOf status now] →
      (s.withWatch w).states = s.states ++ [status.state] := by
    intro w hsent
    rw [State.states, State.withWatch, hsent, List.map_append]
    rfl
  constructor
  · exact h.latest
  · have hstep := h.faithful.step (.report _ status.state hpending)
    rw [sampler, hstates _ rfl]
    simp only [State.withWatch, hfound, List.append_nil, pendingState_afterUpdate]
    exact hstep
  · rw [hstates _ rfl, List.getLast?_concat]
    rfl
  · exact stops_afterUpdate rfl rfl
  · intro u hu hterm
    rcases List.mem_append.mp hu with hu | hu
    · exact h.ends u hu hterm
    · obtain rfl := List.mem_singleton.mp hu
      exact ⟨now, by rw [hstops.2 hterm]⟩

private theorem consistent_of_watch {s : State} {r : JobRow} {w : Watch} (h : Consistent s r)
    (hr : s.sys.db.jobs.byId s.jobId = some r) (hstep : Steps r s.watch w) :
    Consistent (s.withWatch w) r := by
  cases hstep with
  | check hpoint =>
      refine consistent_of_goes_on h (by rw [hpoint]; nofun) (by rw [hpoint]; rfl) ?_
      intro hstops
      unfold Stops at hstops
      rwa [hpoint] at hstops
  | differs hpoint hne => exact consistent_of_differs h hr hpoint hne
  | same hpoint heq => exact consistent_of_same h hr hpoint heq
  | sent status now hpoint => exact consistent_of_sent h hpoint now
  | woken hpoint =>
      refine consistent_of_goes_on h (by rw [hpoint]; nofun) (by rw [hpoint]; rfl) ?_
      intro hstops
      unfold Stops at hstops
      rwa [hpoint] at hstops

private theorem watched_of_step {s t : State} {a : Act} (h : Watched s) (hok : Undisturbed s a)
    (hstep : step s a = some t) : Watched t := by
  obtain ⟨hreach, r, hr, hconsistent⟩ := h
  cases a with
  | process a =>
      simp only [step] at hstep
      split at hstep
      · cases hstep
      · obtain ⟨sys, hsys, rfl⟩ := Option.map_eq_some_iff.mp hstep
        obtain ⟨r', hr', hmove, hend⟩ := row_of_process hreach hr hsys
        refine ⟨hreach.next trivial hsys, r', hr', ?_⟩
        refine consistent_of_process hconsistent rfl rfl ?_ hmove hend
        simp only [rowState, getJobByID, hr', Option.map_some]
  | watch ev =>
      simp only [step] at hstep
      split at hstep
      · cases hstep
      · obtain ⟨w, hw, rfl⟩ := Option.map_eq_some_iff.mp hstep
        have hsteps := steps_of_step hw hok hr
        have hreq : w.req = s.watch.req := by cases hsteps <;> rfl
        refine ⟨hreach, r, ?_, consistent_of_watch hconsistent hr hsteps⟩
        simp only [State.jobId, hreq]
        exact hr

theorem watched_of_reachable {s : State} (h : Reachable Starts step Undisturbed s) : Watched s :=
  h.invariant (fun _ => watched_of_starts) fun _ _ _ => watched_of_step

variable {s : State} {r : JobRow}

theorem Consistent.states_rise (h : Consistent s r) :
    s.states.Pairwise Before ∧ s.states.Sublist (s.history.map jobState) :=
  ⟨h.faithful.rising.sublist (List.sublist_append_left _ _), h.faithful.sublist⟩

private theorem length_le_of_rising {l : List JobState} (h : l.Pairwise Before)
    (hpos : ∀ a ∈ l, 0 < rank a) : l.length ≤ 4 := by
  have hnodup : (l.map rank).Nodup := by
    rw [List.Nodup, List.pairwise_map]
    exact h.imp fun hab => Nat.ne_of_lt hab
  have hsub : l.map rank ⊆ [1, 2, 3, 4] := by
    intro n hn
    obtain ⟨a, ha, rfl⟩ := List.mem_map.mp hn
    have h₁ := hpos a ha
    have h₂ := rank_le a
    simp only [List.mem_cons, List.not_mem_nil, or_false]
    omega
  have hle := (List.subperm_of_subset hnodup hsub).length_le
  rwa [List.length_map] at hle

/-- The call has returned nil exactly when the last message carries a terminal state. -/
theorem Consistent.returned_iff (h : Consistent s r) :
    s.watch.point = .returned none ↔
      ∃ u, s.watch.sent.getLast? = some u ∧ isTerminal u.state = true := by
  have hstops := h.stops
  have hlast : isTerminal s.watch.lastState = true ↔
      ∃ u, s.watch.sent.getLast? = some u ∧ isTerminal u.state = true := by
    rw [h.lastState, State.states, List.getLast?_map]
    cases s.watch.sent.getLast? with
    | none => exact ⟨nofun, nofun⟩
    | some u => exact ⟨fun hu => ⟨u, rfl, hu⟩, fun ⟨_, heq, hu⟩ => Option.some.inj heq ▸ hu⟩
  have hgoes : isTerminal s.watch.lastState = false → s.watch.point ≠ .returned none →
      (s.watch.point = .returned none ↔
        ∃ u, s.watch.sent.getLast? = some u ∧ isTerminal u.state = true) := by
    intro hfalse hpoint
    rw [← hlast, hfalse]
    exact ⟨fun heq => absurd heq hpoint, nofun⟩
  unfold Stops at hstops
  cases hpoint : s.watch.point with
  | returned err =>
      rw [hpoint] at hstops
      rw [← hlast, hstops.1, hstops.2]
      exact ⟨fun _ => rfl, fun _ => rfl⟩
  | check =>
      rw [hpoint] at hstops
      exact hpoint ▸ hgoes hstops (by rw [hpoint]; nofun)
  | read =>
      rw [hpoint] at hstops
      exact hpoint ▸ hgoes hstops (by rw [hpoint]; nofun)
  | send status =>
      rw [hpoint] at hstops
      exact hpoint ▸ hgoes hstops.1 (by rw [hpoint]; nofun)
  | sleep =>
      rw [hpoint] at hstops
      exact hpoint ▸ hgoes hstops (by rw [hpoint]; nofun)

private theorem last_of_terminal {sent before after : List JobUpdate} {u : JobUpdate}
    (hrise : (sent.map (·.state)).Pairwise Before) (hsent : sent = before ++ u :: after)
    (hterm : isTerminal u.state = true) : after = [] := by
  cases after with
  | nil => rfl
  | cons v vs =>
      rw [hsent, List.map_append, List.pairwise_append] at hrise
      have hlt : Before u.state v.state :=
        (List.pairwise_cons.mp hrise.2.1).1 v.state List.mem_cons_self
      have htop := (isTerminal_iff u.state).mp hterm
      have hle := rank_le v.state
      unfold Before at hlt
      omega

/-- Whatever the workers write between the polls: the states sent rise, four at
most; the call returns nil exactly after a terminal one; and the counters sent with
that one are those the row keeps for ever. -/
theorem watch_reports (h : Reachable Starts step Undisturbed s) :
    s.states.Pairwise Before ∧ s.states.Sublist (s.history.map jobState) ∧
      s.watch.sent.length ≤ 4 ∧
      (s.watch.point = .returned none ↔
        ∃ u, s.watch.sent.getLast? = some u ∧ isTerminal u.state = true) ∧
      (∀ err, s.watch.point ≠ .returned (some err)) ∧
      ∀ before u after, s.watch.sent = before ++ u :: after → isTerminal u.state = true →
        after = [] ∧ ∃ r, u.state = stateOf r ∧ u.videosFetched = r.videosFetched ∧
          u.videosInserted = r.videosInserted ∧
          ∀ t, ReflTransGen (Next Step.step Anything) s.sys t →
            t.db.jobs.byId s.jobId = some r := by
  obtain ⟨hreach, r, hr, hconsistent⟩ := watched_of_reachable h
  obtain ⟨hrise, hsub⟩ := hconsistent.states_rise
  refine ⟨hrise, hsub, ?_, hconsistent.returned_iff, ?_, ?_⟩
  · have hpos : ∀ a ∈ s.states, 0 < rank a := by
      intro a ha
      obtain ⟨st, -, rfl⟩ := List.mem_map.mp (hsub.subset ha)
      cases st <;> decide
    simpa [State.states] using length_le_of_rising hrise hpos
  · intro err hpoint
    have hstops := hconsistent.stops
    unfold Stops at hstops
    rw [hpoint] at hstops
    cases hstops.1
  · intro before u after hsent hterm
    refine ⟨last_of_terminal hrise hsent hterm, r, ?_⟩
    have hmem : u ∈ s.watch.sent := by
      rw [hsent]
      exact List.mem_append_right _ List.mem_cons_self
    obtain ⟨now, rfl⟩ := hconsistent.ends u hmem hterm
    refine ⟨rfl, rfl, rfl, ?_⟩
    intro t hpath
    obtain ⟨r', hr', hfollows⟩ := follows_of_path hreach hpath hr
    have hrow : r.state.terminal = true := by rwa [← stateOf_terminal]
    rw [hr', hfollows.terminal hrow]

private theorem jobState_injective : Function.Injective jobState := by
  intro a b
  cases a <;> cases b <;> decide

/-- A call that returns nil has sent the states its polls found, each once, as they rise, and
in the order of the history, a terminal one last; these are the whole history exactly when a
poll found each state of it. -/
theorem watch_samples (h : Reachable Starts step Undisturbed s)
    (hreturned : s.watch.point = .returned none) :
    s.states.Pairwise Before ∧ s.states.Sublist (s.history.map jobState) ∧
      (∀ st, jobState st ∈ s.states ↔ st ∈ s.polled) ∧
      (∃ a, s.states.getLast? = some a ∧ isTerminal a = true) ∧
      (s.states = s.history.map jobState ↔ ∀ st ∈ s.history, st ∈ s.polled) := by
  obtain ⟨-, r, hr, hconsistent⟩ := watched_of_reachable h
  have hidle : (sampler s r).pending = none := by
    rw [sampler, hreturned]
    rfl
  have hseen : ∀ st, jobState st ∈ s.polled.map jobState ↔ st ∈ s.polled := fun st =>
    List.mem_map_of_injective jobState_injective
  obtain ⟨hrise, hsub⟩ := hconsistent.states_rise
  refine ⟨hrise, hsub, ?_, ?_, ?_⟩
  · intro st
    rw [← hseen st]
    have htold := hconsistent.faithful.seen (jobState st)
    rw [Sampler.told, hidle, Option.toList_none, List.append_nil] at htold
    exact htold
  · obtain ⟨u, hu, hterm⟩ := hconsistent.returned_iff.mp hreturned
    exact ⟨u.state, by rw [State.states, List.getLast?_map, hu]; rfl, hterm⟩
  · have hwhole := hconsistent.faithful.reported_eq_history_iff hidle
    refine Iff.trans hwhole ⟨?_, ?_⟩
    · intro hall st hst
      exact (hseen st).mp (hall _ (List.mem_map_of_mem hst))
    · intro hall a ha
      obtain ⟨st, hst, rfl⟩ := List.mem_map.mp ha
      exact List.mem_map_of_mem (hall st hst)

/-- The first poll finds the job queued; a worker takes it and is done before the
second one. -/
def quickJob : List Act :=
  [.watch (.check false), .watch (.read true), .watch (.send true Time.zero),
    .process (.call 0 (.send Time.zero)), .process (.receive 0), .process (.work 0 {}),
    .process (.work 0 { get := fun _ => .response 200 "\x7b\x7d" }), .process (.work 0 {}),
    .watch .wake, .watch (.check false), .watch (.read true), .watch (.send true Time.zero)]

def quickStart : State := begin submitted "job-1" .queued

def quickEnd : State := (run step quickStart quickJob).getD quickStart

private theorem run_quickJob : run step quickStart quickJob = some quickEnd := by
  rfl

theorem quickEnd_reachable : Reachable Starts step Undisturbed quickEnd := by
  have hsubmitted : Reachable Cold Step.step Anything submitted :=
    (cold_of_migrated submitted_reachable).mono fun _ _ _ => trivial
  obtain ⟨r, hr, hqueued⟩ : ∃ r, submitted.db.jobs.byId "job-1" = some r ∧ r.state = .queued :=
    ⟨_, rfl, rfl⟩
  have hstarts : Starts quickStart :=
    ⟨submitted, "job-1", r, hsubmitted, rfl, hr, by rw [hqueued]; rfl⟩
  exact .of_run hstarts run_quickJob (by decide)

theorem watch_reports_quickEnd :
    quickEnd.states = [.queued, .done] ∧ quickEnd.watch.point = .returned none := by
  have hstates : quickEnd.states = [.queued, .done] := by decide
  obtain ⟨-, -, -, hreturned, -⟩ := watch_reports quickEnd_reachable
  refine ⟨hstates, hreturned.mpr ?_⟩
  have hlast : quickEnd.states.getLast? = some .done := by rw [hstates]; rfl
  rw [State.states, List.getLast?_map] at hlast
  obtain ⟨u, hu, hstate⟩ := Option.map_eq_some_iff.mp hlast
  exact ⟨u, hu, by rw [hstate]; rfl⟩

theorem watch_samples_quickEnd :
    quickEnd.watch.point = .returned none ∧
      quickEnd.states ≠ quickEnd.history.map jobState := by
  have hpoint : quickEnd.watch.point = .returned none := by decide
  obtain ⟨-, -, -, -, hwhole⟩ := watch_samples quickEnd_reachable hpoint
  exact ⟨hpoint, fun heq => absurd (hwhole.mp heq) (by decide)⟩

/-- The call begins while the job is queued and returns nil, and running is never sent. -/
theorem quickEnd_skips_running :
    Reachable Starts step Undisturbed quickEnd ∧ quickStart.history = [.queued] ∧
      run step quickStart quickJob = some quickEnd ∧ quickEnd.watch.point = .returned none ∧
      quickEnd.history = [.queued, .running, .done] ∧ quickEnd.states = [.queued, .done] :=
  ⟨quickEnd_reachable, rfl, run_quickJob, by decide, by decide, by decide⟩

end TrendingPipeline.System.Watching

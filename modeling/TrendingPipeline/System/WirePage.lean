/- Unit: TrendingPipeline/System/WirePage
   source: frontend/components/job-detail.tsx, frontend/lib/api.ts, backend/api/server.go
   digest: JobDetail on the texts that reach the browser, and the page of messages it refines. -/

import TrendingPipeline.Frontend.JobView
import TrendingPipeline.Frontend.JobsApi
import TrendingPipeline.Frontend.WatchJob
import TrendingPipeline.System.LiveUpdates

/-!
Here the page gets text in pieces of any length, in `System.LiveUpdates` whole messages.
The two are tied stream by stream: as many messages have reached the page as there are whole
blocks in the text that has arrived. A step on text is then a path on messages, an empty one
while a block is still incomplete.
-/

set_option autoImplicit false
set_option relaxedAutoImplicit false

namespace TrendingPipeline.System.WirePage

open TrendingPipeline.Api.Jobs (handleGetJobStatus updatesText)
open TrendingPipeline.Api.Server (Response)
open TrendingPipeline.Base.Resubscribing (AtMost)
open TrendingPipeline.Base.EventStream (Reader read readPieces readPieces_eq read_append)
open TrendingPipeline.Base.JsonMembers (objectOf)
open TrendingPipeline.Base.Runs
open TrendingPipeline.Etl.Responses (enumValue jobStatus jobUpdate number)
open TrendingPipeline.Etl.WatchJob (Before Event Watch scanJobStatus)
open TrendingPipeline.Frontend.Api (Thrown)
open TrendingPipeline.Frontend (JobDetail.isTerminalState_number)
open TrendingPipeline.Frontend.JobDetail (Loaded Page)
open TrendingPipeline.Frontend.JobView
open TrendingPipeline.Frontend.JobsApi (Engine browser getJobStatus)
open TrendingPipeline.Frontend.WatchJob (WritesUpdates all_of_whole updatesOf updatesOf_read)
open TrendingPipeline.Proto.Messages (JobState JobStatus JobUpdate)
open TrendingPipeline.Store.Statements (getJobByID)
open TrendingPipeline.System.Watching (awaitsCalls)

/-- An EventSource: the WatchJob call behind it, how much of its text has arrived, the
reader of that text, and whether the process ended with the call. -/
structure Stream where
  watch : Watch
  arrived : ℕ := 0
  reader : Reader := {}
  lost : Bool := false

/-- A getJobStatus on its way: whether it is the first load, and what `fetch` gives. -/
structure Load where
  first : Bool
  answer : Option (Except Thrown Response) := none

structure State where
  sys : Step.State
  jobId : String
  view : View := {}
  deps : Option ℤ := none
  stream : Option Stream := none
  loads : List Load := []

inductive Act
  | process (a : Step.Act)
  | watch (ev : Event)
  /-- so many characters of the stream reach the browser -/
  | arrive (n : ℕ)
  | reconnect
  | effect
  /-- GetJobStatus reads the row, and the gateway answers the `i`-th load -/
  | read (i : ℕ)
  /-- GetJobStatus fails -/
  | refuse (i : ℕ)
  /-- `fetch` rejects -/
  | reject (i : ℕ) (err : Thrown)
  | settle (i : ℕ)

def State.request (s : State) : Stream where
  watch := { req := { jobId := s.jobId } }
  lost := s.sys.phase ≠ .up

def Stream.running (c : Stream) : Bool := !c.lost && !c.watch.hasReturned

def State.withSys (s : State) (sys : Step.State) : State :=
  { s with
    sys := sys
    stream := s.stream.map fun c => { c with lost := c.lost || sys.phase = .down } }

def State.withWatch (s : State) (c : Stream) (w : Watch) : State :=
  { s with stream := some { c with watch := w } }

section Wire

variable (sse : String → String → List Char) (engine : Engine)

def Stream.text (c : Stream) : List Char := updatesText sse c.watch.sent

def Stream.ended (c : Stream) : Bool :=
  c.lost || (c.watch.hasReturned && c.arrived = (c.text sse).length)

def Stream.piece (c : Stream) (n : ℕ) : List Char := ((c.text sse).drop c.arrived).take n

/-- Some text arrives; the listener of "update" runs for every event in it. -/
def State.hears (s : State) (c : Stream) (n : ℕ) : State :=
  let heard := read c.reader (c.piece sse n)
  let updates := (updatesOf heard.2).filterMap asObject
  { s with
    view := updates.foldl View.onUpdate s.view
    stream :=
      some { c with arrived := c.arrived + (c.piece sse n).length, reader := heard.1 }
    loads := s.loads ++ (updates.filter isTerminalState).map fun _ => { first := false } }

def State.cleanup (s : State) : State :=
  match s.stream with
  | some _ => { s with view := s.view.disconnected, stream := none }
  | none => s

def State.subscribe (s : State) : State :=
  match s.view.job with
  | some job =>
      if isTerminalState job then s
      else { s with view := { s.view with liveConnected := true }, stream := some s.request }
  | none => s

/-- What the page makes of what `fetch` gave. -/
def settles (jobId : String) (answer : Except Thrown Response) : Settled :=
  (getJobStatus engine (fun _ _ => answer) jobId).mapError fun e => some (engine.messageOf e)

def State.settled (s : State) (i : ℕ) (l : Load) (answer : Except Thrown Response) : State :=
  { s with
    view :=
      if l.first then s.view.loaded (settles engine s.jobId answer)
      else s.view.refetched (settles engine s.jobId answer)
    loads := s.loads.eraseIdx i }

def State.answered (s : State) (i : ℕ) (answer : Except Thrown Response) : Option State :=
  match s.loads[i]? with
  | some ⟨first, none⟩ => some { s with loads := s.loads.set i ⟨first, some answer⟩ }
  | _ => none

/-- `job?.state`. -/
def State.key (s : State) : Option ℤ := s.view.job.bind fun job => numberIn (job "state")

def step (s : State) : Act → Option State
  | .process a =>
      if awaitsCalls a && s.stream.any Stream.running then none
      else (Step.step s.sys a).map s.withSys
  | .watch ev =>
      s.stream.bind fun c =>
        if c.lost then none
        else (Etl.WatchJob.step s.sys.db c.watch ev).map (s.withWatch c)
  | .arrive n => s.stream.map fun c => s.hears sse c n
  | .reconnect =>
      s.stream.bind fun c =>
        if c.ended sse then
          some { s with view := s.view.disconnected, stream := some s.request }
        else none
  | .effect => if s.key = s.deps then none else some { s.cleanup.subscribe with deps := s.key }
  | .read i =>
      if s.sys.phase = .down then none
      else
        (getJobByID s.sys.db s.jobId).bind fun row =>
          s.answered i (.ok (handleGetJobStatus (some (scanJobStatus row))))
  | .refuse i => s.answered i (.ok (handleGetJobStatus none))
  | .reject i err => s.answered i (.error err)
  | .settle i =>
      match s.loads[i]? with
      | some ⟨first, some answer⟩ => some (s.settled engine i ⟨first, some answer⟩ answer)
      | _ => none

end Wire

def mounted (sys : Step.State) (jobId : String) : State where
  sys := sys
  jobId := jobId
  loads := [{ first := true }]

def Opens (s : State) : Prop :=
  ∃ sys jobId r, Reachable Step.Cold Step.step Step.Anything sys ∧
    sys.db.jobs.byId jobId = some r ∧ s = mounted sys jobId

def Undisturbed (_ : State) : Act → Prop
  | .watch ev => ev.undisturbed = true
  | .refuse _ | .reject _ _ => False
  | .process _ | .arrive _ | .reconnect | .effect | .read _ | .settle _ => True

instance (s : State) : ∀ a, Decidable (Undisturbed s a)
  | .watch _ => inferInstanceAs (Decidable (_ = true))
  | .refuse _ | .reject _ _ => inferInstanceAs (Decidable False)
  | .process _ | .arrive _ | .reconnect | .effect | .read _ | .settle _ =>
      inferInstanceAs (Decidable True)

structure Named (w : Watch) : Prop where
  sent : ∀ u ∈ w.sent, u.state ≠ .unspecified
  pending : ∀ status, w.point = .send status → status.state ≠ .unspecified

section Refinement

variable (sse : String → String → List Char) (engine : Engine)

def Stream.heard (c : Stream) : List Char := (c.text sse).take c.arrived

/-- A stream of text carries a stream of messages: as many have reached the page as are
complete in the text. -/
structure Carries (c : Stream) (d : LiveUpdates.Stream) : Prop where
  watch : d.watch = c.watch
  lost : d.lost = c.lost
  arrived : c.arrived ≤ (c.text sse).length
  reader : c.reader = (read {} (c.heard sse)).1
  received : d.received ≤ c.watch.sent.length
  updates : updatesOf (read {} (c.heard sse)).2 =
    (c.watch.sent.take d.received).map (objectOf jobUpdate)
  named : Named c.watch

structure Loads (jobId : String) (l : Load) (f : LiveUpdates.Fetch) : Prop where
  first : l.first = f.first
  answer : Option.Rel (fun a b => Answers (settles engine jobId a) b) l.answer f.answer
  named : ∀ status, f.answer = some (.ok status) → status.state ≠ .unspecified

structure Refines (w : State) (s : LiveUpdates.State) : Prop where
  sys : s.sys = w.sys
  jobId : s.jobId = w.jobId
  page : Mirrors w.view s.page
  deps : w.deps = s.deps.map fun a => (enumValue a).toInt
  named : ∀ job ∈ s.page.job, job.state ≠ .unspecified
  stream : Option.Rel (Carries sse) w.stream s.stream
  loads : List.Forall₂ (Loads engine w.jobId) w.loads s.fetches

end Refinement

theorem rel_none {α β : Type} {R : α → β → Prop} {y : Option β} (h : Option.Rel R none y) :
    y = none := by
  cases h
  rfl

theorem rel_some {α β : Type} {R : α → β → Prop} {x : α} {y : Option β}
    (h : Option.Rel R (some x) y) : ∃ b, y = some b ∧ R x b := by
  cases h with
  | some hR => exact ⟨_, rfl, hR⟩

private theorem stateOf_ne (r : Store.Tables.JobRow) : Etl.WatchJob.stateOf r ≠ .unspecified := by
  intro hnone
  have hpos := Etl.WatchJob.rank_stateOf_pos r
  rw [hnone] at hpos
  exact absurd hpos (by decide)

private theorem enumValue_ne_zero {state : JobState} (h : state ≠ .unspecified) :
    enumValue state ≠ 0 := by
  cases hcase : state with
  | unspecified => exact absurd hcase h
  | _ => decide

/-- The messages of `w` come first in those of `w'`, and all have a state. -/
def Extends (w w' : Watch) : Prop := w.sent <+: w'.sent ∧ Named w'

private theorem extends_of_point {w : Watch} (h : Named w) {p : Etl.WatchJob.Point}
    (hp : ∀ status, p = .send status → status.state ≠ .unspecified) :
    Extends w { w with point := p } :=
  ⟨List.prefix_refl _, h.sent, hp⟩

private theorem extends_onRead {w : Watch} (h : Named w) (db : Store.Tables.Db) (ok : Bool) :
    Extends w (Etl.WatchJob.onRead db w ok) := by
  unfold Etl.WatchJob.onRead
  split
  · next r _ =>
      dsimp only
      split
      · refine extends_of_point h fun status hpoint => ?_
        cases hpoint
        exact stateOf_ne r
      · refine extends_of_point h fun status hpoint => ?_
        unfold Etl.WatchJob.afterUpdate at hpoint
        split at hpoint <;> cases hpoint
  · exact extends_of_point h fun status hpoint => by cases hpoint

private theorem extends_onSend {w : Watch} (h : Named w) {status : JobStatus} (ok : Bool)
    (now : Base.Calendar.Time) (hpoint : w.point = .send status) :
    Extends w (Etl.WatchJob.onSend w status ok now) := by
  cases ok with
  | true =>
      refine ⟨List.prefix_append _ _, ?_, ?_⟩
      · intro u hu
        rcases List.mem_append.mp hu with hu | hu
        · exact h.sent u hu
        · obtain rfl := List.mem_singleton.mp hu
          exact h.pending status hpoint
      · intro status' hpoint'
        simp only [Etl.WatchJob.onSend, if_true, Etl.WatchJob.afterUpdate] at hpoint'
        split at hpoint' <;> cases hpoint'
  | false => exact extends_of_point h fun status' hpoint' => by cases hpoint'

private theorem extends_of_step {db : Store.Tables.Db} {w w' : Watch} {ev : Event}
    (hstep : Etl.WatchJob.step db w ev = some w') (h : Named w) : Extends w w' := by
  cases ev with
  | check cancelled =>
      simp only [Etl.WatchJob.step] at hstep
      split at hstep
      · obtain rfl := Option.some.inj hstep
        exact extends_of_point h fun status hpoint => by cases cancelled <;> cases hpoint
      · cases hstep
  | read ok =>
      simp only [Etl.WatchJob.step] at hstep
      split at hstep
      · obtain rfl := Option.some.inj hstep
        exact extends_onRead h db ok
      · cases hstep
  | send ok now =>
      simp only [Etl.WatchJob.step] at hstep
      split at hstep
      · next status hpoint =>
          obtain rfl := Option.some.inj hstep
          exact extends_onSend h ok now hpoint
      · cases hstep
  | wake =>
      simp only [Etl.WatchJob.step] at hstep
      split at hstep
      · obtain rfl := Option.some.inj hstep
        exact extends_of_point h fun status hpoint => by cases hpoint
      · cases hstep

section Arrival

variable {sse : String → String → List Char} {engine : Engine} {w : State} {s : LiveUpdates.State}
  {c : Stream} {d : LiveUpdates.Stream}

private theorem objects_of_messages (us : List JobUpdate) :
    List.Forall₂ (Shows jobUpdate) ((us.map (objectOf jobUpdate)).filterMap asObject) us := by
  have hnames : (jobUpdate.map Prod.fst).Nodup := by decide
  induction us with
  | nil => exact .nil
  | cons u us ih =>
      obtain ⟨o, hobject, hshows⟩ := shows_objectOf hnames u
      rw [List.map_cons, List.filterMap_cons_some hobject]
      exact .cons hshows ih

private theorem mirrors_foldl {objects : List Object} {us : List JobUpdate}
    (h : List.Forall₂ (Shows jobUpdate) objects us) {v : View} {p : Page} (hpage : Mirrors v p) :
    Mirrors (objects.foldl View.onUpdate v) (us.foldl Page.onUpdate p) := by
  induction h generalizing v p with
  | nil => exact hpage
  | cons hshows _ ih => exact ih (hpage.onUpdate hshows)

def endsJob (u : JobUpdate) : Bool := Etl.WatchJob.isTerminal u.state

private theorem loads_started (jobId : String) {objects : List Object} {us : List JobUpdate}
    (h : List.Forall₂ (Shows jobUpdate) objects us) :
    List.Forall₂ (Loads engine jobId)
      ((objects.filter isTerminalState).map fun _ => { first := false })
      ((us.filter endsJob).map fun _ => { first := false }) := by
  have hload : Loads engine jobId { first := false } { first := false } :=
    ⟨rfl, .none, fun _ h => by cases h⟩
  induction h with
  | nil => exact .nil
  | @cons o u _ _ hshows _ ih =>
      have hsame := isTerminalState_update hshows
      by_cases hterminal : endsJob u = true
      · rw [List.filter_cons_of_pos (hsame.trans hterminal), List.filter_cons_of_pos hterminal]
        exact .cons hload ih
      · have hgoes : ¬ isTerminalState o = true := fun h => hterminal (hsame.symm.trans h)
        rw [List.filter_cons_of_neg hgoes, List.filter_cons_of_neg hterminal]
        exact ih

def receives (s : LiveUpdates.State) (d : LiveUpdates.Stream) (us : List JobUpdate) :
    LiveUpdates.State :=
  { s with
    page := us.foldl Page.onUpdate s.page
    stream := some { d with received := d.received + us.length }
    fetches := s.fetches ++ (us.filter endsJob).map fun _ => { first := false } }

private theorem path_receives {ok : LiveUpdates.State → LiveUpdates.Act → Prop}
    (hok : ∀ s, ok s .deliver) (hstream : s.stream = some d) {us : List JobUpdate}
    (hus : us <+: d.arriving) :
    Relation.ReflTransGen (Next LiveUpdates.step ok) s (receives s d us) := by
  induction us generalizing s d with
  | nil =>
      have hsame : receives s d [] = s := by
        unfold receives
        rw [List.filter_nil, List.map_nil, List.append_nil, List.length_nil, Nat.add_zero,
          ← hstream]
        rfl
      rw [hsame]
  | cons u us ih =>
      obtain ⟨rest, hrest⟩ := hus
      have hnext : d.next = some u := by
        have hhead := congrArg List.head? hrest
        rw [List.cons_append, List.head?_cons, LiveUpdates.Stream.arriving,
          List.head?_drop] at hhead
        exact hhead.symm
      have hone : LiveUpdates.step s .deliver = some (s.onUpdate d u) := by
        simp only [LiveUpdates.step, hstream, Option.bind_some, hnext, Option.map_some]
      have hothers :
          us <+: ({ d with received := d.received + 1 } : LiveUpdates.Stream).arriving := by
        refine ⟨rest, ?_⟩
        rw [LiveUpdates.arriving_of_next hnext] at hrest
        exact (List.cons.inj hrest).2
      have hpath :=
        ih (s := s.onUpdate d u) (d := { d with received := d.received + 1 }) rfl hothers
      have hend : receives (s.onUpdate d u) { d with received := d.received + 1 } us =
          receives s d (u :: us) := by
        have hreceived : d.received + 1 + us.length = d.received + (u :: us).length := by
          rw [List.length_cons]
          omega
        simp only [receives, LiveUpdates.State.onUpdate, JobDetail.isTerminalState_number,
          List.foldl_cons, hreceived]
        have hends : endsJob u = Etl.WatchJob.isTerminal u.state := rfl
        rw [← hends]
        by_cases hterminal : endsJob u = true
        · rw [List.filter_cons_of_pos hterminal, if_pos hterminal, List.append_assoc]
          rfl
        · rw [List.filter_cons_of_neg hterminal, if_neg hterminal]
      rw [hend] at hpath
      exact .head ⟨.deliver, hok s, hone⟩ hpath

private theorem heard_append_piece (c : Stream) (n : ℕ) :
    c.heard sse ++ c.piece sse n =
      (c.text sse).take (c.arrived + (c.piece sse n).length) := by
  have hpiece : ((c.text sse).drop c.arrived).take (c.piece sse n).length = c.piece sse n := by
    rw [Stream.piece, List.take_eq_take_iff, List.length_take]
    omega
  rw [List.take_add, hpiece, Stream.heard]

theorem Carries.more (hsse : WritesUpdates sse) (h : Carries sse c d) (n : ℕ) :
    ∃ us, us <+: d.arriving ∧
      updatesOf (read c.reader (c.piece sse n)).2 = us.map (objectOf jobUpdate) ∧
      Carries sse
        { c with
          arrived := c.arrived + (c.piece sse n).length
          reader := (read c.reader (c.piece sse n)).1 }
        { d with received := d.received + us.length } := by
  have htext : c.heard sse ++ c.piece sse n =
      (c.text sse).take (c.arrived + (c.piece sse n).length) := heard_append_piece c n
  have hbegun : c.heard sse ++ c.piece sse n <+: updatesText sse c.watch.sent := by
    rw [htext]
    exact List.take_prefix _ _
  obtain ⟨k, hk, hupdates, -⟩ := updatesOf_read hsse hbegun
  have hread := read_append {} (c.heard sse) (c.piece sse n)
  rw [← h.reader] at hread
  have hsplit : (c.watch.sent.take k).map (objectOf jobUpdate) =
      (c.watch.sent.take d.received).map (objectOf jobUpdate) ++
        updatesOf (read c.reader (c.piece sse n)).2 := by
    rw [← hupdates, ← h.updates, hread]
    exact List.filterMap_append
  have hlength := congrArg List.length hsplit
  simp only [List.length_append, List.length_map, List.length_take] at hlength
  have hreceived := h.received
  have hle : d.received ≤ k := by omega
  have hdrop := congrArg (List.drop d.received) hsplit
  have hold : ((c.watch.sent.take d.received).map (objectOf jobUpdate)).length = d.received := by
    rw [List.length_map, List.length_take]
    omega
  rw [List.drop_left' hold, ← List.map_drop] at hdrop
  have hcount : d.received + ((c.watch.sent.take k).drop d.received).length = k := by
    rw [List.length_drop, List.length_take]
    omega
  refine ⟨(c.watch.sent.take k).drop d.received, ?_, hdrop.symm, ?_⟩
  · rw [LiveUpdates.Stream.arriving, h.watch, List.drop_take]
    exact List.take_prefix _ _
  · refine ⟨h.watch, h.lost, ?_, ?_, ?_, ?_, h.named⟩
    · have hpiece : (c.piece sse n).length ≤ (c.text sse).length - c.arrived := by
        rw [Stream.piece, List.length_take, List.length_drop]
        exact Nat.min_le_right _ _
      have harrived := h.arrived
      change c.arrived + _ ≤ (c.text sse).length
      omega
    · change _ = (read {} ((c.text sse).take _)).1
      rw [← htext, hread]
    · rw [hcount]
      exact hk
    · change updatesOf (read {} ((c.text sse).take _)).2 = _
      rw [← htext, hupdates, hcount]

private theorem Carries.watched (h : Carries sse c d) {w' : Watch}
    (hsent : c.watch.sent <+: w'.sent)
    (hnamed : Named w') : Carries sse { c with watch := w' } { d with watch := w' } := by
  obtain ⟨more, hmore⟩ := hsent
  have htext : ({ c with watch := w' } : Stream).text sse = c.text sse ++ updatesText sse more := by
    rw [Stream.text, ← hmore, updatesText, List.flatMap_append]
    rfl
  have hheard : ({ c with watch := w' } : Stream).heard sse = c.heard sse := by
    rw [Stream.heard, htext]
    exact List.take_append_of_le_length h.arrived
  refine ⟨rfl, h.lost, ?_, ?_, ?_, ?_, hnamed⟩
  · rw [htext, List.length_append]
    exact h.arrived.trans (Nat.le_add_right _ _)
  · rw [hheard]
    exact h.reader
  · rw [← hmore, List.length_append]
    exact h.received.trans (Nat.le_add_right _ _)
  · rw [hheard, h.updates, ← hmore, List.take_append_of_le_length h.received]

private theorem Carries.received_all (hsse : WritesUpdates sse) (h : Carries sse c d)
    (hall : c.arrived = (c.text sse).length) : d.received = d.watch.sent.length := by
  have hheard : c.heard sse = updatesText sse c.watch.sent := by
    rw [Stream.heard, hall, List.take_length]
    rfl
  obtain ⟨k, hk, hupdates, -, hnext⟩ := updatesOf_read hsse (List.prefix_refl
    (updatesText sse c.watch.sent))
  have hwhole := all_of_whole hk hnext
  have hlength := congrArg List.length (h.updates.symm.trans (hheard ▸ hupdates))
  simp only [List.length_map, List.length_take] at hlength
  have hreceived := h.received
  rw [h.watch]
  omega

theorem Carries.ended (hsse : WritesUpdates sse) (h : Carries sse c d)
    (hended : c.ended sse = true) : d.ended = true := by
  rw [Stream.ended] at hended
  rw [LiveUpdates.Stream.ended, h.lost, h.watch]
  rcases Bool.or_eq_true_iff.mp hended with hlost | hdone
  · rw [hlost, Bool.true_or]
  · obtain ⟨hreturned, hall⟩ := Bool.and_eq_true_iff.mp hdone
    have hreceived := h.received_all hsse (of_decide_eq_true hall)
    rw [h.watch] at hreceived
    rw [hreturned, hreceived]
    simp

end Arrival

section Loading

variable {α β : Type} {R : α → β → Prop} {xs : List α} {ys : List β}

theorem forall₂_getElem (h : List.Forall₂ R xs ys) {i : ℕ} {x : α} (hx : xs[i]? = some x) :
    ∃ y, ys[i]? = some y ∧ R x y := by
  obtain ⟨hi, rfl⟩ := List.getElem?_eq_some_iff.mp hx
  have hlength : i < ys.length := h.length_eq ▸ hi
  exact ⟨ys[i], List.getElem?_eq_getElem hlength, h.get hi hlength⟩

private theorem forall₂_set (h : List.Forall₂ R xs ys) (i : ℕ) {x : α} {y : β} (hxy : R x y) :
    List.Forall₂ R (xs.set i x) (ys.set i y) := by
  induction h generalizing i with
  | nil => exact .nil
  | cons hR hrest ih =>
      cases i with
      | zero => exact .cons hxy hrest
      | succ i => exact .cons hR (ih i)

private theorem forall₂_eraseIdx (h : List.Forall₂ R xs ys) (i : ℕ) :
    List.Forall₂ R (xs.eraseIdx i) (ys.eraseIdx i) := by
  induction h generalizing i with
  | nil => exact .nil
  | cons hR hrest ih =>
      cases i with
      | zero => exact hrest
      | succ i => exact .cons hR (ih i)

end Loading

section Answered

variable {sse : String → String → List Char} {engine : Engine} {w : State} {s : LiveUpdates.State}

private theorem settles_response (engine : Engine) (jobId : String) (res : Response) :
    settles engine jobId (.ok res) =
      (Frontend.JobsApi.receive engine "Failed to fetch job" res).mapError fun e =>
        some (engine.messageOf e) :=
  rfl

private theorem answers_status (engine : Engine) (jobId : String) (status : JobStatus) :
    Answers (settles engine jobId (.ok (handleGetJobStatus (some status)))) (.ok status) := by
  have hnames : (jobStatus.map Prod.fst).Nodup := by decide
  obtain ⟨o, hobject, hshows⟩ := shows_objectOf hnames status
  have hparse : Base.JsonText.parse (handleGetJobStatus (some status)).body =
      some (objectOf jobStatus status) :=
    Base.JsonMembers.parse_marshal (by decide) (Etl.Responses.fits_jobStatus status)
  have hok : Frontend.Api.ok (handleGetJobStatus (some status)) = true := rfl
  have hdata : settles engine jobId (.ok (handleGetJobStatus (some status))) =
      .ok (objectOf jobStatus status) := by
    rw [settles_response, Frontend.JobsApi.receive, if_pos hok, Frontend.Api.json, hparse]
    rfl
  rw [hdata]
  exact .ok hobject hshows

private theorem settles_refused (engine : Engine) (jobId : String) :
    settles engine jobId (.ok (handleGetJobStatus none)) =
      .error (some "failed to get job status") := by
  have hstatus : 300 ≤ 500 := by decide
  rw [settles_response, handleGetJobStatus, Frontend.JobsApi.receive_failed engine hstatus]
  rfl

theorem Refines.answered (h : Refines sse engine w s) {w' : State} {i : ℕ}
    {answer : Except Thrown Response} {loaded : Loaded}
    (hanswer : Answers (settles engine w.jobId answer) loaded)
    (hnamed : ∀ status, loaded = .ok status → status.state ≠ .unspecified)
    (hstep : w.answered i answer = some w') :
    ∃ s', s.answered i loaded = some s' ∧ Refines sse engine w' s' := by
  unfold State.answered at hstep
  split at hstep
  · next first hload =>
      obtain rfl := Option.some.inj hstep
      obtain ⟨⟨first', answer'⟩, hfetch, hagree⟩ := forall₂_getElem h.loads hload
      obtain rfl : first = first' := hagree.first
      obtain rfl : answer' = none := rel_none hagree.answer
      refine ⟨{ s with fetches := s.fetches.set i ⟨first, some loaded⟩ }, ?_, ?_⟩
      · simp only [LiveUpdates.State.answered, hfetch]
      · refine { h with loads := forall₂_set h.loads i ⟨rfl, .some hanswer, ?_⟩ }
        intro status hstatus
        exact hnamed status (Option.some.inj hstatus)
  · cases hstep

end Answered

section Steps

variable {sse : String → String → List Char} {engine : Engine} {w w' : State}
  {s : LiveUpdates.State}

def Follows (sse : String → String → List Char) (engine : Engine)
    (ok : LiveUpdates.State → LiveUpdates.Act → Prop) (s : LiveUpdates.State) (w' : State) : Prop :=
  ∃ s', Relation.ReflTransGen (Next LiveUpdates.step ok) s s' ∧ Refines sse engine w' s'

variable {ok : LiveUpdates.State → LiveUpdates.Act → Prop}

private theorem Follows.one {s' : LiveUpdates.State} {b : LiveUpdates.Act} (hb : ok s b)
    (hstep : LiveUpdates.step s b = some s') (h : Refines sse engine w' s') :
    Follows sse engine ok s w' :=
  ⟨s', .single ⟨b, hb, hstep⟩, h⟩

private theorem carries_request (h : Refines sse engine w s) : Carries sse w.request s.request where
  watch := by rw [State.request, LiveUpdates.State.request, h.jobId]
  lost := by rw [State.request, LiveUpdates.State.request, h.sys]
  arrived := Nat.zero_le _
  reader := rfl
  received := Nat.zero_le _
  updates := rfl
  named := ⟨fun _ hu => absurd hu List.not_mem_nil, fun _ hpoint => by cases hpoint⟩

private theorem running_eq (h : Refines sse engine w s) :
    s.stream.any LiveUpdates.Stream.running = w.stream.any Stream.running := by
  have hstream := h.stream
  cases hw : w.stream with
  | none =>
      rw [hw] at hstream
      rw [rel_none hstream]
      rfl
  | some c =>
      rw [hw] at hstream
      obtain ⟨d, hs, hcarries⟩ := rel_some hstream
      rw [hs]
      change d.running = c.running
      rw [LiveUpdates.Stream.running, Stream.running, hcarries.lost, hcarries.watch]

theorem Refines.process (h : Refines sse engine w s) (sys : Step.State) :
    Refines sse engine (w.withSys sys) (s.withSys sys) := by
  refine { h with sys := rfl, stream := ?_ }
  have hstream := h.stream
  change Option.Rel _ (w.stream.map _) (s.stream.map _)
  cases hw : w.stream with
  | none =>
      rw [hw] at hstream
      rw [rel_none hstream]
      exact .none
  | some c =>
      rw [hw] at hstream
      obtain ⟨d, hs, hcarries⟩ := rel_some hstream
      rw [hs]
      exact .some { hcarries with lost := by dsimp only; rw [hcarries.lost] }

private theorem key_eq (h : Refines sse engine w s) :
    w.key = (s.page.job.map (·.state)).map fun a => (enumValue a).toInt := by
  have hjob := h.page.job
  have hnamed := h.named
  unfold State.key
  cases hp : s.page.job with
  | none =>
      rw [hp] at hjob
      cases hv : w.view.job with
      | none => rfl
      | some o =>
          rw [hv] at hjob
          cases hjob
  | some job =>
      rw [hp] at hjob hnamed
      cases hv : w.view.job with
      | none =>
          rw [hv] at hjob
          cases hjob
      | some o =>
          rw [hv] at hjob
          cases hjob with
          | some hshows =>
              have hstate : o "state" = number (enumValue job.state) :=
                hshows ("state", fun s => number (enumValue s.state)) (by simp [jobStatus])
              have hvalue := enumValue_ne_zero (hnamed job rfl)
              rw [Option.bind_some, hstate, numberIn_number, if_neg hvalue]
              rfl

private theorem enumValue_injective {a b : JobState}
    (h : (enumValue a).toInt = (enumValue b).toInt) :
    a = b := by
  revert h
  cases a <;> cases b <;> decide

theorem key_eq_deps_iff (h : Refines sse engine w s) :
    w.key = w.deps ↔ s.page.job.map (·.state) = s.deps := by
  rw [key_eq h, h.deps]
  exact (Option.map_injective fun a b => enumValue_injective).eq_iff

theorem Refines.cleanup (h : Refines sse engine w s) :
    Refines sse engine w.cleanup s.cleanup := by
  have hstream := h.stream
  unfold State.cleanup LiveUpdates.State.cleanup
  cases hw : w.stream with
  | none =>
      rw [hw] at hstream
      rw [rel_none hstream]
      exact h
  | some c =>
      rw [hw] at hstream
      obtain ⟨d, hs, -⟩ := rel_some hstream
      rw [hs]
      exact { h with page := h.page.disconnected, stream := .none }

theorem Refines.subscribe (h : Refines sse engine w s) :
    Refines sse engine w.subscribe s.subscribe := by
  have hjob := h.page.job
  unfold State.subscribe LiveUpdates.State.subscribe
  cases hv : w.view.job with
  | none =>
      rw [hv] at hjob
      rw [rel_none hjob]
      exact h
  | some o =>
      rw [hv] at hjob
      obtain ⟨job, hp, hshows⟩ := rel_some hjob
      have hsame := isTerminalState_status hshows
      rw [hp]
      dsimp only
      rw [JobDetail.isTerminalState_number, hsame]
      split
      · exact h
      · exact { h with page := h.page.connected, stream := .some (carries_request h) }

private theorem named_foldl {us : List JobUpdate} (hus : ∀ u ∈ us, u.state ≠ .unspecified)
    {p : Page}
    (hp : ∀ job ∈ p.job, job.state ≠ .unspecified) :
    ∀ job ∈ (us.foldl Page.onUpdate p).job, job.state ≠ .unspecified := by
  induction us generalizing p with
  | nil => exact hp
  | cons u us ih =>
      obtain ⟨hu, hrest⟩ := List.forall_mem_cons.mp hus
      refine ih hrest fun job hjob => ?_
      obtain ⟨prev, -, rfl⟩ := Option.map_eq_some_iff.mp hjob
      exact hu

private theorem follows_arrive (hsse : WritesUpdates sse) (hok : ∀ s, ok s .deliver)
    (h : Refines sse engine w s) {c : Stream} (hw : w.stream = some c) (n : ℕ) :
    Follows sse engine ok s (w.hears sse c n) := by
  have hstream := h.stream
  rw [hw] at hstream
  obtain ⟨d, hs, hcarries⟩ := rel_some hstream
  obtain ⟨us, hus, hupdates, hmore⟩ := hcarries.more hsse n
  have hobjects := objects_of_messages us
  rw [← hupdates] at hobjects
  have hnamed : ∀ u ∈ us, u.state ≠ .unspecified := by
    intro u hu
    refine hcarries.named.sent u ?_
    rw [← hcarries.watch]
    exact List.mem_of_mem_drop (hus.subset hu)
  exact ⟨receives s d us, path_receives hok hs hus,
    { sys := h.sys
      jobId := h.jobId
      page := mirrors_foldl hobjects h.page
      deps := h.deps
      named := named_foldl hnamed h.named
      stream := .some hmore
      loads := List.rel_append h.loads (loads_started w.jobId hobjects) }⟩

theorem Refines.settled (h : Refines sse engine w s) {i : ℕ} {l : Load}
    {f : LiveUpdates.Fetch} (hload : Loads engine w.jobId l f) {a : Except Thrown Response}
    (ha : l.answer = some a) :
    ∃ b, f.answer = some b ∧ Refines sse engine (w.settled engine i l a) (s.settled i f b) := by
  have hanswer := hload.answer
  rw [ha] at hanswer
  obtain ⟨b, hb, hagree⟩ := rel_some hanswer
  have hnamed : ∀ status, b = .ok status → status.state ≠ .unspecified :=
    fun status hstatus => hload.named status (hb.trans (congrArg some hstatus))
  refine ⟨b, hb, ?_⟩
  unfold State.settled LiveUpdates.State.settled
  rw [hload.first]
  refine { h with page := ?_, named := ?_, loads := forall₂_eraseIdx h.loads i }
  · dsimp only
    split
    · exact h.page.loaded hagree
    · exact h.page.refetched hagree
  · intro job hjob
    cases b with
    | error message =>
        refine h.named job ?_
        dsimp only at hjob
        split at hjob <;> exact hjob
    | ok status =>
        obtain rfl : status = job := by
          dsimp only at hjob
          split at hjob <;> exact Option.some.inj hjob
        exact hnamed status rfl

private theorem follows_process {a : Step.Act} (hok : ok s (.process a))
    (h : Refines sse engine w s)
    (hstep : step sse engine w (.process a) = some w') : Follows sse engine ok s w' := by
  simp only [step] at hstep
  split at hstep
  · cases hstep
  · next hfree =>
      obtain ⟨sys, hsys, rfl⟩ := Option.map_eq_some_iff.mp hstep
      have hmove : LiveUpdates.step s (.process a) = some (s.withSys sys) := by
        simp only [LiveUpdates.step, running_eq h, if_neg hfree, h.sys, hsys, Option.map_some]
      exact .one hok hmove (h.process sys)

private theorem follows_watch {ev : Event} (hok : ok s (.watch ev)) (h : Refines sse engine w s)
    (hstep : step sse engine w (.watch ev) = some w') : Follows sse engine ok s w' := by
  obtain ⟨c, hw, hrest⟩ := Option.bind_eq_some_iff.mp hstep
  have hstream := h.stream
  rw [hw] at hstream
  obtain ⟨d, hs, hcarries⟩ := rel_some hstream
  split at hrest
  · cases hrest
  · next hkept =>
      obtain ⟨w'', hcall, rfl⟩ := Option.map_eq_some_iff.mp hrest
      obtain ⟨hsent, hnamed⟩ := extends_of_step hcall hcarries.named
      have hmove : LiveUpdates.step s (.watch ev) = some (s.withWatch d w'') := by
        simp only [LiveUpdates.step, hs, Option.bind_some, hcarries.lost, if_neg hkept, h.sys,
          hcarries.watch, hcall, Option.map_some]
      exact .one hok hmove { h with stream := .some (hcarries.watched hsent hnamed) }

private theorem follows_reconnect (hsse : WritesUpdates sse) (hok : ok s .reconnect)
    (h : Refines sse engine w s) (hstep : step sse engine w .reconnect = some w') :
    Follows sse engine ok s w' := by
  obtain ⟨c, hw, hrest⟩ := Option.bind_eq_some_iff.mp hstep
  have hstream := h.stream
  rw [hw] at hstream
  obtain ⟨d, hs, hcarries⟩ := rel_some hstream
  split at hrest
  · next hended =>
      obtain rfl := Option.some.inj hrest
      have hmove : LiveUpdates.step s .reconnect =
          some { s with page := s.page.disconnected, stream := some s.request } := by
        simp only [LiveUpdates.step, hs, Option.bind_some, hcarries.ended hsse hended, if_true]
      exact .one hok hmove
        { h with page := h.page.disconnected, stream := .some (carries_request h) }
  · cases hrest

private theorem follows_effect (hok : ok s .effect) (h : Refines sse engine w s)
    (hstep : step sse engine w .effect = some w') : Follows sse engine ok s w' := by
  simp only [step] at hstep
  split at hstep
  · cases hstep
  · next hkey =>
      obtain rfl := Option.some.inj hstep
      have hmove : LiveUpdates.step s .effect =
          some { s.cleanup.subscribe with deps := s.page.job.map (·.state) } := by
        simp only [LiveUpdates.step]
        exact if_neg fun heq => hkey ((key_eq_deps_iff h).mpr heq)
      exact .one hok hmove { h.cleanup.subscribe with deps := key_eq h }

private theorem follows_read {i : ℕ} (hok : ok s (.read i)) (h : Refines sse engine w s)
    (hstep : step sse engine w (.read i) = some w') : Follows sse engine ok s w' := by
  simp only [step] at hstep
  split at hstep
  · cases hstep
  · next hserves =>
      obtain ⟨row, hrow, hanswered⟩ := Option.bind_eq_some_iff.mp hstep
      have hnamed : ∀ status, (.ok (scanJobStatus row) : Loaded) = .ok status →
          status.state ≠ .unspecified := by
        intro status hstatus
        cases hstatus
        exact stateOf_ne row
      obtain ⟨s', hs', hrefines⟩ :=
        h.answered (answers_status engine w.jobId _) hnamed hanswered
      have hmove : LiveUpdates.step s (.read i) = some s' := by
        simp only [LiveUpdates.step, h.sys, if_neg hserves, h.jobId, hrow, Option.bind_some, hs']
      exact .one hok hmove hrefines

private theorem follows_failure {i : ℕ} {answer : Except Thrown Response} {message : Option String}
    (hok : ok s (.reject i message)) (h : Refines sse engine w s)
    (hsettles : settles engine w.jobId answer = .error message)
    (hstep : w.answered i answer = some w') : Follows sse engine ok s w' := by
  have hagree : Answers (settles engine w.jobId answer) (.error message) := by
    rw [hsettles]
    exact .error _
  obtain ⟨s', hs', hrefines⟩ := h.answered hagree (fun _ hstatus => by cases hstatus) hstep
  have hmove : LiveUpdates.step s (.reject i message) = some s' := hs'
  exact .one hok hmove hrefines

private theorem follows_settle {i : ℕ} (hok : ok s (.settle i)) (h : Refines sse engine w s)
    (hstep : step sse engine w (.settle i) = some w') : Follows sse engine ok s w' := by
  simp only [step] at hstep
  split at hstep
  · next first answer hload =>
      obtain rfl := Option.some.inj hstep
      obtain ⟨⟨first', answer'⟩, hfetch, hagree⟩ := forall₂_getElem h.loads hload
      obtain ⟨b, hb, hrefines⟩ := h.settled (i := i) hagree rfl
      obtain rfl : answer' = some b := hb
      have hmove : LiveUpdates.step s (.settle i) = some (s.settled i ⟨first', some b⟩ b) := by
        simp only [LiveUpdates.step, hfetch]
      exact .one hok hmove hrefines
  · cases hstep

/-- Each step in the browser is followed by steps of the page of messages, and by calm ones
if nothing fails. -/
theorem follows_of_step (hsse : WritesUpdates sse) {calm : Prop} {a : Act}
    (h : Refines sse engine w s) (ha : calm → Undisturbed w a)
    (hstep : step sse engine w a = some w') :
    Follows sse engine (fun s b => calm → LiveUpdates.Undisturbed s b) s w' := by
  cases a with
  | process a => exact follows_process (fun _ => trivial) h hstep
  | watch ev => exact follows_watch ha h hstep
  | arrive n =>
      obtain ⟨c, hw, rfl⟩ := Option.map_eq_some_iff.mp hstep
      exact follows_arrive hsse (fun _ _ => trivial) h hw n
  | reconnect => exact follows_reconnect hsse (fun _ => trivial) h hstep
  | effect => exact follows_effect (fun _ => trivial) h hstep
  | read i => exact follows_read (fun _ => trivial) h hstep
  | refuse i => exact follows_failure ha h (settles_refused engine w.jobId) hstep
  | reject i err => exact follows_failure ha h rfl hstep
  | settle i => exact follows_settle (fun _ => trivial) h hstep

end Steps

def ginEvent (name json : String) : List Char :=
  "event:".toList ++ name.toList ++ "\ndata:".toList ++ json.toList ++ "\n\n".toList

theorem ginEvent_writes : WritesUpdates ginEvent := by
  intro json
  rfl

/-- The job is loaded and its call polls twice, before and after a worker starts the job; the
first message arrives in two pieces. -/
def pieceRun : List Act :=
  [.read 0, .settle 0, .effect, .watch (.check false), .watch (.read true),
    .watch (.send true Base.Calendar.Time.zero), .arrive 20, .arrive 100,
    .process (.call 0 (.send Base.Calendar.Time.zero)), .process (.receive 0),
    .process (.work 0 {}), .watch .wake, .watch (.check false), .watch (.read true),
    .watch (.send true Base.Calendar.Time.zero), .arrive 200]

def opened : State := mounted ExactlyOnce.submitted "job-1"

def pieceEnd : State := (run (step ginEvent browser) opened pieceRun).getD opened

theorem opens_opened : Opens opened := by
  obtain ⟨sys, jobId, r, hreach, hr, hopened⟩ := LiveUpdates.opens_opened
  obtain rfl : ExactlyOnce.submitted = sys := congrArg LiveUpdates.State.sys hopened
  obtain rfl : "job-1" = jobId := congrArg LiveUpdates.State.jobId hopened
  exact ⟨_, _, r, hreach, hr, rfl⟩

private theorem pieceEnd_reachable :
    Reachable Opens (step ginEvent browser) Undisturbed pieceEnd := by
  have hrun : run (step ginEvent browser) opened pieceRun = some pieceEnd :=
    run_eq_getD (by decide +kernel) opened
  have hmeets : Meets (step ginEvent browser) Undisturbed opened pieceRun := by decide +kernel
  exact .of_run opens_opened hrun hmeets

section Runs

variable {sse : String → String → List Char} {engine : Engine} {w : State}

theorem refines_of_opens (h : Opens w) : ∃ s, LiveUpdates.Opens s ∧ Refines sse engine w s := by
  obtain ⟨sys, jobId, r, hreach, hr, rfl⟩ := h
  refine ⟨LiveUpdates.mounted sys jobId, ⟨sys, jobId, r, hreach, hr, rfl⟩, ?_⟩
  exact
    { sys := rfl
      jobId := rfl
      page := mirrors_start
      deps := rfl
      named := fun job hjob => absurd hjob (Option.not_mem_none job)
      stream := .none
      loads := .cons ⟨rfl, .none, fun _ hstatus => by cases hstatus⟩ .nil }

theorem refines_of_reachable (hsse : WritesUpdates sse) {calm : Prop}
    (h : Reachable Opens (step sse engine) (fun w a => calm → Undisturbed w a) w) :
    ∃ s, Reachable LiveUpdates.Opens LiveUpdates.step
        (fun s b => calm → LiveUpdates.Undisturbed s b) s ∧
      Refines sse engine w s :=
  Reachable.simulated (fun _ => refines_of_opens)
    (fun _ _ _ _ hrefines ha hstep => follows_of_step hsse hrefines ha hstep) h

/-- However the text of the streams is cut up on its way, and whatever fails: the page in
the browser is at every moment a page that reads whole messages, beside the same process,
and shows what that page shows; if nothing fails for the one, nothing fails for the
other. -/
theorem page_refines (hsse : WritesUpdates sse) {calm : Prop}
    (h : Reachable Opens (step sse engine) (fun w a => calm → Undisturbed w a) w) :
    ∃ s, Reachable LiveUpdates.Opens LiveUpdates.step
        (fun s b => calm → LiveUpdates.Undisturbed s b) s ∧
      s.sys = w.sys ∧ s.jobId = w.jobId ∧ Mirrors w.view s.page ∧
      w.view.job.map attemptRow = s.page.job.map Frontend.JobDetail.attemptRow ∧
      w.view.job.bind errorPanel = s.page.job.bind Frontend.JobDetail.errorPanel ∧
      w.view.job.map isTerminalState =
        s.page.job.map fun job => Etl.WatchJob.isTerminal job.state := by
  obtain ⟨s, hreach, hrefines⟩ := refines_of_reachable hsse h
  refine ⟨s, hreach, hrefines.sys, hrefines.jobId, hrefines.page, ?_⟩
  have hjob := hrefines.page.job
  cases hv : w.view.job with
  | none =>
      rw [hv] at hjob
      rw [rel_none hjob]
      exact ⟨rfl, rfl, rfl⟩
  | some o =>
      rw [hv] at hjob
      obtain ⟨job, hp, hshows⟩ := rel_some hjob
      rw [hp]
      exact ⟨congrArg some (attemptRow_eq hshows), errorPanel_eq hshows,
        congrArg some (isTerminalState_status hshows)⟩

theorem page_refines_pieceEnd :
    pieceEnd.view.updates.length = 2 ∧
      ∃ s, Reachable LiveUpdates.Opens LiveUpdates.step
          (fun s b => True → LiveUpdates.Undisturbed s b) s ∧
        s.sys = pieceEnd.sys ∧ Mirrors pieceEnd.view s.page := by
  have hcalm : Reachable Opens (step ginEvent browser) (fun w a => True → Undisturbed w a)
      pieceEnd :=
    pieceEnd_reachable.mono fun _ _ ha _ => ha
  obtain ⟨s, hreach, hsys, -, hpage, -⟩ := page_refines ginEvent_writes hcalm
  exact ⟨by decide +kernel, s, hreach, hsys, hpage⟩

/-- The updates that the page lists, newest first: each shows a message of the process, none
goes back behind an older one, and none is ahead of the row. -/
theorem listed_in_order (hsse : WritesUpdates sse)
    (h : Reachable Opens (step sse engine) (fun _ _ => True) w) :
    ∃ (us : List JobUpdate) (r : Store.Tables.JobRow),
      List.Forall₂ (Shows jobUpdate) w.view.updates us ∧
      (us.map (·.state)).Pairwise (fun newer older => AtMost Before older newer) ∧
      w.sys.db.jobs.byId w.jobId = some r ∧
      ∀ u ∈ us, AtMost Before u.state (Etl.WatchJob.stateOf r) := by
  have hany : Reachable Opens (step sse engine) (fun w a => False → Undisturbed w a) w :=
    h.mono fun _ _ _ => False.elim
  obtain ⟨s, hreach, hrefines⟩ := refines_of_reachable hsse hany
  have htracked : LiveUpdates.Tracked s :=
    hreach.invariant (fun _ => LiveUpdates.tracked_of_opens)
      fun _ _ _ htracked _ => LiveUpdates.tracked_of_step htracked
  obtain ⟨-, r, hr, hconsistent⟩ := htracked
  have hkept := hconsistent.orderly.kept
  have hcurrent := hconsistent.orderly.kept_current
  rw [LiveUpdates.feed_kept] at hkept hcurrent
  rw [LiveUpdates.feed_current] at hcurrent
  refine ⟨s.page.updates, r, hrefines.page.updates, hkept, ?_, ?_⟩
  · rw [← hrefines.sys, ← hrefines.jobId]
    exact hr
  · intro u hu
    exact hcurrent u.state (List.mem_map_of_mem hu)

theorem listed_in_order_pieceEnd :
    pieceEnd.view.updates.length = 2 ∧
      ∃ us : List JobUpdate, List.Forall₂ (Shows jobUpdate) pieceEnd.view.updates us ∧
        (us.map (·.state)).Pairwise fun newer older => AtMost Before older newer := by
  obtain ⟨us, -, hshows, hordered, -⟩ :=
    listed_in_order ginEvent_writes (pieceEnd_reachable.mono fun _ _ _ => trivial)
  exact ⟨by decide +kernel, us, hshows, hordered⟩

end Runs

section Callback

variable {sse : String → String → List Char} {s : Watching.State}

private theorem heard_prefix (hsse : WritesUpdates sse) {us : List JobUpdate}
    {pieces : List (List Char)}
    (harrived : pieces.flatten <+: updatesText sse us) :
    ∃ k ≤ us.length,
      updatesOf (readPieces {} pieces).2 = (us.take k).map (objectOf jobUpdate) ∧
        (pieces.flatten = updatesText sse us → k = us.length) := by
  obtain ⟨k, hk, hupdates, -, hnext⟩ := updatesOf_read hsse harrived
  rw [← readPieces_eq] at hupdates
  refine ⟨k, hk, hupdates, fun hall => ?_⟩
  rw [hall] at hnext
  exact all_of_whole hk hnext

private theorem shows_getLast {objects : List Object} {us : List JobUpdate}
    (h : List.Forall₂ (Shows jobUpdate) objects us) {u : JobUpdate} (hu : us.getLast? = some u) :
    ∃ o, objects.getLast? = some o ∧ Shows jobUpdate o u := by
  rw [List.getLast?_eq_head?_reverse, List.head?_eq_getElem?] at hu ⊢
  have hflip : List.Forall₂ (flip (Shows jobUpdate)) us.reverse objects.reverse :=
    (List.rel_reverse h).flip
  exact forall₂_getElem hflip hu

/-- However the text of a stream is cut up and wherever it is cut off: what the callback has
had are the first messages of the call, whose states rise along the row's history; when the
call has returned nil and its text is complete, the last one has the state and the
counters of the row, which stay. -/
theorem callback_follows (hsse : WritesUpdates sse)
    (h : Reachable Watching.Starts Watching.step Watching.Undisturbed s)
    {pieces : List (List Char)} (harrived : pieces.flatten <+: updatesText sse s.watch.sent) :
    ∃ us objects, objects = (updatesOf (readPieces {} pieces).2).filterMap asObject ∧
      us <+: s.watch.sent ∧ List.Forall₂ (Shows jobUpdate) objects us ∧
      (us.map (·.state)).Pairwise Before ∧
      (us.map (·.state)).Sublist (s.history.map Watching.jobState) ∧
      (s.watch.point = .returned none → pieces.flatten = updatesText sse s.watch.sent →
        ∃ o r, objects.getLast? = some o ∧ isTerminalState o = true ∧
          numberIn (o "state") = some (enumValue (Etl.WatchJob.stateOf r)).toInt ∧
          orZero (o "videos_fetched") = r.videosFetched.toInt ∧
          orZero (o "videos_inserted") = r.videosInserted.toInt ∧
          ∀ t, Relation.ReflTransGen (Next Step.step Step.Anything) s.sys t →
            t.db.jobs.byId s.jobId = some r) := by
  obtain ⟨hreach, r, hr, hconsistent⟩ := Watching.watched_of_reachable h
  obtain ⟨hrise, hsub⟩ := hconsistent.states_rise
  obtain ⟨k, -, hupdates, hall⟩ := heard_prefix hsse harrived
  have hbegun : s.watch.sent.take k <+: s.watch.sent := List.take_prefix k _
  have hstates : ((s.watch.sent.take k).map (·.state)).Sublist s.states :=
    (hbegun.map (·.state)).sublist
  have hobjects := objects_of_messages (s.watch.sent.take k)
  rw [← hupdates] at hobjects
  refine ⟨s.watch.sent.take k, _, rfl, hbegun, hobjects, hrise.sublist hstates,
    hstates.trans hsub, ?_⟩
  intro hreturned hwhole
  obtain ⟨u, hu, hterminal⟩ := hconsistent.returned_iff.mp hreturned
  have htake : (s.watch.sent.take k).getLast? = some u := by
    rw [hall hwhole, List.take_length]
    exact hu
  obtain ⟨o, ho, hshows⟩ := shows_getLast hobjects htake
  obtain ⟨now, rfl⟩ := hconsistent.ends u (List.mem_of_getLast? hu) hterminal
  have hstate : o "state" = number (enumValue (Etl.WatchJob.stateOf r)) :=
    hshows ("state", fun u => number (enumValue u.state)) (by simp [jobUpdate])
  have hfetched : o "videos_fetched" = number r.videosFetched :=
    hshows ("videos_fetched", fun u => number u.videosFetched) (by simp [jobUpdate])
  have hinserted : o "videos_inserted" = number r.videosInserted :=
    hshows ("videos_inserted", fun u => number u.videosInserted) (by simp [jobUpdate])
  refine ⟨o, r, ho, (isTerminalState_update hshows).trans hterminal, ?_, ?_, ?_, ?_⟩
  · rw [hstate, numberIn_number, if_neg (enumValue_ne_zero (stateOf_ne r))]
  · rw [hfetched, orZero_number]
  · rw [hinserted, orZero_number]
  · intro t hpath
    obtain ⟨r', hr', hfollows⟩ := Lifecycle.follows_of_path hreach hpath hr
    have hrow : r.state.terminal = true := by
      rw [← Etl.WatchJob.stateOf_terminal]
      exact hterminal
    rw [hr', hfollows.terminal hrow]

/-- The text of the job that runs between two polls, in two pieces. -/
def quickPieces : List (List Char) :=
  let text := updatesText ginEvent Watching.quickEnd.watch.sent
  [text.take 30, text.drop 30]

theorem callback_follows_quickEnd :
    ∃ objects o, objects = (updatesOf (readPieces {} quickPieces).2).filterMap asObject ∧
      objects.getLast? = some o ∧ isTerminalState o = true := by
  have hwhole : quickPieces.flatten = updatesText ginEvent Watching.quickEnd.watch.sent := by
    rw [quickPieces, List.flatten_cons, List.flatten_cons, List.flatten_nil, List.append_nil,
      List.take_append_drop]
  have harrived : quickPieces.flatten <+: updatesText ginEvent Watching.quickEnd.watch.sent := by
    rw [hwhole]
  obtain ⟨us, objects, hobjects, -, -, -, -, hend⟩ :=
    callback_follows ginEvent_writes Watching.quickEnd_reachable harrived
  obtain ⟨o, r, ho, hterminal, -⟩ := hend (by decide) hwhole
  exact ⟨objects, o, hobjects, ho, hterminal⟩

end Callback

end TrendingPipeline.System.WirePage

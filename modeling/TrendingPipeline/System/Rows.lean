/- Unit: TrendingPipeline/System/Rows
   source: backend/worker/worker.go, backend/db/db.go
   digest: What the row of a job says at each stage of the job, and after its release. -/

import TrendingPipeline.System.Custody

set_option autoImplicit false
set_option relaxedAutoImplicit false

namespace TrendingPipeline.System.Rows

open TrendingPipeline.Base.Calendar (Time)
open TrendingPipeline.Base.Runs (Reachable)
open TrendingPipeline.Store.Tables (Db JobProgress JobRow JobsTable RowState)
open TrendingPipeline.Store.Statements
open TrendingPipeline.Worker.ProcessJob (DeadReason Job maxAttempts toInt_ofNat_of_le)
open TrendingPipeline.Worker.Machine (Input Point)
open TrendingPipeline.Worker.Effects
open TrendingPipeline.Youtube.FetchTrending (Video)
open TrendingPipeline.System.Step
open TrendingPipeline.System.Custody

def Waiting (p : JobProgress) : Prop := p = {}

/-- Started, and `k` failed attempts are recorded. -/
structure Attempted (k : Nat) (p : JobProgress) : Prop where
  bound : k ≤ maxAttempts
  state : p.state = if k = 0 then .running else .retrying
  attempt : p.attempt = Int32.ofNat k
  videosFetched : p.videosFetched = 0
  videosInserted : p.videosInserted = 0
  errorMessage : p.errorMessage.isSome = decide (0 < k)
  nextRetryAt : p.nextRetryAt.isSome = decide (0 < k)
  startedAt : p.startedAt.isSome = true
  completedAt : p.completedAt = none

/-- Completed, by an attempt after `k` failed ones. -/
structure Completed (k : Nat) (p : JobProgress) : Prop where
  bound : k < maxAttempts
  state : p.state = .done
  attempt : p.attempt = Int32.ofNat k
  counts : p.videosInserted = p.videosFetched
  errorMessage : p.errorMessage.isSome = decide (0 < k)
  nextRetryAt : p.nextRetryAt = none
  startedAt : p.startedAt.isSome = true
  completedAt : p.completedAt.isSome = true

/-- Given up after `k` recorded failures. -/
structure GivenUp (k : Nat) (p : JobProgress) : Prop where
  bound : k ≤ maxAttempts
  state : p.state = .dead
  attempt : p.attempt = Int32.ofNat k
  videosFetched : p.videosFetched = 0
  videosInserted : p.videosInserted = 0
  errorMessage : p.errorMessage.isSome = true
  nextRetryAt : p.nextRetryAt = none
  completedAt : p.completedAt = none

def Open (p : JobProgress) : Prop := Waiting p ∨ ∃ k, Attempted k p

def Closed (p : JobProgress) : Prop := (∃ k, Completed k p) ∨ ∃ k, GivenUp k p

/-- The row of a job at a stage, with what the worker's own variables have to do with it. -/
def RowAt : Stage → JobProgress → Prop
  | .hand, p | .queued, p | .working .start, p => Waiting p
  | .working (.fetch attempt), p | .working (.retry attempt), p =>
      ∃ k, attempt = k + 1 ∧ k < maxAttempts ∧ Attempted k p
  | .working (.ingest attempt todo fetched count), p =>
      (∃ k, attempt = k + 1 ∧ k < maxAttempts ∧ Attempted k p) ∧
        fetched = count + Int32.ofNat todo.length
  | .working (.sleep attempt), p => 0 < attempt ∧ Attempted attempt p
  | .working (.dead .started), p => Waiting p ∨ Attempted 0 p
  | .working (.dead .retrying), p | .working (.dead .inserting), p => ∃ k, Attempted k p
  | .working (.dead .exhausted), p => Attempted maxAttempts p

theorem RowAt.isOpen {st : Stage} {p : JobProgress} (h : RowAt st p) : Open p := by
  cases st with
  | hand => exact .inl h
  | queued => exact .inl h
  | working q =>
      cases q with
      | start => exact .inl h
      | fetch attempt =>
          obtain ⟨k, -, -, hk⟩ := h
          exact .inr ⟨k, hk⟩
      | retry attempt =>
          obtain ⟨k, -, -, hk⟩ := h
          exact .inr ⟨k, hk⟩
      | sleep attempt => exact .inr ⟨attempt, h.2⟩
      | ingest attempt todo fetched count =>
          obtain ⟨⟨k, -, -, hk⟩, -⟩ := h
          exact .inr ⟨k, hk⟩
      | dead reason =>
          cases reason with
          | started => exact h.imp_right fun h => ⟨0, h⟩
          | retrying => exact .inr h
          | inserting => exact .inr h
          | exhausted => exact .inr ⟨maxAttempts, h⟩

theorem Open.not_terminal {p : JobProgress} (h : Open p) : p.state.terminal = false := by
  rcases h with rfl | ⟨k, hk⟩
  · rfl
  · rw [hk.state]
    split <;> rfl

theorem Closed.terminal {p : JobProgress} (h : Closed p) : p.state.terminal = true := by
  rcases h with ⟨k, hk⟩ | ⟨k, hk⟩
  · rw [hk.state]
    rfl
  · rw [hk.state]
    rfl

theorem waiting_of_queued {p : JobProgress} (h : Open p ∨ Closed p) (hqueued : p.state = .queued) :
    Waiting p := by
  rcases h with (hwait | ⟨k, hk⟩) | hclosed
  · exact hwait
  · have hstate := hk.state
    rw [hqueued] at hstate
    split at hstate <;> cases hstate
  · have hterminal := hclosed.terminal
    rw [hqueued] at hterminal
    cases hterminal

variable {p : JobProgress} {k : Nat}

theorem Waiting.started (h : Waiting p) (t : Time) : Attempted 0 (started t p) := by
  obtain rfl := h
  constructor <;> first | rfl | decide

theorem Attempted.retrying (h : Attempted k p) (hk : k < maxAttempts) (message : String)
    (t : Time) : Attempted (k + 1) (retrying message (Int32.ofNat (k + 1)) t p) where
  bound := hk
  state := rfl
  attempt := rfl
  videosFetched := h.videosFetched
  videosInserted := h.videosInserted
  errorMessage := rfl
  nextRetryAt := rfl
  startedAt := h.startedAt
  completedAt := h.completedAt

theorem Attempted.completed (h : Attempted k p) (hk : k < maxAttempts) (t : Time) (n : Int32) :
    Completed k (completed t n n p) where
  bound := hk
  state := rfl
  attempt := h.attempt
  counts := rfl
  errorMessage := h.errorMessage
  nextRetryAt := rfl
  startedAt := h.startedAt
  completedAt := rfl

theorem Open.dead (h : Open p) (message : String) : ∃ k, GivenUp k (dead message p) := by
  rcases h with rfl | ⟨k, hk⟩
  · exact ⟨0, by constructor <;> first | rfl | decide⟩
  · exact
      ⟨k,
        { bound := hk.bound
          state := rfl
          attempt := hk.attempt
          videosFetched := hk.videosFetched
          videosInserted := hk.videosInserted
          errorMessage := rfl
          nextRetryAt := rfl
          completedAt := hk.completedAt }⟩

def lifecycle (p : JobProgress) : RowState × Int := (p.state, p.attempt.toInt)

inductive Advances : RowState × Int → RowState × Int → Prop
  | started (a : Int) : Advances (.queued, a) (.running, a)
  | refused (a : Int) : Advances (.queued, a) (.dead, a)
  | failed (a b : Int) : a < b → Advances (.running, a) (.retrying, b)
  | finished (a : Int) : Advances (.running, a) (.done, a)
  | stopped (a : Int) : Advances (.running, a) (.dead, a)
  | failedAgain (a b : Int) : a < b → Advances (.retrying, a) (.retrying, b)
  | finishedLate (a : Int) : Advances (.retrying, a) (.done, a)
  | exhausted (a : Int) : Advances (.retrying, a) (.dead, a)

private theorem lifecycle_of_attempted (h : Attempted k p) :
    lifecycle p = (if k = 0 then .running else .retrying, (k : Int)) := by
  rw [lifecycle, h.state, h.attempt, toInt_ofNat_of_le h.bound]

private theorem Waiting.advances_started (h : Waiting p) (t : Time) :
    Advances (lifecycle p) (lifecycle (Store.Statements.started t p)) := by
  obtain rfl := h
  exact .started 0

private theorem Attempted.advances_retrying (h : Attempted k p) (hk : k < maxAttempts)
    (message : String)
    (t : Time) :
    Advances (lifecycle p)
      (lifecycle (Store.Statements.retrying message (Int32.ofNat (k + 1)) t p)) := by
  rw [lifecycle_of_attempted h, lifecycle_of_attempted (h.retrying hk message t)]
  by_cases hzero : k = 0
  · subst hzero
    exact .failed _ _ (by decide)
  · rw [if_neg hzero, if_neg (Nat.succ_ne_zero k)]
    exact .failedAgain _ _ (by push_cast; omega)

private theorem Attempted.advances_completed (h : Attempted k p) (t : Time) (f n : Int32) :
    Advances (lifecycle p) (lifecycle (Store.Statements.completed t f n p)) := by
  have hend : lifecycle (Store.Statements.completed t f n p) = (.done, (k : Int)) := by
    rw [lifecycle, ← toInt_ofNat_of_le h.bound, ← h.attempt]
    rfl
  rw [hend, lifecycle_of_attempted h]
  split
  · exact .finished _
  · exact .finishedLate _

private theorem Open.advances_dead (h : Open p) (message : String) :
    Advances (lifecycle p) (lifecycle (Store.Statements.dead message p)) := by
  rcases h with rfl | ⟨k, hk⟩
  · exact .refused _
  · have hend : lifecycle (Store.Statements.dead message p) = (.dead, (k : Int)) := by
      rw [lifecycle, ← toInt_ofNat_of_le hk.bound, ← hk.attempt]
      rfl
    rw [hend, lifecycle_of_attempted hk]
    split
    · exact .stopped _
    · exact .exhausted _

section Step

variable {job : Job} {inp : Input} {db db' : Db} {q : Point} {next : Worker.Machine.Next}
  {r : JobRow}

/-- What a step has to make of the row, by where it leads. -/
def RowAfter (inp : Input) (r r' : JobRow) : Worker.Machine.Next → Prop
  | .goto q => RowAt (.working q) r'.toJobProgress
  | .returned => Closed r'.toJobProgress ∨ inp.fault = .lost ∧ r' = r
  | .panicked => r' = r

/-- The row stays as it is, or it was open and moves on in its lifecycle. -/
def Progresses (r r' : JobRow) : Prop :=
  r' = r ∨ Open r.toJobProgress ∧ Advances (lifecycle r.toJobProgress) (lifecycle r'.toJobProgress)

private theorem row_afterFailure {f : Fault} {g : JobProgress → JobProgress}
    (h : AfterFailure f db db' (some (updateJob db job.id g)))
    (hr : db.jobs.byId job.id = some r) :
    ∃ r', db'.jobs.byId job.id = some r' ∧ (r' = r ∨ r' = r.apply g) := by
  rcases h with rfl | ⟨-, heffect⟩
  · exact ⟨r, hr, .inl rfl⟩
  · obtain rfl := Option.some.inj heffect
    exact ⟨r.apply g, byId_updateJob_self g hr, .inr rfl⟩

theorem row_of_steps (h : Steps job inp db q next db') (hr : db.jobs.byId job.id = some r)
    (hat : RowAt (.working q) r.toJobProgress) :
    ∃ r', db'.jobs.byId job.id = some r' ∧ Progresses r r' ∧ RowAfter inp r r' next := by
  -- an UPDATE that is applied moves an open row on
  have hadvances : ∀ r', Advances (lifecycle r.toJobProgress) (lifecycle r'.toJobProgress) →
      Progresses r r' := fun _ hadv => .inr ⟨hat.isOpen, hadv⟩
  cases h with
  | started =>
      have hwait : Waiting r.toJobProgress := hat
      exact ⟨_, byId_updateJob_self _ hr, hadvances _ (hwait.advances_started _), 0, rfl, by decide,
        hwait.started _⟩
  | startFailed db' _ hafter =>
      have hwait : Waiting r.toJobProgress := hat
      obtain ⟨r', hr', hrow⟩ := row_afterFailure hafter hr
      rcases hrow with rfl | rfl
      · exact ⟨r', hr', .inl rfl, .inl hwait⟩
      · exact ⟨_, hr', hadvances _ (hwait.advances_started _), .inr (hwait.started _)⟩
  | panicked => exact ⟨r, hr, .inl rfl, rfl⟩
  | fetchFailed => exact ⟨r, hr, .inl rfl, hat⟩
  | fetched attempt videos =>
      refine ⟨r, hr, .inl rfl, hat, ?_⟩
      rw [Int32.zero_add]
  | retried attempt =>
      obtain ⟨k, rfl, hk, hopen⟩ := hat
      exact ⟨_, byId_updateJob_self _ hr, hadvances _ (hopen.advances_retrying hk _ _),
        Nat.succ_pos k, hopen.retrying hk _ _⟩
  | retryFailed attempt db' _ hafter =>
      obtain ⟨k, rfl, hk, hopen⟩ := hat
      obtain ⟨r', hr', hrow⟩ := row_afterFailure hafter hr
      rcases hrow with rfl | rfl
      · exact ⟨r', hr', .inl rfl, k, hopen⟩
      · exact ⟨_, hr', hadvances _ (hopen.advances_retrying hk _ _), k + 1, hopen.retrying hk _ _⟩
  | slept attempt hlt =>
      obtain ⟨-, hopen⟩ := hat
      exact ⟨r, hr, .inl rfl, attempt, rfl, hlt, hopen⟩
  | exhausted attempt hge =>
      obtain ⟨-, hopen⟩ := hat
      obtain rfl := le_antisymm hge hopen.bound
      exact ⟨r, hr, .inl rfl, hopen⟩
  | inserted attempt v vs fetched count db' _ hinsert =>
      obtain ⟨hopen, hcount⟩ := hat
      refine ⟨r, by rw [insertVideo_jobs hinsert]; exact hr, .inl rfl, hopen, ?_⟩
      rw [hcount, List.length_cons, Int32.ofNat_add, Int32.add_assoc]
      congr 1
      exact Int32.add_comm _ _
  | insertFailed attempt v vs fetched count db' hafter =>
      obtain ⟨⟨k, -, -, hopen⟩, -⟩ := hat
      exact ⟨r, by rw [hafter.jobs_of_video]; exact hr, .inl rfl, k, hopen⟩
  | completed attempt fetched count =>
      obtain ⟨⟨k, -, hk, hopen⟩, hcount⟩ := hat
      have hsame : fetched = count := by
        rw [hcount]
        exact Int32.add_zero count
      subst hsame
      exact ⟨_, byId_updateJob_self _ hr, hadvances _ (hopen.advances_completed _ _ _),
        .inl (.inl ⟨k, hopen.completed hk _ _⟩)⟩
  | completionLost attempt fetched count hlost => exact ⟨r, hr, .inl rfl, .inr ⟨hlost, rfl⟩⟩
  | died reason =>
      have hopen := hat.isOpen
      exact ⟨_, byId_updateJob_self _ hr, hadvances _ (hopen.advances_dead _),
        .inl (.inr (hopen.dead _))⟩
  | deathLost reason hlost => exact ⟨r, hr, .inl rfl, .inr ⟨hlost, rfl⟩⟩

end Step

variable {ok : Fault → Prop} {l l' : Ledger}

/-- Every held job has a row, as the stage of the job wants it. -/
def Tended (l : Ledger) : Prop :=
  ∀ x ∈ l.held, ∃ r, l.db.jobs.byId x.1.id = some r ∧ RowAt x.2 r.toJobProgress

theorem heldIds_nodup (h : Balanced l) : l.heldIds.Nodup := by
  have hall : (l.heldIds + l.released).Nodup := by
    rw [h.balance]
    exact h.nodup
  exact (Multiset.nodup_add.mp hall).1

theorem id_ne_of_held (h : Balanced l) {job : Job} {a : Stage} {rest : Multiset (Job × Stage)}
    (hheld : l.held = (job, a) ::ₘ rest) {x : Job × Stage} (hx : x ∈ rest) : x.1.id ≠ job.id := by
  have hnodup := heldIds_nodup h
  rw [Ledger.heldIds, hheld, Multiset.map_cons, Multiset.nodup_cons] at hnodup
  intro hid
  exact hnodup.1 (Multiset.mem_map.mpr ⟨x, hx, hid⟩)

theorem byId_of_insertJob {db db' : Db} {now : Time} {jobId id : String}
    {req : Proto.Messages.JobRequest} (hinsert : insertJob db now jobId req = some db') {r : JobRow}
    (hr : db.jobs.byId id = some r) : db'.jobs.byId id = some r := by
  have hne : jobId ≠ id := by
    rintro rfl
    refine insertJob_fresh hinsert (JobsTable.byId_isSome_iff.mp ?_)
    rw [hr]
    rfl
  rw [byId_insertJob hinsert, if_neg hne, hr]

theorem Tended.handOver (h : Tended l) {job : Job} {a b : Stage} {rest : Multiset (Job × Stage)}
    (hheld : l.held = (job, a) ::ₘ rest) (hpass : ∀ p, RowAt a p → RowAt b p) :
    Tended { l with held := (job, b) ::ₘ rest } := by
  intro x hx
  rcases Multiset.mem_cons.mp hx with rfl | hx
  · obtain ⟨r, hr, hat⟩ := h (job, a) (hheld ▸ Multiset.mem_cons_self _ _)
    exact ⟨r, hr, hpass _ hat⟩
  · exact h x (hheld ▸ Multiset.mem_cons_of_mem hx)

/-- A worker's step, seen from the row of its job and from the rows of the others. -/
theorem Tended.row (h : Tended l) {job : Job} {q : Point} {inp : Input} {db : Db}
    {next : Worker.Machine.Next} {rest : Multiset (Job × Stage)}
    (hheld : l.held = (job, .working q) ::ₘ rest) (hsteps : Steps job inp l.db q next db) :
    ∃ r r', l.db.jobs.byId job.id = some r ∧ db.jobs.byId job.id = some r' ∧ Progresses r r' ∧
      RowAfter inp r r' next := by
  obtain ⟨r, hr, hat⟩ := h (job, .working q) (hheld ▸ Multiset.mem_cons_self _ _)
  obtain ⟨r', hr', hprogress, hafter⟩ := row_of_steps hsteps hr hat
  exact ⟨r, r', hr, hr', hprogress, hafter⟩

theorem Tended.step (hbal : Balanced l) (h : Tended l) (hmove : Moves ok l l') : Tended l' := by
  have hothers : ∀ (job : Job) (q : Point) (inp : Input) (next : Worker.Machine.Next) (db : Db)
      (rest : Multiset (Job × Stage)), l.held = (job, .working q) ::ₘ rest →
      Steps job inp l.db q next db →
      ∀ x ∈ rest, ∃ r, db.jobs.byId x.1.id = some r ∧ RowAt x.2 r.toJobProgress := by
    intro job q inp next db rest hheld hsteps x hx
    obtain ⟨r, hr, hat⟩ := h x (hheld ▸ Multiset.mem_cons_of_mem hx)
    exact ⟨r, by rw [hsteps.byId_of_ne (id_ne_of_held hbal hheld hx), hr], hat⟩
  cases hmove with
  | quiet => exact h
  | create jobId req now db hinsert =>
      intro x hx
      rcases Multiset.mem_cons.mp hx with rfl | hx
      · exact ⟨newRow now jobId req, by rw [byId_insertJob hinsert]; simp, rfl⟩
      · obtain ⟨r, hr, hat⟩ := h x hx
        exact ⟨r, byId_of_insertJob hinsert hr, hat⟩
  | orphan jobId req now db _ hinsert =>
      intro x hx
      obtain ⟨r, hr, hat⟩ := h x hx
      exact ⟨r, byId_of_insertJob hinsert hr, hat⟩
  | enqueue job rest hheld => exact h.handOver hheld fun _ hat => hat
  | receive job rest hheld => exact h.handOver hheld fun _ hat => hat
  | work job q q' inp db rest hheld _ hsteps =>
      intro x hx
      rcases Multiset.mem_cons.mp hx with rfl | hx
      · obtain ⟨_, r', _, hr', _, hafter⟩ := h.row hheld hsteps
        exact ⟨r', hr', hafter⟩
      · exact hothers job q inp _ db rest hheld hsteps x hx
  | release job q inp db rest hheld _ hsteps =>
      exact fun x hx => hothers job q inp _ db rest hheld hsteps x hx
  | halt => exact fun x hx => absurd hx (Multiset.notMem_zero x)

theorem progresses_of_moves (h : Tended l) (hmove : Moves ok l l') {id : String}
    {r : JobRow} (hr : l.db.jobs.byId id = some r) :
    ∃ r', l'.db.jobs.byId id = some r' ∧ Progresses r r' := by
  have hwork : ∀ (job : Job) (q : Point) (inp : Input) (next : Worker.Machine.Next) (db : Db)
      (rest : Multiset (Job × Stage)), l.held = (job, .working q) ::ₘ rest →
      Steps job inp l.db q next db → ∃ r', db.jobs.byId id = some r' ∧ Progresses r r' := by
    intro job q inp next db rest hheld hsteps
    by_cases hid : id = job.id
    · subst hid
      obtain ⟨r₀, r', hr₀, hr', hprogress, _⟩ := h.row hheld hsteps
      obtain rfl := Option.some.inj (hr.symm.trans hr₀)
      exact ⟨r', hr', hprogress⟩
    · exact ⟨r, by rw [hsteps.byId_of_ne hid, hr], .inl rfl⟩
  cases hmove with
  | quiet => exact ⟨r, hr, .inl rfl⟩
  | create jobId req now db hinsert => exact ⟨r, byId_of_insertJob hinsert hr, .inl rfl⟩
  | orphan jobId req now db _ hinsert => exact ⟨r, byId_of_insertJob hinsert hr, .inl rfl⟩
  | enqueue => exact ⟨r, hr, .inl rfl⟩
  | receive => exact ⟨r, hr, .inl rfl⟩
  | work job q q' inp db rest hheld _ hsteps => exact hwork job q inp _ db rest hheld hsteps
  | release job q inp db rest hheld _ hsteps => exact hwork job q inp _ db rest hheld hsteps
  | halt => exact ⟨r, hr, .inl rfl⟩

theorem waiting_of_new (hmove : Moves ok l l') {id : String} {r : JobRow}
    (hnew : l.db.jobs.byId id = none) (hr : l'.db.jobs.byId id = some r) :
    Waiting r.toJobProgress := by
  have hinserted : ∀ (jobId : String) (req : Proto.Messages.JobRequest) (now : Time) (db : Db),
      insertJob l.db now jobId req = some db → db.jobs.byId id = some r →
      Waiting r.toJobProgress := by
    intro jobId req now db hinsert hrow
    rw [byId_insertJob hinsert] at hrow
    split at hrow
    · obtain rfl := Option.some.inj hrow
      rfl
    · rw [hnew] at hrow
      cases hrow
  have hsame : ∀ db : Db, db.jobs.rows.map (·.jobId) = l.db.jobs.rows.map (·.jobId) →
      db.jobs.byId id ≠ some r := by
    intro db hids hrow
    have hmem : id ∈ db.jobs.rows.map (·.jobId) :=
      JobsTable.byId_isSome_iff.mp (by rw [hrow]; rfl)
    rw [hids, ← JobsTable.byId_isSome_iff, hnew] at hmem
    cases hmem
  cases hmove with
  | quiet => exact absurd hr (hsame _ rfl)
  | create jobId req now db hinsert => exact hinserted jobId req now db hinsert hr
  | orphan jobId req now db _ hinsert => exact hinserted jobId req now db hinsert hr
  | enqueue => exact absurd hr (hsame _ rfl)
  | receive => exact absurd hr (hsame _ rfl)
  | work job q q' inp db rest _ _ hsteps => exact absurd hr (hsame _ hsteps.ids)
  | release job q inp db rest _ _ hsteps => exact absurd hr (hsame _ hsteps.ids)
  | halt => exact absurd hr (hsame _ rfl)

/-- Every row is one that processJob writes, or waits for it. -/
def Regular (l : Ledger) : Prop :=
  ∀ id r, l.db.jobs.byId id = some r → Open r.toJobProgress ∨ Closed r.toJobProgress

theorem Regular.step (hten : Tended l) (h : Regular l) (hmove : Moves ok l l') : Regular l' := by
  intro id r' hr'
  cases hr : l.db.jobs.byId id with
  | none => exact .inl (.inl (waiting_of_new hmove hr hr'))
  | some r =>
      have hsame : l'.db.jobs.byId id = some r →
          Open r'.toJobProgress ∨ Closed r'.toJobProgress := by
        intro hkept
        obtain rfl := Option.some.inj (hr'.symm.trans hkept)
        exact h id r' hr
      cases hmove with
      | quiet => exact hsame hr
      | create jobId req now db hinsert => exact hsame (byId_of_insertJob hinsert hr)
      | orphan jobId req now db _ hinsert => exact hsame (byId_of_insertJob hinsert hr)
      | enqueue => exact hsame hr
      | receive => exact hsame hr
      | work job q q' inp db rest hheld _ hsteps =>
          by_cases hid : id = job.id
          · subst hid
            obtain ⟨_, r₁, _, hr₁, _, hafter⟩ := hten.row hheld hsteps
            obtain rfl := Option.some.inj (hr'.symm.trans hr₁)
            exact .inl (RowAt.isOpen hafter)
          · exact hsame (by rw [hsteps.byId_of_ne hid, hr])
      | release job q inp db rest hheld _ hsteps =>
          by_cases hid : id = job.id
          · subst hid
            obtain ⟨r₀, r₁, hr₀, hr₁, _, hafter⟩ := hten.row hheld hsteps
            rcases hafter with hclosed | ⟨-, rfl⟩
            · obtain rfl := Option.some.inj (hr'.symm.trans hr₁)
              exact .inr hclosed
            · exact hsame (hr₁.trans (hr₀.symm.trans hr))
          · exact hsame (by rw [hsteps.byId_of_ne hid, hr])
      | halt => exact hsame hr

variable {s : State}

theorem tended_of_reachable (h : Reachable Cold step Anything s) : Tended (ofState s) := by
  refine (h.invariant (I := fun s => Balanced (ofState s) ∧ Tended (ofState s)) ?_ ?_).2
  · rintro _ ⟨db, rfl⟩
    exact ⟨balanced_cold db, fun x hx => absurd hx (Multiset.notMem_zero x)⟩
  · rintro s a t ⟨hbal, hten⟩ _ hstep
    have hmove := moves_any hstep
    exact ⟨hbal.step hmove, hten.step hbal hmove⟩

theorem regular_of_reachable (h : Reachable Migrated step Anything s) : Regular (ofState s) := by
  refine (h.invariant (I := fun s => Reachable Cold step Anything s ∧ Regular (ofState s)) ?_ ?_).2
  · rintro _ rfl
    exact ⟨⟨_, ⟨.empty, rfl⟩, .refl⟩, fun id r hr => by cases hr⟩
  · rintro s a t ⟨hreach, hreg⟩ _ hstep
    have hmove := moves_any hstep
    exact ⟨hreach.next trivial hstep, hreg.step (tended_of_reachable hreach) hmove⟩

end TrendingPipeline.System.Rows

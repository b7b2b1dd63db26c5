/- Unit: TrendingPipeline/Worker/Endings
   source: backend/worker/worker.go
   digest: How a run of processJob ends, told from what the outside answered. -/

import TrendingPipeline.Worker.Machine

set_option autoImplicit false
set_option relaxedAutoImplicit false

namespace TrendingPipeline.Worker.Endings

open TrendingPipeline.Base.Calendar (Time)
open TrendingPipeline.Store.Tables (Db JobProgress JobRow JobsTable RowState VideosTable)
open TrendingPipeline.Store.Statements
open TrendingPipeline.Worker.ProcessJob
open TrendingPipeline.Youtube.FetchTrending (FetchError HttpResult Outcome Video fetchTrending_ok
  fetchTrending_panicked_iff)

def Unfinished (db : Db) (id : String) : Prop :=
  ∃ r, db.jobs.byId id = some r ∧ r.state.terminal = false

def Finished (db : Db) (id : String) : Prop :=
  ∃ r, db.jobs.byId id = some r ∧ r.state.terminal = true

theorem Unfinished.not_finished {db : Db} {id : String} (h : Unfinished db id) :
    ¬ Finished db id := by
  obtain ⟨r, hr, hstate⟩ := h
  rintro ⟨r', hr', hstate'⟩
  obtain rfl := Option.some.inj (hr.symm.trans hr')
  rw [hstate] at hstate'
  cases hstate'

theorem Unfinished.exec_update {db : Db} {id : String} (h : Unfinished db id) (f : Fault)
    {g : JobProgress → JobProgress} (hg : ∀ p, (g p).state.terminal = false) :
    Unfinished (f.exec db (some (updateJob db id g))).2 id := by
  obtain ⟨r, hr, hstate⟩ := h
  refine ⟨_, byId_exec_updateJob f g hr, ?_⟩
  split
  · exact hstate
  · exact hg r.toJobProgress

private theorem Unfinished.exec_insertVideo {db : Db} {id : String} (h : Unfinished db id)
    (f : Fault)
    (v : Video) : Unfinished (f.exec db (insertVideo db v)).2 id := by
  have hnew : ∀ db', insertVideo db v = some db' → Unfinished db' id := by
    intro db' hv
    simpa only [Unfinished, insertVideo_jobs hv] using h
  cases hv : insertVideo db v with
  | none => simpa using h
  | some db' =>
      cases f with
      | none => exact hnew db' hv
      | lost => exact h
      | applied => exact hnew db' hv

theorem Unfinished.finished_exec_iff {db : Db} {id : String} (h : Unfinished db id) (f : Fault)
    {g : JobProgress → JobProgress} (hg : ∀ p, (g p).state.terminal = true) :
    Finished (f.exec db (some (updateJob db id g))).2 id ↔ f ≠ .lost := by
  obtain ⟨r, hr, hstate⟩ := h
  have hrow := byId_exec_updateJob f g hr
  constructor
  · rintro hfin rfl
    rw [if_pos rfl] at hrow
    exact Unfinished.not_finished ⟨r, hrow, hstate⟩ hfin
  · intro hne
    rw [if_neg hne] at hrow
    exact ⟨r.apply g, hrow, hg r.toJobProgress⟩

/-- The attempt is made: the job was started, and every attempt before failed and
was recorded. -/
structure Tried (env : Env) (job : Job) (attempt : Nat) : Prop where
  started : env.started = .none
  first : 1 ≤ attempt
  last : attempt ≤ maxAttempts
  before : ∀ b, 1 ≤ b → b < attempt →
    (∃ e, env.fetch job b = .returned (.error e)) ∧ env.retrying b = .none

/-- Every video of the list is inserted: no statement fails and the schema
rejects none. -/
def Accepted (env : Env) : List Video → VideosTable → Prop
  | [], _ => True
  | v :: vs, t => env.inserting vs.length = .none ∧ ∃ t', t.insert v = some t' ∧ Accepted env vs t'

def Completes (env : Env) (db : Db) (job : Job) : Prop :=
  ∃ attempt videos, Tried env job attempt ∧ env.fetch job attempt = .returned (.ok videos) ∧
    Accepted env videos db.videos

theorem fetch_panicked_iff {env : Env} {job : Job} {attempt : Nat} :
    env.fetch job attempt = .panicked ↔ job.req.maxResults.toInt < 0 :=
  fetchTrending_panicked_iff

def FailedBefore (env : Env) (job : Job) (attempt : Nat) : Prop :=
  ∀ b, 1 ≤ b → b < attempt →
    (∃ e, env.fetch job b = .returned (.error e)) ∧ env.retrying b = .none

section FailedBefore

variable {env : Env} {db : Db} {job : Job} {attempt : Nat} {e : FetchError}

theorem FailedBefore.next (h : FailedBefore env job attempt)
    (hfetch : env.fetch job attempt = .returned (.error e))
    (hretry : env.retrying attempt = .none) : FailedBefore env job (attempt + 1) := by
  intro b hb hlt
  by_cases hbe : b = attempt
  · subst hbe
    exact ⟨⟨e, hfetch⟩, hretry⟩
  · exact h b hb (by omega)

private theorem FailedBefore.le_of_ok {a : Nat} {videos : List Video}
    (h : FailedBefore env job attempt)
    (hfirst : 1 ≤ a) (hok : env.fetch job a = .returned (.ok videos)) : attempt ≤ a := by
  by_contra hlt
  obtain ⟨⟨e, he⟩, -⟩ := h a hfirst (by omega)
  rw [hok] at he
  cases he

private theorem FailedBefore.not_completes_exhausted (h : FailedBefore env job (maxAttempts + 1)) :
    ¬ Completes env db job := by
  rintro ⟨a, videos, htried, hok, -⟩
  have hle := h.le_of_ok htried.first hok
  have hlast := htried.last
  omega

private theorem FailedBefore.not_completes_unrecorded (h : FailedBefore env job attempt)
    (hfirst : 1 ≤ attempt) (hfetch : env.fetch job attempt = .returned (.error e))
    (hretry : env.retrying attempt ≠ .none) : ¬ Completes env db job := by
  rintro ⟨a, videos, htried, hok, -⟩
  have hle := h.le_of_ok htried.first hok
  have hne : a ≠ attempt := by
    rintro rfl
    rw [hok] at hfetch
    cases hfetch
  exact hretry (htried.before attempt hfirst (by omega)).2

private theorem Tried.failedBefore (h : Tried env job attempt) :
    FailedBefore env job attempt := h.before

private theorem Tried.eq_of_ok {a b : Nat} {videos videos' : List Video} (ha : Tried env job a)
    (hb : Tried env job b) (hva : env.fetch job a = .returned (.ok videos))
    (hvb : env.fetch job b = .returned (.ok videos')) : a = b :=
  le_antisymm (ha.failedBefore.le_of_ok hb.first hvb) (hb.failedBefore.le_of_ok ha.first hva)

end FailedBefore

private theorem insertVideo_of_unfinished {db : Db} {v : Video} (h : Unfinished db v.jobId) :
    (insertVideo db v).map (·.videos) = db.videos.insert v := by
  obtain ⟨r, hr, -⟩ := h
  have hmem : v.jobId ∈ db.jobs.rows.map (·.jobId) :=
    JobsTable.byId_isSome_iff.mp (by simp [hr])
  unfold insertVideo
  rw [dif_pos hmem]
  split <;> simp_all

private theorem insertLoop_accepted (env : Env) {id : String} (videos : List Video) (db : Db)
    (n : Int32)
    (hrow : Unfinished db id) (hids : ∀ v ∈ videos, v.jobId = id) :
    Unfinished (insertLoop env videos db n).2.1 id ∧
      ((insertLoop env videos db n).1 = true ↔ Accepted env videos db.videos) := by
  induction videos generalizing db n with
  | nil => exact ⟨hrow, by simp [insertLoop, Accepted]⟩
  | cons v vs ih =>
      have hid : v.jobId = id := hids v List.mem_cons_self
      have hvideos := insertVideo_of_unfinished (hid ▸ hrow : Unfinished db v.jobId)
      have hrow' := hrow.exec_insertVideo (env.inserting vs.length) v
      simp only [insertLoop, Accepted]
      cases hexec : (env.inserting vs.length).exec db (insertVideo db v) with
      | mk ok mid =>
          rw [hexec] at hrow'
          cases ok with
          | true =>
              obtain ⟨hfault, hsome⟩ := Fault.exec_ok hexec
              rw [hsome, Option.map_some] at hvideos
              obtain ⟨hopen, hiff⟩ := ih mid (n + 1) hrow' fun w hw =>
                hids w (List.mem_cons_of_mem v hw)
              refine ⟨hopen, hiff.trans ⟨fun h => ⟨hfault, mid.videos, hvideos.symm, h⟩, ?_⟩⟩
              rintro ⟨-, t', ht', h⟩
              obtain rfl := Option.some.inj (ht'.symm.trans hvideos.symm)
              exact h
          | false =>
              refine ⟨hrow', ⟨fun h => Bool.noConfusion h, ?_⟩⟩
              rintro ⟨hfault, t', ht', -⟩
              rw [hfault] at hexec
              cases hins : insertVideo db v with
              | none => simp [hins, ht'] at hvideos
              | some db' => simp [hins] at hexec

/-- The three ways to end, each with what the outside must have answered. -/
inductive EndsBy (env : Env) (db : Db) (job : Job) : Ending → Prop
  | panicked {e : Ending} : e.exit = .panicked → env.started = .none →
      job.req.maxResults.toInt < 0 → Unfinished e.db job.id → EndsBy env db job e
  | completed {e : Ending} (mid : Db) (fetched inserted : Int32) :
      e.exit = .returned → Completes env db job → Unfinished mid job.id →
      e.db = (env.completed.exec mid
        (some (updateJobCompleted mid job.id env.completedAt fetched inserted))).2 →
      EndsBy env db job e
  | gaveUp {e : Ending} (mid : Db) (reason : DeadReason) :
      e.exit = .returned → ¬ Completes env db job →
      ¬ (env.started = .none ∧ job.req.maxResults.toInt < 0) → Unfinished mid job.id →
      e.db = (env.dead.exec mid (some (updateJobDead mid job.id reason.message))).2 →
      EndsBy env db job e

theorem EndsBy.congr {env : Env} {db : Db} {job : Job} {e e' : Ending} (h : EndsBy env db job e)
    (hexit : e'.exit = e.exit) (hdb : e'.db = e.db) : EndsBy env db job e' := by
  cases h with
  | panicked h₁ h₂ h₃ h₄ => exact .panicked (hexit.trans h₁) h₂ h₃ (hdb ▸ h₄)
  | completed mid f n h₁ h₂ h₃ h₄ => exact .completed mid f n (hexit.trans h₁) h₂ h₃ (hdb.trans h₄)
  | gaveUp mid r h₁ h₂ h₃ h₄ h₅ => exact .gaveUp mid r (hexit.trans h₁) h₂ h₃ h₄ (hdb.trans h₅)

private theorem giveUp_endsBy {env : Env} {db : Db} {job : Job} {mid : Db} (reason : DeadReason)
    (hnot : ¬ Completes env db job)
    (hcap : ¬ (env.started = .none ∧ job.req.maxResults.toInt < 0))
    (hrow : Unfinished mid job.id) : EndsBy env db job (env.giveUp job reason mid) :=
  .gaveUp mid reason rfl hnot hcap hrow rfl

private theorem ingest_endsBy {env : Env} {db mid : Db} {job : Job} {attempt : Nat}
    {videos : List Video}
    (htried : Tried env job attempt) (hfetch : env.fetch job attempt = .returned (.ok videos))
    (hcap : ¬ job.req.maxResults.toInt < 0) (hvideos : mid.videos = db.videos)
    (hrow : Unfinished mid job.id) : EndsBy env db job (ingest env job videos mid) := by
  have hids : ∀ v ∈ videos, v.jobId = job.id := fun v hv => ((fetchTrending_ok hfetch).2 v hv).1
  obtain ⟨hopen, hiff⟩ := insertLoop_accepted env videos mid 0 hrow hids
  rw [hvideos] at hiff
  unfold ingest
  generalize insertLoop env videos mid 0 = result at hopen hiff ⊢
  obtain ⟨ok, last, n⟩ := result
  cases ok with
  | true =>
      exact .completed last (Int32.ofNat videos.length) n rfl
        ⟨attempt, videos, htried, hfetch, hiff.mp rfl⟩ hopen rfl
  | false =>
      refine giveUp_endsBy .inserting ?_ (fun h => hcap h.2) hopen
      rintro ⟨attempt', videos', htried', hfetch', haccepted⟩
      obtain rfl := htried.eq_of_ok htried' hfetch hfetch'
      rw [hfetch] at hfetch'
      cases hfetch'
      cases hiff.mpr haccepted

private theorem attemptLoop_endsBy {env : Env} {db mid : Db} {job : Job} (left attempt : Nat)
    (hleft : left + attempt = maxAttempts + 1) (hstarted : env.started = .none)
    (hfirst : 1 ≤ attempt) (hbefore : FailedBefore env job attempt)
    (hvideos : mid.videos = db.videos) (hrow : Unfinished mid job.id)
    (hcap : 1 < attempt → ¬ job.req.maxResults.toInt < 0) :
    EndsBy env db job (attemptLoop env job left attempt mid) := by
  induction left generalizing attempt mid with
  | zero =>
      obtain rfl : attempt = maxAttempts + 1 := by omega
      exact giveUp_endsBy .exhausted hbefore.not_completes_exhausted
        (fun h => hcap (by decide) h.2) hrow
  | succ left ih =>
      have htried : Tried env job attempt := ⟨hstarted, hfirst, by omega, hbefore⟩
      simp only [attemptLoop]
      cases hfetch : env.fetch job attempt with
      | panicked => exact .panicked rfl hstarted (fetch_panicked_iff.mp hfetch) hrow
      | returned result =>
          have hnonneg : ¬ job.req.maxResults.toInt < 0 := by
            intro hneg
            rw [fetch_panicked_iff.mpr hneg] at hfetch
            cases hfetch
          cases result with
          | ok videos =>
              exact (ingest_endsBy htried hfetch hnonneg hvideos hrow).congr rfl rfl
          | error e =>
              let g := retrying fetchErrorMessage (Int32.ofNat attempt)
                ((env.retryClock attempt).addSeconds (backoff attempt))
              have hrow' := hrow.exec_update (env.retrying attempt) (g := g) fun _ => rfl
              have hnext : ((env.retrying attempt).exec mid
                  (some (updateJob mid job.id g))).2.videos = mid.videos :=
                videos_exec_updateJob _ g
              dsimp only [updateJobRetrying]
              cases hexec : (env.retrying attempt).exec mid (some (updateJob mid job.id g)) with
              | mk ok next =>
                  rw [hexec] at hrow' hnext
                  cases ok with
                  | true =>
                      have hretry := (Fault.exec_ok hexec).1
                      exact (ih (attempt + 1) (by omega) (by omega) (hbefore.next hfetch hretry)
                        (hnext.trans hvideos) hrow' fun _ => hnonneg).congr rfl rfl
                  | false =>
                      have hretry : env.retrying attempt ≠ .none := by
                        intro h
                        rw [h] at hexec
                        simp at hexec
                      exact (giveUp_endsBy .retrying
                        (hbefore.not_completes_unrecorded hfirst hfetch hretry)
                        (fun h => hnonneg h.2) hrow').congr rfl rfl

theorem processJob_endsBy (env : Env) {db : Db} {job : Job} (hrow : Unfinished db job.id) :
    EndsBy env db job (processJob env db job) := by
  have hrow' : Unfinished (env.started.exec db
      (some (updateJobStarted db job.id env.startedAt))).2 job.id :=
    hrow.exec_update _ fun _ => rfl
  unfold processJob
  cases hexec : env.started.exec db (some (updateJobStarted db job.id env.startedAt)) with
  | mk ok mid =>
      rw [hexec] at hrow'
      cases ok with
      | true =>
          obtain ⟨hstarted, hmid⟩ := Fault.exec_ok hexec
          refine attemptLoop_endsBy maxAttempts 1 rfl hstarted le_rfl (fun b _ _ => by omega) ?_
            hrow' (by omega)
          rw [← Option.some.inj hmid]
          rfl
      | false =>
          have hne : env.started ≠ .none := by
            intro h
            rw [h] at hexec
            simp at hexec
          refine giveUp_endsBy .started ?_ (fun h => hne h.1) hrow'
          rintro ⟨a, videos, htried, -⟩
          exact hne htried.started

end TrendingPipeline.Worker.Endings

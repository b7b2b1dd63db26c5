/- Unit: TrendingPipeline/Worker/Retries
   source: backend/worker/worker.go, backend/db/db.go
   digest: processJob on a healthy database: its attempts, its backoff, what it leaves. -/

import Mathlib.Algebra.BigOperators.Intervals
import TrendingPipeline.Base.JsonRoundTrip
import TrendingPipeline.Worker.Release

set_option autoImplicit false
set_option relaxedAutoImplicit false

namespace TrendingPipeline.Worker.Retries

open Finset (Ico)
open TrendingPipeline.Base.Calendar (Time)
open TrendingPipeline.Base.Decimal (atoi decimal decimal_injective)
open TrendingPipeline.Base.JsonDecode
open TrendingPipeline.Base.JsonRoundTrip (Fits decodeFirst_render)
open TrendingPipeline.Base.JsonText (Json maxNestingDepth render)
open TrendingPipeline.Store.Tables
open TrendingPipeline.Store.Statements
open TrendingPipeline.Worker.ProcessJob
open TrendingPipeline.Worker.Release (sampleDb sampleJob)
open TrendingPipeline.Youtube.FetchTrending

abbrev Outcomes := ℕ → Except FetchError (List Video)

def Fails (f : Outcomes) (k : ℕ) : Prop := ∃ e, f k = .error e

/-- From attempt `a` on, attempt `i` is the first to succeed. -/
structure FirstSuccess (f : Outcomes) (a i : ℕ) (videos : List Video) : Prop where
  first : a ≤ i
  last : i ≤ maxAttempts
  ok : f i = .ok videos
  before : ∀ k, a ≤ k → k < i → Fails f k

structure Healthy (env : Env) : Prop where
  started : env.started = .none
  retrying : ∀ k, env.retrying k = .none
  inserting : ∀ n, env.inserting n = .none
  completed : env.completed = .none
  dead : env.dead = .none

/-- Different ids, and categories in the range of their column. -/
structure Storable (videos : List Video) : Prop where
  ids : (videos.map (·.videoId)).Nodup
  categories : ∀ v ∈ videos, inInteger v.categoryId = true

variable {env : Env} {job : Job} {db mid : Db} {f : Outcomes} {videos : List Video}

private theorem insertVideo_isSome {v : Video} (hjob : v.jobId ∈ db.jobs.rows.map (·.jobId))
    (hkey : videoKey v ∉ db.videos.rows.map videoKey) (hcategory : inInteger v.categoryId = true) :
    ∃ db', insertVideo db v = some db' := by
  have haccepted : (db.videos.insert v).isSome := by
    rw [VideosTable.insert, dif_pos ⟨hkey, hcategory⟩]
    rfl
  unfold insertVideo
  rw [dif_pos hjob]
  split
  · next hrefused =>
      rw [hrefused] at haccepted
      cases haccepted
  · exact ⟨_, rfl⟩

private theorem insertLoop_healthy (henv : Healthy env) {id region : String} (videos : List Video)
    (db : Db) (n : Int32) (hjob : id ∈ db.jobs.rows.map (·.jobId))
    (htagged : ∀ v ∈ videos, v.jobId = id ∧ v.region = region) (hstorable : Storable videos)
    (hnew : ∀ v ∈ videos, videoKey v ∉ db.videos.rows.map videoKey) :
    ∃ db', insertLoop env videos db n = (true, db', n + Int32.ofNat videos.length) ∧
      db'.jobs = db.jobs ∧ db'.videos.rows = videos.reverse ++ db.videos.rows := by
  induction videos generalizing db n with
  | nil => exact ⟨db, by simp [insertLoop], rfl, rfl⟩
  | cons v vs ih =>
      obtain ⟨hid, -⟩ := htagged v List.mem_cons_self
      obtain ⟨hhead, htail⟩ := List.nodup_cons.mp hstorable.ids
      obtain ⟨mid, hmid⟩ := insertVideo_isSome (hid ▸ hjob) (hnew v List.mem_cons_self)
        (hstorable.categories v List.mem_cons_self)
      have hjobs : mid.jobs = db.jobs := insertVideo_jobs hmid
      have hrows : mid.videos.rows = v :: db.videos.rows :=
        VideosTable.rows_insert (insertVideo_videos hmid)
      have hnew' : ∀ w ∈ vs, videoKey w ∉ mid.videos.rows.map videoKey := by
        intro w hw
        rw [hrows, List.map_cons, List.mem_cons, not_or]
        refine ⟨fun hkey => hhead ?_, hnew w (List.mem_cons_of_mem v hw)⟩
        exact List.mem_map.mpr ⟨w, hw, (Prod.mk.inj hkey).1⟩
      obtain ⟨db', hloop, hjobs', hrows'⟩ := ih mid (n + 1) (hjobs ▸ hjob)
        (fun w hw => htagged w (List.mem_cons_of_mem v hw))
        ⟨htail, fun w hw => hstorable.categories w (List.mem_cons_of_mem v hw)⟩ hnew'
      refine ⟨db', ?_, hjobs'.trans hjobs, ?_⟩
      · have hexec : (env.inserting vs.length).exec db (insertVideo db v) = (true, mid) := by
          rw [henv.inserting, hmid]
          rfl
        simp only [insertLoop, hexec, hloop, List.length_cons, Int32.ofNat_add,
          Int32.add_assoc]
        rw [Int32.add_comm 1]
        rfl
      · rw [hrows', hrows, List.reverse_cons, List.append_assoc]
        rfl

/-- After so many failed attempts the row and the tables are like this. -/
structure Attempting (db mid : Db) (job : Job) (failed : ℕ) : Prop where
  row : ∃ r, mid.jobs.byId job.id = some r ∧ r.attempt = Int32.ofNat failed ∧
    r.videosFetched = 0 ∧ r.videosInserted = 0
  others : ∀ id, id ≠ job.id → mid.jobs.byId id = db.jobs.byId id
  videos : mid.videos = db.videos

theorem Attempting.started {r : JobRow} (hrow : db.jobs.byId job.id = some r)
    (hnew : r.toJobProgress = {}) (t : Time) :
    Attempting db (updateJobStarted db job.id t) job 0 where
  row := ⟨_, byId_updateJob_self _ hrow, by simp [JobRow.apply, Store.Statements.started, hnew]⟩
  others _ hne := byId_updateJob_of_ne _ hne
  videos := rfl

theorem Attempting.retrying {failed : ℕ} (h : Attempting db mid job failed) (message : String)
    (k : ℕ) (t : Time) :
    Attempting db (updateJobRetrying mid job.id message (Int32.ofNat k) t) job k where
  row := by
    obtain ⟨r, hr, -, hcounts⟩ := h.row
    exact ⟨_, byId_updateJob_self _ hr, rfl, hcounts⟩
  others id hne := (byId_updateJob_of_ne _ hne).trans (h.others id hne)
  videos := h.videos

/-- The rows and the videos of the other jobs stay as they are. -/
structure OthersUntouched (db db' : Db) (job : Job) : Prop where
  rows : ∀ id, id ≠ job.id → db'.jobs.byId id = db.jobs.byId id
  videos : ∀ id, id ≠ job.id →
    (db'.videos.rows.filter (·.jobId = id)).Perm (db.videos.rows.filter (·.jobId = id))

/-- From attempt `a` on, attempt `i` fetched the videos and they were all stored. -/
structure Done (db : Db) (job : Job) (a i : ℕ) (videos : List Video) (e : Ending) : Prop where
  exit : e.exit = .returned
  fetches : e.fetches + a = i + 1
  slept : e.slept = ∑ k ∈ Ico a i, 2 ^ k
  row : ∃ r, e.db.jobs.byId job.id = some r ∧ r.state = .done ∧ r.attempt.toInt = i - 1 ∧
    r.nextRetryAt = none ∧ r.videosFetched = Int32.ofNat videos.length ∧
    r.videosInserted = Int32.ofNat videos.length ∧
    (videos.length < 2 ^ 31 → r.videosFetched.toInt = videos.length)
  tagged : ∀ v ∈ videos, v.jobId = job.id
  videos : e.db.videos.rows.Perm (videos ++ db.videos.rows)
  others : ∀ id, id ≠ job.id → e.db.jobs.byId id = db.jobs.byId id

/-- From attempt `a` on, no attempt succeeded. -/
structure Dead (db : Db) (job : Job) (a : ℕ) (e : Ending) : Prop where
  exit : e.exit = .returned
  fetches : e.fetches + a = maxAttempts + 1
  slept : e.slept = ∑ k ∈ Ico a (maxAttempts + 1), 2 ^ k
  row : ∃ r, e.db.jobs.byId job.id = some r ∧ r.state = .dead ∧
    r.attempt.toInt = maxAttempts ∧ r.nextRetryAt = none ∧
    r.videosFetched = 0 ∧ r.videosInserted = 0
  videos : e.db.videos = db.videos
  others : ∀ id, id ≠ job.id → e.db.jobs.byId id = db.jobs.byId id

/-- The outcomes are what FetchTrending returns, and what it returns can be stored. -/
structure Answers (env : Env) (job : Job) (f : Outcomes) : Prop where
  fetched : ∀ k, 1 ≤ k → k ≤ maxAttempts → env.fetch job k = .returned (f k)
  storable : ∀ k videos, f k = .ok videos → Storable videos

private theorem attemptLoop_fails (henv : Healthy env) {left a : ℕ} {e : FetchError}
    (hfetch : env.fetch job a = .returned (.error e)) :
    attemptLoop env job (left + 1) a mid =
      let rest := attemptLoop env job left (a + 1)
        (updateJobRetrying mid job.id fetchErrorMessage (Int32.ofNat a)
          ((env.retryClock a).addSeconds (backoff a)))
      { rest with fetches := rest.fetches + 1, slept := rest.slept + backoff a } := by
  rw [attemptLoop, hfetch]
  simp only [henv.retrying]
  rfl

private theorem attemptLoop_succeeds {left a : ℕ}
    (hfetch : env.fetch job a = .returned (.ok videos)) :
    attemptLoop env job (left + 1) a mid =
      { ingest env job videos mid with fetches := 1 } := by
  rw [attemptLoop, hfetch]

theorem videoKey_not_mem (hnone : db.videos.countOf job.id = 0)
    (htagged : ∀ v ∈ videos, v.jobId = job.id) :
    ∀ v ∈ videos, videoKey v ∉ db.videos.rows.map videoKey := by
  intro v hv hmem
  obtain ⟨w, hw, hkey⟩ := List.mem_map.mp hmem
  have hid : w.jobId = v.jobId := (Prod.mk.inj (Prod.mk.inj hkey).2).2
  exact List.countP_eq_zero.mp hnone w hw (by simpa using hid.trans (htagged v hv))

private theorem Done.ingested (henv : Healthy env) {failed : ℕ}
    (hmid : Attempting db mid job failed)
    (hlast : failed < maxAttempts) (hnone : db.videos.countOf job.id = 0)
    (hfetch : env.fetch job (failed + 1) = .returned (.ok videos)) (hstorable : Storable videos) :
    Done db job (failed + 1) (failed + 1) videos
      { ingest env job videos mid with fetches := 1 } := by
  have htagged := (fetchTrending_ok hfetch).2
  obtain ⟨r, hr, hattempt, -, -⟩ := hmid.row
  have hjob : job.id ∈ mid.jobs.rows.map (·.jobId) :=
    JobsTable.byId_isSome_iff.mp (Option.isSome_of_eq_some hr)
  have hnew : ∀ v ∈ videos, videoKey v ∉ mid.videos.rows.map videoKey := by
    rw [hmid.videos]
    exact videoKey_not_mem hnone fun v hv => (htagged v hv).1
  obtain ⟨last, hloop, hjobs, hrows⟩ :=
    insertLoop_healthy henv videos mid 0 hjob htagged hstorable hnew
  have hr' : last.jobs.byId job.id = some r := by rw [hjobs, hr]
  have hingest : ingest env job videos mid =
      { exit := .returned
        db := updateJobCompleted last job.id env.completedAt (Int32.ofNat videos.length)
          (Int32.ofNat videos.length) } := by
    rw [ingest, hloop, henv.completed, Int32.zero_add]
    rfl
  rw [hingest]
  have hcolumn : r.attempt.toInt = ((failed + 1 : ℕ) : ℤ) - 1 := by
    rw [hattempt, toInt_ofNat_of_le (by omega)]
    omega
  refine ⟨rfl, Nat.add_comm _ _, by simp, ⟨_, byId_updateJob_self _ hr', rfl, ?_⟩,
    fun v hv => (htagged v hv).1, ?_, ?_⟩
  · exact ⟨hcolumn, rfl, rfl, rfl, Int32.toInt_ofNat_of_lt⟩
  · rw [← hmid.videos]
    change last.videos.rows.Perm _
    rw [hrows]
    exact videos.reverse_perm.append_right _
  · intro id hne
    rw [← hmid.others id hne, ← hjobs]
    exact byId_updateJob_of_ne _ hne

theorem Dead.exhausted (henv : Healthy env) (hmid : Attempting db mid job maxAttempts) :
    Dead db job (maxAttempts + 1) (env.giveUp job .exhausted mid) := by
  obtain ⟨r, hr, hattempt, hcounts⟩ := hmid.row
  have hend : env.giveUp job .exhausted mid =
      { exit := .returned, db := updateJobDead mid job.id (DeadReason.message .exhausted) } := by
    rw [Env.giveUp, henv.dead]
    rfl
  rw [hend]
  have hcolumn : r.attempt.toInt = maxAttempts := by rw [hattempt, toInt_ofNat_of_le le_rfl]
  exact ⟨rfl, Nat.zero_add _, by simp, ⟨_, byId_updateJob_self _ hr, rfl, hcolumn, rfl, hcounts⟩,
    hmid.videos, fun id hne => (byId_updateJob_of_ne _ hne).trans (hmid.others id hne)⟩

private theorem slept_succ {a b : ℕ} {slept : ℤ} (hslept : slept = ∑ k ∈ Ico (a + 1) b, 2 ^ k)
    (hab : a < b) : slept + backoff a = ∑ k ∈ Ico a b, 2 ^ k := by
  rw [Finset.sum_eq_sum_Ico_succ_bot hab, hslept, add_comm]
  rfl

private theorem Done.after_failure {a i : ℕ} {e : Ending} (h : Done db job (a + 1) i videos e)
    (hai : a < i) :
    Done db job a i videos { e with fetches := e.fetches + 1, slept := e.slept + backoff a } where
  exit := h.exit
  fetches := by
    have hfetches := h.fetches
    dsimp only
    omega
  slept := slept_succ h.slept hai
  row := h.row
  tagged := h.tagged
  videos := h.videos
  others := h.others

private theorem Dead.after_failure {a : ℕ} {e : Ending} (h : Dead db job (a + 1) e)
    (ha : a ≤ maxAttempts) :
    Dead db job a { e with fetches := e.fetches + 1, slept := e.slept + backoff a } where
  exit := h.exit
  fetches := by
    have hfetches := h.fetches
    dsimp only
    omega
  slept := slept_succ h.slept (Nat.lt_succ_of_le ha)
  row := h.row
  videos := h.videos
  others := h.others

private theorem attemptLoop_done (henv : Healthy env) {i : ℕ}
    (hfetched : ∀ k, 1 ≤ k → k ≤ i → env.fetch job k = .returned (f k))
    (hstorable : Storable videos) (hnone : db.videos.countOf job.id = 0) (left failed : ℕ)
    (hleft : left + failed = maxAttempts) (hmid : Attempting db mid job failed)
    (hfirst : FirstSuccess f (failed + 1) i videos) :
    Done db job (failed + 1) i videos (attemptLoop env job left (failed + 1) mid) := by
  have hlast := hfirst.last
  have hbegin := hfirst.first
  induction left generalizing failed mid with
  | zero => omega
  | succ left ih =>
      have hfetch : env.fetch job (failed + 1) = .returned (f (failed + 1)) :=
        hfetched (failed + 1) (by omega) hbegin
      by_cases hnow : i = failed + 1
      · subst hnow
        rw [hfirst.ok] at hfetch
        rw [attemptLoop_succeeds hfetch]
        exact Done.ingested henv hmid (by omega) hnone hfetch hstorable
      · obtain ⟨e, he⟩ := hfirst.before (failed + 1) le_rfl (by omega)
        rw [he] at hfetch
        rw [attemptLoop_fails henv hfetch]
        have hlater : FirstSuccess f (failed + 1 + 1) i videos :=
          ⟨by omega, hlast, hfirst.ok, fun k hk hki => hfirst.before k (by omega) hki⟩
        exact (ih (failed + 1) (by omega) (hmid.retrying _ _ _) hlater hlater.first).after_failure
          (by omega)

private theorem attemptLoop_dead (henv : Healthy env) (hf : Answers env job f) (left failed : ℕ)
    (hleft : left + failed = maxAttempts) (hmid : Attempting db mid job failed)
    (hfails : ∀ k, failed + 1 ≤ k → k ≤ maxAttempts → Fails f k) :
    Dead db job (failed + 1) (attemptLoop env job left (failed + 1) mid) := by
  induction left generalizing failed mid with
  | zero =>
      obtain rfl : failed = maxAttempts := by omega
      exact Dead.exhausted henv hmid
  | succ left ih =>
      have hfetch : env.fetch job (failed + 1) = .returned (f (failed + 1)) :=
        hf.fetched (failed + 1) (by omega) (by omega)
      obtain ⟨e, he⟩ := hfails (failed + 1) le_rfl (by omega)
      rw [he] at hfetch
      rw [attemptLoop_fails henv hfetch]
      exact (ih (failed + 1) (by omega) (hmid.retrying _ _ _) fun k hk hkl =>
        hfails k (by omega) hkl).after_failure (by omega)

private theorem processJob_healthy (henv : Healthy env) :
    processJob env db job =
      attemptLoop env job maxAttempts 1 (updateJobStarted db job.id env.startedAt) := by
  rw [processJob, henv.started]
  rfl

private theorem firstSuccess_or_fails (f : Outcomes) :
    (∃ i videos, FirstSuccess f 1 i videos) ∨ ∀ k, 1 ≤ k → k ≤ maxAttempts → Fails f k := by
  by_cases hall : ∀ k, 1 ≤ k → k ≤ maxAttempts → Fails f k
  · exact .inr hall
  · have hsome : ∃ k, 1 ≤ k ∧ k ≤ maxAttempts ∧ ¬ Fails f k := by
      push Not at hall
      exact hall
    classical
    obtain ⟨hfirst, hlast, hok⟩ := Nat.find_spec hsome
    refine .inl ⟨Nat.find hsome, ?_⟩
    cases hvideos : f (Nat.find hsome) with
    | error e => exact absurd ⟨e, hvideos⟩ hok
    | ok videos =>
        refine ⟨videos, hfirst, hlast, hvideos, ?_⟩
        intro k hk hki
        by_contra hkok
        exact Nat.find_min hsome hki ⟨hk, by omega, hkok⟩

private theorem Done.othersUntouched {i : ℕ} {e : Ending} (h : Done db job 1 i videos e) :
    OthersUntouched db e.db job where
  rows := h.others
  videos id hne := by
    have hnone : videos.filter (·.jobId = id) = [] := by
      refine List.filter_eq_nil_iff.mpr ?_
      intro v hv
      rw [h.tagged v hv]
      simpa using hne.symm
    have hperm := h.videos.filter (·.jobId = id)
    rwa [List.filter_append, hnone, List.nil_append] at hperm

private theorem Dead.othersUntouched {e : Ending} (h : Dead db job 1 e) :
    OthersUntouched db e.db job where
  rows := h.others
  videos id _ := by rw [h.videos]

theorem processJob_done (henv : Healthy env) {i : ℕ}
    (hfetched : ∀ k, 1 ≤ k → k ≤ i → env.fetch job k = .returned (f k))
    (hstorable : Storable videos) {r : JobRow} (hrow : db.jobs.byId job.id = some r)
    (hqueued : r.toJobProgress = {}) (hnone : db.videos.countOf job.id = 0)
    (hfirst : FirstSuccess f 1 i videos) : Done db job 1 i videos (processJob env db job) := by
  rw [processJob_healthy henv]
  exact attemptLoop_done henv hfetched hstorable hnone maxAttempts 0 rfl
    (Attempting.started hrow hqueued _) hfirst

private theorem processJob_dead (henv : Healthy env) (hf : Answers env job f) {r : JobRow}
    (hrow : db.jobs.byId job.id = some r) (hqueued : r.toJobProgress = {})
    (hfails : ∀ k, 1 ≤ k → k ≤ maxAttempts → Fails f k) :
    Dead db job 1 (processJob env db job) := by
  rw [processJob_healthy henv]
  exact attemptLoop_dead henv hf maxAttempts 0 rfl (Attempting.started hrow hqueued _) hfails

/-- A queued job on a healthy database: done by the first attempt that succeeds, or dead
after the last one; nothing of any other job changes. -/
theorem processJob_retries (henv : Healthy env) (hf : Answers env job f) {r : JobRow}
    (hrow : db.jobs.byId job.id = some r) (hqueued : r.toJobProgress = {})
    (hnone : db.videos.countOf job.id = 0) :
    (∀ i videos, FirstSuccess f 1 i videos → Done db job 1 i videos (processJob env db job)) ∧
      ((∀ k, 1 ≤ k → k ≤ maxAttempts → Fails f k) → Dead db job 1 (processJob env db job)) ∧
      OthersUntouched db (processJob env db job).db job := by
  have hdone : ∀ i videos, FirstSuccess f 1 i videos →
      Done db job 1 i videos (processJob env db job) := by
    intro i videos hfirst
    exact processJob_done henv (fun k hk hki => hf.fetched k hk (hki.trans hfirst.last))
      (hf.storable i videos hfirst.ok) hrow hqueued hnone hfirst
  refine ⟨hdone, processJob_dead henv hf hrow hqueued, ?_⟩
  obtain ⟨i, videos, hfirst⟩ | hfails := firstSuccess_or_fails f
  · exact (hdone i videos hfirst).othersUntouched
  · exact (processJob_dead henv hf hrow hqueued hfails).othersUntouched

def listingItem (k : ℕ) : Json := .obj [("id", .str (String.ofList (decimal k)))]

/-- A response body with `n` items. -/
def listing (n : ℕ) : String :=
  String.ofList (render (.obj [("items", .arr ((List.range n).map listingItem))]))

/-- The API cannot be reached once, and then lists `n` videos. -/
def lateListing (n : ℕ) : Env where
  get attempt _ := if attempt ≤ 1 then .transportError else .response 200 (listing n)

def numberedItem (k : ℕ) : YoutubeItem := { id := String.ofList (decimal k) }

def listed (n : ℕ) : List Video :=
  (List.range n).map fun k => toVideo sampleJob.req sampleJob.id Time.zero (numberedItem k)

def lateOutcomes (n : ℕ) : Outcomes := fun k =>
  if k ≤ 1 then .error .transport else .ok (listed n)

private theorem decodeItems_listing (ks : List ℕ) :
    decodeItems {} (decodeStruct youtubeItem) [] (ks.map listingItem) =
      some (ks.map numberedItem) := by
  induction ks with
  | nil => rfl
  | cons k ks ih =>
      have hid : sameName "id" "id" = true := by decide
      have hitem : decodeStruct youtubeItem {} (listingItem k) = some (numberedItem k) := by
        simp [decodeStruct, listingItem, decodeMember, youtubeItem, field, hid, decodeString,
          numberedItem]
      simp [decodeItems, hitem, ih]

theorem decodeBody_listing (n : ℕ) :
    decodeBody (listing n) = some { items := (List.range n).map numberedItem } := by
  have hfits : Fits 3 (.obj [("items", .arr ((List.range n).map listingItem))]) := by
    intro m hm
    obtain rfl := List.mem_singleton.mp hm
    intro v hv
    obtain ⟨k, -, rfl⟩ := List.mem_map.mp hv
    intro m hm
    obtain rfl := List.mem_singleton.mp hm
    trivial
  have hdecode : youtubeResponse {} (.obj [("items", .arr ((List.range n).map listingItem))]) =
      (decodeItems {} (decodeStruct youtubeItem) [] ((List.range n).map listingItem)).map
        fun items => { items := items } := by
    have hitems : sameName "items" "items" = true := by decide
    simp [youtubeResponse, decodeStruct, decodeMember, field, hitems, decodeSlice]
  rw [decodeBody, listing, decodeFirst_render (hfits.mono (by decide)), Option.bind_some, hdecode,
    decodeItems_listing]
  rfl

theorem fetch_lateListing (n k : ℕ) :
    (lateListing n).fetch sampleJob k = .returned (lateOutcomes n k) := by
  have hcap : makeSlicePanics videoSize sampleJob.req.maxResults.toInt = false := by decide
  have hlisted : (((List.range n).map numberedItem).mapIdx fun _ item =>
      toVideo sampleJob.req sampleJob.id Time.zero item) = listed n := by
    refine List.ext_getElem (by simp [listed]) ?_
    intro i hi hi'
    simp [listed]
  unfold Env.fetch fetchTrending lateOutcomes lateListing
  rw [hcap]
  by_cases hk : k ≤ 1
  · simp [hk]
  · simp [hk, decodeBody_listing, hlisted]

private theorem storable_listed (n : ℕ) : Storable (listed n) where
  ids := by
    have hids : (listed n).map (·.videoId) =
        (List.range n).map fun k : ℕ => String.ofList (decimal k) := by
      rw [listed, List.map_map]
      rfl
    rw [hids]
    refine List.nodup_range.map ?_
    intro i j hij
    exact Int.ofNat_inj.mp (decimal_injective (String.ofList_inj.mp hij))
  categories := by
    intro v hv
    obtain ⟨k, -, rfl⟩ := List.mem_map.mp hv
    have hcategory :
        (toVideo sampleJob.req sampleJob.id Time.zero (numberedItem k)).categoryId = 0 := by
      change (atoi "").1 = 0
      decide
    rw [hcategory]
    decide

theorem healthy_lateListing (n : ℕ) : Healthy (lateListing n) := by
  constructor <;> intros <;> rfl

private theorem answers_lateListing (n : ℕ) : Answers (lateListing n) sampleJob
    (lateOutcomes n) where
  fetched k _ _ := fetch_lateListing n k
  storable k videos hok := by
    unfold lateOutcomes at hok
    split at hok
    · cases hok
    · obtain rfl := Except.ok.inj hok
      exact storable_listed n

private theorem firstSuccess_lateListing (n : ℕ) : FirstSuccess (lateOutcomes n) 1 2
    (listed n) where
  first := by decide
  last := by decide
  ok := rfl
  before k _ hk := ⟨.transport, if_pos (by omega)⟩

theorem sampleDb_row : sampleDb.jobs.byId sampleJob.id =
    some (newRow Time.zero sampleJob.id sampleJob.req) := by decide

/-- Two videos, listed by the second attempt. -/
theorem processJob_retries_second :
    Done sampleDb sampleJob 1 2 (listed 2) (processJob (lateListing 2) sampleDb sampleJob) :=
  (processJob_retries (healthy_lateListing 2) (answers_lateListing 2) sampleDb_row rfl rfl).1 2
    (listed 2) (firstSuccess_lateListing 2)

/-- The length of a list of `2 ^ 31` videos is not what its column says. -/
theorem longListing_wraps :
    Healthy (lateListing (2 ^ 31)) ∧ Answers (lateListing (2 ^ 31)) sampleJob
        (lateOutcomes (2 ^ 31)) ∧
      FirstSuccess (lateOutcomes (2 ^ 31)) 1 2 (listed (2 ^ 31)) ∧
      (listed (2 ^ 31)).length = 2 ^ 31 ∧
      ∃ r, (processJob (lateListing (2 ^ 31)) sampleDb sampleJob).db.jobs.byId sampleJob.id =
          some r ∧ r.videosFetched.toInt = -2 ^ 31 ∧ r.videosInserted.toInt = -2 ^ 31 := by
  have hlength : (listed (2 ^ 31)).length = 2 ^ 31 := by
    rw [listed, List.length_map, List.length_range]
  obtain ⟨r, hr, -, -, -, hfetched, hinserted, -⟩ :=
    (processJob_done (healthy_lateListing (2 ^ 31)) (fun k _ _ => fetch_lateListing (2 ^ 31) k)
      (storable_listed (2 ^ 31)) sampleDb_row rfl rfl (firstSuccess_lateListing (2 ^ 31))).row
  refine ⟨healthy_lateListing _, answers_lateListing _, firstSuccess_lateListing _, hlength, r, hr,
    ?_, ?_⟩
  · rw [hfetched, hlength]
    decide
  · rw [hinserted, hlength]
    decide

end TrendingPipeline.Worker.Retries

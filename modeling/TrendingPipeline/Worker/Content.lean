/- Unit: TrendingPipeline/Worker/Content
   source: backend/worker/worker.go, backend/youtube/client.go
   digest: Which items of a successful response the schema takes, and which kill the job. -/

import Mathlib.Data.List.Dedup
import TrendingPipeline.Worker.Retries

set_option autoImplicit false
set_option relaxedAutoImplicit false

namespace TrendingPipeline.Worker.Content

open TrendingPipeline.Base.Calendar (Time)
open TrendingPipeline.Base.Decimal (atoi)
open TrendingPipeline.Proto.Messages (JobRequest)
open TrendingPipeline.Store.Tables
open TrendingPipeline.Store.Statements
open TrendingPipeline.Worker.Endings (Accepted)
open TrendingPipeline.Worker.ProcessJob
open TrendingPipeline.Worker.Release (sampleDb sampleJob)
open TrendingPipeline.Worker.Retries
open TrendingPipeline.Youtube.FetchTrending

/-- The attempts before this one failed, and this one gets the items with status 200. -/
structure Answered (env : Env) (job : Job) (attempt : ℕ) (items : List YoutubeItem) : Prop where
  first : 1 ≤ attempt
  last : attempt ≤ maxAttempts
  before : ∀ k, 1 ≤ k → k < attempt → ∃ e, env.fetch job k = .returned (.error e)
  capacity : 0 ≤ job.req.maxResults.toInt
  response : ∃ body, env.get attempt (params env.client job.req) = .response 200 body ∧
    decodeBody body = some { items := items }

def videosOf (env : Env) (job : Job) (attempt : ℕ) (items : List YoutubeItem) : List Video :=
  items.mapIdx fun i item => toVideo job.req job.id (env.fetchClock attempt i) item

/-- Every INSERT is accepted, the job is done, and it has one row for each id. -/
structure AllStored (env : Env) (db : Db) (job : Job) (attempt : ℕ) (items : List YoutubeItem) :
    Prop where
  accepted : Accepted env (videosOf env job attempt items) db.videos
  done : ∃ r, (processJob env db job).db.jobs.byId job.id = some r ∧ r.state = .done
  rows : (((processJob env db job).db.videos.rows.filter (·.jobId = job.id)).map
    (·.videoId)).Perm (items.map (·.id)).dedup

/-- No id is repeated, and what Atoi makes of a category fits an INTEGER. -/
structure Conforming (items : List YoutubeItem) : Prop where
  ids : (items.map (·.id)).Nodup
  categories : ∀ item ∈ items, inInteger (atoi item.snippet.categoryId).1 = true

section Items

variable {env : Env} {job : Job} {db : Db} {attempt : ℕ} {items : List YoutubeItem}

theorem Answered.fetch (h : Answered env job attempt items) :
    env.fetch job attempt = .returned (.ok (videosOf env job attempt items)) := by
  obtain ⟨body, hget, hbody⟩ := h.response
  have hmake : ¬ makeSlicePanics videoSize job.req.maxResults.toInt = true := by
    rw [makeSlicePanics_iff]
    exact not_lt.mpr h.capacity
  simp [Env.fetch, fetchTrending, hmake, hget, hbody, videosOf]

private theorem videoIds_videosOf :
    (videosOf env job attempt items).map (·.videoId) = items.map (·.id) := by
  refine List.ext_getElem ?_ ?_
  · rw [List.length_map, List.length_map, videosOf, List.length_mapIdx]
  · intro i _ _
    rw [List.getElem_map, List.getElem_map]
    simp only [videosOf, List.getElem_mapIdx]
    rfl

private theorem categoryId_toVideo (req : JobRequest) (jobId : String) (now : Time)
    (item : YoutubeItem) :
    (toVideo req jobId now item).categoryId = (atoi item.snippet.categoryId).1 := rfl

private theorem categories_videosOf :
    (∀ v ∈ videosOf env job attempt items, inInteger v.categoryId = true) ↔
      ∀ item ∈ items, inInteger (atoi item.snippet.categoryId).1 = true := by
  constructor
  · intro h item hitem
    obtain ⟨i, hi, rfl⟩ := List.mem_iff_getElem.mp hitem
    have hmem : toVideo job.req job.id (env.fetchClock attempt i) items[i] ∈
        videosOf env job attempt items := List.mem_mapIdx.mpr ⟨i, hi, rfl⟩
    rw [← categoryId_toVideo job.req job.id (env.fetchClock attempt i)]
    exact h _ hmem
  · intro h v hv
    obtain ⟨i, hi, rfl⟩ := List.mem_mapIdx.mp hv
    rw [categoryId_toVideo]
    exact h items[i] (List.getElem_mem hi)

private theorem tagged_videosOf {v : Video} (hv : v ∈ videosOf env job attempt items) :
    v.jobId = job.id ∧ v.region = job.req.region := by
  obtain ⟨i, hi, rfl⟩ := List.mem_mapIdx.mp hv
  exact ⟨rfl, rfl⟩

private theorem storable_videosOf_iff : Storable
    (videosOf env job attempt items) ↔ Conforming items := by
  constructor
  · intro h
    exact ⟨videoIds_videosOf ▸ h.ids, categories_videosOf.mp h.categories⟩
  · intro h
    exact ⟨by rw [videoIds_videosOf]; exact h.ids, categories_videosOf.mpr h.categories⟩

private theorem keys_of_accepted {videos : List Video} {t : VideosTable}
    (h : Accepted env videos t) :
    (videos.map videoKey).Nodup ∧
      ∀ v ∈ videos, videoKey v ∉ t.rows.map videoKey ∧ inInteger v.categoryId = true := by
  induction videos generalizing t with
  | nil => exact ⟨List.nodup_nil, List.forall_mem_nil _⟩
  | cons v vs ih =>
      obtain ⟨-, t', ht', hrest⟩ := h
      obtain ⟨hnodup, hall⟩ := ih hrest
      have hconditions : videoKey v ∉ t.rows.map videoKey ∧ inInteger v.categoryId = true := by
        unfold VideosTable.insert at ht'
        split at ht'
        · assumption
        · cases ht'
      rw [VideosTable.rows_insert ht', List.map_cons] at hall
      refine ⟨List.nodup_cons.mpr ⟨?_, hnodup⟩, List.forall_mem_cons.mpr ⟨hconditions, ?_⟩⟩
      · intro hmem
        obtain ⟨w, hw, hkey⟩ := List.mem_map.mp hmem
        exact (hall w hw).1 (hkey ▸ List.mem_cons_self)
      · intro w hw
        exact ⟨fun hmem => (hall w hw).1 (List.mem_cons_of_mem _ hmem), (hall w hw).2⟩

private theorem storable_of_accepted
    (h : Accepted env (videosOf env job attempt items) db.videos) :
    Storable (videosOf env job attempt items) := by
  obtain ⟨hnodup, hall⟩ := keys_of_accepted h
  refine ⟨?_, fun v hv => (hall v hv).2⟩
  refine hnodup.of_map.map_on ?_
  intro v hv w hw hid
  refine List.inj_on_of_nodup_map hnodup hv hw ?_
  obtain ⟨hvjob, hvregion⟩ := tagged_videosOf hv
  obtain ⟨hwjob, hwregion⟩ := tagged_videosOf hw
  rw [videoKey, videoKey, hid, hvjob, hwjob, hvregion, hwregion]

private theorem accepted_of_storable (henv : Healthy env) {videos : List Video} {t : VideosTable}
    (hstorable : Storable videos) (hnew : ∀ v ∈ videos, videoKey v ∉ t.rows.map videoKey) :
    Accepted env videos t := by
  induction videos generalizing t with
  | nil => trivial
  | cons v vs ih =>
      obtain ⟨hhead, htail⟩ := List.nodup_cons.mp hstorable.ids
      have haccepted : ∃ t', t.insert v = some t' :=
        ⟨_, dif_pos ⟨hnew v List.mem_cons_self, hstorable.categories v List.mem_cons_self⟩⟩
      obtain ⟨t', ht'⟩ := haccepted
      refine ⟨henv.inserting _, t', ht', ih ⟨htail, ?_⟩ ?_⟩
      · intro w hw
        exact hstorable.categories w (List.mem_cons_of_mem v hw)
      · intro w hw
        rw [VideosTable.rows_insert ht', List.map_cons, List.mem_cons, not_or]
        refine ⟨fun hkey => hhead ?_, hnew w (List.mem_cons_of_mem v hw)⟩
        exact List.mem_map.mpr ⟨w, hw, (Prod.mk.inj hkey).1⟩

private theorem Answered.exists_outcomes (h : Answered env job attempt items) :
    ∃ f : Outcomes, (∀ k, 1 ≤ k → k ≤ attempt → env.fetch job k = .returned (f k)) ∧
      FirstSuccess f 1 attempt (videosOf env job attempt items) := by
  let f : Outcomes := fun k =>
    match env.fetch job k with
    | .returned r => r
    | .panicked => .error .transport
  have hf : ∀ k, 1 ≤ k → k ≤ attempt → env.fetch job k = .returned (f k) := by
    intro k hk hle
    rcases Nat.lt_or_eq_of_le hle with hlt | rfl
    · obtain ⟨e, he⟩ := h.before k hk hlt
      simp only [f, he]
    · simp only [f, h.fetch]
  refine ⟨f, hf, h.first, h.last, ?_, ?_⟩
  · simp only [f, h.fetch]
  · intro k hk hlt
    obtain ⟨e, he⟩ := h.before k hk hlt
    exact ⟨e, by simp only [f, he]⟩

/-- On a database that rejects only what violates the schema, the content of a response is
stored and the job is done: exactly when no id is repeated and every category fits. -/
theorem allStored_iff (henv : Healthy env) {r : JobRow} (hrow : db.jobs.byId job.id = some r)
    (hqueued : r.toJobProgress = {}) (hnone : db.videos.countOf job.id = 0)
    (hanswered : Answered env job attempt items) :
    AllStored env db job attempt items ↔ Conforming items := by
  constructor
  · exact fun h => storable_videosOf_iff.mp (storable_of_accepted h.accepted)
  · intro h
    have hstorable : Storable (videosOf env job attempt items) := storable_videosOf_iff.mpr h
    have htagged : ∀ v ∈ videosOf env job attempt items, v.jobId = job.id :=
      fun v hv => (tagged_videosOf hv).1
    obtain ⟨f, hfetched, hfirst⟩ := hanswered.exists_outcomes
    have hdone := processJob_done henv hfetched hstorable hrow hqueued hnone hfirst
    obtain ⟨r', hr', hstate, -⟩ := hdone.row
    refine ⟨accepted_of_storable henv hstorable (videoKey_not_mem hnone htagged),
      ⟨r', hr', hstate⟩, ?_⟩
    -- the job had no row before, so its rows are those of the response
    have hown : (videosOf env job attempt items).filter (·.jobId = job.id) =
        videosOf env job attempt items :=
      List.filter_eq_self.mpr fun v hv => decide_eq_true (htagged v hv)
    have hold : db.videos.rows.filter (·.jobId = job.id) = [] :=
      List.filter_eq_nil_iff.mpr (List.countP_eq_zero.mp hnone)
    have hperm := hdone.videos.filter (·.jobId = job.id)
    rw [List.filter_append, hown, hold, List.append_nil] at hperm
    have hids : (videosOf env job attempt items).map (·.videoId) = items.map (·.id) :=
      videoIds_videosOf
    rw [h.ids.dedup, ← hids]
    exact hperm.map _

end Items

theorem allStored_iff_listing :
    AllStored (lateListing 2) sampleDb sampleJob 2 ((List.range 2).map numberedItem) := by
  have hanswered : Answered (lateListing 2) sampleJob 2 ((List.range 2).map numberedItem) :=
    { first := by decide
      last := by decide
      before := fun k _ hk => ⟨.transport, by
        rw [fetch_lateListing, lateOutcomes, if_pos (Nat.le_of_lt_succ hk)]⟩
      capacity := by decide
      response := ⟨listing 2, rfl, decodeBody_listing 2⟩ }
  exact (allStored_iff (healthy_lateListing 2) sampleDb_row rfl rfl hanswered).mpr
    ⟨by decide, by decide⟩

def answering (body : String) : Env where
  get _ _ := .response 200 body

def repeatedId : String :=
  "\x7b\"items\": [\x7b\"id\": \"a\"\x7d, \x7b\"id\": \"a\"\x7d]\x7d"

def wideCategory : String :=
  "\x7b\"items\": [\x7b\"id\": \"a\", \"snippet\": \x7b\"categoryId\": \"3000000000\"\x7d\x7d]\x7d"

private theorem answered_answering {body : String} {items : List YoutubeItem}
    (hbody : decodeBody body = some { items := items }) :
    Answered (answering body) sampleJob 1 items where
  first := le_rfl
  last := by decide
  before k hk hlt := absurd hk (Nat.not_le_of_lt hlt)
  capacity := by decide
  response := ⟨body, rfl, hbody⟩

private theorem healthy_answering (body : String) : Healthy (answering body) := by
  constructor <;> intros <;> rfl

/-- The second INSERT of the one, and the only one of the other, is refused, and the job
is dead. -/
theorem repeatedId_kills :
    (∃ items, Answered (answering repeatedId) sampleJob 1 items ∧
        ¬ AllStored (answering repeatedId) sampleDb sampleJob 1 items) ∧
      (∃ items, Answered (answering wideCategory) sampleJob 1 items ∧
        ¬ AllStored (answering wideCategory) sampleDb sampleJob 1 items) ∧
      ∀ body ∈ [repeatedId, wideCategory], Healthy (answering body) ∧
        ((processJob (answering body) sampleDb sampleJob).db.jobs.byId sampleJob.id).map
          (·.state) = some .dead := by
  have hrepeated : decodeBody repeatedId = some { items := [{ id := "a" }, { id := "a" }] } := by
    decide +kernel
  have hwide : decodeBody wideCategory =
      some { items := [{ id := "a", snippet := { categoryId := "3000000000" } }] } := by
    decide +kernel
  have hdead : ∀ body ∈ [repeatedId, wideCategory],
      ((processJob (answering body) sampleDb sampleJob).db.jobs.byId sampleJob.id).map
        (·.state) = some .dead := by decide +kernel
  have hnot : ∀ body ∈ [repeatedId, wideCategory], ∀ items,
      ¬ AllStored (answering body) sampleDb sampleJob 1 items := by
    intro body hbody items hstored
    obtain ⟨r, hr, hstate⟩ := hstored.done
    have hrow := hdead body hbody
    rw [hr, Option.map_some, hstate] at hrow
    cases hrow
  refine ⟨⟨_, answered_answering hrepeated, hnot _ (by simp) _⟩,
    ⟨_, answered_answering hwide, hnot _ (by simp) _⟩, ?_⟩
  exact fun body hbody => ⟨healthy_answering body, hdead body hbody⟩

end TrendingPipeline.Worker.Content

/- Unit: TrendingPipeline/System/History
   source: backend/db/db.go, backend/worker/worker.go
   digest: What the trend of a video and the tracked regions show as the process runs. -/

import TrendingPipeline.Store.Trends
import TrendingPipeline.System.Provenance

set_option autoImplicit false
set_option relaxedAutoImplicit false

namespace TrendingPipeline.System.History

open Relation (ReflTransGen)
open TrendingPipeline.Base.Calendar (Time)
open TrendingPipeline.Base.Runs
open TrendingPipeline.Store
open TrendingPipeline.Store.Select (Collation)
open TrendingPipeline.Store.Tables (Db JobRow JobsTable)
open TrendingPipeline.Store.Trends
open TrendingPipeline.Youtube.FetchTrending (Video)
open TrendingPipeline.System.Step
open TrendingPipeline.System.Provenance

variable {s t : State} {coll coll' : Collation} {videoId : String}

/-- A snapshot of the video that the job stored, and its point. -/
def PointOfJob (db : Db) (videoId : String) (r : JobRow) (p : VideoTrendPoint) : Prop :=
  ∃ v ∈ db.videos.rows, v.videoId = videoId ∧ v.jobId = r.jobId ∧ v.region = r.region ∧
    pointOf v = p

private theorem exists_jobs {db : Db} (h : Sourced db) {rows : List Video}
    (hrows : ∀ v ∈ rows, v ∈ db.videos.rows ∧ v.videoId = videoId) :
    ∃ jobs : List JobRow, jobs.map (·.jobId) = rows.map (·.jobId) ∧
      (∀ r ∈ jobs, r ∈ db.jobs.rows ∧ r.state ≠ .queued) ∧
        List.Forall₂ (PointOfJob db videoId) jobs (rows.map pointOf) := by
  induction rows with
  | nil => exact ⟨[], rfl, fun _ hr => absurd hr List.not_mem_nil, .nil⟩
  | cons v rows ih =>
      obtain ⟨jobs, hids, hjobs, hpoints⟩ := ih fun w hw => hrows w (List.mem_cons_of_mem v hw)
      obtain ⟨hmem, hvideo⟩ := hrows v List.mem_cons_self
      obtain ⟨r, hr, hregion, hstate⟩ := h v hmem
      obtain ⟨hrow, hid⟩ := JobsTable.byId_eq_some_iff.mp hr
      refine ⟨r :: jobs, ?_, ?_, ?_⟩
      · rw [List.map_cons, List.map_cons, hids, hid]
      · exact List.forall_mem_cons.mpr ⟨⟨hrow, hstate⟩, hjobs⟩
      · exact .cons ⟨v, hmem, hvideo, hid.symm, hregion.symm, rfl⟩ hpoints

private theorem nodup_jobId_snapshots {db : Db} (h : Sourced db) :
    ((snapshots db.videos videoId).map (·.jobId)).Nodup := by
  have hpairs : ((snapshots db.videos videoId).map fun v => (v.videoId, v.jobId)).Nodup :=
    h.nodup.sublist (List.filter_sublist.map _)
  refine (List.Nodup.of_map _ hpairs).map_on ?_
  intro v hv w hw hsame
  have hvideo : v.videoId = w.videoId :=
    (of_decide_eq_true (List.mem_filter.mp hv).2).trans
      (of_decide_eq_true (List.mem_filter.mp hw).2).symm
  exact List.inj_on_of_nodup_map hpairs hv hw (Prod.ext hvideo hsame)

private theorem snapshots_subperm {new : List Video}
    (hrows : t.db.videos.rows = new ++ s.db.videos.rows) :
    (snapshots s.db.videos videoId).Subperm (snapshots t.db.videos videoId) := by
  rw [snapshots, snapshots, hrows, List.filter_append]
  exact (List.sublist_append_right _ _).subperm

/-- Whatever runs, fails or restarts between two readings of a video's trend, all points of
the first are among those of the second, and each point of the second is the snapshot of
another job, for the job's region and no longer queued. Ties may be ordered differently. -/
theorem trend_grows (h : Reachable Migrated step Anything s)
    (hpath : ReflTransGen (Next step Anything) s t) {early late : List VideoTrendPoint}
    (hearly : TrendAnswers coll s.db.videos videoId (some early))
    (hlate : TrendAnswers coll' t.db.videos videoId (some late)) :
    early.Subperm late ∧
      ∃ jobs : List JobRow, jobs.Nodup ∧ (∀ r ∈ jobs, r ∈ t.db.jobs.rows ∧ r.state ≠ .queued) ∧
        List.Forall₂ (PointOfJob t.db videoId) jobs late := by
  obtain ⟨rows, hrows, hpoints⟩ := trendAnswers_iff.mp hearly
  obtain rfl := Option.some.inj hpoints
  obtain ⟨rows', hrows', hpoints'⟩ := trendAnswers_iff.mp hlate
  obtain rfl := Option.some.inj hpoints'
  have hsourced : Sourced t.db := sourced_of_reachable (h.path hpath)
  constructor
  · obtain ⟨new, hnew⟩ := appended_of_path hpath
    obtain ⟨kept, hperm, hin⟩ : rows.Subperm rows' :=
      (hrows.perm.subperm.trans (snapshots_subperm hnew)).trans hrows'.perm.symm.subperm
    exact ⟨kept.map pointOf, hperm.map pointOf, hin.map pointOf⟩
  · have hmem : ∀ v ∈ rows', v ∈ t.db.videos.rows ∧ v.videoId = videoId := by
      intro v hv
      obtain ⟨hrow, hid⟩ := List.mem_filter.mp (hrows'.perm.mem_iff.mp hv)
      exact ⟨hrow, of_decide_eq_true hid⟩
    obtain ⟨jobs, hids, hjobs, hof⟩ := exists_jobs hsourced hmem
    refine ⟨jobs, List.Nodup.of_map (·.jobId) ?_, hjobs, hof⟩
    rw [hids]
    exact (hrows'.perm.map _).nodup_iff.mpr (nodup_jobId_snapshots hsourced)

/-- Another job, that finds the first of the two videos again. -/
def again : List Act := [
  .submitJob { ExactlyOnce.sampleRequest with idempotencyKey := "key-2" },
  .call 1 (.lookup .none Time.zero), .call 1 (.insert .none "job-2" Time.zero),
  .call 1 (.send Time.zero), .receive 0, .work 0 {},
  .work 0 { get := fun _ => .response 200 "\x7b\"items\": [\x7b\"id\": \"a\"\x7d]\x7d" },
  .work 0 {}]

theorem trend_grows_again :
    ∃ t, run step Accounting.halfIngested again = some t ∧
      (getVideoTrend Accounting.halfIngested.db.videos "a").Subperm
        (getVideoTrend t.db.videos "a") ∧
      (getVideoTrend t.db.videos "a").length = 2 := by
  have hlength : (run step Accounting.halfIngested again).map
      (fun t => (getVideoTrend t.db.videos "a").length) = some 2 := by decide +kernel
  obtain ⟨t, ht, htwo⟩ := Option.map_eq_some_iff.mp hlength
  have hreach : Reachable Migrated step Anything Accounting.halfIngested :=
    .of_run rfl Accounting.run_halfIngest (meets_true _ _)
  have hanswer : ∀ videos, TrendAnswers GetVideos.codePoints videos "a"
      (some (getVideoTrend videos "a")) := fun _ => trendAnswers_getVideoTrend
  have hgrows := trend_grows hreach (path_of_run ht (meets_true _ _)) (hanswer _) (hanswer _)
  exact ⟨t, ht, hgrows.1, htwo⟩

theorem dedup_length_le {α : Type} [DecidableEq α] {l l' : List α} (h : l ⊆ l') :
    l.dedup.length ≤ l'.dedup.length := by
  refine ((List.nodup_dedup l).subperm ?_).length_le
  intro a ha
  exact List.mem_dedup.mpr (h (List.mem_dedup.mp ha))

/-- A region that is tracked stays so, the number of regions does not go down, and every
region is one that a job asked for which is no longer queued. -/
theorem tracked_regions (h : Reachable Migrated step Anything s)
    (hpath : ReflTransGen (Next step Anything) s t) {count count' : Int64}
    {regions regions' : List String} (hearly : RegionsAnswer s.db.videos count regions)
    (hlate : RegionsAnswer t.db.videos count' regions')
    (hsmall : t.db.videos.rows.length < 2 ^ 63) :
    regions ⊆ regions' ∧ count ≤ count' ∧ count'.toInt = regions'.length ∧
      ∀ region ∈ regions', ∃ r ∈ t.db.jobs.rows, r.region = region ∧ r.state ≠ .queued := by
  obtain ⟨new, hnew⟩ := appended_of_path hpath
  have hsubset : s.db.videos.rows.map (·.region) ⊆ t.db.videos.rows.map (·.region) := by
    rw [hnew, List.map_append]
    exact List.subset_append_right _ _
  have hle := dedup_length_le hsubset
  have hbound : (t.db.videos.rows.map (·.region)).dedup.length ≤ t.db.videos.rows.length :=
    (List.dedup_sublist _).length_le.trans_eq (List.length_map _)
  have hcount : count.toInt = (s.db.videos.rows.map (·.region)).dedup.length := by
    rw [hearly.count_eq, Int64.toInt_ofNat_of_lt (by omega)]
  have hcount' : count'.toInt = (t.db.videos.rows.map (·.region)).dedup.length := by
    rw [hlate.count_eq, Int64.toInt_ofNat_of_lt (by omega)]
  refine ⟨?_, ?_, ?_, ?_⟩
  · intro region hregion
    rw [hearly.perm.mem_iff, List.mem_dedup] at hregion
    rw [hlate.perm.mem_iff, List.mem_dedup]
    exact hsubset hregion
  · rw [Int64.le_iff_toInt_le, hcount, hcount']
    omega
  · rw [hcount', hlate.perm.length_eq]
  · intro region hregion
    obtain ⟨v, hv, rfl⟩ := hlate.mem_iff.mp hregion
    obtain ⟨r, hr, hsame, hstate⟩ := sourced_of_reachable (h.path hpath) v hv
    exact ⟨r, (JobsTable.byId_eq_some_iff.mp hr).1, hsame, hstate⟩

theorem tracked_regions_halfIngested :
    RegionsAnswer Accounting.halfIngested.db.videos 1 ["US"] ∧
      ∃ r ∈ Accounting.halfIngested.db.jobs.rows, r.region = "US" ∧ r.state ≠ .queued := by
  have hanswer : RegionsAnswer Accounting.halfIngested.db.videos 1 ["US"] := by
    constructor <;> decide +kernel
  have hreach : Reachable Migrated step Anything Accounting.halfIngested :=
    .of_run rfl Accounting.run_halfIngest (meets_true _ _)
  exact ⟨hanswer, (tracked_regions hreach .refl hanswer hanswer (by decide +kernel)).2.2.2 "US"
    List.mem_cons_self⟩

end TrendingPipeline.System.History

/- Unit: TrendingPipeline/System/Totals
   source: backend/worker/worker.go, backend/db/db.go
   digest: The counters of all jobs together against the size of the videos table. -/

import Mathlib.Algebra.BigOperators.Ring.Finset
import TrendingPipeline.Base.Grouping
import TrendingPipeline.Store.Queries
import TrendingPipeline.System.Provenance

set_option autoImplicit false
set_option relaxedAutoImplicit false

namespace TrendingPipeline.System.Totals

open TrendingPipeline.Base.Grouping
open TrendingPipeline.Base.Runs
open TrendingPipeline.Store.Queries (getVideoCount)
open TrendingPipeline.Store.Tables (Db JobProgress JobRow JobsTable)
open TrendingPipeline.Store.Statements
open TrendingPipeline.Worker.ProcessJob (Job)
open TrendingPipeline.Worker.Machine (Input Point)
open TrendingPipeline.Worker.Effects
open TrendingPipeline.Youtube.FetchTrending (Video)
open TrendingPipeline.System.Step
open TrendingPipeline.System.Custody
open TrendingPipeline.System.Rows
open TrendingPipeline.System.Accounting (Counted CountedAt counted_of_reachable)
open TrendingPipeline.System.Provenance

def DoneCounted (db : Db) : Prop :=
  ∀ id r, db.jobs.byId id = some r → r.state = .done →
    r.videosInserted = Int32.ofNat (db.videos.countOf id)

private theorem not_done_of_open {p : JobProgress} (h : Open p) : p.state ≠ .done := by
  intro hdone
  have hopen := h.not_terminal
  rw [hdone] at hopen
  cases hopen

private theorem countOf_eq (db : Db) (id : String) : db.videos.countOf id =
    (videosOf db id).length :=
  List.countP_eq_length_filter

variable {l l' : Ledger}

private theorem doneCounted_of_returned {job : Job} {inp : Input} {db db' : Db} {p : Point}
    {fetched : Nat} (h : Steps job inp db p .returned db') {r r' : JobRow}
    (hr : db.jobs.byId job.id = some r) (hopen : Open r.toJobProgress)
    (hcounted : CountedAt job.id (db.videos.countOf job.id) fetched (.working p))
    (hr' : db'.jobs.byId job.id = some r') (hdone : r'.state = .done) :
    r'.videosInserted = Int32.ofNat (db'.videos.countOf job.id) := by
  cases h with
  | completed attempt videosFetched count =>
      obtain rfl := Option.some.inj ((byId_updateJob_self _ hr).symm.trans hr')
      exact hcounted.2.2.1
  | completionLost =>
      obtain rfl := Option.some.inj (hr.symm.trans hr')
      exact absurd hdone (not_done_of_open hopen)
  | died reason =>
      obtain rfl := Option.some.inj ((byId_updateJob_self _ hr).symm.trans hr')
      cases hdone
  | deathLost =>
      obtain rfl := Option.some.inj (hr.symm.trans hr')
      exact absurd hdone (not_done_of_open hopen)

theorem DoneCounted.step (hten : Tended l) (hlab : Labelled l)
    (hcounted : Counted l) (h : DoneCounted l.db) (hmove : Moves (· ≠ .applied) l l') :
    DoneCounted l'.db := by
  intro id r' hr' hdone
  by_cases hheld : id ∈ l.heldIds
  · -- the row was open
    obtain ⟨x, hx, rfl⟩ := Multiset.mem_map.mp hheld
    obtain ⟨r, hr, hat⟩ := hten x hx
    have hsame : l'.db.jobs.byId x.1.id = some r → r'.videosInserted =
        Int32.ofNat (l'.db.videos.countOf x.1.id) := by
      intro hkept
      obtain rfl := Option.some.inj (hkept.symm.trans hr')
      exact absurd hdone (not_done_of_open hat.isOpen)
    cases hmove with
    | quiet => exact hsame hr
    | create jobId req now db hinsert => exact hsame (byId_of_insertJob hinsert hr)
    | orphan jobId req now db _ hinsert => exact hsame (byId_of_insertJob hinsert hr)
    | enqueue => exact hsame hr
    | receive => exact hsame hr
    | work job p q inp db rest hwork _ hsteps =>
        by_cases hid : x.1.id = job.id
        · obtain ⟨_, r₁, _, hr₁, _, hafter⟩ := hten.row hwork hsteps
          obtain rfl := Option.some.inj (hr₁.symm.trans (hid ▸ hr'))
          exact absurd hdone (not_done_of_open (RowAt.isOpen hafter))
        · exact hsame ((hsteps.byId_of_ne hid).trans hr)
    | release job p inp db rest hwork _ hsteps =>
        by_cases hid : x.1.id = job.id
        · have hworking : (job, .working p) ∈ l.held := hwork ▸ Multiset.mem_cons_self _ _
          rw [hid] at hr hr' ⊢
          exact doneCounted_of_returned hsteps hr hat.isOpen (hcounted.held _ hworking) hr' hdone
        · exact hsame ((hsteps.byId_of_ne hid).trans hr)
    | halt => exact hsame hr
  · by_cases hpresent : id ∈ l.ids
    · -- nothing happens to a job that nobody holds
      obtain ⟨hrow, hvideos⟩ := sameRecord_of_moves hlab ⟨hpresent, hheld⟩ hmove
      rw [countOf_eq, hvideos, ← countOf_eq]
      exact h id r' (hrow ▸ hr') hdone
    · have hnew := waiting_of_new hmove (JobsTable.byId_eq_none_iff.mpr hpresent) hr'
      exact absurd hdone (not_done_of_open (.inl hnew))

variable {s : State}

private theorem doneCounted_of_reachable (h : Reachable Migrated step Clean s) :
    DoneCounted s.db := by
  refine (h.invariant (I := fun s => Reachable Cold step Clean s ∧ DoneCounted s.db) ?_ ?_).2
  · rintro _ rfl
    exact ⟨⟨_, ⟨.empty, rfl⟩, .refl⟩, fun id r hr => by cases hr⟩
  · rintro s a t ⟨hreach, hdone⟩ hclean hstep
    have hany : Reachable Cold step Anything s := hreach.mono fun _ _ _ => trivial
    exact ⟨hreach.next hclean hstep,
      DoneCounted.step (tended_of_reachable hany) (labelled_of_reachable hany)
        (counted_of_reachable hreach) hdone (moves_step hclean hstep)⟩

def ofDone (db : Db) (v : Video) : Bool := (db.jobs.byId v.jobId).map (·.state) = some .done

/-- The counter of a row is the number of the videos of a done job, and else zero. -/
private theorem videosInserted_eq (h : Reachable Migrated step Clean s) {r : JobRow}
    (hr : r ∈ s.db.jobs.rows) (hsmall : s.db.videos.countOf r.jobId < 2 ^ 31) :
    r.videosInserted.toInt =
      ((s.db.videos.rows.filter (ofDone s.db)).filter (·.jobId = r.jobId)).length := by
  have hrow : s.db.jobs.byId r.jobId = some r := JobsTable.byId_eq_some_iff.mpr ⟨hr, rfl⟩
  have hof : ∀ v : Video, v.jobId = r.jobId → ofDone s.db v = decide (r.state = .done) := by
    intro v hid
    rw [ofDone, hid, hrow, Option.map_some]
    simp
  by_cases hdone : r.state = .done
  · have hall : (s.db.videos.rows.filter (ofDone s.db)).filter (·.jobId = r.jobId) =
        videosOf s.db r.jobId := by
      rw [List.filter_filter, videosOf]
      refine List.filter_congr fun v _ => ?_
      by_cases hid : v.jobId = r.jobId
      · rw [hof v hid, decide_eq_true hdone, Bool.and_true]
      · rw [decide_eq_false hid, Bool.false_and]
    rw [hall, doneCounted_of_reachable h _ r hrow hdone, Int32.toInt_ofNat_of_lt hsmall, countOf_eq]
  · have hnone : (s.db.videos.rows.filter (ofDone s.db)).filter (·.jobId = r.jobId) = [] := by
      rw [List.filter_filter]
      refine List.filter_eq_nil_iff.mpr fun v _ hv => ?_
      obtain ⟨hid, hv⟩ := Bool.and_eq_true_iff.mp hv
      rw [hof v (of_decide_eq_true hid)] at hv
      exact hdone (of_decide_eq_true hv)
    have hzero : r.videosInserted = 0 := by
      have hany : Reachable Migrated step Anything s := h.mono fun _ _ _ => trivial
      rcases regular_of_reachable hany r.jobId r hrow with
        (hwait | ⟨k, hk⟩) | ⟨k, hk⟩ | ⟨k, hk⟩
      · rw [hwait]
      · exact hk.videosInserted
      · exact absurd hk.state hdone
      · exact hk.videosInserted
    rw [hnone, hzero]
    rfl

/-- When a failing statement has no effect: the `videos_inserted` of all jobs, none of which
has more videos than an int32 counts, add up to the number of videos that GetVideoCount
gives, but for the videos of the jobs that are not done. -/
theorem inserted_total (h : Reachable Migrated step Clean s)
    (hjobs : ∀ r ∈ s.db.jobs.rows, s.db.videos.countOf r.jobId < 2 ^ 31)
    (hsmall : s.db.videos.rows.length < 2 ^ 63) :
    (getVideoCount s.db.videos).toInt =
      (s.db.jobs.rows.map (·.videosInserted.toInt)).sum +
        s.db.videos.rows.countP (fun v => !ofDone s.db v) := by
  have hcover : ∀ v ∈ s.db.videos.rows.filter (ofDone s.db),
      v.jobId ∈ s.db.jobs.rows.map (·.jobId) :=
    fun v hv => s.db.references v (List.mem_filter.mp hv).1
  have hsplit := sum_length_filter (fun v : Video => v.jobId) s.db.jobs.jobId_nodup hcover
  have hcounters : s.db.jobs.rows.map (·.videosInserted.toInt) =
      s.db.jobs.rows.map fun r =>
        (((s.db.videos.rows.filter (ofDone s.db)).filter (·.jobId = r.jobId)).length : ℤ) :=
    List.map_congr_left fun r hr => videosInserted_eq h hr (hjobs r hr)
  have hdone : (s.db.jobs.rows.map (·.videosInserted.toInt)).sum =
      (s.db.videos.rows.countP (ofDone s.db) : ℤ) := by
    rw [hcounters, List.countP_eq_length_filter, ← hsplit, Nat.cast_list_sum, List.map_map,
      List.map_map]
    rfl
  have hlength : s.db.videos.rows.length = s.db.videos.rows.countP (ofDone s.db) +
      s.db.videos.rows.countP (fun v => !ofDone s.db v) := by
    rw [List.length_eq_countP_add_countP (ofDone s.db)]
    simp only [Bool.not_eq_true, Bool.decide_eq_false]
  have hcount : (getVideoCount s.db.videos).toInt = s.db.videos.rows.length :=
    Int64.toInt_ofNat_of_lt hsmall
  rw [hdone, hcount, hlength, Nat.cast_add]

/-- The one video is of a dead job, whose counter is zero. -/
theorem inserted_total_halfIngested :
    (getVideoCount Accounting.halfIngested.db.videos).toInt = 0 + 1 := by
  have htotal := inserted_total (.of_run rfl Accounting.run_halfIngest (by decide)) (by decide)
    (by decide)
  have hcounters : (Accounting.halfIngested.db.jobs.rows.map (·.videosInserted.toInt)).sum = 0 := by
    decide +kernel
  have hleft : Accounting.halfIngested.db.videos.rows.countP
      (fun v => !ofDone Accounting.halfIngested.db v) = 1 := by decide +kernel
  rwa [hcounters, hleft] at htotal

end TrendingPipeline.System.Totals

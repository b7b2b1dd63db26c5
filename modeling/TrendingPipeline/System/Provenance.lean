/- Unit: TrendingPipeline/System/Provenance
   source: backend/worker/worker.go, backend/youtube/client.go, backend/db/db.go
   digest: Which job a stored video is of, and what no step can change any more. -/

import TrendingPipeline.System.Accounting
import TrendingPipeline.System.Restart

set_option autoImplicit false
set_option relaxedAutoImplicit false

namespace TrendingPipeline.System.Provenance

open Relation (ReflTransGen)
open TrendingPipeline.Base.Runs
open TrendingPipeline.Store.Tables (Db JobRow JobsTable VideosTable)
open TrendingPipeline.Store.Statements
open TrendingPipeline.Worker.ProcessJob (Job)
open TrendingPipeline.Worker.Machine (Input Point)
open TrendingPipeline.Worker.Effects
open TrendingPipeline.Youtube.FetchTrending (Video fetchTrending_ok)
open TrendingPipeline.System.Step
open TrendingPipeline.System.Custody
open TrendingPipeline.System.Rows
open TrendingPipeline.System.ExactlyOnce (count_heldIds)
open TrendingPipeline.System.Restart (holders)

def pending : Stage → List Video
  | .working (.ingest _ todo _ _) => todo
  | _ => []

structure MadeBy (job : Job) (v : Video) : Prop where
  jobId : v.jobId = job.id
  region : v.region = job.req.region

section Step

variable {job : Job} {inp : Input} {db db' : Db} {p : Point} {next : Worker.Machine.Next}

private theorem rows_insertVideo {v : Video} (h : insertVideo db v = some db') :
    db'.videos.rows = v :: db.videos.rows :=
  VideosTable.rows_insert (insertVideo_videos h)

private theorem madeBy_of_goto {q : Point} (h : Steps job inp db p (.goto q) db')
    (hmade : ∀ v ∈ pending (.working p), MadeBy job v) :
    ∀ v ∈ pending (.working q), MadeBy job v := by
  have hnone : ∀ v ∈ ([] : List Video), MadeBy job v := fun _ hv => absurd hv List.not_mem_nil
  cases h with
  | fetched attempt videos hfetch =>
      intro v hv
      obtain ⟨hid, hregion⟩ := (fetchTrending_ok hfetch).2 v hv
      exact ⟨hid, hregion⟩
  | inserted attempt v vs =>
      exact fun w hw => hmade w (List.mem_cons_of_mem v hw)
  | started => exact hnone
  | startFailed => exact hnone
  | fetchFailed => exact hnone
  | retried => exact hnone
  | retryFailed => exact hnone
  | slept => exact hnone
  | exhausted => exact hnone
  | insertFailed => exact hnone

private theorem stored_of_steps (h : Steps job inp db p next db') :
    db'.videos.rows = db.videos.rows ∨
      ∃ v ∈ pending (.working p), db'.videos.rows = v :: db.videos.rows := by
  cases h with
  | startFailed _ _ hafter => exact .inl (by rw [hafter.videos_of_row])
  | retryFailed _ _ _ hafter => exact .inl (by rw [hafter.videos_of_row])
  | inserted attempt v vs _ _ _ _ hinsert =>
      exact .inr ⟨v, List.mem_cons_self, rows_insertVideo hinsert⟩
  | insertFailed attempt v vs _ _ _ hafter =>
      rcases hafter with rfl | ⟨-, hinsert⟩
      · exact .inl rfl
      · exact .inr ⟨v, List.mem_cons_self, rows_insertVideo hinsert⟩
  | _ => exact .inl rfl

private theorem kept_of_steps (h : Steps job inp db p next db') {id : String} {r : JobRow}
    (hr : db.jobs.byId id = some r) : ∃ g, db'.jobs.byId id = some (r.apply g) := by
  have hsame : db.jobs.byId id = some (r.apply fun columns => columns) := hr
  cases h.touches with
  | nothing heq => exact ⟨_, heq ▸ hsame⟩
  | row g heq =>
      subst heq
      by_cases hid : id = job.id
      · subst hid
        exact ⟨g, byId_updateJob_self g hr⟩
      · exact ⟨_, (byId_updateJob_of_ne g hid).trans hsame⟩
  | video v hinsert =>
      rw [insertVideo_jobs hinsert]
      exact ⟨_, hsame⟩

end Step

variable {ok : Fault → Prop} {l l' : Ledger}

private theorem kept_of_moves (hmove : Moves ok l l') {id : String} {r : JobRow}
    (hr : l.db.jobs.byId id = some r) : ∃ g, l'.db.jobs.byId id = some (r.apply g) := by
  have hsame : l.db.jobs.byId id = some (r.apply fun columns => columns) := hr
  cases hmove with
  | quiet => exact ⟨_, hsame⟩
  | create jobId req now db hinsert => exact ⟨_, byId_of_insertJob hinsert hsame⟩
  | orphan jobId req now db _ hinsert => exact ⟨_, byId_of_insertJob hinsert hsame⟩
  | enqueue => exact ⟨_, hsame⟩
  | receive => exact ⟨_, hsame⟩
  | work job p q inp db rest _ _ hsteps => exact kept_of_steps hsteps hr
  | release job p inp db rest _ _ hsteps => exact kept_of_steps hsteps hr
  | halt => exact ⟨_, hsame⟩

/-- What a held job is about to store is its own, and so is its row. -/
structure LabelledAt (db : Db) (x : Job × Stage) : Prop where
  pending : ∀ v ∈ pending x.2, MadeBy x.1 v
  row : ∃ r, db.jobs.byId x.1.id = some r ∧ r.region = x.1.req.region

def Labelled (l : Ledger) : Prop := ∀ x ∈ l.held, LabelledAt l.db x

theorem LabelledAt.keep {db db' : Db} {x : Job × Stage} (h : LabelledAt db x)
    (hkept : ∀ r, db.jobs.byId x.1.id = some r → ∃ g, db'.jobs.byId x.1.id = some (r.apply g)) :
    LabelledAt db' x where
  pending := h.pending
  row := by
    obtain ⟨r, hr, hregion⟩ := h.row
    obtain ⟨g, hg⟩ := hkept r hr
    exact ⟨_, hg, hregion⟩

theorem Labelled.keep (h : Labelled l) (hmove : Moves ok l l') {x : Job × Stage}
    (hx : x ∈ l.held) : LabelledAt l'.db x :=
  (h x hx).keep fun _ hr => kept_of_moves hmove hr

theorem Labelled.step (h : Labelled l) (hmove : Moves ok l l') : Labelled l' := by
  intro x hx
  have hkeep : ∀ y ∈ l.held, LabelledAt l'.db y := fun y hy => h.keep hmove hy
  cases hmove with
  | quiet => exact hkeep x hx
  | create jobId req now db hinsert =>
      rcases Multiset.mem_cons.mp hx with rfl | hx
      · refine ⟨fun _ hv => absurd hv List.not_mem_nil, newRow now jobId req, ?_, rfl⟩
        exact (byId_insertJob hinsert jobId).trans (if_pos rfl)
      · exact hkeep x hx
  | orphan => exact hkeep x hx
  | enqueue job rest hheld =>
      rcases Multiset.mem_cons.mp hx with rfl | hx
      · have hat := hkeep (job, .hand) (hheld ▸ Multiset.mem_cons_self _ _)
        exact ⟨hat.pending, hat.row⟩
      · exact hkeep x (hheld ▸ Multiset.mem_cons_of_mem hx)
  | receive job rest hheld =>
      rcases Multiset.mem_cons.mp hx with rfl | hx
      · have hat := hkeep (job, .queued) (hheld ▸ Multiset.mem_cons_self _ _)
        exact ⟨hat.pending, hat.row⟩
      · exact hkeep x (hheld ▸ Multiset.mem_cons_of_mem hx)
  | work job p q inp db rest hheld _ hsteps =>
      rcases Multiset.mem_cons.mp hx with rfl | hx
      · have hat := hkeep (job, .working p) (hheld ▸ Multiset.mem_cons_self _ _)
        exact ⟨madeBy_of_goto hsteps hat.pending, hat.row⟩
      · exact hkeep x (hheld ▸ Multiset.mem_cons_of_mem hx)
  | release job p inp db rest hheld =>
      exact hkeep x (hheld ▸ Multiset.mem_cons_of_mem hx)
  | halt => exact absurd hx (Multiset.notMem_zero x)

/-- What a step may store: a video pending at a held job. -/
inductive Stored (l l' : Ledger) : Prop
  | nothing : l'.db.videos.rows = l.db.videos.rows → Stored l l'
  | video (job : Job) (p : Point) (v : Video) : (job, .working p) ∈ l.held →
      v ∈ pending (.working p) → l'.db.videos.rows = v :: l.db.videos.rows → Stored l l'

private theorem stored_of_moves (hmove : Moves ok l l') : Stored l l' := by
  have hwork : ∀ (job : Job) (p : Point) (inp : Input) (next : Worker.Machine.Next) (db : Db)
      (rest : Multiset (Job × Stage)), l.held = (job, .working p) ::ₘ rest →
      Steps job inp l.db p next db → l'.db = db → Stored l l' := by
    rintro job p inp next db rest hheld hsteps rfl
    rcases stored_of_steps hsteps with hsame | ⟨v, hv, hrows⟩
    · exact .nothing hsame
    · exact .video job p v (hheld ▸ Multiset.mem_cons_self _ _) hv hrows
  cases hmove with
  | quiet => exact .nothing rfl
  | create jobId req now db hinsert => exact .nothing (by rw [insertJob_videos hinsert])
  | orphan jobId req now db _ hinsert => exact .nothing (by rw [insertJob_videos hinsert])
  | enqueue => exact .nothing rfl
  | receive => exact .nothing rfl
  | work job p q inp db rest hheld _ hsteps => exact hwork job p inp _ db rest hheld hsteps rfl
  | release job p inp db rest hheld _ hsteps => exact hwork job p inp _ db rest hheld hsteps rfl
  | halt => exact .nothing rfl

/-- Every video has its job, which is for the same region and was started. -/
def Sourced (db : Db) : Prop :=
  ∀ v ∈ db.videos.rows,
    ∃ r, db.jobs.byId v.jobId = some r ∧ r.region = v.region ∧ r.state ≠ .queued

private theorem not_queued_of_advances {a b : Store.Tables.RowState × Int} (h : Advances a b) :
    b.1 ≠ .queued := by
  cases h <;> nofun

private theorem not_queued_of_progresses {r r' : JobRow} (h : Progresses r r')
    (hr : r.state ≠ .queued) :
    r'.state ≠ .queued := by
  rcases h with rfl | ⟨-, hadvances⟩
  · exact hr
  · exact not_queued_of_advances hadvances

private theorem not_queued_of_pending {p : Point} {v : Video} (hv : v ∈ pending (.working p))
    {r : JobRow} (hat : RowAt (.working p) r.toJobProgress) : r.state ≠ .queued := by
  cases p with
  | ingest attempt todo fetched count =>
      obtain ⟨⟨k, -, -, hk⟩, -⟩ := hat
      rw [hk.state]
      split <;> decide
  | _ => exact absurd hv List.not_mem_nil

theorem Sourced.step (hten : Tended l) (hlab : Labelled l) (h : Sourced l.db)
    (hmove : Moves ok l l') : Sourced l'.db := by
  -- what a row says of its region and its start stays so
  have hstays : ∀ id r, l.db.jobs.byId id = some r → r.state ≠ .queued →
      ∃ r', l'.db.jobs.byId id = some r' ∧ r'.region = r.region ∧ r'.state ≠ .queued := by
    intro id r hr hstate
    obtain ⟨g, hg⟩ := kept_of_moves hmove hr
    obtain ⟨r', hr', hprogress⟩ := progresses_of_moves hten hmove hr
    obtain rfl := Option.some.inj (hg.symm.trans hr')
    exact ⟨_, hg, rfl, not_queued_of_progresses hprogress hstate⟩
  have hold : ∀ v ∈ l.db.videos.rows,
      ∃ r, l'.db.jobs.byId v.jobId = some r ∧ r.region = v.region ∧ r.state ≠ .queued := by
    intro v hv
    obtain ⟨r, hr, hregion, hstate⟩ := h v hv
    obtain ⟨r', hr', hsame, hstate'⟩ := hstays _ r hr hstate
    exact ⟨r', hr', hsame.trans hregion, hstate'⟩
  intro v hv
  cases stored_of_moves hmove with
  | nothing hrows =>
      rw [hrows] at hv
      exact hold v hv
  | video job p w hheld hw hrows =>
      rw [hrows] at hv
      rcases List.mem_cons.mp hv with rfl | hv
      · obtain ⟨hpending, r₀, hr₀, hregion⟩ := hlab _ hheld
        obtain ⟨r, hr, hat⟩ := hten _ hheld
        obtain rfl := Option.some.inj (hr₀.symm.trans hr)
        obtain ⟨r', hr', hsame, hstate⟩ := hstays _ r₀ hr (not_queued_of_pending hw hat)
        have hmade := hpending v hw
        exact ⟨r', hmade.jobId ▸ hr', hsame.trans (hregion.trans hmade.region.symm), hstate⟩
      · exact hold v hv

variable {s t : State}

theorem labelled_of_reachable (h : Reachable Cold step Anything s) : Labelled (ofState s) := by
  refine h.invariant (I := fun s => Labelled (ofState s)) ?_ ?_
  · rintro _ ⟨db, rfl⟩
    exact fun x hx => absurd hx (Multiset.notMem_zero x)
  · exact fun s a t hlab _ hstep => hlab.step (moves_any hstep)

theorem sourced_of_reachable (h : Reachable Migrated step Anything s) : Sourced s.db := by
  refine (h.invariant (I := fun s => Reachable Cold step Anything s ∧ Sourced s.db) ?_ ?_).2
  · rintro _ rfl
    exact ⟨⟨_, ⟨.empty, rfl⟩, .refl⟩, fun v hv => absurd hv List.not_mem_nil⟩
  · rintro s a t ⟨hreach, hsourced⟩ _ hstep
    exact ⟨hreach.next trivial hstep,
      Sourced.step (tended_of_reachable hreach) (labelled_of_reachable hreach) hsourced
        (moves_any hstep)⟩

theorem Sourced.nodup {db : Db} (h : Sourced db) :
    (db.videos.rows.map fun v => (v.videoId, v.jobId)).Nodup := by
  refine (List.Nodup.of_map _ db.videos.key_nodup).map_on ?_
  intro v hv w hw hsame
  obtain ⟨hvideo, hjob⟩ := Prod.ext_iff.mp hsame
  obtain ⟨r, hr, hregion, -⟩ := h v hv
  obtain ⟨r', hr', hregion', -⟩ := h w hw
  have hjob' : v.jobId = w.jobId := hjob
  obtain rfl := Option.some.inj (hr.symm.trans (hjob' ▸ hr'))
  refine List.inj_on_of_nodup_map db.videos.key_nodup hv hw ?_
  exact Prod.ext hvideo (Prod.ext (hregion.symm.trans hregion') hjob)

/-- Through any failures and restarts, every stored video has the jobs row of its `job_id`,
which is for the same region and no longer queued, and no job has stored a video twice. -/
theorem provenance (h : Reachable Migrated step Anything s) :
    (∀ v ∈ s.db.videos.rows,
        ∃ r, s.db.jobs.byId v.jobId = some r ∧ r.region = v.region ∧ r.state ≠ .queued) ∧
      (s.db.videos.rows.map fun v => (v.videoId, v.jobId)).Nodup :=
  ⟨sourced_of_reachable h, (sourced_of_reachable h).nodup⟩

/-- After the job that stopped halfway, one for another region finds both videos. -/
def otherRegion : List Act := [
  .submitJob { region := "GB", maxResults := 5, idempotencyKey := "gb-1" },
  .call 1 (.lookup .none Base.Calendar.Time.zero),
  .call 1 (.insert .none "job-2" Base.Calendar.Time.zero),
  .call 1 (.send Base.Calendar.Time.zero), .receive 0, .work 0 {},
  .work 0
    { get := fun _ => .response 200
        "\x7b\"items\": [\x7b\"id\": \"a\"\x7d, \x7b\"id\": \"b\"\x7d]\x7d" },
  .work 0 {}, .work 0 {}]

theorem provenance_otherRegion :
    ∃ s, run step Accounting.halfIngested otherRegion = some s ∧
      s.db.videos.rows.map (fun v => (v.videoId, v.jobId, v.region)) =
        [("b", "job-2", "GB"), ("a", "job-2", "GB"), ("a", "job-1", "US")] ∧
      ∀ v ∈ s.db.videos.rows, ∃ r, s.db.jobs.byId v.jobId = some r ∧ r.region = v.region ∧
        r.state ≠ .queued := by
  have hrows : (run step Accounting.halfIngested otherRegion).map
      (fun s => s.db.videos.rows.map fun v => (v.videoId, v.jobId, v.region)) =
        some [("b", "job-2", "GB"), ("a", "job-2", "GB"), ("a", "job-1", "US")] := by
    decide +kernel
  obtain ⟨s, hs, hthree⟩ := Option.map_eq_some_iff.mp hrows
  have hreach : Reachable Migrated step Anything Accounting.halfIngested :=
    .of_run rfl Accounting.run_halfIngest (meets_true _ _)
  exact ⟨s, hs, hthree, (provenance (hreach.path (path_of_run hs (meets_true _ _)))).1⟩

def videosOf (db : Db) (id : String) : List Video := db.videos.rows.filter (·.jobId = id)

structure SameRecord (db db' : Db) (id : String) : Prop where
  row : db'.jobs.byId id = db.jobs.byId id
  videos : videosOf db' id = videosOf db id

structure Left (l : Ledger) (id : String) : Prop where
  present : id ∈ l.ids
  unheld : id ∉ l.heldIds

private theorem mem_heldIds {x : Job × Stage} (hx : x ∈ l.held) : x.1.id ∈ l.heldIds :=
  Multiset.mem_map.mpr ⟨x, hx, rfl⟩

private theorem ids_of_moves (hmove : Moves ok l l') {id : String} (hid : id ∈ l.ids) :
    id ∈ l'.ids := by
  obtain ⟨r, hr⟩ := Option.isSome_iff_exists.mp (JobsTable.byId_isSome_iff.mpr hid)
  obtain ⟨g, hg⟩ := kept_of_moves hmove hr
  exact JobsTable.byId_isSome_iff.mp (by rw [hg]; rfl)

theorem Left.step {id : String} (h : Left l id) (hmove : Moves ok l l') : Left l' id := by
  refine ⟨ids_of_moves hmove h.present, ?_⟩
  have hpass : ∀ (job : Job) (a b : Stage) (rest : Multiset (Job × Stage)),
      l.held = (job, a) ::ₘ rest →
      (((job, b) ::ₘ rest).map fun x => x.1.id) = l.heldIds := by
    intro job a b rest hheld
    rw [Ledger.heldIds, hheld, Multiset.map_cons, Multiset.map_cons]
  cases hmove with
  | quiet => exact h.unheld
  | create jobId req now db hinsert =>
      intro hid
      rw [Ledger.heldIds, Multiset.map_cons] at hid
      rcases Multiset.mem_cons.mp hid with rfl | hid
      · exact insertJob_fresh hinsert h.present
      · exact h.unheld hid
  | orphan => exact h.unheld
  | enqueue job rest hheld =>
      intro hid
      rw [Ledger.heldIds, hpass job .hand .queued rest hheld] at hid
      exact h.unheld hid
  | receive job rest hheld =>
      intro hid
      rw [Ledger.heldIds, hpass job .queued (.working .start) rest hheld] at hid
      exact h.unheld hid
  | work job p q inp db rest hheld =>
      intro hid
      rw [Ledger.heldIds, hpass job (.working p) (.working q) rest hheld] at hid
      exact h.unheld hid
  | release job p inp db rest hheld =>
      intro hid
      refine h.unheld ?_
      rw [Ledger.heldIds, hheld, Multiset.map_cons]
      exact Multiset.mem_cons_of_mem hid
  | halt => exact Multiset.notMem_zero id

theorem sameRecord_of_moves (hlab : Labelled l) {id : String} (h : Left l id)
    (hmove : Moves ok l l') : SameRecord l.db l'.db id where
  row := by
    have hne : ∀ (job : Job) (a : Stage) (rest : Multiset (Job × Stage)),
        l.held = (job, a) ::ₘ rest → id ≠ job.id := by
      rintro job a rest hheld rfl
      exact h.unheld (mem_heldIds (x := (job, a)) (hheld ▸ Multiset.mem_cons_self _ _))
    obtain ⟨r, hr⟩ := Option.isSome_iff_exists.mp (JobsTable.byId_isSome_iff.mpr h.present)
    rw [hr]
    cases hmove with
    | quiet => exact hr
    | create jobId req now db hinsert => exact byId_of_insertJob hinsert hr
    | orphan jobId req now db _ hinsert => exact byId_of_insertJob hinsert hr
    | enqueue => exact hr
    | receive => exact hr
    | work job p q inp db rest hheld _ hsteps =>
        exact (hsteps.byId_of_ne (hne job _ rest hheld)).trans hr
    | release job p inp db rest hheld _ hsteps =>
        exact (hsteps.byId_of_ne (hne job _ rest hheld)).trans hr
    | halt => exact hr
  videos := by
    cases stored_of_moves hmove with
    | nothing hrows => rw [videosOf, hrows, videosOf]
    | video job p v hheld hv hrows =>
        have hmade := (hlab _ hheld).pending v hv
        have hother : v.jobId ≠ id := by
          rintro rfl
          exact h.unheld (hmade.jobId ▸ mem_heldIds hheld)
        rw [videosOf, hrows, List.filter_cons_of_neg (by simpa using hother), videosOf]

theorem SameRecord.trans {db db' db'' : Db} {id : String} (h : SameRecord db db' id)
    (h' : SameRecord db' db'' id) : SameRecord db db'' id :=
  ⟨h'.row.trans h.row, h'.videos.trans h.videos⟩

private theorem appended_of_moves (hmove : Moves ok l l') :
    ∃ new, l'.db.videos.rows = new ++ l.db.videos.rows := by
  cases stored_of_moves hmove with
  | nothing hrows => exact ⟨[], hrows⟩
  | video job p v _ _ hrows => exact ⟨[v], hrows⟩

theorem appended_of_path (hpath : ReflTransGen (Next step Anything) s t) :
    ∃ new, t.db.videos.rows = new ++ s.db.videos.rows := by
  induction hpath with
  | refl => exact ⟨[], rfl⟩
  | tail _ hnext ih =>
      obtain ⟨a, -, hstep⟩ := hnext
      obtain ⟨new, hrows⟩ := ih
      obtain ⟨more, hmore⟩ := appended_of_moves (moves_any hstep)
      exact ⟨more ++ new, by rw [List.append_assoc, ← hrows]; exact hmore⟩

private theorem left_of_holders {id : String} {r : JobRow} (hr : s.db.jobs.byId id = some r)
    (hnobody : holders s id = 0) : Left (ofState s) id where
  present := JobsTable.byId_isSome_iff.mp (Option.isSome_of_eq_some hr)
  unheld := by
    rw [← Multiset.count_eq_zero, count_heldIds]
    exact hnobody

/-- Whatever runs, fails, stops or starts afterwards: videos are only added, and of a job
that no call, no channel and no worker holds, neither the row nor the videos change, and
nobody takes it up again. -/
theorem left_alone (h : Reachable Cold step Anything s)
    (hpath : ReflTransGen (Next step Anything) s t) :
    (∃ new, t.db.videos.rows = new ++ s.db.videos.rows) ∧
      ∀ id r, s.db.jobs.byId id = some r → holders s id = 0 →
        t.db.jobs.byId id = some r ∧ videosOf t.db id = videosOf s.db id ∧ holders t id = 0 := by
  refine ⟨appended_of_path hpath, ?_⟩
  intro id r hr hnobody
  have hstays : Left (ofState t) id ∧ SameRecord s.db t.db id := by
    refine h.stays (P := fun t => Left (ofState t) id ∧ SameRecord s.db t.db id) ?_
      ⟨left_of_holders hr hnobody, rfl, rfl⟩ hpath
    rintro m a n hm ⟨hleft, hsame⟩ _ hstep
    have hmove := moves_any hstep
    exact ⟨hleft.step hmove,
      hsame.trans (sameRecord_of_moves (labelled_of_reachable hm) hleft hmove)⟩
  obtain ⟨hleft, hsame⟩ := hstays
  refine ⟨hsame.row.trans hr, hsame.videos, ?_⟩
  have hcount := Multiset.count_eq_zero.mpr hleft.unheld
  rwa [count_heldIds] at hcount

/-- The job that stopped halfway, and the next process with another job. -/
def later : List Act := [.shutdown, .exit, .boot 2, .submitJob ExactlyOnce.sampleRequest]

theorem left_alone_halfIngested :
    ∃ t, run step Accounting.halfIngested later = some t ∧ t.phase = .up ∧
      (videosOf t.db "job-1").length = 1 := by
  have hreach : Reachable Cold step Anything Accounting.halfIngested :=
    .of_run ⟨.empty, rfl⟩ Accounting.run_halfIngest (meets_true _ _)
  have hsome : (run step Accounting.halfIngested later).isSome = true := by decide +kernel
  obtain ⟨t, ht⟩ := Option.isSome_iff_exists.mp hsome
  obtain ⟨r, hr⟩ : ∃ r, Accounting.halfIngested.db.jobs.byId "job-1" = some r :=
    Option.isSome_iff_exists.mp (by decide +kernel)
  have hleft := (left_alone hreach (path_of_run ht (meets_true _ _))).2 "job-1" r hr
    (by decide +kernel)
  refine ⟨t, ht, ?_, ?_⟩
  · have hphase : (run step Accounting.halfIngested later).map (·.phase) = some .up := by
      decide +kernel
    rw [ht] at hphase
    exact Option.some.inj hphase
  · rw [hleft.2.1]
    decide +kernel

end TrendingPipeline.System.Provenance

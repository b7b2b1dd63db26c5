/- Unit: TrendingPipeline/System/Accounting
   source: backend/worker/worker.go, backend/db/db.go
   digest: The counters of a finished job against its videos, and the exits that miss them. -/

import TrendingPipeline.System.Lifecycle

set_option autoImplicit false
set_option relaxedAutoImplicit false

namespace TrendingPipeline.System.Accounting

open TrendingPipeline.Base.Calendar (Time)
open TrendingPipeline.Base.Holdings
open TrendingPipeline.Base.Runs
open TrendingPipeline.Store.Tables (Db JobProgress JobRow JobsTable)
open TrendingPipeline.Store.Statements
open TrendingPipeline.Worker.ProcessJob (DeadReason Job)
open TrendingPipeline.Worker.Machine (Input Point)
open TrendingPipeline.Worker.Effects
open TrendingPipeline.Youtube.FetchTrending (Video fetchTrending_ok)
open TrendingPipeline.System.Step
open TrendingPipeline.System.Custody
open TrendingPipeline.System.ExactlyOnce (submission)
open TrendingPipeline.System.Lifecycle (Touches touches_of_step)
open TrendingPipeline.System.Rows

/-- How the videos stored for a job and the size of its last fetch are related at a
stage, when a failing statement has no effect. -/
def CountedAt (id : String) (stored fetched : Nat) : Stage → Prop
  | .working (.ingest _ todo videosFetched videosInserted) =>
      fetched = stored + todo.length ∧ videosFetched = Int32.ofNat fetched ∧
        videosInserted = Int32.ofNat stored ∧ ∀ v ∈ todo, v.jobId = id
  | .working (.dead .inserting) => stored < fetched
  | _ => stored = 0 ∧ fetched = 0

section Step

variable {job : Job} {inp : Input} {db db' : Db} {p q : Point} {next : Worker.Machine.Next}
  {fetched : String → Nat}

private theorem countedAt_of_goto (h : Steps job inp db p (.goto q) db')
    (hclean : inp.fault ≠ .applied)
    (hat : CountedAt job.id (db.videos.countOf job.id) (fetched job.id) (.working p)) :
    CountedAt job.id (db'.videos.countOf job.id) (recordFetch fetched job p (.goto q) job.id)
      (.working q) := by
  cases h with
  | started => exact hat
  | startFailed db' _ hafter =>
      obtain rfl := hafter.clean hclean
      exact hat
  | fetchFailed => exact hat
  | fetched attempt videos hfetch =>
      obtain ⟨hstored, -⟩ := hat
      have hsize : recordFetch fetched job (.fetch attempt)
          (.goto (.ingest attempt videos (Int32.ofNat videos.length) 0)) job.id =
          videos.length := Function.update_self ..
      rw [hsize, hstored]
      exact ⟨(Nat.zero_add _).symm, rfl, rfl, fun v hv => ((fetchTrending_ok hfetch).2 v hv).1⟩
  | retried => exact hat
  | retryFailed attempt db' _ hafter =>
      obtain rfl := hafter.clean hclean
      exact hat
  | slept => exact hat
  | exhausted => exact hat
  | inserted attempt v vs videosFetched videosInserted db' _ hinsert =>
      obtain ⟨hsize, hfetched, hinserted, hids⟩ := hat
      have hcount : db'.videos.countOf job.id = db.videos.countOf job.id + 1 := by
        rw [countOf_insertVideo hinsert, if_pos (hids v List.mem_cons_self)]
      refine ⟨?_, hfetched, ?_, fun w hw => hids w (List.mem_cons_of_mem v hw)⟩
      · have hlength : recordFetch fetched job (.ingest attempt (v :: vs) videosFetched
            videosInserted) (.goto (.ingest attempt vs videosFetched (videosInserted + 1))) job.id =
            fetched job.id := rfl
        rw [hlength, hsize, hcount, List.length_cons]
        omega
      · rw [hinserted, hcount, Int32.ofNat_add]
        rfl
  | insertFailed attempt v vs videosFetched videosInserted db' hafter =>
      obtain rfl := hafter.clean hclean
      obtain ⟨hsize, -⟩ := hat
      have hlength : fetched job.id = db'.videos.countOf job.id + (vs.length + 1) := hsize
      exact lt_of_lt_of_eq (by omega) hlength.symm

private theorem countOf_of_ne (h : Steps job inp db p next db')
    (hat : CountedAt job.id (db.videos.countOf job.id) (fetched job.id) (.working p)) {id : String}
    (hne : id ≠ job.id) : db'.videos.countOf id = db.videos.countOf id := by
  have hvideo : ∀ v : Video, v.jobId = job.id → insertVideo db v = some db' →
      db'.videos.countOf id = db.videos.countOf id := by
    intro v hv hinsert
    rw [countOf_insertVideo hinsert, if_neg (by rw [hv]; exact hne.symm), Nat.add_zero]
  cases h with
  | startFailed _ _ hafter => rw [hafter.videos_of_row]
  | retryFailed _ _ _ hafter => rw [hafter.videos_of_row]
  | inserted attempt v vs _ _ _ _ hinsert =>
      exact hvideo v (hat.2.2.2 v List.mem_cons_self) hinsert
  | insertFailed attempt v vs _ _ _ hafter =>
      rcases hafter with rfl | ⟨-, hinsert⟩
      · rfl
      · exact hvideo v (hat.2.2.2 v List.mem_cons_self) hinsert
  | _ => rfl

private theorem countOf_of_returned (h : Steps job inp db p .returned db') (id : String) :
    db'.videos.countOf id = db.videos.countOf id := by
  cases h with
  | completed => rfl
  | completionLost => rfl
  | died => rfl
  | deathLost => rfl

private theorem recordFetch_of_ne {id : String} (hne : id ≠ job.id) :
    recordFetch fetched job p next id = fetched id := by
  unfold recordFetch
  split
  · split
    · exact Function.update_of_ne hne _ _
    · rfl
  · rfl

end Step

variable {l l' : Ledger}

structure Counted (l : Ledger) : Prop where
  held : ∀ x ∈ l.held, CountedAt x.1.id (l.db.videos.countOf x.1.id) (l.fetched x.1.id) x.2
  absent : ∀ id, id ∉ l.ids → l.fetched id = 0

theorem Counted.handOver (h : Counted l) {job : Job} {a b : Stage} {rest : Multiset (Job × Stage)}
    (hheld : l.held = (job, a) ::ₘ rest)
    (hpass : ∀ m n, CountedAt job.id m n a → CountedAt job.id m n b) :
    Counted { l with held := (job, b) ::ₘ rest } where
  held := by
    intro x hx
    rcases Multiset.mem_cons.mp hx with rfl | hx
    · exact hpass _ _ (h.held (job, a) (hheld ▸ Multiset.mem_cons_self _ _))
    · exact h.held x (hheld ▸ Multiset.mem_cons_of_mem hx)
  absent := h.absent

theorem Counted.insert (h : Counted l) {jobId : String} {req : Proto.Messages.JobRequest}
    {now : Time} {db : Db} (hinsert : insertJob l.db now jobId req = some db) :
    Counted { l with db := db } where
  held := by
    intro x hx
    rw [insertJob_videos hinsert]
    exact h.held x hx
  absent := by
    intro id hid
    rw [Ledger.ids, insertJob_ids hinsert] at hid
    exact h.absent id fun hmem => hid (List.mem_cons_of_mem _ hmem)

theorem Counted.step (hbal : Balanced l) (h : Counted l) (hmove : Moves (· ≠ .applied) l l') :
    Counted l' := by
  cases hmove with
  | quiet => exact h
  | create jobId req now db hinsert =>
      refine ⟨?_, (h.insert hinsert).absent⟩
      intro x hx
      rcases Multiset.mem_cons.mp hx with rfl | hx
      · have hfresh := insertJob_fresh hinsert
        refine ⟨?_, h.absent jobId hfresh⟩
        rw [insertJob_videos hinsert]
        exact Db.countOf_eq_zero hfresh
      · exact (h.insert hinsert).held x hx
  | orphan _ _ _ _ hno _ => exact absurd rfl hno
  | enqueue job rest hheld => exact h.handOver hheld fun _ _ hat => hat
  | receive job rest hheld => exact h.handOver hheld fun _ _ hat => hat
  | work job p q inp db rest hheld hclean hsteps =>
      have hat := h.held (job, .working p) (hheld ▸ Multiset.mem_cons_self _ _)
      constructor
      · intro x hx
        rcases Multiset.mem_cons.mp hx with rfl | hx
        · exact countedAt_of_goto hsteps hclean hat
        · have hne := id_ne_of_held hbal hheld hx
          have hold := h.held x (hheld ▸ Multiset.mem_cons_of_mem hx)
          rw [← countOf_of_ne hsteps hat hne] at hold
          change CountedAt _ _ (recordFetch l.fetched job p (.goto q) x.1.id) _
          rw [recordFetch_of_ne hne]
          exact hold
      · intro id hid
        rw [Ledger.ids, hsteps.ids] at hid
        have hne : id ≠ job.id := by
          rintro rfl
          have hmem : job.id ∈ (l.inserted : Multiset String) := by
            rw [← hbal.balance, Ledger.heldIds, hheld, Multiset.map_cons]
            exact Multiset.mem_add.mpr (.inl (Multiset.mem_cons_self _ _))
          exact hid (hbal.present _ hmem)
        change recordFetch l.fetched job p (.goto q) id = 0
        rw [recordFetch_of_ne hne]
        exact h.absent id hid
  | release job p inp db rest hheld _ hsteps =>
      constructor
      · intro x hx
        have hold := h.held x (hheld ▸ Multiset.mem_cons_of_mem hx)
        rw [← countOf_of_returned hsteps] at hold
        exact hold
      · intro id hid
        rw [Ledger.ids, hsteps.ids] at hid
        exact h.absent id hid
  | halt => exact ⟨fun x hx => absurd hx (Multiset.notMem_zero x), h.absent⟩

variable {s t : State} {a : Act}

/-- The counters of every finished job agree with the videos stored for it and with
its last fetch. -/
def AccountsAgree (s : State) : Prop :=
  ∀ id r, s.db.jobs.byId id = some r → r.state.terminal = true →
    r.videosInserted.toInt = s.db.videos.countOf id ∧ r.videosFetched.toInt = s.fetched id

/-- An UPDATE that closes the row while the counters miss the videos: a job is given
up after an InsertVideo failed, or more videos were fetched than an int32 counts. -/
def spoilsAt (f : Fault) (fetched : Nat) : Point → Bool
  | .dead .inserting => f ≠ .lost
  | .ingest _ [] _ _ => f ≠ .lost && 2 ^ 31 ≤ fetched
  | _ => false

def spoils (s : State) : Act → Bool
  | .work w inp =>
      match s.workers[w]? with
      | some (.busy job p) => spoilsAt inp.fault (s.fetched job.id) p
      | _ => false
  | _ => false

theorem counted_of_reachable (h : Reachable Cold step Clean s) : Counted (ofState s) := by
  refine (h.invariant (I := fun s => Reachable Cold step Anything s ∧ Counted (ofState s)) ?_ ?_).2
  · rintro _ ⟨db, rfl⟩
    exact ⟨⟨_, ⟨db, rfl⟩, .refl⟩, fun x hx => absurd hx (Multiset.notMem_zero x), fun _ _ => rfl⟩
  · rintro s a t ⟨hreach, hcounted⟩ hclean hstep
    exact ⟨hreach.next trivial hstep,
      hcounted.step (balanced_of_reachable hreach) (moves_step hclean hstep)⟩

private theorem toInt_ofNat_eq_iff (n : Nat) : (Int32.ofNat n).toInt = n ↔ n < 2 ^ 31 := by
  constructor
  · intro h
    have hlt := Int32.toInt_lt (Int32.ofNat n)
    omega
  · exact Int32.toInt_ofNat_of_lt

def RowAgrees (s : State) (id : String) : Prop :=
  ∀ r, s.db.jobs.byId id = some r → r.state.terminal = true →
    r.videosInserted.toInt = s.db.videos.countOf id ∧ r.videosFetched.toInt = s.fetched id

private theorem rowAgrees_of_open {id : String} {r : JobRow} (hr : t.db.jobs.byId id = some r)
    (hopen : Open r.toJobProgress) : RowAgrees t id := by
  intro r' hr' hterm
  obtain rfl := Option.some.inj (hr.symm.trans hr')
  rw [hopen.not_terminal] at hterm
  cases hterm

private theorem spoilsAt_of_goes_on {job : Job} {inp : Input} {db db' : Db} {p : Point}
    {next : Worker.Machine.Next} (h : Steps job inp db p next db') (hnext : next ≠ .returned)
    {f : Fault} {n : Nat} : spoilsAt f n p = false := by
  cases h with
  | completed => exact absurd rfl hnext
  | completionLost => exact absurd rfl hnext
  | died => exact absurd rfl hnext
  | deathLost => exact absurd rfl hnext
  | _ => rfl

private theorem rowAgrees_closed_iff {id : String} {r : JobRow} {g : JobProgress → JobProgress}
    (hg : ∀ p, (g p).state.terminal = true) (hr : t.db.jobs.byId id = some (r.apply g)) :
    RowAgrees t id ↔
      (g r.toJobProgress).videosInserted.toInt = t.db.videos.countOf id ∧
        (g r.toJobProgress).videosFetched.toInt = t.fetched id := by
  constructor
  · exact fun h => h _ hr (hg _)
  · intro h r' hr' _
    obtain rfl := Option.some.inj (hr.symm.trans hr')
    exact h

section Finish

variable {job : Job} {r : JobRow}

private theorem rowAgrees_completed_iff {inp : Input} {attempt : Nat} {fetched count : Int32}
    (hr : t.db.jobs.byId job.id = some (r.apply (completedNow inp fetched count)))
    (hcounted : CountedAt job.id (t.db.videos.countOf job.id) (t.fetched job.id)
      (.working (.ingest attempt [] fetched count))) (hfault : inp.fault ≠ .lost) :
    RowAgrees t job.id ↔
      spoilsAt inp.fault (t.fetched job.id) (.ingest attempt [] fetched count) = false := by
  obtain ⟨hsize, rfl, rfl, -⟩ := hcounted
  rw [List.length_nil, Nat.add_zero] at hsize
  rw [rowAgrees_closed_iff (fun _ => rfl) hr, ← hsize]
  change (Int32.ofNat (t.fetched job.id)).toInt = t.fetched job.id ∧
    (Int32.ofNat (t.fetched job.id)).toInt = t.fetched job.id ↔ _
  rw [and_self, toInt_ofNat_eq_iff]
  simp [spoilsAt, hfault]

private theorem rowAgrees_died_iff {f : Fault} {reason : DeadReason}
    (hr : t.db.jobs.byId job.id = some (r.apply (dead reason.message)))
    (hopen : Open r.toJobProgress)
    (hcounted : CountedAt job.id (t.db.videos.countOf job.id) (t.fetched job.id)
      (.working (.dead reason))) (hfault : f ≠ .lost) :
    RowAgrees t job.id ↔ spoilsAt f (t.fetched job.id) (.dead reason) = false := by
  obtain ⟨k, hdead⟩ := hopen.dead reason.message
  rw [rowAgrees_closed_iff (fun _ => rfl) hr, hdead.videosInserted, hdead.videosFetched]
  cases reason with
  | inserting =>
      have hless : t.db.videos.countOf job.id < t.fetched job.id := hcounted
      have hpos : ¬ (0 : Int) = t.fetched job.id := by omega
      simp [hpos, spoilsAt, hfault]
  | started =>
      obtain ⟨hstored, hnone⟩ : t.db.videos.countOf job.id = 0 ∧ t.fetched job.id = 0 := hcounted
      simp [hstored, hnone, spoilsAt]
  | retrying =>
      obtain ⟨hstored, hnone⟩ : t.db.videos.countOf job.id = 0 ∧ t.fetched job.id = 0 := hcounted
      simp [hstored, hnone, spoilsAt]
  | exhausted =>
      obtain ⟨hstored, hnone⟩ : t.db.videos.countOf job.id = 0 ∧ t.fetched job.id = 0 := hcounted
      simp [hstored, hnone, spoilsAt]

end Finish

private theorem rowAgrees_work_iff {inp : Input} {job : Job} {p : Point}
    {next : Worker.Machine.Next} {r : JobRow} (hr : s.db.jobs.byId job.id = some r)
    (hat : RowAt (.working p) r.toJobProgress)
    (hcounted : CountedAt job.id (s.db.videos.countOf job.id) (s.fetched job.id) (.working p))
    (hsteps : Steps job inp s.db p next t.db)
    (hfetched : t.fetched = recordFetch s.fetched job p next) :
    RowAgrees t job.id ↔ spoilsAt inp.fault (s.fetched job.id) p = false := by
  obtain ⟨r', hr', -, hafter⟩ := row_of_steps hsteps hr hat
  cases next with
  | goto q =>
      exact ⟨fun _ => spoilsAt_of_goes_on hsteps nofun,
        fun _ => rowAgrees_of_open hr' (RowAt.isOpen hafter)⟩
  | panicked =>
      obtain rfl : r' = r := hafter
      exact ⟨fun _ => spoilsAt_of_goes_on hsteps nofun,
        fun _ => rowAgrees_of_open hr' hat.isOpen⟩
  | returned =>
      have hkept : t.fetched job.id = s.fetched job.id := by
        rw [hfetched]
        rfl
      rw [← countOf_of_returned hsteps, ← hkept] at hcounted
      rw [← hkept]
      generalize hdb : t.db = db at hsteps
      cases hsteps with
      | completed attempt fetched count hfault =>
          exact rowAgrees_completed_iff (by rw [hdb]; exact byId_updateJob_self _ hr) hcounted
            hfault
      | completionLost attempt fetched count hlost =>
          have hopen : RowAgrees t job.id := rowAgrees_of_open (by rw [hdb]; exact hr) hat.isOpen
          simp [hopen, spoilsAt, hlost]
      | died reason hfault =>
          exact rowAgrees_died_iff (by rw [hdb]; exact byId_updateJob_self _ hr) hat.isOpen hcounted
            hfault
      | deathLost reason hlost =>
          have hopen : RowAgrees t job.id := rowAgrees_of_open (by rw [hdb]; exact hr) hat.isOpen
          cases reason <;> simp [hopen, spoilsAt, hlost]

private theorem spoils_of_not_work (h : ∀ w inp, a ≠ .work w inp) : spoils s a = false := by
  cases a with
  | work w inp => exact absurd rfl (h w inp)
  | _ => rfl

private theorem rowAgrees_of_same {id : String} (hagree : AccountsAgree s)
    (hrow : t.db.jobs.byId id = s.db.jobs.byId id)
    (hstored : t.db.videos.countOf id = s.db.videos.countOf id)
    (hfetched : t.fetched id = s.fetched id) : RowAgrees t id := by
  intro r hr hterm
  rw [hstored, hfetched]
  exact hagree id r (hrow ▸ hr) hterm

private theorem agree_step_iff (h : Reachable Migrated step Clean s) (hagree : AccountsAgree s)
    (hstep : step s a = some t) : AccountsAgree t ↔ spoils s a = false := by
  have hcold : Reachable Cold step Clean s := cold_of_migrated h
  cases touches_of_step hstep with
  | nothing hnot hdb hfetched =>
      refine ⟨fun _ => spoils_of_not_work hnot, ?_⟩
      intro _ id
      exact rowAgrees_of_same hagree (by rw [hdb]) (by rw [hdb]) (by rw [hfetched])
  | insert jobId req now hnot hinsert hfetched =>
      refine ⟨fun _ => spoils_of_not_work hnot, ?_⟩
      intro _ id
      by_cases hid : jobId = id
      · have hnew : t.db.jobs.byId id = some (newRow now jobId req) := by
          rw [byId_insertJob hinsert, if_pos hid]
        exact rowAgrees_of_open hnew (.inl rfl)
      · refine rowAgrees_of_same hagree ?_ ?_ (by rw [hfetched])
        · rw [byId_insertJob hinsert, if_neg hid]
        · rw [insertJob_videos hinsert]
  | work w inp job p next ha hw hsteps hfetched =>
      have hanything : Reachable Cold step Anything s := hcold.mono fun _ _ _ => trivial
      have hheld : (job, .working p) ∈ (ofState s).held :=
        Multiset.mem_add.mpr (.inr (mem_holdings.mpr ⟨.busy job p, List.mem_of_getElem? hw, rfl⟩))
      obtain ⟨r, hr, hat⟩ := tended_of_reachable hanything _ hheld
      have hcounted := (counted_of_reachable hcold).held _ hheld
      have hrow := rowAgrees_work_iff hr hat hcounted hsteps hfetched
      have hspoils : spoils s a = spoilsAt inp.fault (s.fetched job.id) p := by
        rw [ha]
        simp only [spoils, hw]
      rw [hspoils, ← hrow]
      refine ⟨fun hall => hall job.id, ?_⟩
      intro hself id
      by_cases hid : id = job.id
      · subst hid
        exact hself
      · refine rowAgrees_of_same hagree (hsteps.byId_of_ne hid)
          (countOf_of_ne hsteps hcounted hid) ?_
        rw [hfetched, recordFetch_of_ne hid]

/-- In a run in which failing statements have no effect, the counters agree with the
videos in every state exactly when no step closes a row whose counters miss them. -/
theorem accountsAgree_iff {acts : List Act} (hclean : Meets step Clean (State.cold .empty) acts)
    (hrun : run step (State.cold .empty) acts = some t) :
    Always step AccountsAgree (State.cold .empty) acts ↔
      Meets step (fun s a => spoils s a = false) (State.cold .empty) acts := by
  refine always_iff_meets (I := Reachable Migrated step Clean) ?_ ?_ ⟨_, rfl, .refl⟩ ?_ hclean hrun
  · exact fun s a t hreach hok hstep => hreach.next hok hstep
  · exact fun s a t hreach hagree _ hstep => agree_step_iff hreach hagree hstep
  · exact fun id r hr => by cases hr

def halfIngest : List Act :=
  submission ++
    [.call 0 (.send Time.zero), .receive 0, .work 0 {},
      .work 0
        { get := fun _ => .response 200
            "\x7b\"items\": [\x7b\"id\": \"a\"\x7d, \x7b\"id\": \"b\"\x7d]\x7d" },
      .work 0 {}, .work 0 { fault := .lost }, .work 0 {}]

def halfIngested : State := (run step (State.cold .empty) halfIngest).getD (State.cold .empty)

theorem run_halfIngest : run step (State.cold .empty) halfIngest = some halfIngested := by
  rfl

theorem accountsAgree_iff_halfIngest :
    ¬ Always step AccountsAgree (State.cold .empty) halfIngest := by
  rw [accountsAgree_iff (by decide) run_halfIngest]
  decide

/-- The job is dead with both counters 0; two videos were fetched and one is stored. -/
theorem halfIngested_disagrees :
    Meets step Clean (State.cold .empty) halfIngest ∧
      run step (State.cold .empty) halfIngest = some halfIngested ∧
      (halfIngested.db.jobs.byId "job-1").map
        (fun r => (r.state, r.videosFetched, r.videosInserted)) = some (.dead, 0, 0) ∧
      halfIngested.fetched "job-1" = 2 ∧ halfIngested.db.videos.countOf "job-1" = 1 ∧
      ¬ AccountsAgree halfIngested := by
  have hrow : (halfIngested.db.jobs.byId "job-1").map
      (fun r => (r.state, r.videosFetched, r.videosInserted)) = some (.dead, 0, 0) := by decide
  have hstored : halfIngested.db.videos.countOf "job-1" = 1 := by decide
  refine ⟨by decide, run_halfIngest, hrow, by decide, hstored, ?_⟩
  intro h
  obtain ⟨r, hr, hcolumns⟩ := Option.map_eq_some_iff.mp hrow
  obtain ⟨hstate, -, hinserted⟩ : r.state = .dead ∧ r.videosFetched = 0 ∧ r.videosInserted = 0 := by
    simpa using hcolumns
  have hagree := (h "job-1" r hr (by rw [hstate]; rfl)).1
  rw [hinserted, hstored] at hagree
  cases hagree

end TrendingPipeline.System.Accounting

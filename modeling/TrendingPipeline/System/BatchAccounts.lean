/- Unit: TrendingPipeline/System/BatchAccounts
   source: backend/etl/server.go, backend/proto/etl.proto
   digest: The requests SubmitBatch received against the entries of its response. -/

import TrendingPipeline.Etl.Batch
import TrendingPipeline.System.SameKey

set_option autoImplicit false
set_option relaxedAutoImplicit false

namespace TrendingPipeline.System.BatchAccounts

open TrendingPipeline.Base.Calendar (Time)
open TrendingPipeline.Base.Runs
open TrendingPipeline.Proto.Messages (BatchJobResult BatchResponse JobRequest)
open TrendingPipeline.Store.Statements
open TrendingPipeline.Etl.Batch (NoFailure asked asked_own)
open TrendingPipeline.Etl.Replies (Coherent coherent_submitBatch resultOf tally)
open TrendingPipeline.Etl.Submit (Answer Call Event steps_of_step)
open TrendingPipeline.System.Step
open TrendingPipeline.System.ExactlyOnce (sampleRequest)
open TrendingPipeline.System.SameKey (LivesOn)

/-- The response has one entry for each request, in order and under its key. -/
structure Accounts (requests : List JobRequest) (b : BatchResponse) : Prop where
  received : b.totalReceived.toInt = b.results.length
  keys : b.results.map (·.idempotencyKey) = requests.map (·.idempotencyKey)

private theorem isSome_resultOf {x : JobRequest × Answer} :
    (resultOf x).isSome = true ↔ x.2 ≠ .failed := by
  obtain ⟨req, answer⟩ := x
  cases answer with
  | failed => exact iff_of_false nofun fun h => h rfl
  | existing jobId => exact iff_of_true rfl nofun
  | created jobId => exact iff_of_true rfl nofun

private theorem key_resultOf {x : JobRequest × Answer} {result : BatchJobResult}
    (h : resultOf x = some result) : result.idempotencyKey = x.1.idempotencyKey := by
  obtain ⟨req, answer⟩ := x
  cases answer with
  | failed => cases h
  | existing jobId =>
      obtain rfl := Option.some.inj h
      rfl
  | created jobId =>
      obtain rfl := Option.some.inj h
      rfl

variable {answers : List (JobRequest × Answer)}

private theorem keys_results (hall : ∀ x ∈ answers, x.2 ≠ .failed) :
    (tally answers).results.map (·.idempotencyKey) =
      (answers.map Prod.fst).map (·.idempotencyKey) := by
  rw [tally, List.map_filterMap, List.map_map, ← List.filterMap_eq_map]
  refine List.filterMap_congr ?_
  intro x hx
  obtain ⟨result, hresult⟩ := Option.isSome_iff_exists.mp (isSome_resultOf.mpr (hall x hx))
  rw [hresult, Option.map_some, key_resultOf hresult]
  rfl

private theorem accounts_tally_iff : Accounts (answers.map Prod.fst) (tally answers) ↔
    (∀ x ∈ answers, x.2 ≠ .failed) ∧ answers.length < 2 ^ 31 := by
  have hcomplete : (tally answers).results.length = answers.length ↔
      ∀ x ∈ answers, x.2 ≠ .failed := by
    rw [tally, List.filterMap_length_eq_length]
    exact forall₂_congr fun x _ => isSome_resultOf
  constructor
  · rintro ⟨hreceived, hkeys⟩
    have hlength : (tally answers).results.length = answers.length := by
      simpa using congrArg List.length hkeys
    refine ⟨hcomplete.mp hlength, ?_⟩
    rw [hlength] at hreceived
    have hlt : (tally answers).totalReceived.toInt < 2 ^ 31 := Int32.toInt_lt _
    rw [hreceived] at hlt
    exact_mod_cast hlt
  · rintro ⟨hall, hlt⟩
    refine ⟨?_, keys_results hall⟩
    rw [hcomplete.mpr hall]
    exact Int32.toInt_ofNat_of_lt hlt

/-- The request an action takes from the stream of the `i`-th call. -/
def requestOf (i : Nat) : Act → Option JobRequest
  | .call j ev => if j = i then Etl.Batch.Act.request (.own ev) else none
  | _ => none

/-- The requests the `i`-th call receives in a run. -/
def received (i : Nat) (acts : List Act) : List JobRequest := acts.filterMap (requestOf i)

/-- The table has a row with the id or with the key of the row that the `i`-th call is
about to insert. -/
def taken (i : Nat) (s : State) (jobId : String) : Bool :=
  (s.calls[i]?.bind Call.inserting).any fun req =>
    (s.db.jobs.byId jobId).isSome || (s.db.jobs.byKey req.idempotencyKey).isSome

/-- The statement of an action of the `i`-th call fails: by a fault of the database, or,
an INSERT, because the table has such a row. -/
def fails (i : Nat) (s : State) : Act → Bool
  | .call j (.lookup fault _) => j = i ∧ fault ≠ .none
  | .call j (.insert fault jobId _) => j = i ∧ (fault ≠ .none ∨ taken i s jobId = true)
  | _ => false

/-- What an action makes of the `i`-th call. -/
structure Continues (i : Nat) (s : State) (a : Act) (c d : Call) : Prop where
  batch : (∃ b, c.handler = .submitBatch b) → ∃ b, d.handler = .submitBatch b
  coherent : Coherent c → Coherent d
  asked : asked d = asked c ++ (requestOf i a).toList
  noFailure : NoFailure d ↔ NoFailure c ∧ fails i s a = false

variable {i : Nat} {s t : State} {a : Act} {c d : Call}

theorem Continues.refl (hrequest : requestOf i a = none) (hfails : fails i s a = false) :
    Continues i s a c c where
  batch := id
  coherent := id
  asked := by rw [hrequest]; exact (List.append_nil _).symm
  noFailure := (and_iff_left hfails).symm

private theorem noFailure_append_iff {req : JobRequest} {answer : Answer}
    (hanswers : d.answers = c.answers ++ [(req, answer)]) :
    NoFailure d ↔ NoFailure c ∧ answer ≠ .failed := by
  unfold NoFailure
  rw [hanswers]
  simp [or_imp, forall_and]

private theorem taken_eq_false_iff {req : JobRequest} {jobId : String} (now : Time)
    (hc : s.calls[i]? = some c) (hpoint : c.point = .insert req) :
    taken i s jobId = false ↔ (insertJob s.db now jobId req).isSome := by
  have hinserting : s.calls[i]?.bind Call.inserting = some req := by
    rw [hc, Option.bind_some, Call.inserting, hpoint]
  rw [taken, hinserting, Option.any_some, Bool.or_eq_false_iff, insertJob_isSome_iff]
  simp only [Option.isSome_eq_false_iff, Option.isNone_iff_eq_none]

private theorem isBatch_own {db : Store.Tables.Db} {ev : Event} {e : Etl.Submit.Effect}
    (hstep : Etl.Submit.step db c ev = some e) (hbatch : ∃ b, c.handler = .submitBatch b) :
    ∃ b, e.call.handler = .submitBatch b := by
  obtain ⟨b, hb⟩ := hbatch
  cases steps_of_step hstep with
  | received b' received hhandler _ =>
      cases received with
      | request req => exact ⟨_, rfl⟩
      | eof => exact ⟨b, hb⟩
      | error => exact ⟨b, hb⟩
  | unanswered => exact ⟨_, by simp only [Call.failed, hb]; rfl⟩
  | found => exact ⟨_, by simp only [Call.existing, hb]; rfl⟩
  | missed => exact ⟨b, hb⟩
  | created => exact ⟨_, by simp only [Call.created, hb]; rfl⟩
  | rejected => exact ⟨_, by simp only [Call.failed, hb]; rfl⟩
  | orphaned => exact ⟨_, by simp only [Call.failed, hb]; rfl⟩
  | sent => exact ⟨_, by simp only [Call.sent, hb]; rfl⟩

private theorem noFailure_own {ev : Event} {e : Etl.Submit.Effect} (hc : s.calls[i]? = some c)
    (hstep : Etl.Submit.step s.db c ev = some e) :
    NoFailure e.call ↔ NoFailure c ∧ fails i s (.call i ev) = false := by
  have hsame : e.call.answers = c.answers → fails i s (.call i ev) = false →
      (NoFailure e.call ↔ NoFailure c ∧ fails i s (.call i ev) = false) := by
    intro hanswers hfails
    rw [and_iff_left hfails, NoFailure, NoFailure, hanswers]
  cases steps_of_step hstep with
  | received => exact hsame Call.answers_onRecv rfl
  | unanswered req fault now _ hfault =>
      rw [noFailure_append_iff Call.answers_failed]
      simp [fails, hfault]
  | found req row now _ _ =>
      rw [noFailure_append_iff Call.answers_existing]
      simp [fails]
  | missed => exact hsame rfl (by simp [fails])
  | created req jobId now db' hpoint hinsert =>
      have hfree : taken i s jobId = false :=
        (taken_eq_false_iff now hc hpoint).mpr (Option.isSome_of_eq_some hinsert)
      rw [noFailure_append_iff Call.answers_created]
      simp [fails, hfree]
  | rejected req fault jobId now hpoint hrefused =>
      have htaken : fault ≠ .none ∨ taken i s jobId = true := by
        by_cases hfault : fault = .none
        · refine .inr (Bool.eq_true_of_not_eq_false fun hfree => ?_)
          have hsome := (taken_eq_false_iff now hc hpoint).mp hfree
          rw [hrefused hfault] at hsome
          cases hsome
        · exact .inl hfault
      rw [noFailure_append_iff Call.answers_failed]
      simp [fails, htaken]
  | orphaned req jobId now db' _ _ =>
      rw [noFailure_append_iff Call.answers_failed]
      simp [fails]
  | sent => exact hsame Call.answers_sent rfl

private theorem continues_own {ev : Event} {e : Etl.Submit.Effect} (hc : s.calls[i]? = some c)
    (hstep : Etl.Submit.step s.db c ev = some e) : Continues i s (.call i ev) c e.call where
  batch := isBatch_own hstep
  coherent h := h.step hstep
  asked := by
    rw [requestOf, if_pos rfl]
    exact asked_own hstep
  noFailure := noFailure_own hc hstep

private theorem continues_other {j : Nat} {ev : Event} (hne : j ≠ i) : Continues i s
    (.call j ev) c c := by
  refine .refl (if_neg hne) ?_
  cases ev <;> simp [fails, hne]

private theorem continues_step (hup : s.phase ≠ .down) (hlives : t.phase ≠ .down)
    (hstep : step s a = some t) (hc : s.calls[i]? = some c) :
    ∃ d, t.calls[i]? = some d ∧ Continues i s a c d := by
  have hlt : i < s.calls.length := (List.getElem?_eq_some_iff.mp hc).1
  have hcall : ∀ (j : Nat) (ev : Event) (c' : Call) (e : Etl.Submit.Effect),
      s.calls[j]? = some c' → Etl.Submit.step s.db c' ev = some e →
      ∃ d, (s.calls.set j e.call)[i]? = some d ∧ Continues i s (.call j ev) c d := by
    intro j ev c' e hc' he
    by_cases hj : j = i
    · subst hj
      obtain rfl := Option.some.inj (hc.symm.trans hc')
      exact ⟨e.call, List.getElem?_set_self hlt, continues_own hc he⟩
    · exact ⟨c, by rw [List.getElem?_set_ne hj, hc], continues_other hj⟩
  cases acts_of_step hstep with
  | submitJob => exact ⟨c, by rw [List.getElem?_append_left hlt, hc], .refl rfl rfl⟩
  | submitBatch => exact ⟨c, by rw [List.getElem?_append_left hlt, hc], .refl rfl rfl⟩
  | call j ev c' e hc' he _ => exact hcall j ev c' e hc' he
  | send j ev c' e job hc' he _ _ => exact hcall j ev c' e hc' he
  | receive => exact ⟨c, hc, .refl rfl rfl⟩
  | work w inp job p hw =>
      rcases s.afterWork_memory w job p inp with ⟨hcalls, -⟩ | ⟨hdown, -⟩
      · exact ⟨c, by rw [hcalls, hc], .refl rfl rfl⟩
      · exact absurd hdown hlives
  | shutdown => exact ⟨c, hc, .refl rfl rfl⟩
  | exit => exact absurd rfl hlives
  | boot n hdown => exact absurd hdown hup

/-- What a run makes of the `i`-th call. -/
structure Serves (i : Nat) (s : State) (acts : List Act) (c d : Call) : Prop where
  batch : (∃ b, c.handler = .submitBatch b) → ∃ b, d.handler = .submitBatch b
  coherent : Coherent c → Coherent d
  asked : asked d = asked c ++ received i acts
  noFailure : NoFailure d ↔ NoFailure c ∧ Meets step (fun s a => fails i s a = false) s acts

theorem Continues.cons {acts : List Act} {e : Call} (h : Continues i s a c d)
    (hstep : step s a = some t) (hrest : Serves i t acts d e) : Serves i s (a :: acts) c e where
  batch := hrest.batch ∘ h.batch
  coherent := hrest.coherent ∘ h.coherent
  asked := by
    rw [hrest.asked, h.asked, List.append_assoc]
    congr 1
    rw [received, received, List.filterMap_cons]
    cases requestOf i a <;> rfl
  noFailure := by rw [hrest.noFailure, h.noFailure, meets_cons hstep, and_assoc]

private theorem serves_run {acts : List Act} (hup : s.phase ≠ .down)
    (hlives : Meets step LivesOn s acts)
    (hrun : run step s acts = some t) (hc : s.calls[i]? = some c) :
    ∃ d, t.calls[i]? = some d ∧ Serves i s acts c d := by
  induction acts generalizing s c with
  | nil =>
      obtain rfl := Option.some.inj hrun
      exact ⟨c, hc, id, id, (List.append_nil _).symm, (and_iff_left trivial).symm⟩
  | cons a acts ih =>
      obtain ⟨m, hstep, hrest⟩ := run_cons_eq_some.mp hrun
      obtain ⟨hnow, hlater⟩ := (meets_cons hstep).mp hlives
      have hphase : m.phase ≠ .down := by
        rw [LivesOn, hstep] at hnow
        exact of_decide_eq_true hnow
      obtain ⟨d, hd, hcontinues⟩ := continues_step hup hphase hstep hc
      obtain ⟨e, he, hserves⟩ := ih hphase hlater hrest hd
      exact ⟨e, he, hcontinues.cons hstep hserves⟩

/-- In every run of the process, with any other calls and any failures: a batch that ends
normally has an entry for each of its requests, in order, exactly when none of its own
statements fails and it has fewer than `2 ^ 31` requests. -/
theorem batch_accounts_iff {m : State} {acts : List Act} {b : BatchResponse}
    (hopen : step s .submitBatch = some m) (hlives : Meets step LivesOn m acts)
    (hrun : run step m acts = some t)
    (hended : (t.calls[s.calls.length]?.map (·.point)) = some (.returned (.batch b))) :
    Accounts (received s.calls.length acts) b ↔
      Meets step (fun s' a => fails s.calls.length s' a = false) m acts ∧
        (received s.calls.length acts).length < 2 ^ 31 := by
  obtain ⟨hup, hbegun⟩ : m.phase ≠ .down ∧ m.calls[s.calls.length]? = some Call.submitBatch := by
    cases acts_of_step hopen with
    | submitBatch hup =>
        refine ⟨?_, List.getElem?_concat_length⟩
        change s.phase ≠ .down
        rw [hup]
        nofun
  obtain ⟨c, hc, hserves⟩ := serves_run hup hlives hrun hbegun
  rw [hc, Option.map_some] at hended
  have hpoint : c.point = .returned (.batch b) := Option.some.inj hended
  have hanswered : c.answers.map Prod.fst = received s.calls.length acts := by
    have hasked := hserves.asked
    have hidle : c.asking = none := by rw [Call.asking, hpoint]
    rw [asked, hidle, Option.toList_none, List.append_nil] at hasked
    exact hasked
  have hb : b = tally c.answers := by
    obtain ⟨b', hb'⟩ := hserves.batch ⟨_, rfl⟩
    have hcoherent := hserves.coherent coherent_submitBatch
    unfold Coherent at hcoherent
    rw [hb', hpoint] at hcoherent
    rcases hcoherent with herror | hbatch
    · cases herror
    · exact Etl.Submit.Reply.batch.inj hbatch
  have hfresh : NoFailure Call.submitBatch := fun x hx => absurd hx List.not_mem_nil
  rw [hb, ← hanswered, accounts_tally_iff, List.length_map]
  refine and_congr_left fun _ => ?_
  exact hserves.noFailure.trans (and_iff_right hfresh)

def idle : State := (step (State.cold .empty) (.boot numWorkers)).getD (State.cold .empty)

def opened : State := (step idle .submitBatch).getD idle

/-- The batch's lookup of the key, before and after which others may come in. -/
def asks : List Act := [.call 0 (.recv (.request sampleRequest)), .call 0 (.lookup .none Time.zero)]

def other : List Act :=
  [.submitJob sampleRequest, .call 1 (.lookup .none Time.zero),
    .call 1 (.insert .none "job-1" Time.zero), .call 1 (.send Time.zero)]

def secondRequest : JobRequest := { sampleRequest with idempotencyKey := "us-2" }

/-- The other call comes first, so that the batch finds its row; a second request has a key
of its own. -/
def behind : List Act :=
  other ++ asks ++ [.call 0 (.recv (.request secondRequest)), .call 0 (.lookup .none Time.zero),
    .call 0 (.insert .none "job-2" Time.zero), .call 0 (.send Time.zero), .call 0 (.recv .eof)]

/-- The other call comes between the batch's lookup and its INSERT. -/
def overtaken : List Act :=
  asks ++ other ++ [.call 0 (.insert .none "job-2" Time.zero), .call 0 (.recv .eof)]

def afterRun (acts : List Act) : State := (run step opened acts).getD opened

theorem batch_accounts_iff_behind :
    Accounts (received 0 behind)
      { totalReceived := 2, totalAccepted := 1, totalRejected := 1
        results := [{ jobId := "job-1", state := .queued
                      idempotencyKey := sampleRequest.idempotencyKey
                      message := Etl.Submit.existsMessage },
                    { jobId := "job-2", state := .queued
                      idempotencyKey := secondRequest.idempotencyKey
                      message := Etl.Submit.processedMessage }] } := by
  have hopen : step idle .submitBatch = some opened := rfl
  have hrun : run step opened behind = some (afterRun behind) := rfl
  exact (batch_accounts_iff hopen (by decide) hrun rfl).mpr ⟨by decide, by decide⟩

/-- The request is counted as rejected and has no entry. -/
theorem overtaken_unaccounted :
    step idle .submitBatch = some opened ∧ Meets step Healthy opened overtaken ∧
      run step opened overtaken = some (afterRun overtaken) ∧
      (afterRun overtaken).calls[0]?.map (·.point) =
        some (.returned (.batch
          { totalReceived := 1, totalAccepted := 0, totalRejected := 1, results := [] })) ∧
      ¬ Accounts (received 0 overtaken)
        { totalReceived := 1, totalAccepted := 0, totalRejected := 1, results := [] } := by
  refine ⟨rfl, by decide, rfl, by decide, ?_⟩
  intro haccounts
  have hreceived := haccounts.received
  revert hreceived
  decide

end TrendingPipeline.System.BatchAccounts

/- Unit: TrendingPipeline/Frontend/BatchSubmission
   source: frontend/lib/api.ts, backend/api/server.go
   digest: A batch that is posted, against its items posted one by one. -/

import Mathlib.Data.Set.List
import TrendingPipeline.Frontend.JobsApi

set_option autoImplicit false
set_option relaxedAutoImplicit false

namespace TrendingPipeline.Frontend.BatchSubmission

open TrendingPipeline.Api.Jobs
open TrendingPipeline.Base.JsonDecode (decodeItems decodeStruct)
open TrendingPipeline.Base.JsonMembers (objectOf)
open TrendingPipeline.Base.JsonRoundTrip (Fits decodeFirst_render literal_decimal)
open TrendingPipeline.Base.JsonText (Json decodeFirst render)
open TrendingPipeline.Etl.Responses (batchResponse fits_batchResponse)
open TrendingPipeline.Frontend.Api (Thrown)
open TrendingPipeline.Frontend.JobsApi
  (Engine browser receive receive_failed receive_served submitBatch)
open TrendingPipeline.Proto.Messages (BatchResponse JobRequest JobResponse)

private theorem sendAll_cases (stream : BatchStream) (i : ℕ) (reqs : List JobRequest) :
    (sendAll stream i reqs = (reqs, true) ∧ ∀ j < reqs.length, stream.sends (i + j) = true) ∨
      ∃ k < reqs.length, sendAll stream i reqs = (reqs.take k, false) ∧
        stream.sends (i + k) = false ∧ ∀ j < k, stream.sends (i + j) = true := by
  induction reqs generalizing i with
  | nil => exact .inl ⟨rfl, fun _ hj => absurd hj (Nat.not_lt_zero _)⟩
  | cons req reqs ih =>
      cases hsend : stream.sends i with
      | false =>
          refine .inr ⟨0, Nat.zero_lt_succ _, ?_, hsend, fun _ hj => absurd hj (Nat.not_lt_zero _)⟩
          rw [sendAll, hsend, if_neg Bool.false_ne_true, List.take_zero]
      | true =>
          have hfirst : ∀ n, (∀ j < n, stream.sends (i + 1 + j) = true) →
              ∀ j < n + 1, stream.sends (i + j) = true := by
            intro n hrest j hj
            cases j with
            | zero => exact hsend
            | succ j =>
                have hnext := hrest j (by omega)
                rwa [Nat.add_right_comm] at hnext
          rcases ih (i + 1) with ⟨hall, hsends⟩ | ⟨k, hk, hsome, hfails, hsends⟩
          · refine .inl ⟨?_, hfirst _ hsends⟩
            rw [sendAll, hsend, if_pos rfl, hall]
          · refine .inr ⟨k + 1, Nat.succ_lt_succ hk, ?_, ?_, hfirst _ hsends⟩
            · rw [sendAll, hsend, if_pos rfl, hsome, List.take_succ_cons]
            · rwa [Nat.add_right_comm] at hfails

private theorem decodeItems_eq_some_iff {vs : List Json} {reqs : List JobRequest} :
    decodeItems {} (decodeStruct jobRequest) [] vs = some reqs ↔
      vs.map decodeRequest = reqs.map some := by
  induction vs generalizing reqs with
  | nil =>
      rw [decodeItems, Option.some.injEq, List.map_nil, eq_comm, eq_comm (a := []),
        List.map_eq_nil_iff]
  | cons v vs ih =>
      have hone : decodeItems {} (decodeStruct jobRequest) [] (v :: vs) =
          (decodeRequest v).bind fun req =>
            (decodeItems {} (decodeStruct jobRequest) [] vs).map (req :: ·) := by
        rw [decodeItems, List.headD_nil, List.tail_nil]
        change (decodeRequest v).bind _ = _
        congr 1
        funext req
        cases decodeItems {} (decodeStruct jobRequest) [] vs with
        | none => rfl
        | some reqs => rfl
      rw [hone, List.map_cons]
      cases hfirst : decodeRequest v with
      | none =>
          cases reqs with
          | nil => simp
          | cons req reqs => simp
      | some req =>
          rw [Option.bind_some, Option.map_eq_some_iff]
          cases reqs with
          | nil => simp
          | cons req' reqs =>
              rw [List.map_cons, List.cons.injEq, Option.some.injEq, ← ih]
              constructor
              · rintro ⟨reqs', hrest, heq⟩
                obtain ⟨rfl, rfl⟩ := List.cons.inj heq
                exact ⟨rfl, hrest⟩
              · rintro ⟨rfl, hrest⟩
                exact ⟨reqs, hrest, rfl⟩

def requestOf (body : String) : Option JobRequest := (decodeFirst body).bind decodeRequest

variable {bindJob : String → Option JobRequest} {bindBatch : String → Option (List JobRequest)}

private theorem forwarded_single (hjob : BindsJson decodeRequest (fun _ => True) bindJob)
    (submitJob : JobRequest → Option JobResponse) (body : String) :
    (handleSubmitJob bindJob submitJob body).2 = requestOf body := by
  have hbind : bindJob body = requestOf body := hjob body fun _ _ => trivial
  rw [handleSubmitJob, hbind]
  cases requestOf body with
  | none => rfl
  | some req =>
      dsimp only
      cases submitJob req with
      | none => rfl
      | some resp => rfl

private theorem bind_batch (hbatch : BindsJson decodeRequests NoNull bindBatch) {body : String}
    {vs : List Json} (hbody : decodeFirst body = some (.arr vs)) (hvs : ∀ v ∈ vs, v ≠ .null)
    {bodies : List String} (hbodies : List.Forall₂ (fun b v => decodeFirst b = some v) bodies vs)
    (reqs : List JobRequest) :
    bindBatch body = some reqs ↔ bodies.map requestOf = reqs.map some := by
  have hplain : ∀ v, decodeFirst body = some v → NoNull v := by
    intro v hv
    obtain rfl := Option.some.inj (hbody.symm.trans hv)
    exact hvs
  have hitems : bodies.map requestOf = vs.map decodeRequest := by
    clear hbody hvs hplain
    induction hbodies with
    | nil => rfl
    | cons hfirst _ ih => rw [List.map_cons, List.map_cons, ih, requestOf, hfirst, Option.bind_some]
  rw [hbatch body hplain, hbody, hitems]
  exact decodeItems_eq_some_iff

def posted (engine : Engine) (bindBatch : String → Option (List JobRequest))
    (stream : BatchStream) (body : String) : Except Thrown Json :=
  submitBatch engine (fun _ body => .ok (handleSubmitBatch bindBatch stream body).1) body

private theorem posted_failed (engine : Engine) {stream : BatchStream} {body message : String}
    {status : ℕ}
    (hstatus : 300 ≤ status)
    (h : (handleSubmitBatch bindBatch stream body).1 = failed status message) :
    posted engine bindBatch stream body = .error (.error message) := by
  have hreceive := receive_failed engine hstatus "Failed to submit batch" message
  rw [← h] at hreceive
  exact hreceive

private theorem posted_served (engine : Engine) {stream : BatchStream} {body : String}
    {resp : BatchResponse} (h : (handleSubmitBatch bindBatch stream body).1 =
      { status := 200, body := Base.JsonMembers.marshal batchResponse resp }) :
    posted engine bindBatch stream body = .ok (objectOf batchResponse resp) := by
  have hreceive := receive_served engine ((fits_batchResponse resp).mono (by decide))
    "Failed to submit batch"
  change receive engine "Failed to submit batch" (handleSubmitBatch bindBatch stream body).1 = _
  rw [h]
  exact hreceive

/-- What becomes of a batch whose items are the given requests: what is sent, and what the
client gets. -/
inductive Outcome (stream : BatchStream) (reqs : List JobRequest) :
    List JobRequest → Except Thrown Json → Prop
  | unopened : stream.opens = false →
      Outcome stream reqs [] (.error (.error "failed to submit batch job"))
  | brokenOff (k : ℕ) : stream.opens = true → k < reqs.length →
      (∀ j < k, stream.sends j = true) → stream.sends k = false →
      Outcome stream reqs (reqs.take k) (.error (.error "failed to send job to stream"))
  | unanswered : stream.opens = true → (∀ j < reqs.length, stream.sends j = true) →
      stream.response = none →
      Outcome stream reqs reqs (.error (.error "failed to receive batch response"))
  | answered (resp : BatchResponse) : stream.opens = true →
      (∀ j < reqs.length, stream.sends j = true) → stream.response = some resp →
      Outcome stream reqs reqs (.ok (objectOf batchResponse resp))

private theorem outcome_of_bound (engine : Engine) (stream : BatchStream) {body : String}
    {reqs : List JobRequest} (hbind : bindBatch body = some reqs) :
    Outcome stream reqs (handleSubmitBatch bindBatch stream body).2
      (posted engine bindBatch stream body) := by
  cases hopens : stream.opens with
  | false =>
      have hserved : handleSubmitBatch bindBatch stream body =
          (failed 500 "failed to submit batch job", []) := by
        simp [handleSubmitBatch, hbind, hopens]
      rw [posted_failed engine (by decide) (congrArg Prod.fst hserved), hserved]
      exact .unopened hopens
  | true =>
      rcases sendAll_cases stream 0 reqs with ⟨hall, hsends⟩ | ⟨k, hk, hsome, hfails, hsends⟩
      · simp only [Nat.zero_add] at hsends
        cases hresponse : stream.response with
        | none =>
            have hserved : handleSubmitBatch bindBatch stream body =
                (failed 500 "failed to receive batch response", reqs) := by
              simp [handleSubmitBatch, hbind, hopens, hall, hresponse]
            rw [posted_failed engine (by decide) (congrArg Prod.fst hserved), hserved]
            exact .unanswered hopens hsends hresponse
        | some resp =>
            have hserved : handleSubmitBatch bindBatch stream body =
                ({ status := 200, body := Base.JsonMembers.marshal batchResponse resp }, reqs) := by
              simp [handleSubmitBatch, hbind, hopens, hall, hresponse]
            rw [posted_served engine (congrArg Prod.fst hserved), hserved]
            exact .answered resp hopens hsends hresponse
      · simp only [Nat.zero_add] at hfails hsends
        have hserved : handleSubmitBatch bindBatch stream body =
            (failed 500 "failed to send job to stream", reqs.take k) := by
          simp [handleSubmitBatch, hbind, hopens, hsome]
        rw [posted_failed engine (by decide) (congrArg Prod.fst hserved), hserved]
        exact .brokenOff k hopens hk hsends hfails

/-- A batch without null items against its items, each posted alone: if one of them would be
refused, the batch is refused with 400 and nothing is sent; else the requests that are sent
are, in order, those that the items would hand on, up to the first Send that fails, and the
client gets the text of the failure or the response. -/
theorem batch_of_singles (engine : Engine)
    (hjob : BindsJson decodeRequest (fun _ => True) bindJob)
    (hbatch : BindsJson decodeRequests NoNull bindBatch) {body : String} {vs : List Json}
    (hbody : decodeFirst body = some (.arr vs)) (hvs : ∀ v ∈ vs, v ≠ .null)
    {bodies : List String} (hbodies : List.Forall₂ (fun b v => decodeFirst b = some v) bodies vs)
    (submitJob : JobRequest → Option JobResponse) (stream : BatchStream) :
    let singles := bodies.map fun b => (handleSubmitJob bindJob submitJob b).2
    let sent := (handleSubmitBatch bindBatch stream body).2
    let client := posted engine bindBatch stream body
    (none ∈ singles ∧ (handleSubmitBatch bindBatch stream body).1 = failed 400 "invalid request" ∧
        sent = [] ∧ client = .error (.error "invalid request")) ∨
      ∃ reqs, singles = reqs.map some ∧ Outcome stream reqs sent client := by
  have hsingles : (bodies.map fun b => (handleSubmitJob bindJob submitJob b).2) =
      bodies.map requestOf :=
    List.map_congr_left fun b _ => forwarded_single hjob submitJob b
  have hbind := bind_batch hbatch hbody hvs hbodies
  dsimp only
  rw [hsingles]
  cases hbound : bindBatch body with
  | none =>
      have hserved : handleSubmitBatch bindBatch stream body =
          (failed 400 "invalid request", []) := by
        rw [handleSubmitBatch, hbound]
      refine .inl ⟨?_, congrArg Prod.fst hserved, congrArg Prod.snd hserved,
        posted_failed engine (by decide) (congrArg Prod.fst hserved)⟩
      by_contra hnone
      have hall : bodies.map requestOf ∈ Set.range (List.map (some : JobRequest → _)) := by
        rw [Set.range_list_map]
        intro x hx
        cases x with
        | none => exact absurd hx hnone
        | some req => exact ⟨req, rfl⟩
      obtain ⟨reqs, hreqs⟩ := hall
      rw [(hbind reqs).mpr hreqs.symm] at hbound
      cases hbound
  | some reqs => exact .inr ⟨reqs, (hbind reqs).mp hbound, outcome_of_bound engine stream hbound⟩

def item (region : String) : Json :=
  .obj [("region", .str region), ("max_results", .num "50".toList)]

def itemText (region : String) : String := String.ofList (render (item region))

def oneSend : BatchStream where
  sends := fun i => i = 0
  response := none

private theorem fits_item (region : String) : Fits 1 (item region) := by
  intro m hm
  simp only [List.mem_cons, List.not_mem_nil, or_false] at hm
  rcases hm with rfl | rfl
  · trivial
  · exact literal_decimal 50

theorem batch_of_singles_oneSend :
    let bindJob := fun b => (decodeFirst b).bind decodeRequest
    let bindBatch := fun b => (decodeFirst b).bind decodeRequests
    let body := String.ofList (render (.arr [item "US", item "GB"]))
    ∃ reqs, [itemText "US", itemText "GB"].map
        (fun b => (handleSubmitJob bindJob (fun _ => none) b).2) = reqs.map some ∧
      Outcome oneSend reqs (handleSubmitBatch bindBatch oneSend body).2
        (posted browser bindBatch oneSend body) := by
  intro bindJob bindBatch body
  have hjob : BindsJson decodeRequest (fun _ => True) bindJob := fun _ _ => rfl
  have hbatch : BindsJson decodeRequests NoNull bindBatch := fun _ _ => rfl
  have hitem : ∀ region, decodeFirst (itemText region) = some (item region) := fun region =>
    decodeFirst_render ((fits_item region).mono (by decide))
  have hfits : Fits 2 (.arr [item "US", item "GB"]) := by
    intro v hv
    simp only [List.mem_cons, List.not_mem_nil, or_false] at hv
    rcases hv with rfl | rfl
    · exact fits_item "US"
    · exact fits_item "GB"
  have hbody : decodeFirst body = some (.arr [item "US", item "GB"]) :=
    decodeFirst_render (hfits.mono (by decide))
  have hvs : ∀ v ∈ [item "US", item "GB"], v ≠ .null := by
    intro v hv
    simp only [List.mem_cons, List.not_mem_nil, or_false] at hv
    rcases hv with rfl | rfl
    · exact fun h => by cases h
    · exact fun h => by cases h
  have hbodies : List.Forall₂ (fun b v => decodeFirst b = some v) [itemText "US", itemText "GB"]
      [item "US", item "GB"] := .cons (hitem "US") (.cons (hitem "GB") .nil)
  rcases batch_of_singles browser hjob hbatch hbody hvs hbodies (fun _ => none) oneSend with
    ⟨hnone, -⟩ | hall
  · exact absurd hnone (by decide +kernel)
  · exact hall

end TrendingPipeline.Frontend.BatchSubmission

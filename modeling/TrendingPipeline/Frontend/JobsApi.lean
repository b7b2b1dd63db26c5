/- Unit: TrendingPipeline/Frontend/JobsApi
   source: frontend/lib/api.ts
   digest: The client functions for the responses of the ETL service. -/

import TrendingPipeline.Api.Jobs
import TrendingPipeline.Frontend.Api

set_option autoImplicit false
set_option relaxedAutoImplicit false

namespace TrendingPipeline.Frontend.JobsApi

open TrendingPipeline.Api.Jobs (failed)
open TrendingPipeline.Api.Server (Response)
open TrendingPipeline.Base.JsonRoundTrip (Fits parse_render)
open TrendingPipeline.Base.JsonText (Json maxNestingDepth parse render)
open TrendingPipeline.Base.JsValue (property)
open TrendingPipeline.Frontend.Api (Fetch Thrown json ok)

/-- What the engine adds: `String(value)` of a value that is no string, and the messages of
the errors that it throws itself. -/
structure Engine where
  toText : Json → String
  message : Thrown → String

/-- `err.message`. -/
def Engine.messageOf (engine : Engine) : Thrown → String
  | .error message => message
  | .syntaxError => engine.message .syntaxError
  | .typeError => engine.message .typeError

def browser : Engine where
  toText _ := ""
  message _ := "Failed to fetch"

variable (engine : Engine)

/-- What is thrown for a response that is not ok: `new Error(err.error ?? failure)`, where
`err` stands in for a body that is no JSON. -/
def rejection (failure : String) (res : Response) : Thrown :=
  match parse res.body with
  | none => .error "Request failed"
  | some err =>
      match property "error" err with
      | none => .typeError
      | some none | some (some .null) => .error failure
      | some (some (.str message)) => .error message
      | some (some v) => .error (engine.toText v)

/-- The data of a response with a status in range, and else what the response says. -/
def receive (failure : String) (res : Response) : Except Thrown Json :=
  if ok res then json res else .error (rejection engine failure res)

/-- `fetch` of a path with a body. -/
abbrev Post := String → String → Except Thrown Response

def submitJob (post : Post) (body : String) : Except Thrown Json := do
  let res ← post "/jobs" body
  receive engine "Failed to submit job" res

def submitBatch (post : Post) (body : String) : Except Thrown Json := do
  let res ← post "/jobs/batch" body
  receive engine "Failed to submit batch" res

def getJobStatus (fetch : Fetch) (id : String) : Except Thrown Json := do
  let res ← fetch ("/jobs/" ++ id) []
  receive engine "Failed to fetch job" res

theorem receive_failed {status : ℕ} (hstatus : 300 ≤ status) (failure message : String) :
    receive engine failure (failed status message) = .error (.error message) := by
  have hok : ok (failed status message) = false := by
    have hnot : decide (status < 300) = false := decide_eq_false (by omega)
    rw [ok, failed, hnot, Bool.and_false]
  have hparse : parse (failed status message).body = some (.obj [("error", .str message)]) := by
    refine parse_render ?_
    intro m hm
    obtain rfl := List.mem_singleton.mp hm
    trivial
  have herror : property "error" (.obj [("error", .str message)]) = some (some (.str message)) := by
    rfl
  rw [receive, if_neg (by rw [hok]; exact Bool.false_ne_true), rejection, hparse]
  simp only [herror]

theorem receive_served {v : Json} (hfits : Fits maxNestingDepth v) (failure : String) :
    receive engine failure { status := 200, body := String.ofList (render v) } = .ok v := by
  have hok : ok { status := 200, body := String.ofList (render v) } = true := rfl
  rw [receive, if_pos hok, json, parse_render hfits]

end TrendingPipeline.Frontend.JobsApi

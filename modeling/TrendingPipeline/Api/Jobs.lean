/- Unit: TrendingPipeline/Api/Jobs
   source: backend/api/server.go, backend/pb/etl.pb.go
   digest: The handlers of the gateway that ask the ETL service. -/

import TrendingPipeline.Api.Server
import TrendingPipeline.Base.EventStream
import TrendingPipeline.Etl.Responses

set_option autoImplicit false
set_option relaxedAutoImplicit false

namespace TrendingPipeline.Api.Jobs

open TrendingPipeline.Api.Server (Response)
open TrendingPipeline.Base.EventStream (stream)
open TrendingPipeline.Base.JsonDecode
open TrendingPipeline.Base.JsonMembers (marshal)
open TrendingPipeline.Base.JsonText (Json decodeFirst render)
open TrendingPipeline.Etl.Responses
open TrendingPipeline.Proto.Messages

/-- `c.JSON(status, gin.H{"error": message})`. -/
def failed (status : ℕ) (message : String) : Response where
  status := status
  body := String.ofList (render (.obj [("error", .str message)]))

def setKey (m : List (String × String)) (key value : String) : List (String × String) :=
  (key, value) :: m.filter (·.1 ≠ key)

/-- Into a `map[string]string`: an object adds its members, and null makes the map nil. -/
def decodeStringMap : Decoder (Option (List (String × String)))
  | _, .null => some none
  | old, .obj ms =>
      (ms.foldlM (fun m e => (decodeString "" e.2).map (setKey m e.1)) (old.getD [])).map some
  | _, _ => none

def jobRequest : Fields JobRequest :=
  [field "region" (·.region) (fun x v => { x with region := v }) decodeString,
    field "category_id" (·.categoryId) (fun x v => { x with categoryId := v }) decodeInt32,
    field "max_results" (·.maxResults) (fun x v => { x with maxResults := v }) decodeInt32,
    field "idempotency_key" (·.idempotencyKey) (fun x v => { x with idempotencyKey := v })
      decodeString,
    field "metadata" (·.metadata) (fun x v => { x with metadata := v }) decodeStringMap]

/-- A body into `var req pb.JobRequest`. -/
def decodeRequest (v : Json) : Option JobRequest := decodeStruct jobRequest {} v

/-- A body into `var reqs []*pb.JobRequest`, where no item is null. -/
def decodeRequests (v : Json) : Option (List JobRequest) :=
  decodeSlice {} (decodeStruct jobRequest) [] v

/-- `c.ShouldBindJSON`: the first value of the body is decoded. Of bodies other than the
plain ones nothing is said. -/
def BindsJson {α : Type} (decode : Json → Option α) (plain : Json → Prop)
    (bind : String → Option α) : Prop :=
  ∀ body, (∀ v, decodeFirst body = some v → plain v) → bind body = (decodeFirst body).bind decode

/-- The validator that runs after decoding fails on a nil pointer in its own way. -/
def NoNull : Json → Prop
  | .arr vs => ∀ v ∈ vs, v ≠ .null
  | _ => True

/-- The handler, with the request it hands to SubmitJob if it calls it. -/
def handleSubmitJob (bind : String → Option JobRequest)
    (submitJob : JobRequest → Option JobResponse) (body : String) : Response × Option JobRequest :=
  match bind body with
  | none => (failed 400 "invalid request", none)
  | some req =>
      match submitJob req with
      | none => (failed 500 "failed to submit job", some req)
      | some resp =>
          ({ status := 200, body := String.ofList (render (.obj [("job_id", .str resp.jobId)])) },
            some req)

/-- What becomes of a SubmitBatch stream: whether it opens, whether the `i`-th Send
succeeds, and what CloseAndRecv gives. -/
structure BatchStream where
  opens : Bool := true
  sends : ℕ → Bool := fun _ => true
  response : Option BatchResponse

/-- The loop of Sends from the `i`-th on: what was sent, and whether all was. -/
def sendAll (stream : BatchStream) : ℕ → List JobRequest → List JobRequest × Bool
  | _, [] => ([], true)
  | i, req :: reqs =>
      if stream.sends i then
        let (sent, all) := sendAll stream (i + 1) reqs
        (req :: sent, all)
      else ([], false)

/-- The handler, with the requests it sends. -/
def handleSubmitBatch (bind : String → Option (List JobRequest)) (stream : BatchStream)
    (body : String) : Response × List JobRequest :=
  match bind body with
  | none => (failed 400 "invalid request", [])
  | some reqs =>
      if !stream.opens then (failed 500 "failed to submit batch job", [])
      else
        match sendAll stream 0 reqs with
        | (sent, false) => (failed 500 "failed to send job to stream", sent)
        | (sent, true) =>
            match stream.response with
            | none => (failed 500 "failed to receive batch response", sent)
            | some resp => ({ status := 200, body := marshal batchResponse resp }, sent)

def handleGetJobStatus (getJobStatus : Option JobStatus) : Response :=
  match getJobStatus with
  | none => failed 500 "failed to get job status"
  | some resp => { status := 200, body := marshal jobStatus resp }

/-- `c.SSEvent("update", update)`, given how gin's writer puts a name and a JSON text. -/
def updateText (sse : String → String → List Char) (update : JobUpdate) : List Char :=
  sse "update" (marshal jobUpdate update)

/-- The text written for the messages that Recv gives, before it gives an error. -/
def updatesText (sse : String → String → List Char) (updates : List JobUpdate) : List Char :=
  updates.flatMap (updateText sse)

/-- A plain response when WatchJob fails at once, and else the text of an event stream. -/
def handleWatchJob (sse : String → String → List Char) :
    Option (List JobUpdate) → Except Response (List Char)
  | none => .error (failed 500 "failed to watch job")
  | some updates => .ok (updatesText sse updates)

end TrendingPipeline.Api.Jobs

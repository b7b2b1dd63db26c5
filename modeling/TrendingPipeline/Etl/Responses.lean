/- Unit: TrendingPipeline/Etl/Responses
   source: backend/pb/etl.pb.go
   digest: The struct tags of the messages of the ETL service. -/

import TrendingPipeline.Analytics.Responses
import TrendingPipeline.Base.JsonMembers

set_option autoImplicit false
set_option relaxedAutoImplicit false

namespace TrendingPipeline.Etl.Responses

open TrendingPipeline.Analytics.Responses (timestamp)
open TrendingPipeline.Base.JsonCodec (OmitEmpty int32 string)
open TrendingPipeline.Base.JsonMembers
open TrendingPipeline.Base.JsonRoundTrip (Fits)
open TrendingPipeline.Base.JsonText (Json)
open TrendingPipeline.Proto.Messages

/-- The values of the enum; encoding/json writes the number. -/
def enumValue : JobState → Int32
  | .unspecified => 0
  | .done => 1
  | .failed => 2
  | .queued => 3
  | .running => 4
  | .retrying => 5
  | .dead => 6

/-- The codecs at the depth of a message that holds timestamps. -/
def text (s : String) : Option Json := (string : OmitEmpty 1 String).encode s

def number (n : Int32) : Option Json := (int32 : OmitEmpty 1 Int32).encode n

/-- A map is written with its keys in order, and left out when it has none. -/
def stringMap (m : List (String × String)) : Option Json :=
  if m = [] then none
  else
    some (.obj (((m.map Prod.fst).dedup.mergeSort fun k l => k ≤ l).map fun k =>
      (k, .str ((m.lookup k).getD ""))))

def jobUpdate : Members JobUpdate :=
  [("job_id", fun u => text u.jobId),
    ("state", fun u => number (enumValue u.state)),
    ("videos_fetched", fun u => number u.videosFetched),
    ("videos_inserted", fun u => number u.videosInserted),
    ("message", fun u => text u.message),
    ("occurred_at", fun u => timestamp.encode (some u.occurredAt))]

def jobStatus : Members JobStatus :=
  [("job_id", fun s => text s.jobId),
    ("state", fun s => number (enumValue s.state)),
    ("region", fun s => text s.region),
    ("category_id", fun s => number s.categoryId),
    ("attempt", fun s => number s.attempt),
    ("max_attempts", fun s => number s.maxAttempts),
    ("videos_fetched", fun s => number s.videosFetched),
    ("videos_inserted", fun s => number s.videosInserted),
    ("error_message", fun s => text s.errorMessage),
    ("next_retry_at", fun s => timestamp.encode s.nextRetryAt),
    ("created_at", fun s => timestamp.encode s.createdAt),
    ("started_at", fun s => timestamp.encode s.startedAt),
    ("completed_at", fun s => timestamp.encode s.completedAt),
    ("metadata", fun s => stringMap s.metadata)]

def batchJobResult : Members BatchJobResult :=
  [("job_id", fun r => text r.jobId),
    ("state", fun r => number (enumValue r.state)),
    ("idempotency_key", fun r => text r.idempotencyKey),
    ("message", fun r => text r.message)]

def batchResponse : Members BatchResponse :=
  [("total_received", fun r => number r.totalReceived),
    ("total_accepted", fun r => number r.totalAccepted),
    ("total_rejected", fun r => number r.totalRejected),
    ("results", fun r =>
      if r.results = [] then none else some (.arr (r.results.map (objectOf batchJobResult))))]

private theorem fits_text {s : String} {v : Json} (h : text s = some v) :
    Fits 1 v := string.fits s v h

private theorem fits_number {n : Int32} {v : Json} (h : number n = some v) :
    Fits 1 v := int32.fits n v h

theorem fits_jobUpdate (u : JobUpdate) : Fits 2 (objectOf jobUpdate u) := by
  refine fits_objectOf fun m hm v hv => ?_
  simp only [jobUpdate, List.mem_cons, List.not_mem_nil, or_false] at hm
  rcases hm with rfl | rfl | rfl | rfl | rfl | rfl
  · exact fits_text hv
  · exact fits_number hv
  · exact fits_number hv
  · exact fits_number hv
  · exact fits_text hv
  · exact timestamp.fits (some u.occurredAt) v hv

private theorem fits_batchJobResult (r : BatchJobResult) : Fits 2 (objectOf batchJobResult r) := by
  refine fits_objectOf fun m hm v hv => ?_
  simp only [batchJobResult, List.mem_cons, List.not_mem_nil, or_false] at hm
  rcases hm with rfl | rfl | rfl | rfl
  · exact fits_text hv
  · exact fits_number hv
  · exact fits_text hv
  · exact fits_text hv

theorem fits_batchResponse (r : BatchResponse) : Fits 4 (objectOf batchResponse r) := by
  have hmono : ∀ {v : Json}, Fits 1 v → Fits 3 v := fun h => h.mono (by decide)
  refine fits_objectOf fun m hm v hv => ?_
  simp only [batchResponse, List.mem_cons, List.not_mem_nil, or_false] at hm
  rcases hm with rfl | rfl | rfl | rfl
  · exact hmono (fits_number hv)
  · exact hmono (fits_number hv)
  · exact hmono (fits_number hv)
  · dsimp only at hv
    split at hv
    · cases hv
    · obtain rfl := Option.some.inj hv
      intro x hx
      obtain ⟨result, -, rfl⟩ := List.mem_map.mp hx
      exact fits_batchJobResult result

private theorem fits_stringMap {m : List (String × String)} {v : Json} (h : stringMap m = some v) :
    Fits 1 v := by
  unfold stringMap at h
  split at h
  · cases h
  · obtain rfl := Option.some.inj h
    intro x hx
    obtain ⟨k, -, rfl⟩ := List.mem_map.mp hx
    trivial

theorem fits_jobStatus (s : JobStatus) : Fits 2 (objectOf jobStatus s) := by
  refine fits_objectOf fun m hm v hv => ?_
  simp only [jobStatus, List.mem_cons, List.not_mem_nil, or_false] at hm
  rcases hm with rfl | rfl | rfl | rfl | rfl | rfl | rfl | rfl | rfl | rfl | rfl | rfl | rfl | rfl
  · exact fits_text hv
  · exact fits_number hv
  · exact fits_text hv
  · exact fits_number hv
  · exact fits_number hv
  · exact fits_number hv
  · exact fits_number hv
  · exact fits_number hv
  · exact fits_text hv
  · exact timestamp.fits s.nextRetryAt v hv
  · exact timestamp.fits s.createdAt v hv
  · exact timestamp.fits s.startedAt v hv
  · exact timestamp.fits s.completedAt v hv
  · exact fits_stringMap hv

end TrendingPipeline.Etl.Responses

/- Unit: TrendingPipeline/Proto/Messages
   source: backend/proto/etl.proto, backend/proto/analytics.proto
   digest: The protocol messages the services exchange. -/

import TrendingPipeline.Base.Calendar

set_option autoImplicit false
set_option relaxedAutoImplicit false

namespace TrendingPipeline.Proto.Messages

open TrendingPipeline.Base.Calendar (Time unixToInternal)

/-- google.protobuf.Timestamp: seconds since the epoch and nanoseconds. -/
structure Timestamp where
  seconds : Int64 := 0
  nanos : Int32 := 0
  deriving DecidableEq

/-- `x.AsTime()`. -/
def Timestamp.asTime (ts : Timestamp) : Time := Time.unix ts.seconds ts.nanos.toInt

/-- `timestamppb.New(t)`. -/
def Timestamp.ofTime (t : Time) : Timestamp where
  seconds := t.sec - unixToInternal
  nanos := Int32.ofNat t.nsec

@[simp] theorem Timestamp.asTime_ofTime (t : Time) : (Timestamp.ofTime t).asTime = t := by
  have hlt := t.nsec_lt
  have hnanos : (Int32.ofNat t.nsec).toInt = t.nsec :=
    Int32.toInt_ofNat_of_lt (Nat.lt_trans hlt (by decide))
  have hquot : (t.nsec : Int) / 1000000000 = 0 := by omega
  have hrem : (t.nsec : Int) % 1000000000 = t.nsec := by omega
  ext
  · simp only [asTime, ofTime, Time.unix, hnanos, hquot]
    change t.sec - unixToInternal + 0 + unixToInternal = t.sec
    rw [Int64.add_zero, Int64.sub_add_cancel]
  · simp only [asTime, ofTime, Time.unix, hnanos, hrem, Int.toNat_natCast]

inductive JobState
  | unspecified
  | done
  | failed
  | queued
  | running
  | retrying
  | dead
  deriving DecidableEq

/-- A nil metadata map is `none`. -/
structure JobRequest where
  region : String := ""
  categoryId : Int32 := 0
  maxResults : Int32 := 0
  idempotencyKey : String := ""
  metadata : Option (List (String × String)) := none
  deriving DecidableEq

structure JobResponse where
  jobId : String
  state : JobState
  message : String
  createdAt : Timestamp
  deriving DecidableEq

structure JobStatus where
  jobId : String := ""
  state : JobState := .unspecified
  region : String := ""
  categoryId : Int32 := 0
  attempt : Int32 := 0
  maxAttempts : Int32 := 0
  videosFetched : Int32 := 0
  videosInserted : Int32 := 0
  errorMessage : String := ""
  nextRetryAt : Option Timestamp := none
  createdAt : Option Timestamp := none
  startedAt : Option Timestamp := none
  completedAt : Option Timestamp := none
  metadata : List (String × String) := []
  deriving DecidableEq

structure JobUpdate where
  jobId : String
  state : JobState
  videosFetched : Int32
  videosInserted : Int32
  message : String
  occurredAt : Timestamp
  deriving DecidableEq

structure WatchJobRequest where
  jobId : String := ""
  deriving DecidableEq

structure BatchJobResult where
  jobId : String
  state : JobState
  idempotencyKey : String
  message : String
  deriving DecidableEq

structure BatchResponse where
  totalReceived : Int32
  totalAccepted : Int32
  totalRejected : Int32
  results : List BatchJobResult
  deriving DecidableEq

/-- A proto3 enum is open: a number without a name is kept. -/
inductive SortBy
  | sortByUnspecified
  | appearCount
  | viewCount
  | unrecognized (n : Int32)
  deriving DecidableEq

structure GetVideosRequest where
  region : String := ""
  categoryId : Int32 := 0
  fetchedAfter : Option Timestamp := none
  fetchedBefore : Option Timestamp := none
  limit : Int32 := 0
  offset : Int32 := 0
  deriving DecidableEq

structure Video where
  videoId : String := ""
  jobId : String := ""
  region : String := ""
  fetchedAt : Option Timestamp := none
  title : String := ""
  channelId : String := ""
  channelTitle : String := ""
  publishedAt : Option Timestamp := none
  categoryId : Int32 := 0
  viewCount : Int64 := 0
  likeCount : Int64 := 0
  commentCount : Int64 := 0
  deriving DecidableEq

structure GetVideosResponse where
  videos : List Video := []
  deriving DecidableEq

structure GetTopChannelsRequest where
  region : String := ""
  limit : Int32 := 0
  sortBy : SortBy := .sortByUnspecified
  deriving DecidableEq

structure Channel where
  channelId : String := ""
  channelTitle : String := ""
  appearCount : Int64 := 0
  viewCount : Int64 := 0
  deriving DecidableEq

structure GetTopChannelsResponse where
  channels : List Channel := []
  deriving DecidableEq

structure GetVideosCountResponse where
  count : Int64 := 0
  deriving DecidableEq

structure GetTrackedRegionsResponse where
  count : Int64 := 0
  regions : List String := []
  deriving DecidableEq

structure GetVideoTrendRequest where
  videoId : String := ""
  deriving DecidableEq

structure TrendPoint where
  fetchedAt : Option Timestamp := none
  viewCount : Int64 := 0
  likeCount : Int64 := 0
  commentCount : Int64 := 0
  deriving DecidableEq

structure GetVideoTrendResponse where
  points : List TrendPoint := []
  deriving DecidableEq

end TrendingPipeline.Proto.Messages

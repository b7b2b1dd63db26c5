/- Unit: TrendingPipeline/Youtube/FetchTrending
   source: backend/youtube/client.go
   digest: The YouTube client: what a response of any status and body is turned into. -/

import TrendingPipeline.Base.JsonDecode
import TrendingPipeline.Proto.Messages

set_option autoImplicit false
set_option relaxedAutoImplicit false

namespace TrendingPipeline.Youtube.FetchTrending

open TrendingPipeline.Base.Calendar (Time parseRFC3339)
open TrendingPipeline.Base.Decimal (atoi decimal)
open TrendingPipeline.Base.JsonText (decodeFirst)
open TrendingPipeline.Base.JsonDecode (Decoder Fields decodeSlice decodeString decodeStruct field)
open TrendingPipeline.Proto.Messages (JobRequest)

/-- `client.Video`; Go's `int` has 64 bits. -/
structure Video where
  videoId : String
  jobId : String
  region : String
  fetchedAt : Time
  title : String
  channelId : String
  channelTitle : String
  publishedAt : Time
  categoryId : Int64
  viewCount : Int64
  likeCount : Int64
  commentCount : Int64
  deriving DecidableEq

structure YoutubeSnippet where
  title : String := ""
  channelId : String := ""
  channelTitle : String := ""
  publishedAt : String := ""
  categoryId : String := ""
  deriving DecidableEq

structure YoutubeStats where
  viewCount : String := ""
  likeCount : String := ""
  commentCount : String := ""
  deriving DecidableEq

structure YoutubeItem where
  id : String := ""
  snippet : YoutubeSnippet := {}
  stats : YoutubeStats := {}
  deriving DecidableEq

structure YoutubeResponse where
  items : List YoutubeItem := []
  deriving DecidableEq

def youtubeSnippet : Fields YoutubeSnippet := [
  field "title" (·.title) (fun x v => { x with title := v }) decodeString,
  field "channelId" (·.channelId) (fun x v => { x with channelId := v }) decodeString,
  field "channelTitle" (·.channelTitle) (fun x v => { x with channelTitle := v }) decodeString,
  field "publishedAt" (·.publishedAt) (fun x v => { x with publishedAt := v }) decodeString,
  field "categoryId" (·.categoryId) (fun x v => { x with categoryId := v }) decodeString]

def youtubeStats : Fields YoutubeStats := [
  field "viewCount" (·.viewCount) (fun x v => { x with viewCount := v }) decodeString,
  field "likeCount" (·.likeCount) (fun x v => { x with likeCount := v }) decodeString,
  field "commentCount" (·.commentCount) (fun x v => { x with commentCount := v }) decodeString]

def youtubeItem : Fields YoutubeItem := [
  field "id" (·.id) (fun x v => { x with id := v }) decodeString,
  field "snippet" (·.snippet) (fun x v => { x with snippet := v }) (decodeStruct youtubeSnippet),
  field "statistics" (·.stats) (fun x v => { x with stats := v }) (decodeStruct youtubeStats)]

def youtubeResponse : Decoder YoutubeResponse :=
  decodeStruct [field "items" (·.items) (fun x v => { x with items := v })
    (decodeSlice {} (decodeStruct youtubeItem))]

/-- `json.NewDecoder(resp.Body).Decode(&result)`. -/
def decodeBody (body : String) : Option YoutubeResponse :=
  (decodeFirst body).bind (youtubeResponse {})

/-- The client holds the key of the YouTube Data API. -/
structure Client where
  apiKey : String := ""
  deriving DecidableEq

/-- What `http.Get` hands back: no response at all, or a status code and a body. -/
inductive HttpResult
  | transportError
  | response (status : Nat) (body : String)
  deriving DecidableEq

inductive FetchError
  | transport
  | decode
  deriving DecidableEq

inductive Outcome (α : Type)
  | returned (a : α)
  | panicked

/-- The largest allocation of the runtime on a 64-bit machine. -/
def maxAlloc : Int := 2 ^ 48

/-- The size of one `client.Video`: six strings, two times and four integers. -/
def videoSize : Int := 6 * 16 + 2 * 24 + 4 * 8

/-- `make` panics on a capacity that is negative or cannot be allocated. -/
def makeSlicePanics (elemSize capacity : Int) : Bool :=
  capacity < 0 || maxAlloc < elemSize * capacity

def params (c : Client) (req : JobRequest) : List (String × String) :=
  [("part", "snippet,statistics"), ("chart", "mostPopular"), ("regionCode", req.region),
    ("maxResults", String.ofList (decimal req.maxResults.toInt)), ("key", c.apiKey)] ++
  if req.categoryId ≠ 0 then
    [("videoCategoryId", String.ofList (decimal req.categoryId.toInt))]
  else []

/-- The row made of one item; conversion errors leave the value the conversion
gives with them. -/
def toVideo (req : JobRequest) (jobId : String) (now : Time) (item : YoutubeItem) : Video where
  videoId := item.id
  jobId := jobId
  region := req.region
  fetchedAt := now
  title := item.snippet.title
  channelId := item.snippet.channelId
  channelTitle := item.snippet.channelTitle
  publishedAt := (parseRFC3339 item.snippet.publishedAt).getD Time.zero
  categoryId := (atoi item.snippet.categoryId).1
  viewCount := (atoi item.stats.viewCount).1
  likeCount := (atoi item.stats.likeCount).1
  commentCount := (atoi item.stats.commentCount).1

/-- `FetchTrending`. `get` is `http.Get` of the endpoint with the given query
parameters; `clock` gives the successive readings of `time.Now`. The status code of
the response is not looked at. -/
def fetchTrending (c : Client) (get : List (String × String) → HttpResult)
    (clock : Nat → Time) (req : JobRequest) (jobId : String) :
    Outcome (Except FetchError (List Video)) :=
  if makeSlicePanics videoSize req.maxResults.toInt then .panicked
  else
    match get (params c req) with
    | .transportError => .returned (.error .transport)
    | .response _ body =>
        match decodeBody body with
        | none => .returned (.error .decode)
        | some result =>
            .returned (.ok (result.items.mapIdx fun i item => toVideo req jobId (clock i) item))

theorem makeSlicePanics_iff (n : Int32) :
    makeSlicePanics videoSize n.toInt = true ↔ n.toInt < 0 := by
  have hlt : n.toInt < 2 ^ 31 := Int32.toInt_lt n
  have hsize : videoSize = 176 := rfl
  have hmax : maxAlloc = 281474976710656 := rfl
  simp only [makeSlicePanics, hsize, hmax, Bool.or_eq_true, decide_eq_true_eq]
  omega

variable {c : Client} {get : List (String × String) → HttpResult} {clock : Nat → Time}
  {req : JobRequest} {jobId : String}

theorem fetchTrending_panicked_iff :
    fetchTrending c get clock req jobId = .panicked ↔ req.maxResults.toInt < 0 := by
  rw [← makeSlicePanics_iff]
  unfold fetchTrending
  by_cases hcap : makeSlicePanics videoSize req.maxResults.toInt = true
  · simp [hcap]
  · simp only [hcap, Bool.false_eq_true, if_false, iff_false]
    split
    · simp
    · split <;> simp

/-- A successful call read a body that decodes, whatever the status, and tags each
video with the job and the region it was asked for. -/
theorem fetchTrending_ok {videos : List Video}
    (h : fetchTrending c get clock req jobId = .returned (.ok videos)) :
    (∃ status body result, get (params c req) = .response status body ∧
      decodeBody body = some result ∧ videos.length = result.items.length) ∧
      ∀ v ∈ videos, v.jobId = jobId ∧ v.region = req.region := by
  unfold fetchTrending at h
  split at h
  · cases h
  · split at h
    · cases h
    · rename_i status body hget
      split at h
      · cases h
      · rename_i result hbody
        obtain rfl : _ = videos := by simpa using h
        refine ⟨⟨status, body, result, hget, hbody, List.length_mapIdx⟩, ?_⟩
        intro v hv
        obtain ⟨i, hi, rfl⟩ := List.mem_mapIdx.mp hv
        exact ⟨rfl, rfl⟩

theorem fetchTrending_ok_iff (hcap : 0 ≤ req.maxResults.toInt) :
    (∃ videos, fetchTrending c get clock req jobId = .returned (.ok videos)) ↔
      ∃ status body, get (params c req) = .response status body ∧
        (decodeBody body).isSome := by
  constructor
  · rintro ⟨videos, h⟩
    obtain ⟨⟨status, body, result, hget, hbody, -⟩, -⟩ := fetchTrending_ok h
    exact ⟨status, body, hget, by simp [hbody]⟩
  · rintro ⟨status, body, hget, hbody⟩
    obtain ⟨result, hresult⟩ := Option.isSome_iff_exists.mp hbody
    have hmake : ¬ makeSlicePanics videoSize req.maxResults.toInt = true := by
      rw [makeSlicePanics_iff]
      omega
    refine ⟨result.items.mapIdx fun i item => toVideo req jobId (clock i) item, ?_⟩
    simp [fetchTrending, hmake, hget, hresult]

end TrendingPipeline.Youtube.FetchTrending

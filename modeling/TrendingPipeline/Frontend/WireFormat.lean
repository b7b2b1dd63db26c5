/- Unit: TrendingPipeline/Frontend/WireFormat
   source: frontend/types/videos.ts, frontend/lib/api.ts, backend/api/server.go
   digest: Whether what the client functions return is of its declared type. -/

import TrendingPipeline.Analytics.Server
import TrendingPipeline.Frontend.Api

set_option autoImplicit false
set_option relaxedAutoImplicit false

namespace TrendingPipeline.Frontend.WireFormat

open TrendingPipeline.Analytics.Responses
open TrendingPipeline.Analytics.Server (getVideosCount)
open TrendingPipeline.Api.Server
open TrendingPipeline.Base.Decimal (decimal)
open TrendingPipeline.Base.JsValue
open TrendingPipeline.Base.JsonCodec
open TrendingPipeline.Base.JsonText (Json maxNestingDepth)
open TrendingPipeline.Frontend.Api
open TrendingPipeline.Proto.Messages
open TrendingPipeline.Store.Queries (getVideoCount)

/-- A value declared `string`. -/
def IsString (v : Option Json) (s : String) : Prop := v = some (.str s)

/-- A value declared `number`. -/
def IsNumber (v : Option Json) (n : ℤ) : Prop :=
  ∃ literal, v = some (.num literal) ∧ numberOf literal = some n

/-- A value declared `string` that stands for an instant. -/
def IsInstant (denotes : String → Timestamp → Prop) (v : Option Json) (ts : Option Timestamp) :
    Prop :=
  ∃ s t, v = some (.str s) ∧ ts = some t ∧ denotes s t

def IsArray {α : Type} (Item : Json → α → Prop) (v : Option Json) (xs : List α) : Prop :=
  ∃ items, v = some (.arr items) ∧ List.Forall₂ Item items xs

def Has (v : Json) (name : String) (Declared : Option Json → Prop) : Prop :=
  ∃ w, property name v = some w ∧ Declared w

structure IsVideo (denotes : String → Timestamp → Prop) (v : Json) (m : Video) : Prop where
  videoId : Has v "video_id" (IsString · m.videoId)
  jobId : Has v "job_id" (IsString · m.jobId)
  region : Has v "region" (IsString · m.region)
  fetchedAt : Has v "fetched_at" (IsInstant denotes · m.fetchedAt)
  title : Has v "title" (IsString · m.title)
  channelId : Has v "channel_id" (IsString · m.channelId)
  channelTitle : Has v "channel_title" (IsString · m.channelTitle)
  publishedAt : Has v "published_at" (IsInstant denotes · m.publishedAt)
  categoryId : Has v "category_id" (IsNumber · m.categoryId.toInt)
  viewCount : Has v "view_count" (IsNumber · m.viewCount.toInt)
  likeCount : Has v "like_count" (IsNumber · m.likeCount.toInt)
  commentCount : Has v "comment_count" (IsNumber · m.commentCount.toInt)

structure IsTopChannel (v : Json) (m : Channel) : Prop where
  channelId : Has v "channel_id" (IsString · m.channelId)
  channelTitle : Has v "channel_title" (IsString · m.channelTitle)
  appearCount : Has v "appear_count" (IsNumber · m.appearCount.toInt)
  viewCount : Has v "view_count" (IsNumber · m.viewCount.toInt)

structure IsTrendPoint (denotes : String → Timestamp → Prop) (v : Json) (m : TrendPoint) :
    Prop where
  fetchedAt : Has v "fetched_at" (IsInstant denotes · m.fetchedAt)
  viewCount : Has v "view_count" (IsNumber · m.viewCount.toInt)
  likeCount : Has v "like_count" (IsNumber · m.likeCount.toInt)
  commentCount : Has v "comment_count" (IsNumber · m.commentCount.toInt)

/-- The type `{ count: number; regions: string[] }`. -/
structure IsTrackedRegions (v : Json) (m : GetTrackedRegionsResponse) : Prop where
  count : Has v "count" (IsNumber · m.count.toInt)
  regions : Has v "regions" (IsArray (fun v s => IsString (some v) s) · m.regions)

/-- A call of a client function that the Analytics service answers with a message. -/
inductive Call
  | getVideos (params : VideosParams) (resp : GetVideosResponse)
  | getTopChannels (params : TopChannelsParams) (resp : GetTopChannelsResponse)
  | getVideoTrend (id : String) (resp : GetVideoTrendResponse)
  | getVideoCount (resp : GetVideosCountResponse)
  | getTrackedRegions (resp : GetTrackedRegionsResponse)

def Call.returned : Call → Result
  | .getVideos params resp =>
      Api.getVideos (fun _ params => .ok (handleGetVideos (fun _ => some resp) params)) params
  | .getTopChannels params resp =>
      Api.getTopChannels (fun _ params => .ok (handleGetTopChannels (fun _ => some resp) params))
        params
  | .getVideoTrend id resp =>
      Api.getVideoTrend (fun _ _ => .ok (handleGetVideoTrend (fun _ => some resp) id)) id
  | .getVideoCount resp => Api.getVideoCount fun _ _ => .ok (handleGetVideoCount (some resp))
  | .getTrackedRegions resp =>
      Api.getTrackedRegions fun _ _ => .ok (handleGetTrackedRegions (some resp))

def Call.Declared (denotes : String → Timestamp → Prop) (v : Option Json) : Call → Prop
  | .getVideos _ resp => IsArray (IsVideo denotes) v resp.videos
  | .getTopChannels _ resp => IsArray IsTopChannel v resp.channels
  | .getVideoTrend _ resp => IsArray (IsTrendPoint denotes) v resp.points
  | .getVideoCount resp => IsNumber v resp.count.toInt
  | .getTrackedRegions resp => ∃ w, v = some w ∧ IsTrackedRegions w resp

def Call.Conforms (denotes : String → Timestamp → Prop) (c : Call) : Prop :=
  ∃ v, c.returned = .ok v ∧ c.Declared denotes v

def Countable (n : Int64) : Prop := 0 ≤ n.toInt ∧ n.toInt < 2 ^ 53

def Call.Countable : Call → Prop
  | .getVideos _ resp => ∀ v ∈ resp.videos,
      WireFormat.Countable v.viewCount ∧ WireFormat.Countable v.likeCount ∧
        WireFormat.Countable v.commentCount
  | .getTopChannels _ resp => ∀ c ∈ resp.channels,
      WireFormat.Countable c.appearCount ∧ WireFormat.Countable c.viewCount
  | .getVideoTrend _ resp => ∀ p ∈ resp.points,
      WireFormat.Countable p.viewCount ∧ WireFormat.Countable p.likeCount ∧
        WireFormat.Countable p.commentCount
  | .getVideoCount resp => WireFormat.Countable resp.count
  | .getTrackedRegions resp => WireFormat.Countable resp.count

def Full (c : Channel) : Prop :=
  c.channelId ≠ "" ∧ c.channelTitle ≠ "" ∧ c.appearCount ≠ 0 ∧ c.viewCount ≠ 0

/-- A message without an instant and without an empty field at any level. -/
def Call.Survives : Call → Prop
  | .getVideos _ _ | .getVideoTrend _ _ => False
  | .getTopChannels _ resp => resp.channels ≠ [] ∧ ∀ c ∈ resp.channels, Full c
  | .getVideoCount resp => resp.count ≠ 0
  | .getTrackedRegions resp => resp.count ≠ 0 ∧ resp.regions ≠ []

variable {depth : ℕ} {α β : Type}

private theorem receive_reply (codec : Codec depth α) (hdepth : depth ≤ maxNestingDepth)
    (failure message : String) (a : α) :
    receive failure (reply codec message (some a)) = .ok (codec.encode a) := by
  have htext : (reply codec message (some a)).body = codec.marshal a := rfl
  have hok : ok (reply codec message (some a)) = true := rfl
  rw [receive, if_pos hok, json, htext, codec.parse_marshal hdepth]

private theorem read_reply (r : Record depth α) (hdepth : depth + 1 ≤ maxNestingDepth)
    {s : Slot depth α} (hs : s ∈ r.slots) (failure message : String) (a : α) :
    (receive failure (reply r.codec message (some a))).bind (readProperty s.name) =
      .ok (s.codec.encode (s.get a)) := by
  rw [receive_reply r.codec hdepth]
  change readProperty s.name (r.codec.encode a) = _
  rw [readProperty, property_encode r hs]

theorem returned_getVideos (params : VideosParams) (resp : GetVideosResponse) :
    (Call.getVideos params resp).returned = .ok ((slice videoRecord.codec).encode resp.videos) :=
  read_reply getVideosResponse (by decide) List.mem_cons_self _ _ resp

private theorem returned_getTopChannels (params : TopChannelsParams)
    (resp : GetTopChannelsResponse) :
    (Call.getTopChannels params resp).returned =
      .ok ((slice channelRecord.codec).encode resp.channels) :=
  read_reply getTopChannelsResponse (by decide) List.mem_cons_self
    "Failed to fetch top channels" "failed to get top channels" resp

theorem returned_getVideoTrend (id : String) (resp : GetVideoTrendResponse) :
    (Call.getVideoTrend id resp).returned =
      .ok ((slice trendPointRecord.codec).encode resp.points) :=
  read_reply getVideoTrendResponse (by decide) List.mem_cons_self _ _ resp

theorem returned_getVideoCount (resp : GetVideosCountResponse) :
    (Call.getVideoCount resp).returned = .ok ((int64 : OmitEmpty 0 Int64).encode resp.count) :=
  read_reply getVideosCountResponse (by decide) List.mem_cons_self _ _ resp

theorem returned_getTrackedRegions (resp : GetTrackedRegionsResponse) :
    (Call.getTrackedRegions resp).returned =
      .ok (some (getTrackedRegionsResponse.codec.encode resp)) := by
  have harrived := receive_reply getTrackedRegionsResponse.codec (by decide)
    "Failed to fetch tracked regions" "failed to get tracked regions" resp
  change (receive _ (reply _ _ _)).bind _ = _
  rw [harrived]
  rfl

private theorem has_encode (r : Record depth α) {s : Slot depth α} (hs : s ∈ r.slots) (a : α)
    (Declared : Option Json → Prop) :
    Has (r.codec.encode a) s.name Declared ↔ Declared (s.codec.encode (s.get a)) := by
  simp only [Has, property_encode r hs, Option.some.injEq, exists_eq_left']

private theorem isString_encode (s : String) :
    IsString ((string : OmitEmpty depth String).encode s) s ↔ s ≠ "" := by
  change (if s = "" then none else some (Json.str s)) = some (.str s) ↔ s ≠ ""
  split <;> simp_all

private theorem isNumber_encode {n : Int64} (hn : Countable n) :
    IsNumber ((int64 : OmitEmpty depth Int64).encode n) n.toInt ↔ n ≠ 0 := by
  change (∃ literal, (if n = 0 then none else some (Json.num (decimal n.toInt))) =
    some (.num literal) ∧ numberOf literal = some n.toInt) ↔ n ≠ 0
  split
  · next hzero => exact ⟨nofun, fun hne => absurd hzero hne⟩
  · next hne =>
      have hexact : numberOf (decimal n.toInt) = some n.toInt := by
        obtain ⟨hnonneg, hbound⟩ := hn
        rw [numberOf_decimal, nearestDouble_eq (by omega)]
      exact ⟨fun _ => hne, fun _ => ⟨_, rfl, hexact⟩⟩

private theorem not_isInstant_encode (denotes : String → Timestamp → Prop)
    (ts ts' : Option Timestamp) :
    ¬ IsInstant denotes (timestamp.encode ts) ts' := by
  rintro ⟨s, _, hwritten, _⟩
  cases ts with
  | none => cases hwritten
  | some t => cases hwritten

private theorem isArray_encode (c : Codec depth α) (Item : Json → α → Prop) (xs : List α) :
    IsArray Item ((slice c).encode xs) xs ↔ xs ≠ [] ∧ ∀ x ∈ xs, Item (c.encode x) x := by
  cases xs with
  | nil => exact ⟨nofun, fun h => absurd rfl h.1⟩
  | cons x xs =>
      have hwritten : (slice c).encode (x :: xs) = some (.arr ((x :: xs).map c.encode)) := rfl
      simp only [IsArray, hwritten, Option.some.injEq, Json.arr.injEq, exists_eq_left',
        List.forall₂_map_left_iff, List.forall₂_same, ne_eq, reduceCtorEq, not_false_eq_true,
        true_and]

private theorem has_string (r : Record depth α) (i : ℕ) {name : String} {get : α → String}
    {set : α → String → α} (hs : r.slots[i]? = some (slot name get set string)) (a : α) :
    Has (r.codec.encode a) name (IsString · (get a)) ↔ get a ≠ "" :=
  (has_encode r (List.mem_of_getElem? hs) a _).trans (isString_encode _)

private theorem has_count (r : Record depth α) (i : ℕ) {name : String} {get : α → Int64}
    {set : α → Int64 → α} (hs : r.slots[i]? = some (slot name get set int64)) {a : α}
    (ha : Countable (get a)) :
    Has (r.codec.encode a) name (IsNumber · (get a).toInt) ↔ get a ≠ 0 :=
  (has_encode r (List.mem_of_getElem? hs) a _).trans (isNumber_encode ha)

private theorem not_has_instant (denotes : String → Timestamp → Prop) (r : Record 1 α) (i : ℕ)
    {name : String} {get : α → Option Timestamp} {set : α → Option Timestamp → α}
    (hs : r.slots[i]? = some (slot name get set timestamp)) (a : α) :
    ¬ Has (r.codec.encode a) name (IsInstant denotes · (get a)) := fun h =>
  not_isInstant_encode denotes _ _ ((has_encode r (List.mem_of_getElem? hs) a _).mp h)

private theorem isTopChannel_encode {c : Channel} (happear : Countable c.appearCount)
    (hview : Countable c.viewCount) : IsTopChannel (channelRecord.codec.encode c) c ↔ Full c := by
  have hid := has_string channelRecord 0 rfl c
  have htitle := has_string channelRecord 1 rfl c
  have hcount := has_count channelRecord 2 rfl happear
  have hviews := has_count channelRecord 3 rfl hview
  constructor
  · intro h
    exact ⟨hid.mp h.channelId, htitle.mp h.channelTitle, hcount.mp h.appearCount,
      hviews.mp h.viewCount⟩
  · rintro ⟨h1, h2, h3, h4⟩
    exact ⟨hid.mpr h1, htitle.mpr h2, hcount.mpr h3, hviews.mpr h4⟩

private theorem not_isVideo_encode (denotes : String → Timestamp → Prop) (v : Video) :
    ¬ IsVideo denotes (videoRecord.codec.encode v) v := fun h =>
  not_has_instant denotes videoRecord 3 rfl v h.fetchedAt

private theorem not_isTrendPoint_encode (denotes : String → Timestamp → Prop) (p : TrendPoint) :
    ¬ IsTrendPoint denotes (trendPointRecord.codec.encode p) p := fun h =>
  not_has_instant denotes trendPointRecord 0 rfl p h.fetchedAt

private theorem isTrackedRegions_encode {resp : GetTrackedRegionsResponse}
    (hcount : Countable resp.count) :
    IsTrackedRegions (getTrackedRegionsResponse.codec.encode resp) resp ↔
      resp.count ≠ 0 ∧ resp.regions ≠ [] := by
  have hcounted := has_count getTrackedRegionsResponse 0 rfl hcount
  have hregions : Has (getTrackedRegionsResponse.codec.encode resp) "regions"
      (IsArray (fun v s => IsString (some v) s) · resp.regions) ↔ resp.regions ≠ [] := by
    refine
      (has_encode getTrackedRegionsResponse (List.mem_of_getElem? (i := 1) rfl) resp _).trans ?_
    refine (isArray_encode stringItem _ resp.regions).trans (and_iff_left fun _ _ => rfl)
  exact ⟨fun h => ⟨hcounted.mp h.count, hregions.mp h.regions⟩,
    fun h => ⟨hcounted.mpr h.1, hregions.mpr h.2⟩⟩

theorem conforms_iff {denotes : String → Timestamp → Prop} {c : Call} {v : Option Json}
    (h : c.returned = .ok v) : c.Conforms denotes ↔ c.Declared denotes v := by
  simp only [Call.Conforms, h, Except.ok.injEq, exists_eq_left']

/-- Among the responses whose counts fit a double, a client function returns as its
declared type exactly those that hold no instant and nothing empty. -/
theorem conforms_iff_survives (denotes : String → Timestamp → Prop) {c : Call}
    (hc : c.Countable) : c.Conforms denotes ↔ c.Survives := by
  cases c with
  | getVideos params resp =>
      rw [conforms_iff (returned_getVideos params resp), Call.Declared, isArray_encode]
      refine ⟨?_, False.elim⟩
      intro h
      obtain ⟨v, hv⟩ := List.exists_mem_of_ne_nil _ h.1
      exact not_isVideo_encode denotes v (h.2 v hv)
  | getTopChannels params resp =>
      rw [conforms_iff (returned_getTopChannels params resp), Call.Declared, isArray_encode]
      exact and_congr_right fun _ => forall₂_congr fun c hmem =>
        isTopChannel_encode (hc c hmem).1 (hc c hmem).2
  | getVideoTrend id resp =>
      rw [conforms_iff (returned_getVideoTrend id resp), Call.Declared, isArray_encode]
      refine ⟨?_, False.elim⟩
      intro h
      obtain ⟨p, hp⟩ := List.exists_mem_of_ne_nil _ h.1
      exact not_isTrendPoint_encode denotes p (h.2 p hp)
  | getVideoCount resp =>
      rw [conforms_iff (returned_getVideoCount resp)]
      exact isNumber_encode hc
  | getTrackedRegions resp =>
      rw [conforms_iff (returned_getTrackedRegions resp)]
      simp only [Call.Declared, Option.some.injEq, exists_eq_left']
      exact isTrackedRegions_encode hc

def sampleChannel : Channel :=
  { channelId := "UC1", channelTitle := "News", appearCount := 2, viewCount := 300 }

/-- A channel with all its fields arrives as a TopChannel. -/
theorem conforms_iff_survives_full :
    (Call.getTopChannels {} { channels := [sampleChannel] }).Conforms fun _ _ => True := by
  have hcountable : (Call.getTopChannels {} { channels := [sampleChannel] }).Countable := by
    rintro c hc
    obtain rfl := List.mem_singleton.mp hc
    exact ⟨⟨by decide, by decide⟩, by decide, by decide⟩
  refine (conforms_iff_survives (fun _ _ => True) hcountable).mpr ⟨by decide, ?_⟩
  rintro c hc
  obtain rfl := List.mem_singleton.mp hc
  exact ⟨by decide, by decide, by decide, by decide⟩

/-- The count of an empty table does not arrive: the client returns `undefined`. -/
theorem emptyTable_undefined :
    getVideosCount (some (getVideoCount .empty)) = some { count := 0 } ∧
      (Call.getVideoCount { count := 0 }).Countable ∧
      (Call.getVideoCount { count := 0 }).returned = .ok none ∧
      ¬ (Call.getVideoCount { count := 0 }).Conforms fun _ _ => True := by
  have hreturned : (Call.getVideoCount { count := 0 }).returned = .ok none :=
    returned_getVideoCount { count := 0 }
  refine ⟨rfl, ⟨by decide, by decide⟩, hreturned, ?_⟩
  intro h
  rw [conforms_iff hreturned] at h
  obtain ⟨literal, hmissing, _⟩ := h
  cases hmissing

end TrendingPipeline.Frontend.WireFormat

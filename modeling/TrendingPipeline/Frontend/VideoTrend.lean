/- Unit: TrendingPipeline/Frontend/VideoTrend
   source: frontend/components/video-trend-chart.tsx, backend/analytics/server.go
   digest: The trend page of a video, from the rows of the table to what the charts get. -/

import TrendingPipeline.Frontend.JobsApi
import TrendingPipeline.Frontend.WireFormat
import TrendingPipeline.Store.Trends

set_option autoImplicit false
set_option relaxedAutoImplicit false

namespace TrendingPipeline.Frontend.VideoTrend

open TrendingPipeline.Analytics.Responses (timestamp trendPointRecord videoOfRow videoRecord)
open TrendingPipeline.Api.Server (handleGetVideoTrend)
open TrendingPipeline.Base.Decimal (decimal)
open TrendingPipeline.Base.JsValue (numberOf property property_encode)
open TrendingPipeline.Base.JsonCodec (slice)
open TrendingPipeline.Base.JsonText (Json)
open TrendingPipeline.Base.OrderedAnswers (OrdersBy)
open TrendingPipeline.Frontend.Api (Result)
open TrendingPipeline.Frontend.JobsApi (Engine browser)
open TrendingPipeline.Frontend.WireFormat (Call returned_getVideoTrend returned_getVideos)
open TrendingPipeline.Proto.Messages (GetVideoTrendResponse Timestamp TrendPoint)
open TrendingPipeline.Store.Tables (VideosTable)
open TrendingPipeline.Store.Trends (NotLater TrendAnswers VideoTrendPoint pointOf
  trendAnswers_getVideoTrend trendAnswers_iff twoSnapshots younger)
open TrendingPipeline.Youtube.FetchTrending (Video)

def trendPointOf (p : VideoTrendPoint) : TrendPoint where
  fetchedAt := some (Timestamp.ofTime p.fetchedAt)
  viewCount := p.viewCount
  likeCount := p.likeCount
  commentCount := p.commentCount

/-- `GetVideoTrend`, given the answer of the database. -/
def getVideoTrend (points : Option (List VideoTrendPoint)) : Option GetVideoTrendResponse :=
  points.map fun points => { points := points.map trendPointOf }

/-- `Date.parse`, and `String(value)` for what is no string. -/
structure Dates where
  parse : String → Option ℤ
  toText : Json → String

variable (dates : Dates)

/-- The time of `new Date(value)`; `none` is an invalid date. -/
def Dates.time : Option Json → Option ℤ
  | none => none
  | some .null => some 0
  | some (.bool b) => some (if b then 1 else 0)
  | some (.num literal) => numberOf literal
  | some (.str s) => dates.parse s
  | some v => dates.parse (dates.toText v)

/-- `value ?? 0`. -/
def orZero : Option Json → Json
  | none | some .null => .num ['0']
  | some v => v

/-- The time a label is formatted from, and the values of the three lines; `none` is
`undefined`. -/
structure ChartDataPoint where
  time : Option ℤ
  views : Option Json
  likes : Option Json
  comments : Json

/-- The callback of `trend.map`; `none` if it throws. -/
def chartDataPoint (p : Json) : Option ChartDataPoint := do
  let fetchedAt ← property "fetched_at" p
  let viewCount ← property "view_count" p
  let likeCount ← property "like_count" p
  let commentCount ← property "comment_count" p
  return {
    time := dates.time fetchedAt
    views := viewCount
    likes := likeCount
    comments := orZero commentCount }

def chartData (trend : List Json) : Option (List ChartDataPoint) :=
  trend.mapM (chartDataPoint dates)

/-- The component's state after `load`. -/
structure Page where
  trend : List Json := []
  video : Option Json := none
  error : Option String := none

/-- `data ?? []` where the gateway has written an array or nothing. -/
def items : Option Json → List Json
  | some (.arr vs) => vs
  | _ => []

/-- `v.video_id === videoId`. -/
def isVideo (videoId : String) (v : Json) : Bool :=
  match property "video_id" v with
  | some (some (.str s)) => s = videoId
  | _ => false

/-- `load`, given what both calls settle with; `trendFirst` if the first of two rejections
is that of getVideoTrend. -/
def load (engine : Engine) (videoId : String) (trendFirst : Bool) : Result → Result → Page
  | .ok trendData, .ok videos =>
      { trend := items trendData, video := (items videos).find? (isVideo videoId) }
  | .error e, .ok _ => { error := some (engine.messageOf e) }
  | .ok _, .error e => { error := some (engine.messageOf e) }
  | .error e, .error e' => { error := some (engine.messageOf (if trendFirst then e else e')) }

def written (n : Int64) : Option Json := if n = 0 then none else some (.num (decimal n.toInt))

private theorem orZero_written (n : Int64) : orZero (written n) = .num (decimal n.toInt) := by
  rw [written]
  split
  · next hzero =>
      rw [hzero]
      rfl
  · rfl

/-- What the chart makes of a point: its label is no date. -/
def drawn (p : VideoTrendPoint) : ChartDataPoint where
  time := none
  views := written p.viewCount
  likes := written p.likeCount
  comments := .num (decimal p.commentCount.toInt)

variable {dates}

private theorem chartDataPoint_encode (hobject : ∀ ms, dates.parse (dates.toText (.obj ms)) = none)
    (p : VideoTrendPoint) :
    chartDataPoint dates (trendPointRecord.codec.encode (trendPointOf p)) = some (drawn p) := by
  have hfetched : property "fetched_at" (trendPointRecord.codec.encode (trendPointOf p)) =
      some (timestamp.encode (some (Timestamp.ofTime p.fetchedAt))) :=
    property_encode trendPointRecord (List.mem_of_getElem? (i := 0) rfl) (trendPointOf p)
  have hviews : property "view_count" (trendPointRecord.codec.encode (trendPointOf p)) =
      some (written p.viewCount) :=
    property_encode trendPointRecord (List.mem_of_getElem? (i := 1) rfl) (trendPointOf p)
  have hlikes : property "like_count" (trendPointRecord.codec.encode (trendPointOf p)) =
      some (written p.likeCount) :=
    property_encode trendPointRecord (List.mem_of_getElem? (i := 2) rfl) (trendPointOf p)
  have hcomments : property "comment_count" (trendPointRecord.codec.encode (trendPointOf p)) =
      some (written p.commentCount) :=
    property_encode trendPointRecord (List.mem_of_getElem? (i := 3) rfl) (trendPointOf p)
  obtain ⟨ms, hms⟩ : ∃ ms, timestamp.encode (some (Timestamp.ofTime p.fetchedAt)) =
      some (.obj ms) := ⟨_, rfl⟩
  have htime : dates.time (some (.obj ms)) = none := hobject ms
  rw [chartDataPoint, hfetched, hviews, hlikes, hcomments, hms]
  simp only [Option.bind_eq_bind, Option.bind_some, htime, orZero_written]
  rfl

private theorem items_encode {depth : ℕ} {α : Type} (c : Base.JsonCodec.Codec depth α)
    (xs : List α) :
    items ((slice c).encode xs) = xs.map c.encode := by
  cases xs with
  | nil => rfl
  | cons x xs => rfl

/-- The page's getVideoTrend, given what the database gives. -/
def trendCall (videoId : String) (points : Option (List VideoTrendPoint)) : Result :=
  Api.getVideoTrend (fun _ _ => .ok (handleGetVideoTrend (fun _ => getVideoTrend points) videoId))
    videoId

private theorem items_trendCall (videoId : String) (points : List VideoTrendPoint) :
    ∃ data, trendCall videoId (some points) = .ok data ∧
      items data = (points.map trendPointOf).map trendPointRecord.codec.encode := by
  have hcall : trendCall videoId (some points) =
      (Call.getVideoTrend videoId { points := points.map trendPointOf }).returned := rfl
  rw [hcall, returned_getVideoTrend]
  exact ⟨_, rfl, items_encode trendPointRecord.codec _⟩

/-- The page's getVideos, given what the service answers. -/
def videosCall (cards : List Video) : Result :=
  (Call.getVideos { limit := some 200 } { videos := cards.map videoOfRow }).returned

private theorem isVideo_encode {videoId : String} (hid : videoId ≠ "") (card : Video) :
    isVideo videoId (videoRecord.codec.encode (videoOfRow card)) =
      decide (card.videoId = videoId) := by
  have hproperty : property "video_id" (videoRecord.codec.encode (videoOfRow card)) =
      some (if card.videoId = "" then none else some (.str card.videoId)) :=
    property_encode videoRecord (List.mem_of_getElem? (i := 0) rfl) (videoOfRow card)
  rw [isVideo, hproperty]
  by_cases hempty : card.videoId = ""
  · rw [if_pos hempty, hempty]
    exact (decide_eq_false hid.symm).symm
  · rw [if_neg hempty]

/-- Whatever the table holds: the trend page draws one point for each snapshot of its video,
in the order of their instants, with its counts, but a view or like count of zero is
missing and no label is a date; above stands the first card with the video's id. -/
theorem page_of_table (hobject : ∀ ms, dates.parse (dates.toText (.obj ms)) = none)
    (engine : Engine) {coll : Store.Select.Collation} {videos : VideosTable} {videoId : String}
    (hid : videoId ≠ "") {points : Option (List VideoTrendPoint)}
    (hpoints : TrendAnswers coll videos videoId points) (cards : List Video) (trendFirst : Bool) :
    let page := load engine videoId trendFirst (trendCall videoId points) (videosCall cards)
    page.error = none ∧
      (∃ ordered, OrdersBy NotLater (videos.rows.filter (·.videoId = videoId)) ordered ∧
        chartData dates page.trend = some (ordered.map fun v => drawn (pointOf v))) ∧
      page.video = (cards.find? (·.videoId = videoId)).map fun card =>
        videoRecord.codec.encode (videoOfRow card) := by
  obtain ⟨ordered, hordered, rfl⟩ := trendAnswers_iff.mp hpoints
  obtain ⟨data, hdata, hitems⟩ := items_trendCall videoId (ordered.map pointOf)
  have hvideos : videosCall cards =
      .ok ((slice videoRecord.codec).encode (cards.map videoOfRow)) := returned_getVideos _ _
  rw [hdata, hvideos]
  refine ⟨rfl, ⟨ordered, hordered, ?_⟩, ?_⟩
  · have hdrawn : ∀ ps : List VideoTrendPoint,
        chartData dates ((ps.map trendPointOf).map trendPointRecord.codec.encode) =
          some (ps.map drawn) := by
      intro ps
      rw [chartData, List.map_map, List.mapM_map, Function.comp_def, Function.comp_def,
        funext (chartDataPoint_encode hobject)]
      exact List.mapM_pure
    change chartData dates (items data) = _
    rw [hitems, hdrawn, List.map_map]
    rfl
  · change (items ((slice videoRecord.codec).encode (cards.map videoOfRow))).find? _ = _
    rw [items_encode, List.map_map, List.find?_map]
    congr 2
    funext card
    exact isVideo_encode hid card

/-- The card of another video, and that of the one that the page is about. -/
def twoCards : List Video := [Store.GetVideos.snapshot "b" 30, younger]

/-- An engine that reads no text as a date. -/
def noDates : Dates := { parse := fun _ => none, toText := fun _ => "[object Object]" }

/-- Two points are drawn; neither has a date nor the likes, of which there are none. -/
theorem page_of_table_twoSnapshots :
    ∃ page, page = load browser "a" true
        (trendCall "a" (some (Store.Trends.getVideoTrend twoSnapshots "a")))
        (videosCall twoCards) ∧
      page.error = none ∧ page.video = some (videoRecord.codec.encode (videoOfRow younger)) ∧
      ∃ entries, chartData noDates page.trend = some entries ∧ entries.length = 2 ∧
        ∀ e ∈ entries, e.time = none ∧ e.likes = none ∧ e.views ≠ none := by
  have hid : "a" ≠ "" := by decide
  have hpoints : TrendAnswers Store.GetVideos.codePoints twoSnapshots "a"
      (some (Store.Trends.getVideoTrend twoSnapshots "a")) := trendAnswers_getVideoTrend
  have hobject : ∀ ms, noDates.parse (noDates.toText (.obj ms)) = none := fun _ => rfl
  obtain ⟨herror, ⟨ordered, hordered, hdrawn⟩, hvideo⟩ :=
    page_of_table hobject browser hid hpoints twoCards true
  have hfound : twoCards.find? (·.videoId = "a") = some younger := by decide
  rw [hfound, Option.map_some] at hvideo
  refine ⟨_, rfl, herror, hvideo, _, hdrawn, ?_, ?_⟩
  · rw [List.length_map, hordered.perm.length_eq]
    decide
  · intro e he
    obtain ⟨v, hv, rfl⟩ := List.mem_map.mp he
    have hcounts : ∀ v ∈ twoSnapshots.rows, v.likeCount = 0 ∧ v.viewCount ≠ 0 := by decide
    obtain ⟨hlikes, hviews⟩ := hcounts v (List.mem_filter.mp (hordered.perm.mem_iff.mp hv)).1
    refine ⟨rfl, ?_, ?_⟩
    · change written v.likeCount = none
      rw [written, if_pos hlikes]
    · change written v.viewCount ≠ none
      rw [written, if_neg hviews]
      exact Option.some_ne_none _

end TrendingPipeline.Frontend.VideoTrend

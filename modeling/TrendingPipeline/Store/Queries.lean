/- Unit: TrendingPipeline/Store/Queries
   source: backend/db/db.go
   digest: The queries of the analytics side over the rows of the videos table. -/

import Mathlib.Data.List.Sort
import TrendingPipeline.Store.Tables

set_option autoImplicit false
set_option relaxedAutoImplicit false

namespace TrendingPipeline.Store.Queries

open TrendingPipeline.Base.Calendar (Time)
open TrendingPipeline.Store.Tables (VideosTable)
open TrendingPipeline.Youtube.FetchTrending (Video)

/-- `GetVideos(region, categoryId, fetchedAfter, fetchedBefore, limit, offset)` on a
table that does not change; `none` is an error. -/
abbrev VideosQuery := String → Int32 → Time → Time → Int32 → Int32 → Option (List Video)

structure ChannelStat where
  channelId : String
  channelTitle : String
  appearCount : Int64
  totalViews : Int64
  deriving DecidableEq

/-- `GetTopChannels(region, limit, sortBy)` likewise. -/
abbrev TopChannelsQuery := String → Int32 → String → Option (List ChannelStat)

def micros (t : Time) : Int := t.sec.toInt * 1000000 + t.nsec / 1000

/-- The instant read back from a TIMESTAMPTZ column. -/
def timestamptz (t : Time) : Time where
  sec := t.sec
  nsec := t.nsec / 1000 * 1000
  nsec_lt := Nat.lt_of_le_of_lt (Nat.div_mul_le_self t.nsec 1000) t.nsec_lt

/-- The conditions of the WHERE clause. An empty region, a zero category and a
zero bound add none. -/
def selected (region : String) (categoryId : Int32) (fetchedAfter fetchedBefore : Time)
    (v : Video) : Bool :=
  (region = "" || v.region = region) &&
  (categoryId = 0 || v.categoryId.toInt = categoryId.toInt) &&
  (fetchedAfter.isZero || micros fetchedAfter < micros v.fetchedAt) &&
  (fetchedBefore.isZero || micros v.fetchedAt < micros fetchedBefore)

/-- DISTINCT ON a column: the first row of each value. -/
def distinctOn {α β : Type} [DecidableEq β] (column : α → β) : List α → List α
  | [] => []
  | x :: xs => x :: (distinctOn column xs).filter (fun y => column y ≠ column x)

/-- `LIMIT limit OFFSET offset`; negative numbers are errors. -/
def page {α : Type} (limit offset : Int32) (rows : List α) : Option (List α) :=
  if limit < 0 ∨ offset < 0 then none
  else some ((rows.drop offset.toInt.toNat).take limit.toInt.toNat)

/-- `DB.GetVideos`: the latest selected row of each video, most viewed first. SQL
leaves the order of equal rows open; here it is that of the table. -/
def getVideos (videos : VideosTable) : VideosQuery :=
  fun region categoryId fetchedAfter fetchedBefore limit offset =>
    let rows := videos.rows.filter (selected region categoryId fetchedAfter fetchedBefore)
    let byTime := rows.insertionSort fun v w => micros w.fetchedAt ≤ micros v.fetchedAt
    let latest := distinctOn (·.videoId) byTime
    let byViews := latest.insertionSort fun v w => w.viewCount ≤ v.viewCount
    (page limit offset byViews).map fun vs => vs.map fun v =>
      { v with fetchedAt := timestamptz v.fetchedAt, publishedAt := timestamptz v.publishedAt }

/-- A channel as GROUP BY makes it; the sum of a BIGINT column is a NUMERIC. -/
structure Group where
  channelId : String
  channelTitle : String
  appearCount : Nat
  totalViews : Int

/-- The rows grouped by `channel_id, channel_title`. -/
def channelGroups (rows : List Video) : List Group :=
  (distinctOn (fun v => (v.channelId, v.channelTitle)) rows).map fun v =>
    let members :=
      rows.filter fun w => (w.channelId, w.channelTitle) = (v.channelId, v.channelTitle)
    { channelId := v.channelId
      channelTitle := v.channelTitle
      appearCount := members.length
      totalViews := (members.map (·.viewCount.toInt)).sum }

/-- Scan into a ChannelStat fails on a sum out of range. -/
def Group.scan (g : Group) : Option ChannelStat :=
  if -2 ^ 63 ≤ g.totalViews ∧ g.totalViews < 2 ^ 63 then
    some
      { channelId := g.channelId
        channelTitle := g.channelTitle
        appearCount := Int64.ofNat g.appearCount
        totalViews := Int64.ofInt g.totalViews }
  else none

/-- `DB.GetTopChannels`; any other order than "total_views" is "appear_count". -/
def getTopChannels (videos : VideosTable) : TopChannelsQuery :=
  fun region limit sortBy =>
    let rows := videos.rows.filter fun v => region = "" || v.region = region
    let orderCol (g : Group) : Int := if sortBy = "total_views" then g.totalViews else g.appearCount
    let ordered := (channelGroups rows).insertionSort fun g h => orderCol h ≤ orderCol g
    (page limit 0 ordered).bind fun groups => groups.mapM Group.scan

/-- `SELECT COUNT(*) FROM videos`. -/
def getVideoCount (videos : VideosTable) : Int64 := Int64.ofNat videos.rows.length

end TrendingPipeline.Store.Queries

/- Unit: TrendingPipeline/Analytics/Server
   source: backend/analytics/server.go
   digest: GetVideos and GetTopChannels: their cache keys and their use of Redis. -/

import TrendingPipeline.Analytics.Responses
import TrendingPipeline.Base.LookAside

set_option autoImplicit false
set_option relaxedAutoImplicit false

namespace TrendingPipeline.Analytics.Server

open TrendingPipeline.Analytics.Responses
open TrendingPipeline.Base.Calendar
open TrendingPipeline.Base.Decimal (decimal decimal_injective joinFields joinFields_flatten
  joinFields_injective not_mem_decimal padded prefix_joinFields)
open TrendingPipeline.Base.LookAside
open TrendingPipeline.Proto.Messages
open TrendingPipeline.Store.Queries (TopChannelsQuery VideosQuery)

/-- The lower bound handed to the database; an absent one is the zero Time. -/
def fetchedAfter (req : GetVideosRequest) : Time :=
  (req.fetchedAfter.map Timestamp.asTime).getD Time.zero

def fetchedBefore (req : GetVideosRequest) : Time :=
  (req.fetchedBefore.map Timestamp.asTime).getD Time.zero

def videosPrefix : List Char := "videos:".toList

/-- The format "videos:%s:%d:%d:%d:%s:%s". -/
def videosKey (req : GetVideosRequest) : String :=
  String.ofList (joinFields ':' (videosPrefix ++ req.region.toList)
    [decimal req.categoryId.toInt, decimal req.limit.toInt, decimal req.offset.toInt,
      formatRFC3339 (fetchedAfter req), formatRFC3339 (fetchedBefore req)])

def videosFromDb (query : VideosQuery) (req : GetVideosRequest) : Option GetVideosResponse :=
  (query req.region req.categoryId (fetchedAfter req) (fetchedBefore req) req.limit
    req.offset).map fun videos => { videos := videos.map videoOfRow }

/-- `GetVideos`: the entry under the key if it can be decoded, else the answer of
the database, which is then stored. -/
def getVideos (query : VideosQuery) (req : GetVideosRequest) :
    Request String String GetVideosResponse where
  key := videosKey req
  read := getVideosResponse.codec.unmarshal
  miss := (videosFromDb query req).map fun resp => (getVideosResponse.codec.marshal resp, resp)
  read_miss p hp := by
    obtain ⟨resp, _, rfl⟩ := Option.map_eq_some_iff.mp hp
    exact unmarshal_getVideosResponse resp

@[simp] theorem direct_getVideos (query : VideosQuery) (req : GetVideosRequest) :
    (getVideos query req).direct = videosFromDb query req := by
  simp [getVideos, Request.direct, Option.map_map, Function.comp_def]

def sortBy : SortBy → String
  | .appearCount => "appear_count"
  | .viewCount => "total_views"
  | _ => "appear_count"

def topChannelsPrefix : List Char := "top_channels:".toList

/-- The colon-free fields of a key after the region. -/
def topChannelsFields (req : GetTopChannelsRequest) : List (List Char) :=
  [decimal req.limit.toInt, (sortBy req.sortBy).toList]

/-- The format "top_channels:%s:%d:%s". -/
def topChannelsKey (req : GetTopChannelsRequest) : String :=
  String.ofList (joinFields ':' (topChannelsPrefix ++ req.region.toList) (topChannelsFields req))

/-- What GetTopChannels answers without a cache. -/
def topChannelsFromDb (query : TopChannelsQuery) (req : GetTopChannelsRequest) :
    Option GetTopChannelsResponse :=
  (query req.region req.limit (sortBy req.sortBy)).map fun channels =>
    { channels := channels.map channelOfRow }

def getTopChannels (query : TopChannelsQuery) (req : GetTopChannelsRequest) :
    Request String String GetTopChannelsResponse where
  key := topChannelsKey req
  read := getTopChannelsResponse.codec.unmarshal
  miss := (topChannelsFromDb query req).map fun resp =>
    (getTopChannelsResponse.codec.marshal resp, resp)
  read_miss p hp := by
    obtain ⟨resp, _, rfl⟩ := Option.map_eq_some_iff.mp hp
    exact unmarshal_getTopChannelsResponse resp

@[simp] theorem direct_getTopChannels (query : TopChannelsQuery) (req : GetTopChannelsRequest) :
    (getTopChannels query req).direct = topChannelsFromDb query req := by
  simp [getTopChannels, Request.direct, Option.map_map, Function.comp_def]

/-- `GetVideosCount`, given the answer of the database. -/
def getVideosCount (count : Option Int64) : Option GetVideosCountResponse :=
  count.map fun count => { count := count }

/-- Two requests that differ at most in the fractions of a second of their bounds. -/
structure SameSeconds (f g : GetVideosRequest) : Prop where
  region : f.region = g.region
  categoryId : f.categoryId = g.categoryId
  limit : f.limit = g.limit
  offset : f.offset = g.offset
  fetchedAfter : (fetchedAfter f).sec = (fetchedAfter g).sec
  fetchedBefore : (fetchedBefore f).sec = (fetchedBefore g).sec

/-- The same, with the times cut at their colons. -/
def videosFields (req : GetVideosRequest) : List (List Char) :=
  [decimal req.categoryId.toInt, decimal req.limit.toInt, decimal req.offset.toInt,
    dateHour (fetchedAfter req), padded 2 (fetchedAfter req).minute,
    secondZone (fetchedAfter req), dateHour (fetchedBefore req),
    padded 2 (fetchedBefore req).minute, secondZone (fetchedBefore req)]

private theorem videosKey_eq (req : GetVideosRequest) :
    videosKey req =
      String.ofList (joinFields ':' (videosPrefix ++ req.region.toList) (videosFields req)) := by
  let numbers := [decimal req.categoryId.toInt, decimal req.limit.toInt, decimal req.offset.toInt]
  let after := fetchedAfter req
  let before := fetchedBefore req
  have hafter := joinFields_flatten ':' (videosPrefix ++ req.region.toList)
    (dateHour after) numbers [padded 2 after.minute, secondZone after] [formatRFC3339 before]
  have hbefore := joinFields_flatten ':' (videosPrefix ++ req.region.toList)
    (dateHour before) (numbers ++ [dateHour after, padded 2 after.minute, secondZone after])
    [padded 2 before.minute, secondZone before] []
  exact congrArg String.ofList (hafter.trans hbefore)

private theorem colon_not_mem_decimal (n : Int) : ':' ∉ decimal n :=
  not_mem_decimal (by decide) (by decide)

private theorem colon_not_mem_videosFields (req : GetVideosRequest) :
    ∀ f ∈ videosFields req, ':' ∉ f := by
  have hpad : ∀ n, ':' ∉ padded 2 n := fun n => not_mem_padded (by decide)
  simp [videosFields, colon_not_mem_decimal, colon_not_mem_dateHour, colon_not_mem_secondZone,
    hpad]

/-- The key tells two requests apart unless they differ in fractions of a second
only, although a region may hold colons and digits. -/
theorem videosKey_eq_iff {f g : GetVideosRequest} :
    videosKey f = videosKey g ↔ SameSeconds f g := by
  constructor
  · intro h
    rw [videosKey_eq, videosKey_eq, String.ofList_inj] at h
    have hlen : (videosFields f).length = (videosFields g).length := by
      simp only [videosFields, List.length_cons]
    obtain ⟨hregion, hfields⟩ := joinFields_injective hlen (colon_not_mem_videosFields f)
      (colon_not_mem_videosFields g) h
    simp only [videosFields, List.cons.injEq, and_true] at hfields
    obtain ⟨hcategory, hlimit, hoffset, hafter, hafterMin, hafterSec, hbefore, hbeforeMin,
      hbeforeSec⟩ := hfields
    exact
      { region := String.toList_inj.mp (List.append_cancel_left hregion)
        categoryId := Int32.toInt_inj.mp (decimal_injective hcategory)
        limit := Int32.toInt_inj.mp (decimal_injective hlimit)
        offset := Int32.toInt_inj.mp (decimal_injective hoffset)
        fetchedAfter := sec_of_fields hafter hafterMin hafterSec
        fetchedBefore := sec_of_fields hbefore hbeforeMin hbeforeSec }
  · intro h
    rw [videosKey, videosKey, h.region, h.categoryId, h.limit, h.offset,
      formatRFC3339_of_sec h.fetchedAfter, formatRFC3339_of_sec h.fetchedBefore]

private theorem colon_not_mem_sortBy (sort : SortBy) : ':' ∉ (sortBy sort).toList := by
  cases sort with
  | unrecognized n =>
      change ':' ∉ "appear_count".toList
      decide
  | _ => decide

private theorem colon_not_mem_topChannelsFields (req : GetTopChannelsRequest) :
    ∀ f ∈ topChannelsFields req, ':' ∉ f := by
  simp [topChannelsFields, colon_not_mem_decimal, colon_not_mem_sortBy]

theorem topChannelsKey_eq_iff {f g : GetTopChannelsRequest} :
    topChannelsKey f = topChannelsKey g ↔
      f.region = g.region ∧ f.limit = g.limit ∧ sortBy f.sortBy = sortBy g.sortBy := by
  constructor
  · intro h
    rw [topChannelsKey, topChannelsKey, String.ofList_inj] at h
    have hlen : (topChannelsFields f).length = (topChannelsFields g).length := by
      simp only [topChannelsFields, List.length_cons]
    obtain ⟨hregion, hfields⟩ := joinFields_injective hlen (colon_not_mem_topChannelsFields f)
      (colon_not_mem_topChannelsFields g) h
    simp only [topChannelsFields, List.cons.injEq, and_true] at hfields
    exact ⟨String.toList_inj.mp (List.append_cancel_left hregion),
      Int32.toInt_inj.mp (decimal_injective hfields.1), String.toList_inj.mp hfields.2⟩
  · rintro ⟨hregion, hlimit, hsort⟩
    rw [topChannelsKey, topChannelsKey, topChannelsFields, topChannelsFields, hregion, hlimit,
      hsort]

private theorem prefix_videosKey (req : GetVideosRequest) : videosPrefix <+:
    (videosKey req).toList := by
  rw [videosKey, String.toList_ofList]
  exact (List.prefix_append videosPrefix req.region.toList).trans (prefix_joinFields _ _)

private theorem prefix_topChannelsKey (req : GetTopChannelsRequest) :
    topChannelsPrefix <+: (topChannelsKey req).toList := by
  rw [topChannelsKey, String.toList_ofList]
  exact (List.prefix_append topChannelsPrefix req.region.toList).trans (prefix_joinFields _ _)

theorem videosKey_ne_topChannelsKey (f : GetVideosRequest) (g : GetTopChannelsRequest) :
    videosKey f ≠ topChannelsKey g := by
  intro h
  have htop := prefix_topChannelsKey g
  rw [← h] at htop
  have hnot : ¬ videosPrefix <+: topChannelsPrefix ∧ ¬ topChannelsPrefix <+: videosPrefix := by
    decide
  exact (List.prefix_or_prefix_of_prefix (prefix_videosKey f) htop).elim hnot.1 hnot.2

end TrendingPipeline.Analytics.Server

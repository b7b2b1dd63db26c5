/- Unit: TrendingPipeline/Analytics/VideosCache
   source: backend/analytics/server.go, backend/db/db.go
   digest: When the cache of GetVideos answers as the database does. -/

import TrendingPipeline.Analytics.Server

set_option autoImplicit false
set_option relaxedAutoImplicit false

namespace TrendingPipeline.Analytics.VideosCache

open TrendingPipeline.Analytics.Responses
open TrendingPipeline.Analytics.Server
open TrendingPipeline.Base.Calendar (Time)
open TrendingPipeline.Base.LookAside
open TrendingPipeline.Proto.Messages
open TrendingPipeline.Store.Queries (VideosQuery)
open TrendingPipeline.Store.Tables (VideosTable)

/-- Whatever the interleaving and whatever Redis loses, every response lists the rows that
the database query gives for that very request. -/
def AnswersAsDb (query : VideosQuery) (reqs : List GetVideosRequest) : Prop :=
  ∀ s, Served (reqs.map fun req => (getVideos query req).client) s →
    ∀ (i : Nat) (reply : Option GetVideosResponse) (req : GetVideosRequest),
      s.clients[i]? = some (.reply reply) → reqs[i]? = some req →
        reply = (query req.region req.categoryId (fetchedAfter req) (fetchedBefore req) req.limit
          req.offset).map fun rows => { videos := rows.map videoOfRow }

variable {query : VideosQuery} {reqs : List GetVideosRequest}

private theorem answersAsDb_iff_transparent :
    AnswersAsDb query reqs ↔ Transparent (reqs.map (getVideos query)) := by
  simp only [AnswersAsDb, Transparent, List.map_map, List.getElem?_map, Option.map_eq_some_iff,
    Function.comp_def]
  constructor
  · rintro h s hs i reply _ hreply ⟨req, hreq, rfl⟩
    rw [direct_getVideos]
    exact h s hs i reply req hreply hreq
  · intro h s hs i reply req hreply hreq
    rw [h s hs i reply _ hreply ⟨req, hreq, rfl⟩, direct_getVideos, videosFromDb]

private theorem videosFromDb_congr {f g : GetVideosRequest} (h : SameSeconds f g)
    (hafter : fetchedAfter f = fetchedAfter g) (hbefore : fetchedBefore f = fetchedBefore g) :
    videosFromDb query f = videosFromDb query g := by
  rw [videosFromDb, videosFromDb, h.region, h.categoryId, h.limit, h.offset, hafter, hbefore]

private theorem agree_of_bounds {f g : GetVideosRequest}
    (h : SameSeconds f g → fetchedAfter f = fetchedAfter g ∧ fetchedBefore f = fetchedBefore g) :
    (getVideos query f).Agree (getVideos query g) := by
  intro hkey p hmiss res hread
  have hsame := videosKey_eq_iff.mp hkey
  obtain ⟨hafter, hbefore⟩ := h hsame
  have hres : some res = some p.2 := hread.symm.trans ((getVideos query f).read_miss p hmiss)
  have hdirect : (getVideos query f).direct = some p.2 := by rw [Request.direct, hmiss]; rfl
  rw [direct_getVideos] at hdirect ⊢
  rw [hres, ← hdirect, videosFromDb_congr hsame hafter hbefore]

/-- If the cache is transparent for the request list, two requests with one key have
one answer. -/
private theorem videosFromDb_eq_of_answersAsDb (h : AnswersAsDb query reqs) {f g : GetVideosRequest}
    (hf : f ∈ reqs) (hg : g ∈ reqs) (hkey : SameSeconds f g) {resp : GetVideosResponse}
    (hresp : videosFromDb query f = some resp) : videosFromDb query g = some resp := by
  have hagree := agree_of_transparent (answersAsDb_iff_transparent.mp h)
    (List.mem_map_of_mem hf) (List.mem_map_of_mem hg)
  have hmiss : (getVideos query f).miss =
      some (getVideosResponse.codec.marshal resp, resp) := by
    simp [getVideos, hresp]
  rw [← direct_getVideos]
  exact hagree (videosKey_eq_iff.mpr hkey) _ hmiss resp (unmarshal_getVideosResponse resp)

def sampleVideo : Youtube.FetchTrending.Video where
  videoId := "video-1"
  jobId := "job-1"
  region := "US"
  fetchedAt := Time.unix 1700000000 250000000
  title := "first"
  channelId := "channel-1"
  channelTitle := "channel"
  publishedAt := Time.zero
  categoryId := 10
  viewCount := 100
  likeCount := 0
  commentCount := 0

/-- A query that finds a row within the bounds of one request only. -/
def rowWithin (f : GetVideosRequest) : VideosQuery :=
  fun _ _ after before _ _ =>
    if after = fetchedAfter f ∧ before = fetchedBefore f then some [sampleVideo] else some []

/-- Every response is the database's answer, for every query, exactly when no two of
the requests differ in nothing but the fraction of a second of a time bound. -/
theorem answersAsDb_iff (reqs : List GetVideosRequest) :
    (∀ query, AnswersAsDb query reqs) ↔
      ∀ f ∈ reqs, ∀ g ∈ reqs, SameSeconds f g →
        fetchedAfter f = fetchedAfter g ∧ fetchedBefore f = fetchedBefore g := by
  constructor
  · intro h f hf g hg hsame
    have hresp : videosFromDb (rowWithin f) f = some { videos := [videoOfRow sampleVideo] } := by
      simp [videosFromDb, rowWithin]
    have heq := videosFromDb_eq_of_answersAsDb (h (rowWithin f)) hf hg hsame hresp
    by_contra hne
    have hother : ¬ (fetchedAfter g = fetchedAfter f ∧ fetchedBefore g = fetchedBefore f) :=
      fun hbounds => hne ⟨hbounds.1.symm, hbounds.2.symm⟩
    simp [videosFromDb, rowWithin, hother] at heq
  · intro h query
    refine answersAsDb_iff_transparent.mpr (transparent_of_agree ?_)
    simp only [List.mem_map]
    rintro _ ⟨f, hf, rfl⟩ _ ⟨g, hg, rfl⟩
    exact agree_of_bounds (h f hf g hg)

def sampleTable : VideosTable where
  rows := [sampleVideo]
  key_nodup := List.nodup_singleton _
  category_range := List.forall_mem_singleton.mpr rfl

/-- Lower bounds a quarter of a second before and after the row. -/
def boundsAround : List GetVideosRequest := [
  { region := "US", fetchedAfter := some { seconds := 1700000000 }, limit := 20 },
  { region := "US", fetchedAfter := some { seconds := 1700000000, nanos := 500000000 },
    limit := 20 }]

/-- The second request is served the video that its own bound excludes. -/
theorem boundsAround_mixed : ¬ AnswersAsDb (Store.Queries.getVideos sampleTable) boundsAround := by
  intro h
  have hsame : SameSeconds (boundsAround.get ⟨0, by decide⟩) (boundsAround.get ⟨1, by decide⟩) :=
    ⟨rfl, rfl, rfl, rfl, by decide, by decide⟩
  have hfound : videosFromDb (Store.Queries.getVideos sampleTable)
      (boundsAround.get ⟨0, by decide⟩) =
        some { videos := [videoOfRow sampleVideo] } := by decide
  have hempty : videosFromDb (Store.Queries.getVideos sampleTable)
      (boundsAround.get ⟨1, by decide⟩) = some { videos := [] } := by decide
  have heq := videosFromDb_eq_of_answersAsDb h (List.get_mem _ _) (List.get_mem _ _) hsame hfound
  rw [hempty] at heq
  cases heq

end TrendingPipeline.Analytics.VideosCache

/- Unit: TrendingPipeline/Analytics/TopChannelsCache
   source: backend/analytics/server.go
   digest: GetTopChannels answers as the database does, also beside GetVideos. -/

import TrendingPipeline.Analytics.Server

set_option autoImplicit false
set_option relaxedAutoImplicit false

namespace TrendingPipeline.Analytics.TopChannelsCache

open TrendingPipeline.Analytics.Responses
open TrendingPipeline.Analytics.Server
open TrendingPipeline.Base.LookAside
open TrendingPipeline.Proto.Messages
open TrendingPipeline.Store.Queries (TopChannelsQuery VideosQuery)

inductive Call
  | getVideos (req : GetVideosRequest)
  | getTopChannels (req : GetTopChannelsRequest)

inductive Response
  | videos (resp : GetVideosResponse)
  | topChannels (resp : GetTopChannelsResponse)

variable (videos : VideosQuery) (channels : TopChannelsQuery)

def serve : Call → Request String String Response
  | .getVideos req => (getVideos videos req).map .videos
  | .getTopChannels req => (getTopChannels channels req).map .topChannels

variable {videos : VideosQuery} {channels : TopChannelsQuery}

private theorem serve_agree (call : Call) (req : GetTopChannelsRequest) :
    (serve videos channels call).Agree (serve videos channels (.getTopChannels req)) := by
  intro hkey p hmiss res hread
  cases call with
  | getVideos other => exact absurd hkey (videosKey_ne_topChannelsKey other req)
  | getTopChannels other =>
      obtain ⟨hregion, hlimit, hsort⟩ := topChannelsKey_eq_iff.mp hkey
      have hself := (serve videos channels (.getTopChannels other)).agree_self rfl p hmiss res hread
      have hsame : topChannelsFromDb channels other = topChannelsFromDb channels req := by
        rw [topChannelsFromDb, topChannelsFromDb, hregion, hlimit, hsort]
      simpa [serve, hsame] using hself

/-- Every reply to GetTopChannels lists the rows that the database query gives for the
request, column by column, in every interleaving of both operations and whatever Redis
loses. The keys tell apart what the query depends on, the two operations share none, and
stored responses are read back. -/
theorem getTopChannels_answersAsDb :
    (∀ (videos : VideosQuery) (channels : TopChannelsQuery) (calls : List Call) s,
      Served (calls.map fun call => (serve videos channels call).client) s →
        ∀ (i : Nat) (reply : Option Response) (req : GetTopChannelsRequest),
          s.clients[i]? = some (.reply reply) → calls[i]? = some (.getTopChannels req) →
            reply = (channels req.region req.limit (sortBy req.sortBy)).map fun stats =>
              .topChannels
                { channels := stats.map fun c =>
                    { channelId := c.channelId
                      channelTitle := c.channelTitle
                      appearCount := c.appearCount
                      viewCount := c.totalViews } }) ∧
      (∀ f g : GetTopChannelsRequest, topChannelsKey f = topChannelsKey g ↔
        f.region = g.region ∧ f.limit = g.limit ∧ sortBy f.sortBy = sortBy g.sortBy) ∧
      (∀ (f : GetVideosRequest) (g : GetTopChannelsRequest), videosKey f ≠ topChannelsKey g) ∧
      ∀ resp : GetTopChannelsResponse,
        getTopChannelsResponse.codec.unmarshal (getTopChannelsResponse.codec.marshal resp) =
          some resp := by
  refine ⟨?_, fun _ _ => topChannelsKey_eq_iff, videosKey_ne_topChannelsKey,
    unmarshal_getTopChannelsResponse⟩
  intro videos channels calls s hs i reply req hreply hcall
  have hrequests : (calls.map fun call => (serve videos channels call).client) =
      (calls.map (serve videos channels)).map Request.client := by
    rw [List.map_map]
    rfl
  rw [hrequests] at hs
  have hreq : (calls.map (serve videos channels))[i]? =
      some (serve videos channels (.getTopChannels req)) := by
    rw [List.getElem?_map, hcall, Option.map_some]
  have hdirect := reply_eq_direct hs hreply hreq fun r hr => by
    obtain ⟨call, _, rfl⟩ := List.mem_map.mp hr
    exact serve_agree call req
  rw [hdirect, serve, Request.direct_map, direct_getTopChannels, topChannelsFromDb, Option.map_map]
  rfl

end TrendingPipeline.Analytics.TopChannelsCache

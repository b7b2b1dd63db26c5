/- Unit: TrendingPipeline/Analytics/Staleness
   source: backend/analytics/server.go, backend/api/server.go
   digest: How old the data of the gateway's two cached endpoints may be. -/

import TrendingPipeline.Analytics.TopChannelsCache
import TrendingPipeline.Api.Numbers
import TrendingPipeline.Base.TimedCache
import TrendingPipeline.Store.TopChannels

set_option autoImplicit false
set_option relaxedAutoImplicit false

namespace TrendingPipeline.Analytics.Staleness

open TrendingPipeline.Analytics.Responses
open TrendingPipeline.Analytics.Server
open TrendingPipeline.Analytics.TopChannelsCache (Response)
open TrendingPipeline.Api.Numbers (topChannelsRequest videosRequest)
open TrendingPipeline.Api.Server (Params)
open TrendingPipeline.Base.Runs
open TrendingPipeline.Base.TimedCache
open TrendingPipeline.Proto.Messages
open TrendingPipeline.Store (GetVideos.Answers TopChannels.Answers)
open TrendingPipeline.Store.GetVideos (codePoints)
open TrendingPipeline.Store.Queries (getTopChannels)
open TrendingPipeline.Store.Select (Collation)
open TrendingPipeline.Store.Tables (VideosTable)
open TrendingPipeline.Store.TopChannels (answers_getTopChannels twoChannels)

inductive Get
  | videos (params : Params)
  | topChannels (params : Params)

/-- What the query of a handler may give on a table, an error for any reason included. -/
inductive Answers (coll : Collation) (videos : VideosTable) : Get → Option Response → Prop
  | failed (get : Get) : Answers coll videos get none
  | videos (params : Params) (rows : List Youtube.FetchTrending.Video) :
      GetVideos.Answers coll videos (videosRequest params).region
          (videosRequest params).categoryId (fetchedAfter (videosRequest params))
          (fetchedBefore (videosRequest params)) (videosRequest params).limit
          (videosRequest params).offset (some rows) →
        Answers coll videos (.videos params) (some (.videos { videos := rows.map videoOfRow }))
  | topChannels (params : Params) (stats : List Store.Queries.ChannelStat) :
      TopChannels.Answers coll videos (topChannelsRequest params).region
          (topChannelsRequest params).limit (sortBy (topChannelsRequest params).sortBy)
          (some stats) →
        Answers coll videos (.topChannels params)
          (some (.topChannels { channels := stats.map channelOfRow }))

/-- The use both handlers make of Redis; `time.Hour` is in seconds here. -/
def scheme : Scheme String String Get Response where
  key
    | .videos params => videosKey (videosRequest params)
    | .topChannels params => topChannelsKey (topChannelsRequest params)
  write _
    | .videos resp => getVideosResponse.codec.marshal resp
    | .topChannels resp => getTopChannelsResponse.codec.marshal resp
  read
    | .videos _, text => (getVideosResponse.codec.unmarshal text).map .videos
    | .topChannels _, text => (getTopChannelsResponse.codec.unmarshal text).map .topChannels
  ttl := 3600

private theorem read_videos (params : Params) (get : Get) (resp : GetVideosResponse) :
    scheme.read (.videos params) (scheme.write get (.videos resp)) = some (.videos resp) := by
  change (getVideosResponse.codec.unmarshal (getVideosResponse.codec.marshal resp)).map _ = _
  rw [unmarshal_getVideosResponse]
  rfl

private theorem read_topChannels (params : Params) (get : Get) (resp : GetTopChannelsResponse) :
    scheme.read (.topChannels params) (scheme.write get (.topChannels resp)) =
      some (.topChannels resp) := by
  change
    (getTopChannelsResponse.codec.unmarshal (getTopChannelsResponse.codec.marshal resp)).map _ = _
  rw [unmarshal_getTopChannelsResponse]
  rfl

variable {coll : Collation} {tables : Nat → VideosTable}

/-- Two requests for videos with one key are the same but for what the query ignores. -/
private theorem videosRequest_eq_of_key {params params' : Params}
    (h : videosKey (videosRequest params) = videosKey (videosRequest params')) :
    videosRequest params = videosRequest params' := by
  have hsame := videosKey_eq_iff.mp h
  have hparts : ∀ f g : GetVideosRequest, f.region = g.region → f.categoryId = g.categoryId →
      f.limit = g.limit → f.offset = g.offset → f.fetchedAfter = g.fetchedAfter →
      f.fetchedBefore = g.fetchedBefore → f = g := by
    rintro ⟨⟩ ⟨⟩ rfl rfl rfl rfl rfl rfl
    rfl
  exact hparts _ _ hsame.region hsame.categoryId hsame.limit hsame.offset rfl rfl

private theorem agreeing (coll : Collation) (tables : Nat → VideosTable) :
    Agreeing scheme fun time => Answers coll (tables time) := by
  intro time get get' res res' hkey hanswer hread
  cases hanswer with
  | videos params rows hrows =>
      cases get' with
      | topChannels params' => exact absurd hkey (videosKey_ne_topChannelsKey _ _)
      | videos params' =>
          rw [read_videos] at hread
          rw [← hread]
          rw [videosRequest_eq_of_key hkey] at hrows
          exact .videos params' rows hrows
  | topChannels params stats hstats =>
      cases get' with
      | videos params' => exact absurd hkey.symm (videosKey_ne_topChannelsKey _ _)
      | topChannels params' =>
          rw [read_topChannels] at hread
          rw [← hread]
          obtain ⟨hregion, hlimit, hsort⟩ := topChannelsKey_eq_iff.mp hkey
          rw [hregion, hlimit, hsort] at hstats
          exact .topChannels params' stats hstats

/-- While the videos table changes in any way: every reply to GET /videos or GET
/analytics/top-channels is one that the query of that very request could give at some
moment, at most an hour before plus the time that a handler may take between its query and
its SET, in any interleaving and whatever Redis fails to do or loses. On a table that does
not change it is a reply of the query. -/
theorem reply_within_hour {delay : Nat} {s : State String String Get Response}
    (h : Reachable (· = start) (step scheme)
      (Lawful (fun time => Answers coll (tables time)) delay) s) {get : Get}
    {out : Option Response} {time : Nat} (hreply : (get, .replied out time) ∈ s.calls) :
    ∃ asked, asked ≤ time ∧ time ≤ asked + (delay + 3600) ∧ Answers coll (tables asked) get out :=
  reply_within (agreeing coll tables) h hreply

/-- Three videos at first, and none a second later. -/
def shrinking (time : Nat) : VideosTable := if time = 0 then twoChannels else .empty

def allChannels : Get := .topChannels []

def listed : Response :=
  .topChannels
    { channels := ((getTopChannels twoChannels "" 10 "appear_count").getD []).map channelOfRow }

/-- After the first reply and a second, with the other request at its look-up. -/
def warm : State String String Get Response where
  now := 1
  entries :=
    Function.update (fun _ => none) (scheme.key allChannels)
      (some (scheme.write allChannels listed, 3600))
  calls := [(allChannels, .replied (some listed) 0), (allChannels, .lookup)]

def hit : State String String Get Response :=
  { warm with calls := warm.calls.set 1 (allChannels, .replied (some listed) 1) }

def warmUp : List (Act String Get Response) :=
  [.call allChannels, .lookup 0 false, .query 0 (some listed), .store 0 false, .tick,
    .call allChannels]

private theorem step_lookup_warm : step scheme warm (.lookup 1 false) = some hit := by
  have hentry : warm.entries (scheme.key allChannels) =
      some (scheme.write allChannels listed, 3600) := by
    simp only [warm, Function.update_self]
  have hfound : found warm (scheme.key allChannels) = some (scheme.write allChannels listed) := by
    rw [found, hentry]
    rfl
  have hread : scheme.read allChannels (scheme.write allChannels listed) = some listed :=
    read_topChannels _ _ _
  have hcall : warm.calls[1]? = some (allChannels, .lookup) := rfl
  simp only [step, hcall, Bool.false_eq_true, if_false, hfound, Option.bind_some, hread]
  rfl

private theorem answers_listed : Answers codePoints (shrinking 0) allChannels (some listed) := by
  have hanswer := answers_getTopChannels codePoints twoChannels "" (by decide : (0 : Int32) ≤ 10)
    "appear_count"
  have hsome : (getTopChannels twoChannels "" 10 "appear_count").isSome = true := by decide
  obtain ⟨stats, hstats⟩ := Option.isSome_iff_exists.mp hsome
  rw [hstats] at hanswer
  rw [listed, hstats]
  exact .topChannels [] stats hanswer

/-- The second request still gets the channels of the table that is empty by then. -/
theorem reply_within_hour_warm :
    ∃ asked, asked ≤ 1 ∧ 1 ≤ asked + 3600 ∧
      Answers codePoints (shrinking asked) allChannels (some listed) := by
  let lawful : State String String Get Response → Act String Get Response → Prop :=
    Lawful (fun time => Answers codePoints (shrinking time)) 0
  have hwarm : run (step scheme) start warmUp = some warm := rfl
  have hlaw : Meets (step scheme) lawful start warmUp := by
    refine ⟨trivial, trivial, ?_, ?_, trivial, trivial, trivial⟩
    · intro req hreq
      obtain rfl : allChannels = req := congrArg Prod.fst (Option.some.inj hreq)
      exact answers_listed
    · intro req res asked hcall
      exact Nat.zero_le _
  have hlookup : lawful warm (.lookup 1 false) := trivial
  have hbefore : Reachable (· = start) (step scheme) lawful warm := .of_run rfl hwarm hlaw
  have hreach := hbefore.next hlookup step_lookup_warm
  have hreply : (allChannels, Point.replied (some listed) 1) ∈ hit.calls :=
    List.mem_cons_of_mem _ List.mem_cons_self
  have hage := reply_within_hour hreach hreply
  rwa [Nat.zero_add] at hage

end TrendingPipeline.Analytics.Staleness

/- Unit: TrendingPipeline/Api/Server
   source: backend/api/server.go
   digest: The handlers of the gateway that ask the Analytics service. -/

import TrendingPipeline.Analytics.Responses
import TrendingPipeline.Base.Decimal

set_option autoImplicit false
set_option relaxedAutoImplicit false

namespace TrendingPipeline.Api.Server

open TrendingPipeline.Analytics.Responses
open TrendingPipeline.Base.Decimal (atoi)
open TrendingPipeline.Base.JsonCodec (Codec)
open TrendingPipeline.Base.JsonText (Json render)
open TrendingPipeline.Proto.Messages

structure Response where
  status : ℕ
  body : String
  deriving DecidableEq

/-- The parameters of a query string, in their order. -/
abbrev Params := List (String × String)

/-- `c.DefaultQuery`: the first value under the key, which may be empty. -/
def defaultQuery (params : Params) (key default : String) : String :=
  (params.lookup key).getD default

/-- `c.Query`. -/
def query (params : Params) (key : String) : String := defaultQuery params key ""

/-- `c.JSON(500, gin.H)` after a failed call, and else `c.JSON(200, …)`. -/
def reply {depth : ℕ} {α : Type} (codec : Codec depth α) (failure : String) :
    Option α → Response
  | none => { status := 500, body := String.ofList (render (.obj [("error", .str failure)])) }
  | some message => { status := 200, body := codec.marshal message }

/-- The parameter as an `int32`; the error of Atoi is not looked at. -/
def intParam (params : Params) (key default : String) : Int32 :=
  (atoi (defaultQuery params key default)).1.toInt32

def handleGetVideos (getVideos : GetVideosRequest → Option GetVideosResponse)
    (params : Params) : Response :=
  reply getVideosResponse.codec "failed to get videos" <| getVideos
    { region := query params "region"
      categoryId := intParam params "category_id" "0"
      limit := intParam params "limit" "50"
      offset := intParam params "offset" "0" }

def handleGetTopChannels (getTopChannels : GetTopChannelsRequest → Option GetTopChannelsResponse)
    (params : Params) : Response :=
  let sortBy := defaultQuery params "sort_by" "appear_count"
  let sortByEnum : SortBy :=
    if sortBy = "appear_count" then .appearCount
    else if sortBy = "total_views" then .viewCount
    else .appearCount
  reply getTopChannelsResponse.codec "failed to get top channels" <| getTopChannels
    { region := query params "region"
      limit := intParam params "limit" "10"
      sortBy := sortByEnum }

def handleGetVideoCount (getVideosCount : Option GetVideosCountResponse) : Response :=
  reply getVideosCountResponse.codec "failed to get video count" getVideosCount

def handleGetTrackedRegions (getTrackedRegions : Option GetTrackedRegionsResponse) : Response :=
  reply getTrackedRegionsResponse.codec "failed to get tracked regions" getTrackedRegions

def handleGetVideoTrend (getVideoTrend : GetVideoTrendRequest → Option GetVideoTrendResponse)
    (id : String) : Response :=
  reply getVideoTrendResponse.codec "failed to get video trend" (getVideoTrend { videoId := id })

end TrendingPipeline.Api.Server

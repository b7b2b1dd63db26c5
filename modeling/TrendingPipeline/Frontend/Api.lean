/- Unit: TrendingPipeline/Frontend/Api
   source: frontend/lib/api.ts
   digest: The client functions for the responses of the Analytics service. -/

import TrendingPipeline.Api.Server
import TrendingPipeline.Base.JsValue

set_option autoImplicit false
set_option relaxedAutoImplicit false

namespace TrendingPipeline.Frontend.Api

open TrendingPipeline.Api.Server (Response)
open TrendingPipeline.Base.Decimal (decimal)
open TrendingPipeline.Base.JsValue (property)
open TrendingPipeline.Base.JsonText (Json parse)

inductive Thrown
  | error (message : String)
  | syntaxError
  | typeError
  deriving DecidableEq

/-- A JavaScript value or exception; `none` is `undefined`. -/
abbrev Result := Except Thrown (Option Json)

/-- `res.ok`. -/
def ok (res : Response) : Bool := 200 ≤ res.status && res.status < 300

/-- `res.json()`. -/
def json (res : Response) : Except Thrown Json :=
  match parse res.body with
  | some data => .ok data
  | none => .error .syntaxError

/-- `data.name`. -/
def readProperty (name : String) (data : Json) : Result :=
  match property name data with
  | some v => .ok v
  | none => .error .typeError

/-- The data of a response with a status in range, and else an Error. -/
def receive (failure : String) (res : Response) : Except Thrown Json :=
  if ok res then json res else .error (.error failure)

/-- `fetch` of a path under BASE_URL with the pairs of a URLSearchParams. -/
abbrev Fetch := String → List (String × String) → Except Thrown Response

variable (fetch : Fetch)

def getTrackedRegions : Result := do
  let res ← fetch "/analytics/regions" []
  let data ← receive "Failed to fetch tracked regions" res
  return some data

def getVideoCount : Result := do
  let res ← fetch "/videos/count" []
  let data ← receive "Failed to fetch video count" res
  readProperty "count" data

structure VideosParams where
  region : Option String := none
  categoryId : Option ℤ := none
  limit : Option ℤ := none
  offset : Option ℤ := none

/-- `qs.set` of a number that is there. -/
def numberPair (name : String) (n : Option ℤ) : List (String × String) :=
  n.toList.map fun n => (name, String.ofList (decimal n))

/-- `qs.set` of a string that is there and not empty. -/
def stringPair (name : String) (s : Option String) : List (String × String) :=
  (s.toList.filter (· ≠ "")).map fun s => (name, s)

def getVideos (params : VideosParams) : Result := do
  let res ← fetch "/videos" <|
    stringPair "region" params.region ++ numberPair "category_id" params.categoryId ++
      numberPair "limit" params.limit ++ numberPair "offset" params.offset
  let data ← receive "Failed to fetch videos" res
  readProperty "videos" data

inductive SortBy
  | appearCount
  | totalViews

def SortBy.text : SortBy → String
  | .appearCount => "appear_count"
  | .totalViews => "total_views"

structure TopChannelsParams where
  region : Option String := none
  limit : Option ℤ := none
  sortBy : Option SortBy := none

def getTopChannels (params : TopChannelsParams) : Result := do
  let res ← fetch "/analytics/top-channels" <|
    stringPair "region" params.region ++ numberPair "limit" params.limit ++
      stringPair "sort_by" (params.sortBy.map SortBy.text)
  let data ← receive "Failed to fetch top channels" res
  readProperty "channels" data

def getVideoTrend (id : String) : Result := do
  let res ← fetch ("/analytics/videos/" ++ id ++ "/trend") []
  let data ← receive "Failed to fetch video trend" res
  readProperty "points" data

end TrendingPipeline.Frontend.Api

/- Unit: TrendingPipeline/Analytics/Responses
   source: backend/pb/analytics.pb.go, backend/analytics/server.go
   digest: The JSON of the cached responses, and the responses made from query results. -/

import TrendingPipeline.Base.JsonCodec
import TrendingPipeline.Proto.Messages
import TrendingPipeline.Store.Queries

set_option autoImplicit false
set_option relaxedAutoImplicit false

namespace TrendingPipeline.Analytics.Responses

open TrendingPipeline.Base.JsonCodec
open TrendingPipeline.Proto.Messages
open TrendingPipeline.Store.Queries (ChannelStat)

def timestampRecord : Record 0 Timestamp where
  zero := {}
  slots := [
    slot "seconds" (·.seconds) (fun x v => { x with seconds := v }) int64,
    slot "nanos" (·.nanos) (fun x v => { x with nanos := v }) int32]
  names := by decide
  untouched := by simp [Untouched, slot]
  copied_eq _ := by simp [copied, slot]

def timestamp : OmitEmpty 1 (Option Timestamp) := pointer timestampRecord.codec

@[simp] theorem timestamp_zero : timestamp.zero = none := rfl

def videoRecord : Record 1 Video where
  zero := {}
  slots := [
    slot "video_id" (·.videoId) (fun x v => { x with videoId := v }) string,
    slot "job_id" (·.jobId) (fun x v => { x with jobId := v }) string,
    slot "region" (·.region) (fun x v => { x with region := v }) string,
    slot "fetched_at" (·.fetchedAt) (fun x v => { x with fetchedAt := v }) timestamp,
    slot "title" (·.title) (fun x v => { x with title := v }) string,
    slot "channel_id" (·.channelId) (fun x v => { x with channelId := v }) string,
    slot "channel_title" (·.channelTitle) (fun x v => { x with channelTitle := v }) string,
    slot "published_at" (·.publishedAt) (fun x v => { x with publishedAt := v }) timestamp,
    slot "category_id" (·.categoryId) (fun x v => { x with categoryId := v }) int32,
    slot "view_count" (·.viewCount) (fun x v => { x with viewCount := v }) int64,
    slot "like_count" (·.likeCount) (fun x v => { x with likeCount := v }) int64,
    slot "comment_count" (·.commentCount) (fun x v => { x with commentCount := v }) int64]
  names := by decide +kernel
  untouched := by simp [Untouched, slot]
  copied_eq _ := by simp [copied, slot]

def getVideosResponse : Record 3 GetVideosResponse where
  zero := {}
  slots := [slot "videos" (·.videos) (fun x v => { x with videos := v }) (slice videoRecord.codec)]
  names := by decide
  untouched := by simp [Untouched, slot]
  copied_eq _ := by simp [copied, slot]

def channelRecord : Record 0 Channel where
  zero := {}
  slots := [
    slot "channel_id" (·.channelId) (fun x v => { x with channelId := v }) string,
    slot "channel_title" (·.channelTitle) (fun x v => { x with channelTitle := v }) string,
    slot "appear_count" (·.appearCount) (fun x v => { x with appearCount := v }) int64,
    slot "view_count" (·.viewCount) (fun x v => { x with viewCount := v }) int64]
  names := by decide
  untouched := by simp [Untouched, slot]
  copied_eq _ := by simp [copied, slot]

def getTopChannelsResponse : Record 2 GetTopChannelsResponse where
  zero := {}
  slots := [
    slot "channels" (·.channels) (fun x v => { x with channels := v }) (slice channelRecord.codec)]
  names := by decide
  untouched := by simp [Untouched, slot]
  copied_eq _ := by simp [copied, slot]

def getVideosCountResponse : Record 0 GetVideosCountResponse where
  zero := {}
  slots := [slot "count" (·.count) (fun x v => { x with count := v }) int64]
  names := by decide
  untouched := by simp [Untouched, slot]
  copied_eq _ := by simp [copied, slot]

def getTrackedRegionsResponse : Record 1 GetTrackedRegionsResponse where
  zero := {}
  slots := [
    slot "count" (·.count) (fun x v => { x with count := v }) int64,
    slot "regions" (·.regions) (fun x v => { x with regions := v }) (slice stringItem)]
  names := by decide
  untouched := by simp [Untouched, slot]
  copied_eq _ := by simp [copied, slot]

def trendPointRecord : Record 1 TrendPoint where
  zero := {}
  slots := [
    slot "fetched_at" (·.fetchedAt) (fun x v => { x with fetchedAt := v }) timestamp,
    slot "view_count" (·.viewCount) (fun x v => { x with viewCount := v }) int64,
    slot "like_count" (·.likeCount) (fun x v => { x with likeCount := v }) int64,
    slot "comment_count" (·.commentCount) (fun x v => { x with commentCount := v }) int64]
  names := by decide
  untouched := by simp [Untouched, slot]
  copied_eq _ := by simp [copied, slot]

def getVideoTrendResponse : Record 3 GetVideoTrendResponse where
  zero := {}
  slots := [
    slot "points" (·.points) (fun x v => { x with points := v }) (slice trendPointRecord.codec)]
  names := by decide
  untouched := by simp [Untouched, slot]
  copied_eq _ := by simp [copied, slot]

theorem unmarshal_getVideosResponse (resp : GetVideosResponse) :
    getVideosResponse.codec.unmarshal (getVideosResponse.codec.marshal resp) = some resp :=
  getVideosResponse.codec.unmarshal_marshal (by decide) resp

theorem unmarshal_getTopChannelsResponse (resp : GetTopChannelsResponse) :
    getTopChannelsResponse.codec.unmarshal (getTopChannelsResponse.codec.marshal resp) =
      some resp :=
  getTopChannelsResponse.codec.unmarshal_marshal (by decide) resp

def videoOfRow (v : Youtube.FetchTrending.Video) : Video where
  videoId := v.videoId
  jobId := v.jobId
  region := v.region
  fetchedAt := some (Timestamp.ofTime v.fetchedAt)
  title := v.title
  channelId := v.channelId
  channelTitle := v.channelTitle
  publishedAt := some (Timestamp.ofTime v.publishedAt)
  categoryId := v.categoryId.toInt32
  viewCount := v.viewCount
  likeCount := v.likeCount
  commentCount := v.commentCount

def channelOfRow (c : ChannelStat) : Channel where
  channelId := c.channelId
  channelTitle := c.channelTitle
  appearCount := c.appearCount
  viewCount := c.totalViews

end TrendingPipeline.Analytics.Responses

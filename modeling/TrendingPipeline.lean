import TrendingPipeline.Worker.ApiFailures
import TrendingPipeline.System.Restart
import TrendingPipeline.System.Accounting
import TrendingPipeline.System.Errors
import TrendingPipeline.System.RetrySchedule
import TrendingPipeline.System.Crash
import TrendingPipeline.System.SameKey
import TrendingPipeline.System.Columns
import TrendingPipeline.System.Watching
import TrendingPipeline.System.CurrentState
import TrendingPipeline.System.BatchAccounts
import TrendingPipeline.System.Dedup
import TrendingPipeline.Store.Pagination
import TrendingPipeline.Store.TopChannels
import TrendingPipeline.Frontend.Charts
import TrendingPipeline.Frontend.VideosPages
import TrendingPipeline.Frontend.WireFormat
import TrendingPipeline.Worker.Content
import TrendingPipeline.Etl.Sequence
import TrendingPipeline.System.Alone
import TrendingPipeline.Analytics.VideosCache
import TrendingPipeline.Analytics.TopChannelsCache
import TrendingPipeline.Frontend.Timestamps
import TrendingPipeline.Frontend.StoredJobs
import TrendingPipeline.Api.Numbers
import TrendingPipeline.System.JobStatus
import TrendingPipeline.System.LiveUpdates
import TrendingPipeline.System.Rounds
import TrendingPipeline.System.Settling
import TrendingPipeline.System.Quota
import TrendingPipeline.System.Backlog
import TrendingPipeline.System.BatchOrder
import TrendingPipeline.System.Provenance
import TrendingPipeline.System.History
import TrendingPipeline.Store.Agreement
import TrendingPipeline.System.Totals
import TrendingPipeline.Analytics.Staleness
import TrendingPipeline.Base.EventStream
import TrendingPipeline.Etl.Responses
import TrendingPipeline.Api.Jobs
import TrendingPipeline.Frontend.WatchJob
import TrendingPipeline.Frontend.JobView
import TrendingPipeline.Frontend.JobsApi
import TrendingPipeline.System.WirePage
import TrendingPipeline.Frontend.BatchSubmission
import TrendingPipeline.Frontend.FormSubmission
import TrendingPipeline.Frontend.VideoTrend
import TrendingPipeline.System.PageRest
import TrendingPipeline.System.Progress
import TrendingPipeline.Frontend.Counts
import TrendingPipeline.System.ListRest
import TrendingPipeline.Frontend.SummaryCard
import TrendingPipeline.System.Reloads

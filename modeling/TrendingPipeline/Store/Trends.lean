/- Unit: TrendingPipeline/Store/Trends
   source: backend/db/db.go
   digest: GetVideoTrend and GetTrackedRegions, and how they agree with GetVideos. -/

import TrendingPipeline.Store.GetVideos

set_option autoImplicit false
set_option relaxedAutoImplicit false

namespace TrendingPipeline.Store.Trends

open TrendingPipeline.Base.Calendar (Time)
open TrendingPipeline.Base.OrderedAnswers
open TrendingPipeline.Store.GetVideos
  (Column datum stored timeOfMicros timeOfMicros_micros)
open TrendingPipeline.Store.Queries
open TrendingPipeline.Store.Select
open TrendingPipeline.Store.Tables (VideosTable)
open TrendingPipeline.Youtube.FetchTrending (Video)

structure VideoTrendPoint where
  fetchedAt : Time
  viewCount : Int64
  likeCount : Int64
  commentCount : Int64
  deriving DecidableEq

def trendQuery : String :=
  "SELECT fetched_at, view_count, like_count, comment_count FROM videos " ++
    "WHERE video_id = $1 ORDER BY fetched_at ASC"

/-- The statement the text is of; ASC is what ORDER BY does without a word. -/
def trendStatement : PlainStatement Column where
  columns := [.fetchedAt, .viewCount, .likeCount, .commentCount]
  conditions := [⟨.videoId, .eq, 1⟩]
  order := [(.fetchedAt, .asc)]

def plainText (st : PlainStatement Column) : String :=
  "SELECT " ++ ", ".intercalate (st.columns.map Column.name) ++ " FROM videos WHERE " ++
    " AND ".intercalate (st.conditions.map fun c =>
      c.column.name ++ GetVideos.Comparison.symbol c.comparison ++ "$" ++ toString c.placeholder) ++
    " ORDER BY " ++
    ", ".intercalate (st.order.map fun o =>
      o.1.name ++ match o.2 with
        | .asc => " ASC"
        | .desc => " DESC")

example : trendQuery = plainText trendStatement := by decide +kernel

/-- `rows.Scan` into the fields of a `VideoTrendPoint`, by position. -/
def scanPoint : List Datum → Option VideoTrendPoint
  | [.instant fetchedAt, .int viewCount, .int likeCount, .int commentCount] =>
      some
        { fetchedAt := timeOfMicros fetchedAt
          viewCount := Int64.ofInt viewCount
          likeCount := Int64.ofInt likeCount
          commentCount := Int64.ofInt commentCount }
  | _ => none

/-- What `DB.GetVideoTrend` may return on a table. -/
def TrendAnswers (coll : Collation) (videos : VideosTable) (videoId : String)
    (out : Option (List VideoTrendPoint)) : Prop :=
  ∃ rows, trendStatement.Runs coll datum [.text videoId] videos.rows rows ∧
    out = rows.bind fun rs => rs.mapM scanPoint

def pointOf (v : Video) : VideoTrendPoint where
  fetchedAt := timestamptz v.fetchedAt
  viewCount := v.viewCount
  likeCount := v.likeCount
  commentCount := v.commentCount

private theorem scanPoint_columns (v : Video) :
    scanPoint (trendStatement.columns.map (datum v)) = some (pointOf v) := by
  simp only [trendStatement, List.map_cons, List.map_nil, datum, scanPoint, timeOfMicros_micros,
    Int64.ofInt_toInt]
  rfl

def snapshots (videos : VideosTable) (videoId : String) : List Video :=
  videos.rows.filter (·.videoId = videoId)

def NotLater (v w : Video) : Prop := micros v.fetchedAt ≤ micros w.fetchedAt

instance : DecidableRel NotLater := fun v w =>
  inferInstanceAs (Decidable (micros v.fetchedAt ≤ micros w.fetchedAt))

variable {coll : Collation} {videos : VideosTable} {videoId : String}

theorem trendAnswers_iff {out : Option (List VideoTrendPoint)} :
    TrendAnswers coll videos videoId out ↔
      ∃ ordered, OrdersBy NotLater (snapshots videos videoId) ordered ∧
        out = some (ordered.map pointOf) := by
  have hscan : ∀ rs : List Video,
      (rs.map fun v => trendStatement.columns.map (datum v)).mapM scanPoint =
        some (rs.map pointOf) := by
    intro rs
    rw [List.mapM_map, Function.comp_def, funext scanPoint_columns]
    exact List.mapM_pure
  have hbind : trendStatement.bind [.text videoId] =
      some [(.videoId, .eq, .text videoId)] := by
    simp [PlainStatement.bind, trendStatement, argument]
  have hrows : (videos.rows.filter fun row =>
      [(Column.videoId, Comparison.eq, Datum.text videoId)].all fun c =>
        c.2.1.holds (datum row c.1) c.2.2) = snapshots videos videoId := by
    refine List.filter_congr fun v _ => ?_
    simp [Comparison.holds, datum]
  have horder : ∀ v w, orderLe coll datum trendStatement.order v w ↔ NotLater v w := by
    intro v w
    exact ⟨fun h => h.1, fun h => ⟨h, fun _ => trivial⟩⟩
  simp only [TrendAnswers, PlainStatement.Runs, hbind, hrows]
  constructor
  · rintro ⟨_, ⟨ordered, hordered, rfl⟩, rfl⟩
    exact ⟨ordered, ⟨hordered.perm, hordered.ordered.imp fun h => (horder _ _).mp h⟩,
      hscan ordered⟩
  · rintro ⟨ordered, hordered, rfl⟩
    exact ⟨_, ⟨ordered, ⟨hordered.perm, hordered.ordered.imp fun h => (horder _ _).mpr h⟩, rfl⟩,
      (hscan ordered).symm⟩

/-- `DB.GetVideoTrend` with ties in the order of the table. -/
def getVideoTrend (videos : VideosTable) (videoId : String) : List VideoTrendPoint :=
  ((snapshots videos videoId).insertionSort NotLater).map pointOf

instance : Std.Total NotLater := ⟨fun v w => Int.le_total (micros v.fetchedAt) (micros w.fetchedAt)⟩

instance : IsTrans Video NotLater := ⟨fun _ _ _ huv hvw => Int.le_trans huv hvw⟩

theorem trendAnswers_getVideoTrend :
    TrendAnswers coll videos videoId (some (getVideoTrend videos videoId)) :=
  trendAnswers_iff.mpr
    ⟨_, ⟨List.perm_insertionSort _ _, List.pairwise_insertionSort _ _⟩, rfl⟩

/-- What `SELECT COUNT(DISTINCT region), array_agg(DISTINCT region) FROM videos` may give
in the variables it is scanned into; the NULL of an empty table leaves a nil slice. -/
structure RegionsAnswer (videos : VideosTable) (count : Int64) (regions : List String) :
    Prop where
  count_eq : count = Int64.ofNat (videos.rows.map (·.region)).dedup.length
  perm : regions.Perm (videos.rows.map (·.region)).dedup

theorem RegionsAnswer.nodup {count : Int64} {regions : List String}
    (h : RegionsAnswer videos count regions) : regions.Nodup :=
  h.perm.nodup_iff.mpr (List.nodup_dedup _)

theorem RegionsAnswer.mem_iff {count : Int64} {regions : List String}
    (h : RegionsAnswer videos count regions) {region : String} :
    region ∈ regions ↔ ∃ v ∈ videos.rows, v.region = region := by
  rw [h.perm.mem_iff, List.mem_dedup, List.mem_map]

/-- `DB.GetTrackedRegions` with the regions in the order of the table. -/
def getTrackedRegions (videos : VideosTable) : Int64 × List String :=
  let regions := (videos.rows.map (·.region)).dedup
  (Int64.ofNat regions.length, regions)

theorem regionsAnswer_getTrackedRegions :
    RegionsAnswer videos (getTrackedRegions videos).1 (getTrackedRegions videos).2 :=
  ⟨rfl, List.Perm.refl _⟩

def cardPoint (card : Video) : VideoTrendPoint where
  fetchedAt := card.fetchedAt
  viewCount := card.viewCount
  likeCount := card.likeCount
  commentCount := card.commentCount

private theorem notLater_of_getLast {ordered : List Video} (hordered : ordered.Pairwise NotLater)
    {v w : Video} (hv : v ∈ ordered) (hw : ordered.getLast? = some w) : NotLater v w := by
  obtain ⟨init, rfl⟩ := List.getLast?_eq_some_iff.mp hw
  rcases List.mem_append.mp hv with hv | hv
  · exact (List.pairwise_append.mp hordered).2.2 v hv w List.mem_cons_self
  · obtain rfl := List.mem_singleton.mp hv
    exact Int.le_refl _

private theorem eq_of_countP_eq_one {α : Type} {P : α → Bool} {l : List α} (h : l.countP P = 1)
    {a b : α}
    (ha : a ∈ l) (hPa : P a = true) (hb : b ∈ l) (hPb : P b = true) : a = b := by
  rw [List.countP_eq_length_filter, List.length_eq_one_iff] at h
  obtain ⟨c, hc⟩ := h
  have hmem : ∀ x ∈ l, P x = true → x = c := by
    intro x hx hPx
    have hin : x ∈ l.filter P := List.mem_filter.mpr ⟨hx, hPx⟩
    rw [hc] at hin
    exact List.mem_singleton.mp hin
  rw [hmem a ha hPa, hmem b hb hPb]

/-- However ties are broken on either side, what GetVideos shows of a video is one of the
points that GetVideoTrend gives for it. Without filters it is a point of the last instant,
and so the last point, unless two snapshots of the video were taken at that instant. -/
theorem card_in_trend {coll' : Collation} {region : String} {categoryId : Int32}
    {fetchedAfter fetchedBefore : Time} {limit offset : Int32} (hlimit : 0 ≤ limit)
    (hoffset : 0 ≤ offset) {cards : List Video}
    (hcards : GetVideos.Answers coll videos region categoryId fetchedAfter fetchedBefore limit
      offset (some cards)) {card : Video} (hcard : card ∈ cards) {points : List VideoTrendPoint}
    (hpoints : TrendAnswers coll' videos card.videoId (some points)) :
    cardPoint card ∈ points ∧
      (region = "" → categoryId = 0 → fetchedAfter.isZero = true → fetchedBefore.isZero = true →
        ∃ last, points.getLast? = some last ∧ last.fetchedAt = card.fetchedAt ∧
          (points.countP (·.fetchedAt = card.fetchedAt) = 1 → last = cardPoint card)) := by
  obtain ⟨latest, hlatest, hpage⟩ := (GetVideos.answers_iff coll hlimit hoffset).mp hcards
  obtain rfl := Option.some.inj hpage
  obtain ⟨v, hv, rfl⟩ := List.mem_map.mp hcard
  obtain ⟨hrow, hsat, hfirst⟩ :=
    hlatest.latest v (List.mem_of_mem_drop (List.mem_of_mem_take hv))
  obtain ⟨ordered, hordered, hpoints⟩ := trendAnswers_iff.mp hpoints
  obtain rfl := Option.some.inj hpoints
  have hmem : v ∈ ordered :=
    hordered.perm.mem_iff.mpr (List.mem_filter.mpr ⟨hrow, decide_eq_true rfl⟩)
  have hpoint : cardPoint (stored v) ∈ ordered.map pointOf := List.mem_map_of_mem hmem
  refine ⟨hpoint, ?_⟩
  rintro rfl rfl hafter hbefore
  obtain ⟨w, hw⟩ : ∃ w, ordered.getLast? = some w := by
    rw [← Option.isSome_iff_exists, List.getLast?_isSome]
    exact List.ne_nil_of_mem hmem
  have hwmem : w ∈ ordered := List.mem_of_getLast? hw
  obtain ⟨hwrow, hwid⟩ := List.mem_filter.mp (hordered.perm.mem_iff.mp hwmem)
  -- neither is later than the other
  have hle : micros v.fetchedAt ≤ micros w.fetchedAt :=
    notLater_of_getLast hordered.ordered hmem hw
  have hge : micros w.fetchedAt ≤ micros v.fetchedAt := by
    refine hfirst w hwrow ⟨fun h => absurd rfl h, fun h => absurd rfl h, ?_, ?_⟩
      (of_decide_eq_true hwid)
    · intro h
      rw [hafter] at h
      cases h
    · intro h
      rw [hbefore] at h
      cases h
  have hsame : timestamptz w.fetchedAt = timestamptz v.fetchedAt := by
    rw [← timeOfMicros_micros, ← timeOfMicros_micros, Int.le_antisymm hge hle]
  refine ⟨pointOf w, ?_, hsame, ?_⟩
  · rw [List.getLast?_map, hw, Option.map_some]
  · intro hone
    exact eq_of_countP_eq_one hone (List.mem_map_of_mem hwmem) (decide_eq_true hsame) hpoint
      (decide_eq_true rfl)

def younger : Video :=
  { GetVideos.snapshot "a" 20 with jobId := "job-2", fetchedAt := Time.zero.addSeconds 86400 }

def twoSnapshots : VideosTable where
  rows := [younger, GetVideos.snapshot "a" 10]
  key_nodup := by decide
  category_range := by decide

/-- The card shows the second, and the trend ends with it. -/
theorem card_in_trend_twoSnapshots :
    (getVideoTrend twoSnapshots "a").getLast? = some (cardPoint (stored younger)) := by
  have hlimit : (0 : Int32) ≤ 50 := by decide
  have hanswer : GetVideos.Answers GetVideos.codePoints twoSnapshots "" 0 Time.zero Time.zero 50 0
      (getVideos twoSnapshots "" 0 Time.zero Time.zero 50 0) :=
    GetVideos.answers_getVideos GetVideos.codePoints hlimit (Int32.le_refl 0)
  have hcards : getVideos twoSnapshots "" 0 Time.zero Time.zero 50 0 = some [stored younger] := by
    decide +kernel
  rw [hcards] at hanswer
  have htrend : TrendAnswers GetVideos.codePoints twoSnapshots (stored younger).videoId
      (some (getVideoTrend twoSnapshots "a")) := trendAnswers_getVideoTrend
  obtain ⟨last, hlast, -, hone⟩ :=
    (card_in_trend hlimit (Int32.le_refl 0) hanswer List.mem_cons_self htrend).2 rfl rfl rfl rfl
  rw [hlast, hone (by decide +kernel)]

end TrendingPipeline.Store.Trends

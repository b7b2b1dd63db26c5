/- Unit: TrendingPipeline/Store/GetVideos
   source: backend/db/db.go
   digest: The query text and the arguments GetVideos builds, and every answer they may have. -/

import Mathlib.Data.Finset.Max
import Mathlib.Data.String.Basic
import TrendingPipeline.Store.Select

set_option autoImplicit false
set_option relaxedAutoImplicit false

namespace TrendingPipeline.Store.GetVideos

open TrendingPipeline.Base.Calendar (Time)
open TrendingPipeline.Base.OrderedAnswers
open TrendingPipeline.Store.Queries
open TrendingPipeline.Store.Select
open TrendingPipeline.Store.Tables (VideosTable)
open TrendingPipeline.Youtube.FetchTrending (Video)

inductive Column
  | videoId
  | jobId
  | region
  | fetchedAt
  | title
  | channelId
  | channelTitle
  | publishedAt
  | categoryId
  | viewCount
  | likeCount
  | commentCount
  deriving DecidableEq

def Column.name : Column → String
  | .videoId => "video_id"
  | .jobId => "job_id"
  | .region => "region"
  | .fetchedAt => "fetched_at"
  | .title => "title"
  | .channelId => "channel_id"
  | .channelTitle => "channel_title"
  | .publishedAt => "published_at"
  | .categoryId => "category_id"
  | .viewCount => "view_count"
  | .likeCount => "like_count"
  | .commentCount => "comment_count"

def datum (v : Video) : Column → Datum
  | .videoId => .text v.videoId
  | .jobId => .text v.jobId
  | .region => .text v.region
  | .fetchedAt => .instant (micros v.fetchedAt)
  | .title => .text v.title
  | .channelId => .text v.channelId
  | .channelTitle => .text v.channelTitle
  | .publishedAt => .instant (micros v.publishedAt)
  | .categoryId => .int v.categoryId.toInt
  | .viewCount => .int v.viewCount.toInt
  | .likeCount => .int v.likeCount.toInt
  | .commentCount => .int v.commentCount.toInt

/-- The columns of the inner SELECT, in its order. -/
def selectList : List Column :=
  [.videoId, .jobId, .region, .fetchedAt, .title, .channelId, .channelTitle, .publishedAt,
    .categoryId, .viewCount, .likeCount, .commentCount]

def timeOfMicros (micros : ℤ) : Time where
  sec := Int64.ofInt (micros / 1000000)
  nsec := (micros % 1000000).toNat * 1000
  nsec_lt := by omega

/-- `rows.Scan` into the fields of a `client.Video`, by position. -/
def scan : List Datum → Option Video
  | [.text videoId, .text jobId, .text region, .instant fetchedAt, .text title, .text channelId,
      .text channelTitle, .instant publishedAt, .int categoryId, .int viewCount, .int likeCount,
      .int commentCount] =>
      some
        { videoId := videoId
          jobId := jobId
          region := region
          fetchedAt := timeOfMicros fetchedAt
          title := title
          channelId := channelId
          channelTitle := channelTitle
          publishedAt := timeOfMicros publishedAt
          categoryId := Int64.ofInt categoryId
          viewCount := Int64.ofInt viewCount
          likeCount := Int64.ofInt likeCount
          commentCount := Int64.ofInt commentCount }
  | _ => none

/-- `inner`, `args` and `argNum`. -/
structure Builder where
  inner : String
  args : List Datum := []
  argNum : ℕ := 1

/-- One `if` of the builder: a clause that ends in `$` and the number, and its argument. -/
def Builder.filter (b : Builder) (active : Bool) (clause : String) (arg : Datum) : Builder :=
  if active then
    { inner := b.inner ++ (clause ++ toString b.argNum)
      args := b.args ++ [arg]
      argNum := b.argNum + 1 }
  else b

def innerSelect : String :=
  "SELECT DISTINCT ON (video_id) video_id, job_id, region, fetched_at, title, channel_id, " ++
    "channel_title, published_at, category_id, view_count, like_count, comment_count " ++
    "FROM videos WHERE 1=1"

/-- The four filters; an instant becomes a TIMESTAMPTZ. -/
def build (region : String) (categoryId : Int32) (fetchedAfter fetchedBefore : Time) : Builder :=
  ((((Builder.mk innerSelect [] 1).filter (region ≠ "") " AND region = $" (.text region)).filter
    (categoryId ≠ 0) " AND category_id = $" (.int categoryId.toInt)).filter
    (!fetchedAfter.isZero) " AND fetched_at > $" (.instant (micros fetchedAfter))).filter
    (!fetchedBefore.isZero) " AND fetched_at < $" (.instant (micros fetchedBefore))

def Builder.query (b : Builder) : String :=
  "SELECT * FROM (" ++ (b.inner ++ " ORDER BY video_id, fetched_at DESC") ++
    ") sub ORDER BY view_count DESC LIMIT $" ++ toString b.argNum ++ " OFFSET $" ++
    toString (b.argNum + 1)

def Builder.allArgs (b : Builder) (limit offset : Int32) : List Datum :=
  b.args ++ [.int limit.toInt, .int offset.toInt]

abbrev Filter := Column × Comparison × Datum

def Comparison.symbol : Comparison → String
  | .eq => " = "
  | .gt => " > "
  | .lt => " < "

/-- The filters as conditions, with placeholders from `n` on. -/
def numbered : ℕ → List Filter → List (Condition Column)
  | _, [] => []
  | n, (column, comparison, _) :: fs => ⟨column, comparison, n⟩ :: numbered (n + 1) fs

def values (fs : List Filter) : List Datum := fs.map (·.2.2)

def statement (filters : List Filter) : Statement Column where
  distinctColumn := .videoId
  conditions := numbered 1 filters
  innerOrder := [(.videoId, .asc), (.fetchedAt, .desc)]
  outerOrder := [(.viewCount, .desc)]
  limit := filters.length + 1
  offset := filters.length + 2

def conditionText (c : Condition Column) : String :=
  " AND " ++ c.column.name ++ Comparison.symbol c.comparison ++ "$" ++ toString c.placeholder

def orderText : List (Column × Direction) → String
  | [] => ""
  | [(column, .asc)] => column.name
  | [(column, .desc)] => column.name ++ " DESC"
  | (column, .asc) :: rest => column.name ++ ", " ++ orderText rest
  | (column, .desc) :: rest => column.name ++ " DESC, " ++ orderText rest

def selectText (distinctColumn : Column) : String :=
  "SELECT DISTINCT ON (" ++ distinctColumn.name ++ ") " ++
    ", ".intercalate (selectList.map Column.name) ++ " FROM videos WHERE 1=1"

def statementText (st : Statement Column) : String :=
  "SELECT * FROM (" ++
    (selectText st.distinctColumn ++ String.join (st.conditions.map conditionText) ++
      (" ORDER BY " ++ orderText st.innerOrder)) ++
    (") sub ORDER BY " ++ orderText st.outerOrder ++ " LIMIT $") ++ toString st.limit ++
    " OFFSET $" ++ toString st.offset

def filters (region : String) (categoryId : Int32) (fetchedAfter fetchedBefore : Time) :
    List Filter :=
  (if region ≠ "" then [(.region, .eq, .text region)] else []) ++
    (if categoryId ≠ 0 then [(.categoryId, .eq, .int categoryId.toInt)] else []) ++
    (if fetchedAfter.isZero then []
      else [(.fetchedAt, .gt, .instant (micros fetchedAfter))]) ++
    (if fetchedBefore.isZero then []
      else [(.fetchedAt, .lt, .instant (micros fetchedBefore))])

private theorem numbered_append (n : ℕ) (fs gs : List Filter) :
    numbered n (fs ++ gs) = numbered n fs ++ numbered (n + fs.length) gs := by
  induction fs generalizing n with
  | nil => rfl
  | cons f fs ih =>
      rw [List.cons_append, numbered, numbered, ih, List.length_cons, Nat.add_right_comm]
      rfl

structure Writes (b : Builder) (fs : List Filter) : Prop where
  inner : b.inner = innerSelect ++ String.join ((numbered 1 fs).map conditionText)
  args : b.args = values fs
  argNum : b.argNum = fs.length + 1

theorem Writes.filter {b : Builder} {fs : List Filter} (h : Writes b fs) (active : Bool)
    (clause : String) (column : Column) (comparison : Comparison) (value : Datum)
    (hclause : clause = " AND " ++ column.name ++ Comparison.symbol comparison ++ "$") :
    Writes (b.filter active clause value)
      (fs ++ if active then [(column, comparison, value)] else []) := by
  unfold Builder.filter
  cases active with
  | false => simpa using h
  | true =>
      refine ⟨?_, ?_, ?_⟩
      · change b.inner ++ (clause ++ toString b.argNum) = _
        rw [h.inner, h.argNum, if_pos rfl, numbered_append, List.map_append, String.join_append,
          ← String.append_assoc, hclause, Nat.add_comm fs.length 1]
        simp [numbered, conditionText, String.append_assoc]
      · change b.args ++ [value] = _
        rw [h.args, if_pos rfl, values, values, List.map_append]
        rfl
      · change b.argNum + 1 = _
        rw [h.argNum, if_pos rfl, List.length_append]
        rfl

variable (region : String) (categoryId : Int32) (fetchedAfter fetchedBefore : Time)
  (limit offset : Int32)

private theorem build_writes :
    Writes (build region categoryId fetchedAfter fetchedBefore)
      (filters region categoryId fetchedAfter fetchedBefore) := by
  have hstart : Writes (Builder.mk innerSelect [] 1) [] := ⟨(String.append_empty).symm, rfl, rfl⟩
  have hregion := hstart.filter (region ≠ "") " AND region = $" .region .eq (.text region) rfl
  have hcategory := hregion.filter (categoryId ≠ 0) " AND category_id = $" .categoryId .eq
    (.int categoryId.toInt) rfl
  have hafter := hcategory.filter (!fetchedAfter.isZero) " AND fetched_at > $" .fetchedAt .gt
    (.instant (micros fetchedAfter)) rfl
  have hbefore := hafter.filter (!fetchedBefore.isZero) " AND fetched_at < $" .fetchedAt .lt
    (.instant (micros fetchedBefore)) rfl
  convert hbefore using 1
  · rfl
  · simp only [filters, List.nil_append, decide_eq_true_eq]
    cases fetchedAfter.isZero <;> cases fetchedBefore.isZero <;> rfl

/-- The text is that of the statement, and the arguments are the filters' values and then
the limit and the offset. -/
theorem query_eq :
    (build region categoryId fetchedAfter fetchedBefore).query =
        statementText (statement (filters region categoryId fetchedAfter fetchedBefore)) ∧
      (build region categoryId fetchedAfter fetchedBefore).allArgs limit offset =
        values (filters region categoryId fetchedAfter fetchedBefore) ++
          [.int limit.toInt, .int offset.toInt] := by
  have hwrites := build_writes region categoryId fetchedAfter fetchedBefore
  have hselect : innerSelect = selectText .videoId := by
    unfold innerSelect selectText selectList
    simp [Column.name]
  have hinner : " ORDER BY video_id, fetched_at DESC" =
      " ORDER BY " ++ orderText [(.videoId, .asc), (.fetchedAt, .desc)] := by rfl
  have houter : ") sub ORDER BY view_count DESC LIMIT $" =
      ") sub ORDER BY " ++ orderText [(.viewCount, .desc)] ++ " LIMIT $" := by rfl
  constructor
  · unfold Builder.query statementText statement
    simp only [hwrites.inner, hwrites.argNum, hselect, hinner, houter]
  · rw [Builder.allArgs, hwrites.args]

theorem mapM_numbered (before after : List Datum) (fs : List Filter) :
    (numbered (before.length + 1) fs).mapM (fun c =>
        (argument (before ++ values fs ++ after) c.placeholder).map
          fun value => (c.column, c.comparison, value)) =
      some fs := by
  induction fs generalizing before with
  | nil => rfl
  | cons f fs ih =>
      obtain ⟨column, comparison, value⟩ := f
      have hrest := ih (before ++ [value])
      rw [List.length_append, List.append_assoc before] at hrest
      have hhere : argument (before ++ values ((column, comparison, value) :: fs) ++ after)
          (before.length + 1) = some value := by
        rw [argument, List.append_assoc, List.getElem?_append_right (Nat.le_refl _), Nat.sub_self]
        rfl
      rw [numbered, List.mapM_cons]
      simp only [hhere, Option.map_some]
      exact (congrArg (Option.bind · _) hrest)

theorem placeholders_numbered (n : ℕ) (fs : List Filter) :
    (numbered n fs).map (·.placeholder) = List.range' n fs.length := by
  induction fs generalizing n with
  | nil => rfl
  | cons f fs ih => rw [numbered, List.map_cons, ih, List.length_cons, List.range'_succ]

/-- For every choice of filters the arguments go where they belong, and none is left. -/
theorem bind_statement (fs : List Filter) (limit offset : ℤ) :
    (statement fs).bind (values fs ++ [.int limit, .int offset]) =
      some { conditions := fs, limit := limit, offset := offset } := by
  have hconditions := mapM_numbered [] [.int limit, .int offset] fs
  have hlimit : argument (values fs ++ [.int limit, .int offset])
      (fs.length + 1) = some (.int limit) := by
    rw [argument, List.getElem?_append_right (by rw [values, List.length_map]), values,
      List.length_map,
      Nat.sub_self]
    rfl
  have hoffset : argument (values fs ++ [.int limit, .int offset])
      (fs.length + 2) = some (.int offset) := by
    rw [argument, List.getElem?_append_right (by rw [values, List.length_map]; omega), values,
      List.length_map,
      Nat.add_sub_cancel_left]
    rfl
  have hused : ∀ n < (values fs ++ [Datum.int limit, Datum.int offset]).length,
      n + 1 ∈ (numbered 1 fs).map (·.placeholder) ++ [fs.length + 1, fs.length + 2] := by
    intro n hn
    rw [List.length_append, values, List.length_map] at hn
    have hlt : n < fs.length + 2 := hn
    rw [placeholders_numbered, List.mem_append, List.mem_range'_1, List.mem_cons,
      List.mem_singleton]
    omega
  simp only [Statement.bind, statement]
  simp only [List.length_nil, List.nil_append, Nat.zero_add] at hconditions
  rw [hconditions, hlimit, hoffset]
  simp only [Option.bind_eq_bind, Option.bind_some, integer]
  exact if_pos hused

theorem holds_filters (v : Video) (limit offset : ℤ) :
    Bound.holds datum
        { conditions := filters region categoryId fetchedAfter fetchedBefore
          limit := limit, offset := offset } v =
      selected region categoryId fetchedAfter fetchedBefore v := by
  unfold Bound.holds filters selected
  rw [List.all_append, List.all_append, List.all_append]
  congr 1
  · congr 1
    · congr 1
      · by_cases h : region = "" <;> simp [h, Comparison.holds, datum]
      · by_cases h : categoryId = 0 <;> simp [h, Comparison.holds, datum]
    · cases h : fetchedAfter.isZero <;> simp [Comparison.holds, datum]
  · cases h : fetchedBefore.isZero <;> simp [Comparison.holds, datum]

theorem timeOfMicros_micros (t : Time) : timeOfMicros (micros t) = timestamptz t := by
  have hnsec : t.nsec / 1000 < 1000000 := by
    have hlt := t.nsec_lt
    omega
  have hsec : micros t / 1000000 = t.sec.toInt := by
    unfold micros
    omega
  have hrest : micros t % 1000000 = ((t.nsec / 1000 : ℕ) : ℤ) := by
    unfold micros
    omega
  apply Time.ext
  · change Int64.ofInt (micros t / 1000000) = t.sec
    rw [hsec, Int64.ofInt_toInt]
  · change (micros t % 1000000).toNat * 1000 = t.nsec / 1000 * 1000
    rw [hrest, Int.toNat_natCast]

def stored (v : Video) : Video :=
  { v with fetchedAt := timestamptz v.fetchedAt, publishedAt := timestamptz v.publishedAt }

private theorem scan_selectList (v : Video) : scan (selectList.map (datum v)) = some
    (stored v) := by
  simp only [selectList, List.map_cons, List.map_nil, datum, scan, timeOfMicros_micros,
    Int64.ofInt_toInt]
  rfl

/-- What `DB.GetVideos` may return on a table, SQL leaving the order of equal rows open. -/
def Answers (coll : Collation) (videos : VideosTable) (region : String) (categoryId : Int32)
    (fetchedAfter fetchedBefore : Time) (limit offset : Int32) (out : Option (List Video)) : Prop :=
  ∃ rows,
    (statement (filters region categoryId fetchedAfter fetchedBefore)).Runs coll datum
        ((build region categoryId fetchedAfter fetchedBefore).allArgs limit offset) videos.rows
        rows ∧
      out = rows.bind fun rs => rs.mapM fun v => scan (selectList.map (datum v))

/-- A row satisfies the filters that are set; both bounds are strict. -/
structure Satisfies (region : String) (categoryId : Int32) (fetchedAfter fetchedBefore : Time)
    (v : Video) : Prop where
  region : region ≠ "" → v.region = region
  category : categoryId ≠ 0 → v.categoryId.toInt = categoryId.toInt
  after : fetchedAfter.isZero = false → micros fetchedAfter < micros v.fetchedAt
  before : fetchedBefore.isZero = false → micros v.fetchedAt < micros fetchedBefore

/-- A latest row of its video among those that satisfy `P`. -/
structure Latest (rows : List Video) (P : Video → Prop) (v : Video) : Prop where
  mem : v ∈ rows
  satisfies : P v
  latest : ∀ w ∈ rows, P w → w.videoId = v.videoId → micros w.fetchedAt ≤ micros v.fetchedAt

/-- One latest row for each video that has a row satisfying `P`, the most viewed first. -/
structure LatestOfEach (rows : List Video) (P : Video → Prop) (ordered : List Video) : Prop where
  byViews : ordered.Pairwise fun v w => w.viewCount ≤ v.viewCount
  once : (ordered.map (·.videoId)).Nodup
  latest : ∀ v ∈ ordered, Latest rows P v
  complete : ∀ v ∈ rows, P v → v.videoId ∈ ordered.map (·.videoId)

variable {region categoryId fetchedAfter fetchedBefore}

theorem selected_iff {v : Video} : selected region categoryId fetchedAfter fetchedBefore v = true ↔
    Satisfies region categoryId fetchedAfter fetchedBefore v := by
  simp only [selected, Bool.and_eq_true, Bool.or_eq_true, decide_eq_true_eq]
  constructor
  · rintro ⟨⟨⟨hregion, hcategory⟩, hafter⟩, hbefore⟩
    exact ⟨hregion.resolve_left, hcategory.resolve_left,
      fun h => hafter.resolve_left (by rw [h]; nofun),
      fun h => hbefore.resolve_left (by rw [h]; nofun)⟩
  · intro h
    refine ⟨⟨⟨?_, ?_⟩, ?_⟩, ?_⟩
    · exact or_iff_not_imp_left.mpr h.region
    · exact or_iff_not_imp_left.mpr h.category
    · exact or_iff_not_imp_left.mpr fun hne => h.after (Bool.eq_false_iff.mpr hne)
    · exact or_iff_not_imp_left.mpr fun hne => h.before (Bool.eq_false_iff.mpr hne)

theorem exists_latest {rows : List Video} {P : Video → Prop} {v : Video} (hv : v ∈ rows)
    (hP : P v) :
    ∃ w, Latest rows P w ∧ w.videoId = v.videoId := by
  classical
  obtain ⟨w, hw, hmax⟩ := Finset.exists_max_image
    (rows.toFinset.filter fun w => P w ∧ w.videoId = v.videoId) (fun w => micros w.fetchedAt)
    ⟨v, Finset.mem_filter.mpr ⟨List.mem_toFinset.mpr hv, hP, rfl⟩⟩
  obtain ⟨hmem, hPw, hid⟩ := Finset.mem_filter.mp hw
  refine ⟨w, ⟨List.mem_toFinset.mp hmem, hPw, ?_⟩, hid⟩
  intro x hx hPx hxid
  exact hmax x (Finset.mem_filter.mpr ⟨List.mem_toFinset.mpr hx, hPx, hxid.trans hid⟩)

private theorem latestOfEach_iff {rows : List Video} {P : Video → Prop} {ordered : List Video} :
    LatestOfEach rows P ordered ↔
      Answer (·.videoId) (Latest rows P) (fun v w => w.viewCount ≤ v.viewCount) ordered := by
  constructor
  · exact fun h => ⟨h.byViews, h.once, h.latest, fun v hv => h.complete v hv.mem hv.satisfies⟩
  · refine fun h => ⟨h.ordered, h.nodup, h.sound, ?_⟩
    intro v hv hP
    obtain ⟨w, hw, hid⟩ := exists_latest hv hP
    exact hid ▸ h.complete w hw

section Coll

variable (coll : Collation)

private theorem orderLe_views (v w : Video) :
    orderLe coll datum [(.viewCount, .desc)] v w ↔ w.viewCount ≤ v.viewCount := by
  rw [Int64.le_iff_toInt_le]
  exact ⟨fun h => h.1, fun h => ⟨h, fun _ => trivial⟩⟩

private theorem foremost_iff {rows : List Video} {v : Video} :
    Foremost coll datum [(.fetchedAt, .desc)] .videoId
        (rows.filter (selected region categoryId fetchedAfter fetchedBefore)) v ↔
      Latest rows (Satisfies region categoryId fetchedAfter fetchedBefore) v := by
  have htext : ∀ w : Video, datum w .videoId = datum v .videoId ↔ w.videoId = v.videoId :=
    fun w => ⟨Datum.text.inj, congrArg Datum.text⟩
  constructor
  · rintro ⟨hv, hfirst⟩
    obtain ⟨hmem, hselected⟩ := List.mem_filter.mp hv
    refine ⟨hmem, selected_iff.mp hselected, ?_⟩
    intro w hw hsat hid
    exact (hfirst w (List.mem_filter.mpr ⟨hw, selected_iff.mpr hsat⟩) ((htext w).mpr hid)).1
  · rintro ⟨hmem, hsat, hlatest⟩
    refine ⟨List.mem_filter.mpr ⟨hmem, selected_iff.mpr hsat⟩, ?_⟩
    intro w hw hid
    refine ⟨?_, fun _ => trivial⟩
    obtain ⟨hwmem, hwselected⟩ := List.mem_filter.mp hw
    exact hlatest w hwmem (selected_iff.mp hwselected) ((htext w).mp hid)

private theorem answer_iff {rows ordered : List Video} :
    Answer (datum · .videoId)
        (Foremost coll datum [(.fetchedAt, .desc)] .videoId
          (rows.filter (selected region categoryId fetchedAfter fetchedBefore)))
        (orderLe coll datum [(.viewCount, .desc)]) ordered ↔
      LatestOfEach rows (Satisfies region categoryId fetchedAfter fetchedBefore) ordered := by
  have hinj : Function.Injective Datum.text := fun _ _ => Datum.text.inj
  have hkeys : ∀ l : List Video, l.map (datum · .videoId) = (l.map (·.videoId)).map Datum.text := by
    intro l
    rw [List.map_map]
    rfl
  rw [latestOfEach_iff]
  constructor
  · intro h
    have hnodup := h.nodup
    rw [hkeys, List.nodup_map_iff hinj] at hnodup
    refine ⟨h.ordered.imp fun hle => (orderLe_views coll _ _).mp hle, hnodup,
      fun v hv => (foremost_iff coll).mp (h.sound v hv), ?_⟩
    intro v hv
    have hmem := h.complete v ((foremost_iff coll).mpr hv)
    rw [hkeys] at hmem
    exact (List.mem_map_of_injective hinj).mp hmem
  · intro h
    refine ⟨h.ordered.imp fun hle => (orderLe_views coll _ _).mpr hle, ?_,
      fun v hv => (foremost_iff coll).mpr (h.sound v hv), ?_⟩
    · rw [hkeys, List.nodup_map_iff hinj]
      exact h.nodup
    · intro v hv
      rw [hkeys]
      exact List.mem_map_of_mem (h.complete v ((foremost_iff coll).mp hv))

theorem answers_iff {videos : VideosTable} {limit offset : Int32} (hlimit : 0 ≤ limit)
    (hoffset : 0 ≤ offset) {out : Option (List Video)} :
    Answers coll videos region categoryId fetchedAfter fetchedBefore limit offset out ↔
      ∃ ordered,
        LatestOfEach videos.rows (Satisfies region categoryId fetchedAfter fetchedBefore) ordered ∧
          out = some (((ordered.drop offset.toInt.toNat).take limit.toInt.toNat).map stored) := by
  have hscan : ∀ rs : List Video,
      (rs.mapM fun v => scan (selectList.map (datum v))) = some (rs.map stored) := by
    intro rs
    rw [funext scan_selectList]
    exact List.mapM_pure
  have hbind := bind_statement (filters region categoryId fetchedAfter fetchedBefore)
    limit.toInt offset.toInt
  have hargs := (query_eq region categoryId fetchedAfter fetchedBefore limit offset).2
  have hwhere : ∀ v, Bound.holds datum
      { conditions := filters region categoryId fetchedAfter fetchedBefore
        limit := limit.toInt, offset := offset.toInt } v =
        selected region categoryId fetchedAfter fetchedBefore v :=
    fun v => holds_filters region categoryId fetchedAfter fetchedBefore v _ _
  unfold Answers
  rw [hargs]
  simp only [runs_iff_answer coll datum hbind (Int32.le_iff_toInt_le.mp hlimit)
    (Int32.le_iff_toInt_le.mp hoffset) rfl, funext hwhere]
  constructor
  · rintro ⟨_, ⟨ordered, hanswer, rfl⟩, rfl⟩
    exact ⟨ordered, (answer_iff coll).mp hanswer, hscan _⟩
  · rintro ⟨ordered, hlatest, rfl⟩
    exact ⟨_, ⟨ordered, (answer_iff coll).mpr hlatest, rfl⟩, (hscan _).symm⟩

instance latestFirst_total : Std.Total fun v w : Video => micros w.fetchedAt ≤ micros v.fetchedAt :=
  ⟨fun v w => Int.le_total (micros w.fetchedAt) (micros v.fetchedAt)⟩

instance latestFirst_trans :
    IsTrans Video fun v w => micros w.fetchedAt ≤ micros v.fetchedAt :=
  ⟨fun _ _ _ hvw hwx => Int.le_trans hwx hvw⟩

instance viewedFirst_total : Std.Total fun v w : Video => w.viewCount ≤ v.viewCount :=
  ⟨fun v w => Int64.le_total w.viewCount v.viewCount⟩

instance viewedFirst_trans : IsTrans Video fun v w => w.viewCount ≤ v.viewCount :=
  ⟨fun _ _ _ hvw hwx => Int64.le_trans hwx hvw⟩

/-- The selected rows sorted by time, one kept for each video, and sorted by views. -/
theorem latestOfEach_sorted (rows : List Video) :
    LatestOfEach rows (Satisfies region categoryId fetchedAfter fetchedBefore)
      ((distinctOn (·.videoId)
          ((rows.filter (selected region categoryId fetchedAfter fetchedBefore)).insertionSort
            fun v w => micros w.fetchedAt ≤ micros v.fetchedAt)).insertionSort
        fun v w => w.viewCount ≤ v.viewCount) := by
  have hmem : ∀ v, v ∈ (rows.filter (selected region categoryId fetchedAfter
      fetchedBefore)).insertionSort (fun v w => micros w.fetchedAt ≤ micros v.fetchedAt) ↔
        v ∈ rows ∧ Satisfies region categoryId fetchedAfter fetchedBefore v := by
    intro v
    rw [List.mem_insertionSort, List.mem_filter, selected_iff]
  refine ⟨List.pairwise_insertionSort _ _, ?_, ?_, ?_⟩
  · exact ((List.perm_insertionSort _ _).map _).nodup_iff.mpr (nodup_distinctOn _)
  · intro v hv
    have hkept := (List.mem_insertionSort _).mp hv
    obtain ⟨hrow, hsat⟩ := (hmem v).mp (mem_of_mem_distinctOn hkept)
    refine ⟨hrow, hsat, ?_⟩
    intro w hw hwsat hid
    rcases before_of_mem_distinctOn (List.pairwise_insertionSort _ _) hkept
      ((hmem w).mpr ⟨hw, hwsat⟩) hid with rfl | hle
    · exact Int.le_refl _
    · exact hle
  · intro v hv hsat
    refine ((List.perm_insertionSort _ _).map _).mem_iff.mpr ?_
    exact key_mem_distinctOn _ ((hmem v).mpr ⟨hv, hsat⟩)

theorem answers_getVideos {videos : VideosTable} {limit offset : Int32} (hlimit : 0 ≤ limit)
    (hoffset : 0 ≤ offset) :
    Answers coll videos region categoryId fetchedAfter fetchedBefore limit offset
      (getVideos videos region categoryId fetchedAfter fetchedBefore limit offset) := by
  refine (answers_iff coll hlimit hoffset).mpr ⟨_, latestOfEach_sorted videos.rows, ?_⟩
  have hpage : ¬ (limit < 0 ∨ offset < 0) := by
    rw [Int32.not_lt.symm] at hlimit hoffset
    exact fun h => h.elim hlimit hoffset
  simp only [getVideos, page, if_neg hpage]
  rfl

/-- The text is the statement's. It has an answer, and every answer is a slice of a list
with one latest row for each video that has a row satisfying the filters. -/
theorem getVideos_latest (videos : VideosTable) (region : String) (categoryId : Int32)
    (fetchedAfter fetchedBefore : Time) {limit offset : Int32} (hlimit : 0 ≤ limit)
    (hoffset : 0 ≤ offset) :
    (build region categoryId fetchedAfter fetchedBefore).query =
        statementText (statement (filters region categoryId fetchedAfter fetchedBefore)) ∧
      (∃ out, Answers coll videos region categoryId fetchedAfter fetchedBefore limit offset out) ∧
      ∀ out, Answers coll videos region categoryId fetchedAfter fetchedBefore limit offset out →
        ∃ ordered,
          LatestOfEach videos.rows (Satisfies region categoryId fetchedAfter fetchedBefore)
              ordered ∧
            out = some (((ordered.drop offset.toInt.toNat).take limit.toInt.toNat).map stored) :=
  ⟨(query_eq region categoryId fetchedAfter fetchedBefore limit offset).1,
    ⟨_, answers_getVideos coll hlimit hoffset⟩,
    fun _ hout => (answers_iff coll hlimit hoffset).mp hout⟩

end Coll

def codePoints : Collation where
  le s t := s ≤ t
  total := le_total
  trans _ _ _ := le_trans
  antisymm _ _ := le_antisymm

def snapshot (videoId : String) (viewCount : Int64) : Video where
  videoId := videoId
  jobId := "job-1"
  region := "US"
  fetchedAt := Time.zero
  title := ""
  channelId := ""
  channelTitle := ""
  publishedAt := Time.zero
  categoryId := 0
  viewCount := viewCount
  likeCount := 0
  commentCount := 0

def tiedVideos : VideosTable where
  rows := [snapshot "a" 10, snapshot "b" 10]
  key_nodup := by decide
  category_range := by decide

theorem getVideos_latest_tied :
    ∃ out, Answers codePoints tiedVideos "US" 0 Time.zero Time.zero 1 0 out ∧
      ∃ ordered, LatestOfEach tiedVideos.rows (Satisfies "US" 0 Time.zero Time.zero) ordered ∧
        out = some ((ordered.take 1).map stored) := by
  have hone : (0 : Int32) ≤ 1 := by decide
  obtain ⟨-, ⟨out, hout⟩, hall⟩ :=
    getVideos_latest codePoints tiedVideos "US" 0 Time.zero Time.zero hone (Int32.le_refl 0)
  exact ⟨out, hout, hall out hout⟩

end TrendingPipeline.Store.GetVideos

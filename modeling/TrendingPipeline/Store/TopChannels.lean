/- Unit: TrendingPipeline/Store/TopChannels
   source: backend/db/db.go
   digest: The query GetTopChannels builds, all it may answer, and when it counts channels. -/

import TrendingPipeline.Store.GetVideos
import TrendingPipeline.Store.GroupBy

set_option autoImplicit false
set_option relaxedAutoImplicit false

namespace TrendingPipeline.Store.TopChannels

open TrendingPipeline.Base.Calendar (Time)
open TrendingPipeline.Base.OrderedAnswers
open TrendingPipeline.Store.GetVideos
  (Builder Column Filter codePoints conditionText datum mapM_numbered numbered
    placeholders_numbered values)
open TrendingPipeline.Store.GroupBy
open TrendingPipeline.Store.Queries
open TrendingPipeline.Store.Select
open TrendingPipeline.Store.Tables (VideosTable)
open TrendingPipeline.Youtube.FetchTrending (Video)

def selectClause : String :=
  "\n\t\tSELECT channel_id, channel_title, COUNT(*) as appear_count, " ++
    "SUM(view_count) as total_views\n\t\tFROM videos\n\t\tWHERE 1=1"

def orderCol (sortBy : String) : String :=
  if sortBy = "total_views" then "total_views" else "appear_count"

def build (region : String) : Builder :=
  (Builder.mk selectClause [] 1).filter (region ≠ "") " AND region = $" (.text region)

def query (region sortBy : String) : String :=
  (build region).inner ++
    (" GROUP BY channel_id, channel_title ORDER BY " ++ orderCol sortBy ++ " DESC LIMIT $" ++
      toString (build region).argNum)

def args (region : String) (limit : Int32) : List Datum :=
  (build region).args ++ [.int limit.toInt]

def aliasOf : Aggregate Column → String
  | .count => "appear_count"
  | .sum _ => "total_views"

def aggregateText : Aggregate Column → String
  | .count => "COUNT(*)"
  | .sum column => "SUM(" ++ column.name ++ ")"

def directionText : Direction → String
  | .asc => ""
  | .desc => " DESC"

def statementText (st : GroupedStatement Column) : String :=
  "\n\t\tSELECT " ++
    ", ".intercalate (st.groupColumns.map Column.name ++
      st.aggregates.map fun a => aggregateText a ++ " as " ++ aliasOf a) ++
    "\n\t\tFROM videos\n\t\tWHERE 1=1" ++ String.join (st.conditions.map conditionText) ++
    (" GROUP BY " ++ ", ".intercalate (st.groupColumns.map Column.name) ++ " ORDER BY " ++
      ", ".intercalate (st.order.map fun o => aliasOf o.1 ++ directionText o.2) ++ " LIMIT $" ++
      toString st.limit)

def filters (region : String) : List Filter :=
  if region ≠ "" then [(.region, .eq, .text region)] else []

def orderAggregate (sortBy : String) : Aggregate Column :=
  if sortBy = "total_views" then .sum .viewCount else .count

def statement (filters : List Filter) (sortBy : String) : GroupedStatement Column where
  groupColumns := [.channelId, .channelTitle]
  aggregates := [.count, .sum .viewCount]
  conditions := numbered 1 filters
  order := [(orderAggregate sortBy, .desc)]
  limit := filters.length + 1

/-- The text is that of the statement, and the arguments are the region, if it is a
filter, and the limit. -/
theorem query_eq (region sortBy : String) (limit : Int32) :
    query region sortBy = statementText (statement (filters region) sortBy) ∧
      args region limit = values (filters region) ++ [.int limit.toInt] := by
  have hselect : selectClause = "\n\t\tSELECT " ++
      ", ".intercalate ["channel_id", "channel_title", "COUNT(*) as appear_count",
        "SUM(view_count) as total_views"] ++ "\n\t\tFROM videos\n\t\tWHERE 1=1" := by
    unfold selectClause
    simp
  have horder : orderCol sortBy = aliasOf (orderAggregate sortBy) := by
    unfold orderCol orderAggregate
    split <;> rfl
  by_cases hregion : region = ""
  · subst hregion
    refine ⟨?_, rfl⟩
    unfold query statementText
    rw [horder]
    simp [build, Builder.filter, filters, statement, hselect, numbered, aggregateText, aliasOf,
      directionText, Column.name, String.append_assoc]
  · have hbuild : build region = { inner := selectClause ++ (" AND region = $" ++ toString 1),
                                   args := [.text region], argNum := 2 } := by
      unfold build Builder.filter
      rw [if_pos (by simpa using hregion)]
      rfl
    have hfilters : filters region = [(.region, .eq, .text region)] := if_pos hregion
    unfold query args
    rw [hbuild, hfilters]
    refine ⟨?_, rfl⟩
    unfold statementText
    rw [horder]
    simp [statement, hselect, numbered, conditionText, GetVideos.Comparison.symbol, aggregateText,
      aliasOf, directionText, Column.name, String.append_assoc]

theorem bind_statement (fs : List Filter) (sortBy : String) (limit : ℤ) :
    (statement fs sortBy).bind (values fs ++ [.int limit]) =
      some { conditions := fs, limit := limit, offset := 0 } := by
  have hconditions := mapM_numbered [] [.int limit] fs
  have hlimit : argument (values fs ++ [.int limit]) (fs.length + 1) = some (.int limit) := by
    rw [argument, List.getElem?_append_right (by rw [values, List.length_map]), values,
      List.length_map, Nat.sub_self]
    rfl
  have hused : ∀ n < (values fs ++ [Datum.int limit]).length,
      n + 1 ∈ (numbered 1 fs).map (·.placeholder) ++ [fs.length + 1] := by
    intro n hn
    rw [List.length_append, values, List.length_map] at hn
    have hlt : n < fs.length + 1 := hn
    rw [placeholders_numbered, List.mem_append, List.mem_range'_1, List.mem_singleton]
    omega
  simp only [GroupedStatement.bind, statement]
  simp only [List.length_nil, List.nil_append, Nat.zero_add] at hconditions
  rw [hconditions, hlimit]
  simp only [Option.bind_eq_bind, Option.bind_some, integer]
  exact if_pos hused

/-- The rows of the region; an empty region is any. -/
def matching (region : String) (videos : VideosTable) : List Video :=
  videos.rows.filter fun v => region = "" || v.region = region

theorem holds_filters (region : String) (v : Video) (limit : ℤ) :
    Bound.holds datum { conditions := filters region, limit := limit, offset := 0 } v =
      (region = "" || v.region = region) := by
  unfold Bound.holds filters
  by_cases h : region = "" <;> simp [h, Comparison.holds, datum]

/-- `rows.Scan` into the fields of a `ChannelStat`, by position. -/
def scan : List Datum → Option ChannelStat
  | [.text channelId, .text channelTitle, .int appearCount, .int totalViews] =>
      Group.scan
        { channelId := channelId
          channelTitle := channelTitle
          appearCount := appearCount.toNat
          totalViews := totalViews }
  | _ => none

/-- What `DB.GetTopChannels` may return on a table. -/
def Answers (coll : Collation) (videos : VideosTable) (region : String) (limit : Int32)
    (sortBy : String) (out : Option (List ChannelStat)) : Prop :=
  ∃ rows,
    (statement (filters region) sortBy).Runs datum coll (args region limit) videos.rows rows ∧
      out = rows.bind fun rs => rs.mapM scan

def groupOf (rows : List Video) (v : Video) : Group :=
  let members := rows.filter fun w => (w.channelId, w.channelTitle) = (v.channelId, v.channelTitle)
  { channelId := v.channelId
    channelTitle := v.channelTitle
    appearCount := members.length
    totalViews := (members.map (·.viewCount.toInt)).sum }

def firsts (rows : List Video) : List Video :=
  distinctOn (fun v => (v.channelId, v.channelTitle)) rows

def rowGroupOf (rows : List Video) (v : Video) : RowGroup Video where
  key := [.text v.channelId, .text v.channelTitle]
  members := rows.filter fun w => (w.channelId, w.channelTitle) = (v.channelId, v.channelTitle)

private theorem same_key_iff (v w : Video) :
    [Column.channelId, .channelTitle].map (datum v) =
        [Column.channelId, .channelTitle].map (datum w) ↔
      (v.channelId, v.channelTitle) = (w.channelId, w.channelTitle) := by
  simp [datum]

private theorem rowGroups_eq (rows : List Video) :
    rowGroups datum [.channelId, .channelTitle] rows = (firsts rows).map (rowGroupOf rows) := by
  rw [rowGroups, distinctOn_congr same_key_iff, firsts]
  refine List.map_congr_left ?_
  intro v _
  refine congrArg (RowGroup.mk _) (List.filter_congr ?_)
  intro w _
  rw [decide_eq_decide]
  exact same_key_iff w v

def groupStatistic (sortBy : String) (g : Group) : ℤ :=
  if sortBy = "total_views" then g.totalViews else g.appearCount

private theorem value_orderAggregate (rows : List Video) (sortBy : String) (v : Video) :
    Aggregate.value datum (rowGroupOf rows v).members (orderAggregate sortBy) =
      .int (groupStatistic sortBy (groupOf rows v)) := by
  unfold orderAggregate groupStatistic
  split <;> rfl

def NoFewer (sortBy : String) (g h : Group) : Prop :=
  groupStatistic sortBy h ≤ groupStatistic sortBy g

instance (sortBy : String) : DecidableRel (NoFewer sortBy) :=
  fun g h => inferInstanceAs (Decidable (groupStatistic sortBy h ≤ groupStatistic sortBy g))

instance (sortBy : String) : Std.Total (NoFewer sortBy) where
  total g h := le_total (groupStatistic sortBy h) (groupStatistic sortBy g)

instance (sortBy : String) : IsTrans Group (NoFewer sortBy) where
  trans _ _ _ hgh hhk := le_trans hhk hgh

/-- The answers: the groups in any order that puts more before less, cut off and scanned. -/
theorem answers_iff {coll : Collation} {videos : VideosTable} {region : String} {limit : Int32}
    (hlimit : 0 ≤ limit) {sortBy : String} {out : Option (List ChannelStat)} :
    Answers coll videos region limit sortBy out ↔
      ∃ ordered, OrdersBy (NoFewer sortBy) (channelGroups (matching region videos)) ordered ∧
        out = (ordered.take limit.toInt.toNat).mapM Group.scan := by
  have hnonneg : ¬ limit.toInt < 0 := by
    have hle : (0 : Int32).toInt ≤ limit.toInt := Int32.le_iff_toInt_le.mp hlimit
    simpa using hle
  have hrows : videos.rows.filter
      (Bound.holds datum { conditions := filters region, limit := limit.toInt, offset := 0 }) =
        matching region videos :=
    List.filter_congr fun v _ => holds_filters region v _
  have horder : ∀ v w, NoFewer sortBy (groupOf (matching region videos) v)
        (groupOf (matching region videos) w) ↔
      orderLe coll (fun (g : RowGroup Video) a => Aggregate.value datum g.members a)
        [(orderAggregate sortBy, .desc)] (rowGroupOf (matching region videos) v)
        (rowGroupOf (matching region videos) w) := by
    intro v w
    simp only [orderLe, value_orderAggregate, Direction.le, Datum.le, implies_true, and_true]
    rfl
  have hscan : ∀ l : List Video,
      ((l.map (rowGroupOf (matching region videos))).map
          ((statement (filters region) sortBy).output datum)).mapM scan =
        (l.map (groupOf (matching region videos))).mapM Group.scan := by
    intro l
    rw [List.mapM_map, List.mapM_map, List.mapM_map]
    rfl
  have hgroups : channelGroups (matching region videos) =
      (firsts (matching region videos)).map (groupOf (matching region videos)) := rfl
  unfold Answers
  rw [(query_eq region sortBy limit).2]
  simp only [GroupedStatement.Runs, bind_statement, if_neg hnonneg, hrows]
  have hcolumns : (statement (filters region) sortBy).groupColumns = [.channelId, .channelTitle] :=
    rfl
  have horders : (statement (filters region) sortBy).order = [(orderAggregate sortBy, .desc)] := rfl
  rw [hcolumns, horders, rowGroups_eq, hgroups]
  simp only [ordersBy_map_iff]
  constructor
  · rintro ⟨_, ⟨_, ⟨reps, hreps, rfl⟩, rfl⟩, rfl⟩
    refine ⟨_, ⟨reps, ⟨hreps.perm, hreps.ordered.imp fun h => (horder _ _).mpr h⟩, rfl⟩, ?_⟩
    rw [Option.bind_some, ← List.map_take, ← List.map_take, hscan]
  · rintro ⟨_, ⟨reps, hreps, rfl⟩, rfl⟩
    refine ⟨_, ⟨_, ⟨reps, ⟨hreps.perm, ?_⟩, rfl⟩, rfl⟩, ?_⟩
    · exact hreps.ordered.imp fun h => (horder _ _).mp h
    · rw [Option.bind_some, ← List.map_take, ← List.map_take, hscan]

theorem answers_getTopChannels (coll : Collation) (videos : VideosTable) (region : String)
    {limit : Int32} (hlimit : 0 ≤ limit) (sortBy : String) :
    Answers coll videos region limit sortBy (getTopChannels videos region limit sortBy) := by
  refine (answers_iff hlimit).mpr
    ⟨(channelGroups (matching region videos)).insertionSort (NoFewer sortBy),
      ⟨List.perm_insertionSort _ _, List.pairwise_insertionSort _ _⟩, ?_⟩
  have hpage : ¬ (limit < 0 ∨ (0 : Int32) < 0) := by
    rintro (h | h)
    · exact Int32.not_lt.mpr hlimit h
    · exact absurd h (by decide)
  simp only [getTopChannels, page, if_neg hpage]
  rfl

def ofChannel (rows : List Video) (channelId : String) : List Video :=
  rows.filter (·.channelId = channelId)

def channelTotal (sortBy : String) (rows : List Video) (channelId : String) : ℤ :=
  if sortBy = "total_views" then ((ofChannel rows channelId).map (·.viewCount.toInt)).sum
  else (ofChannel rows channelId).length

def statistic (sortBy : String) (s : ChannelStat) : ℤ :=
  if sortBy = "total_views" then s.totalViews.toInt else s.appearCount.toInt

/-- The first `n` channels, each with the numbers of all its rows. -/
structure PerChannel (sortBy : String) (rows : List Video) (n : ℕ) (stats : List ChannelStat) :
    Prop where
  distinct : (stats.map (·.channelId)).Nodup
  listed : ∀ s ∈ stats, s.channelId ∈ rows.map (·.channelId)
  appearCount : ∀ s ∈ stats, s.appearCount.toInt = (ofChannel rows s.channelId).length
  totalViews : ∀ s ∈ stats,
    s.totalViews.toInt = ((ofChannel rows s.channelId).map (·.viewCount.toInt)).sum
  ordered : stats.Pairwise fun s t => statistic sortBy t ≤ statistic sortBy s
  length : stats.length = min n (rows.map (·.channelId)).dedup.length
  leftOut : ∀ v ∈ rows, v.channelId ∉ stats.map (·.channelId) →
    ∀ s ∈ stats, channelTotal sortBy rows v.channelId ≤ statistic sortBy s

def ManyTitles (rows : List Video) (channelId : String) : Prop :=
  ∃ v ∈ rows, ∃ w ∈ rows,
    v.channelId = channelId ∧ w.channelId = channelId ∧ v.channelTitle ≠ w.channelTitle

/-- Fewer than `n` groups have a larger statistic. -/
def MayReturn (sortBy : String) (rows : List Video) (n : ℕ) (g : Group) : Prop :=
  g ∈ channelGroups rows ∧
    (channelGroups rows).countP (fun h => groupStatistic sortBy g < groupStatistic sortBy h) < n

/-- The group is a whole channel whose numbers fit in 64 bits, and no channel with several
titles has a larger statistic. -/
structure Whole (sortBy : String) (rows : List Video) (g : Group) : Prop where
  oneTitle : ∀ v ∈ rows, v.channelId = g.channelId → v.channelTitle = g.channelTitle
  countFits : g.appearCount < 2 ^ 63
  viewsFit : -2 ^ 63 ≤ g.totalViews ∧ g.totalViews < 2 ^ 63
  largest : ∀ v ∈ rows, ManyTitles rows v.channelId →
    channelTotal sortBy rows v.channelId ≤ groupStatistic sortBy g

section Groups

variable {rows : List Video} {sortBy : String} {n : ℕ}

theorem exists_of_mem_channelGroups {g : Group} (h : g ∈ channelGroups rows) :
    ∃ v ∈ rows, groupOf rows v = g := by
  obtain ⟨v, hv, rfl⟩ := List.mem_map.mp h
  exact ⟨v, mem_of_mem_distinctOn hv, rfl⟩

private theorem groupOf_mem {v : Video} (hv : v ∈ rows) : groupOf rows v ∈ channelGroups rows := by
  have hkey := key_mem_distinctOn (fun w : Video => (w.channelId, w.channelTitle)) hv
  obtain ⟨w, hw, heq⟩ := List.mem_map.mp hkey
  refine List.mem_map.mpr ⟨w, hw, ?_⟩
  obtain ⟨hid, htitle⟩ := Prod.mk.inj heq
  unfold groupOf
  simp only [hid, htitle]

private theorem nodup_channelGroups (rows : List Video) :
    ((channelGroups rows).map fun g => (g.channelId, g.channelTitle)).Nodup := by
  rw [channelGroups, List.map_map]
  exact nodup_distinctOn rows

private theorem members_eq (v : Video) :
    rows.filter (fun w => (w.channelId, w.channelTitle) = (v.channelId, v.channelTitle)) =
      (ofChannel rows v.channelId).filter fun w => w.channelTitle = v.channelTitle := by
  rw [ofChannel, List.filter_filter]
  refine List.filter_congr ?_
  intro w _
  rw [← Bool.decide_and, decide_eq_decide, Prod.mk.injEq, and_comm]

/-- A group counts as many rows as its channel has exactly when the channel has no
other title. -/
private theorem appearCount_eq_iff (v : Video) :
    (groupOf rows v).appearCount = (ofChannel rows v.channelId).length ↔
      ∀ w ∈ rows, w.channelId = v.channelId → w.channelTitle = v.channelTitle := by
  have hcount : (groupOf rows v).appearCount =
      ((ofChannel rows v.channelId).filter fun w => w.channelTitle = v.channelTitle).length :=
    congrArg List.length (members_eq v)
  rw [hcount, List.length_filter_eq_length_iff]
  simp only [ofChannel, List.mem_filter, decide_eq_true_eq, and_imp]

private theorem totalViews_of_oneTitle {v : Video}
    (h : ∀ w ∈ rows, w.channelId = v.channelId → w.channelTitle = v.channelTitle) :
    (groupOf rows v).totalViews = ((ofChannel rows v.channelId).map (·.viewCount.toInt)).sum := by
  change ((rows.filter _).map (·.viewCount.toInt)).sum = _
  rw [members_eq, List.filter_eq_self.mpr]
  intro w hw
  obtain ⟨hrow, hid⟩ := List.mem_filter.mp hw
  exact decide_eq_true (h w hrow (of_decide_eq_true hid))

private theorem groupStatistic_of_oneTitle {v : Video}
    (h : ∀ w ∈ rows, w.channelId = v.channelId → w.channelTitle = v.channelTitle) :
    groupStatistic sortBy (groupOf rows v) = channelTotal sortBy rows v.channelId := by
  unfold groupStatistic channelTotal
  rw [totalViews_of_oneTitle h, (appearCount_eq_iff v).mpr h]

private theorem mayReturn_iff {g : Group} :
    MayReturn sortBy rows n g ↔
      ∃ ordered, OrdersBy (NoFewer sortBy) (channelGroups rows) ordered ∧ g ∈ ordered.take n := by
  rw [mem_take_iff_countP, MayReturn]
  refine and_congr_right fun _ => ?_
  simp only [NoFewer, not_le]

end Groups

/-- The `ChannelStat` of a group. -/
def toStat (g : Group) : ChannelStat where
  channelId := g.channelId
  channelTitle := g.channelTitle
  appearCount := Int64.ofNat g.appearCount
  totalViews := Int64.ofInt g.totalViews

theorem mapM_scan_iff {groups : List Group} {stats : List ChannelStat} :
    groups.mapM Group.scan = some stats ↔
      (∀ g ∈ groups, -2 ^ 63 ≤ g.totalViews ∧ g.totalViews < 2 ^ 63) ∧
        stats = groups.map toStat := by
  induction groups generalizing stats with
  | nil => simp [eq_comm]
  | cons g gs ih =>
      rw [List.mapM_cons, List.forall_mem_cons, List.map_cons]
      by_cases hfits : -2 ^ 63 ≤ g.totalViews ∧ g.totalViews < 2 ^ 63
      · have hscan : g.scan = some (toStat g) := if_pos hfits
        rw [hscan, Option.bind_eq_bind, Option.bind_some]
        constructor
        · intro h
          obtain ⟨rest, hrest, heq⟩ := Option.bind_eq_some_iff.mp h
          obtain ⟨hall, rfl⟩ := ih.mp hrest
          exact ⟨⟨hfits, hall⟩, (Option.some.inj heq).symm⟩
        · rintro ⟨⟨-, hall⟩, rfl⟩
          rw [ih.mpr ⟨hall, rfl⟩]
          rfl
      · have hscan : g.scan = none := if_neg hfits
        rw [hscan]
        constructor
        · nofun
        · exact fun h => absurd h.1.1 hfits

theorem toInt_appearCount {g : Group} (h : g.appearCount < 2 ^ 63) :
    (toStat g).appearCount.toInt = g.appearCount :=
  Int64.toInt_ofNat_of_lt h

theorem toInt_totalViews {g : Group} (h : -2 ^ 63 ≤ g.totalViews ∧ g.totalViews < 2 ^ 63) :
    (toStat g).totalViews.toInt = g.totalViews :=
  Int64.toInt_ofInt_of_le h.1 h.2

private theorem statistic_toStat {sortBy : String} {g : Group} (hcount : g.appearCount < 2 ^ 63)
    (hviews : -2 ^ 63 ≤ g.totalViews ∧ g.totalViews < 2 ^ 63) :
    statistic sortBy (toStat g) = groupStatistic sortBy g := by
  unfold statistic groupStatistic
  rw [toInt_appearCount hcount, toInt_totalViews hviews]

section Channels

variable {rows : List Video} {sortBy : String} {n : ℕ} {ordered : List Group}

private theorem nodup_channelId (hordered : OrdersBy (NoFewer sortBy) (channelGroups rows) ordered)
    (hwhole : ∀ g ∈ ordered.take n, Whole sortBy rows g) :
    ((ordered.take n).map (·.channelId)).Nodup := by
  have hkeys : ((ordered.take n).map fun g => (g.channelId, g.channelTitle)).Nodup := by
    rw [List.map_take]
    exact ((hordered.perm.map _).nodup_iff.mpr (nodup_channelGroups rows)).sublist
      (List.take_sublist _ _)
  refine hkeys.of_map.map_on ?_
  intro g hg h hh hid
  obtain ⟨v, hv, rfl⟩ :=
    exists_of_mem_channelGroups (hordered.perm.mem_iff.mp (List.mem_of_mem_take hg))
  have htitle : (groupOf rows v).channelTitle = h.channelTitle := (hwhole h hh).oneTitle v hv hid
  exact List.inj_on_of_nodup_map hkeys hg hh (Prod.ext hid htitle)

/-- Either there are `n` channels, or every group is returned, and then a channel has
one group only. -/
theorem length_take (hordered : OrdersBy (NoFewer sortBy) (channelGroups rows) ordered)
    (hwhole : ∀ g ∈ ordered.take n, Whole sortBy rows g) :
    (ordered.take n).length = min n (rows.map (·.channelId)).dedup.length := by
  have hsubset : (ordered.take n).map (·.channelId) ⊆ (rows.map (·.channelId)).dedup := by
    intro id hid
    obtain ⟨g, hg, rfl⟩ := List.mem_map.mp hid
    obtain ⟨v, hv, rfl⟩ :=
      exists_of_mem_channelGroups (hordered.perm.mem_iff.mp (List.mem_of_mem_take hg))
    exact List.mem_dedup.mpr (List.mem_map_of_mem hv)
  have hle := ((nodup_channelId hordered hwhole).subperm hsubset).length_le
  have hsupset : (rows.map (·.channelId)).dedup ⊆ ordered.map (·.channelId) := by
    intro id hid
    obtain ⟨v, hv, rfl⟩ := List.mem_map.mp (List.mem_dedup.mp hid)
    exact List.mem_map_of_mem (f := (·.channelId)) (hordered.perm.mem_iff.mpr (groupOf_mem hv))
  have hge := ((List.nodup_dedup (rows.map (·.channelId))).subperm hsupset).length_le
  rw [List.length_map, List.length_take] at hle
  rw [List.length_map] at hge
  rw [List.length_take]
  omega

private theorem noFewer_of_hidden
    (hordered : OrdersBy (NoFewer sortBy) (channelGroups rows) ordered)
    {g : Group} (hg : g ∈ ordered.take n) {v : Video} (hv : v ∈ rows)
    (hout : v.channelId ∉ (ordered.take n).map (·.channelId)) :
    NoFewer sortBy g (groupOf rows v) := by
  have hmem : groupOf rows v ∈ ordered := hordered.perm.mem_iff.mpr (groupOf_mem hv)
  have hsplit := hordered.ordered
  rw [← List.take_append_drop n ordered] at hmem
  rw [← List.take_append_drop n ordered, List.pairwise_append] at hsplit
  have hlate : groupOf rows v ∈ ordered.drop n :=
    (List.mem_append.mp hmem).resolve_left fun hearly =>
      hout (List.mem_map_of_mem (f := (·.channelId)) hearly)
  exact hsplit.2.2 g hg _ hlate

private theorem perChannel_of_whole
    (hordered : OrdersBy (NoFewer sortBy) (channelGroups rows) ordered)
    (hwhole : ∀ g ∈ ordered.take n, Whole sortBy rows g) :
    PerChannel sortBy rows n ((ordered.take n).map toStat) := by
  have hof : ∀ s ∈ (ordered.take n).map toStat, ∃ v ∈ rows, groupOf rows v ∈ ordered.take n ∧
      toStat (groupOf rows v) = s := by
    intro s hs
    obtain ⟨g, hg, rfl⟩ := List.mem_map.mp hs
    obtain ⟨v, hv, rfl⟩ :=
      exists_of_mem_channelGroups (hordered.perm.mem_iff.mp (List.mem_of_mem_take hg))
    exact ⟨v, hv, hg, rfl⟩
  have hids : ((ordered.take n).map toStat).map (·.channelId) =
      (ordered.take n).map (·.channelId) := by
    rw [List.map_map]
    rfl
  refine ⟨?_, ?_, ?_, ?_, ?_, ?_, ?_⟩
  · rw [hids]
    exact nodup_channelId hordered hwhole
  · intro s hs
    obtain ⟨v, hv, -, rfl⟩ := hof s hs
    exact List.mem_map_of_mem hv
  · intro s hs
    obtain ⟨v, -, hg, rfl⟩ := hof s hs
    rw [toInt_appearCount (hwhole _ hg).countFits,
      (appearCount_eq_iff v).mpr (hwhole _ hg).oneTitle]
    rfl
  · intro s hs
    obtain ⟨v, -, hg, rfl⟩ := hof s hs
    rw [toInt_totalViews (hwhole _ hg).viewsFit, totalViews_of_oneTitle (hwhole _ hg).oneTitle]
    rfl
  · rw [List.pairwise_map]
    refine (hordered.ordered.sublist (List.take_sublist n ordered)).imp_of_mem ?_
    intro g h hg hh hle
    rw [statistic_toStat (hwhole g hg).countFits (hwhole g hg).viewsFit,
      statistic_toStat (hwhole h hh).countFits (hwhole h hh).viewsFit]
    exact hle
  · rw [List.length_map]
    exact length_take hordered hwhole
  · intro v hv hout s hs
    obtain ⟨g, hg, rfl⟩ := List.mem_map.mp hs
    rw [statistic_toStat (hwhole g hg).countFits (hwhole g hg).viewsFit]
    by_cases hmany : ManyTitles rows v.channelId
    · exact (hwhole g hg).largest v hv hmany
    · -- its one group comes after the first `n`
      have hone : ∀ w ∈ rows, w.channelId = v.channelId → w.channelTitle = v.channelTitle := by
        intro w hw hid
        by_contra hne
        exact hmany ⟨w, hw, v, hv, hid, rfl, hne⟩
      rw [hids] at hout
      rw [← groupStatistic_of_oneTitle hone]
      exact noFewer_of_hidden hordered hg hv hout

/-- A group scanned with the count of its channel fits, and the channel has no other title. -/
private theorem oneTitle_of_appearCount {v : Video}
    (h : (toStat (groupOf rows v)).appearCount.toInt = (ofChannel rows v.channelId).length) :
    (groupOf rows v).appearCount < 2 ^ 63 ∧
      ∀ w ∈ rows, w.channelId = v.channelId → w.channelTitle = v.channelTitle := by
  have hle : (groupOf rows v).appearCount ≤ (ofChannel rows v.channelId).length := by
    refine le_of_eq_of_le (congrArg List.length (members_eq v)) ?_
    exact List.length_filter_le _ _
  have hlt := (toStat (groupOf rows v)).appearCount.toInt_lt
  have hfits : (groupOf rows v).appearCount < 2 ^ 63 := by omega
  rw [toInt_appearCount hfits] at h
  exact ⟨hfits, (appearCount_eq_iff v).mp (by omega)⟩

private theorem whole_of_perChannel
    (hordered : OrdersBy (NoFewer sortBy) (channelGroups rows) ordered)
    (hfits : ∀ g ∈ ordered.take n, -2 ^ 63 ≤ g.totalViews ∧ g.totalViews < 2 ^ 63)
    (hstats : PerChannel sortBy rows n ((ordered.take n).map toStat)) {g : Group}
    (hg : g ∈ ordered.take n) : Whole sortBy rows g := by
  have hcount : ∀ v, groupOf rows v ∈ ordered.take n →
      (groupOf rows v).appearCount < 2 ^ 63 ∧
        ∀ w ∈ rows, w.channelId = v.channelId → w.channelTitle = v.channelTitle := by
    intro v hv
    exact oneTitle_of_appearCount (hstats.appearCount _ (List.mem_map_of_mem hv))
  obtain ⟨v, hv, rfl⟩ :=
    exists_of_mem_channelGroups (hordered.perm.mem_iff.mp (List.mem_of_mem_take hg))
  obtain ⟨hlt, hone⟩ := hcount v hg
  refine ⟨hone, hlt, hfits _ hg, ?_⟩
  rintro w hw ⟨x, hx, y, hy, hxid, hyid, hne⟩
  rw [← statistic_toStat hlt (hfits _ hg)]
  refine hstats.leftOut w hw ?_ _ (List.mem_map_of_mem hg)
  -- a channel with several titles is not among those returned
  intro hid
  obtain ⟨s, hs, hsid⟩ := List.mem_map.mp hid
  obtain ⟨g, hg', rfl⟩ := List.mem_map.mp hs
  obtain ⟨u, -, rfl⟩ :=
    exists_of_mem_channelGroups (hordered.perm.mem_iff.mp (List.mem_of_mem_take hg'))
  have htitle := (hcount u hg').2
  exact hne ((htitle x hx (hxid.trans hsid.symm)).trans (htitle y hy (hyid.trans hsid.symm)).symm)

end Channels

/-- Every answer has the first channels, each with the numbers of all its rows: exactly
when every group that may be returned is a whole channel, fits, and is not below a channel
with several titles. -/
theorem perChannel_iff_whole (coll : Collation) (videos : VideosTable) (region : String)
    {limit : Int32} (hlimit : 0 ≤ limit) (sortBy : String) :
    (∀ out, Answers coll videos region limit sortBy out →
        ∃ stats, out = some stats ∧
          PerChannel sortBy (matching region videos) limit.toInt.toNat stats) ↔
      ∀ g, MayReturn sortBy (matching region videos) limit.toInt.toNat g →
        Whole sortBy (matching region videos) g := by
  constructor
  · intro hall g hg
    obtain ⟨ordered, hordered, hmem⟩ := mayReturn_iff.mp hg
    obtain ⟨stats, hout, hstats⟩ := hall _ ((answers_iff hlimit).mpr ⟨ordered, hordered, rfl⟩)
    obtain ⟨hfits, rfl⟩ := mapM_scan_iff.mp hout
    exact whole_of_perChannel hordered hfits hstats hmem
  · intro hwhole out hout
    obtain ⟨ordered, hordered, rfl⟩ := (answers_iff hlimit).mp hout
    have hfirst : ∀ g ∈ ordered.take limit.toInt.toNat,
        Whole sortBy (matching region videos) g :=
      fun g hg => hwhole g (mayReturn_iff.mpr ⟨ordered, hordered, hg⟩)
    exact ⟨_, mapM_scan_iff.mpr ⟨fun g hg => (hfirst g hg).viewsFit, rfl⟩,
      perChannel_of_whole hordered hfirst⟩

def entry (videoId channelId channelTitle : String) (viewCount : Int64) : Video where
  videoId := videoId
  jobId := "job-1"
  region := "US"
  fetchedAt := Time.zero
  title := ""
  channelId := channelId
  channelTitle := channelTitle
  publishedAt := Time.zero
  categoryId := 0
  viewCount := viewCount
  likeCount := 0
  commentCount := 0

def twoChannels : VideosTable where
  rows := [entry "a" "UC1" "One" 10, entry "b" "UC1" "One" 20, entry "c" "UC2" "Two" 40]
  key_nodup := by decide
  category_range := by decide

theorem perChannel_iff_whole_twoChannels :
    (0 : Int32) ≤ 1 ∧
      ∀ out, Answers codePoints twoChannels "US" 1 "total_views" out →
        ∃ stats, out = some stats ∧
          PerChannel "total_views" (matching "US" twoChannels) (1 : Int32).toInt.toNat stats := by
  have hone : (0 : Int32) ≤ 1 := by decide
  have hrows : matching "US" twoChannels = twoChannels.rows := by decide
  refine ⟨hone, (perChannel_iff_whole codePoints twoChannels "US" hone "total_views").mpr ?_⟩
  rintro g ⟨hg, -⟩
  rw [hrows] at hg ⊢
  have htitles : ∀ v ∈ twoChannels.rows, ∀ w ∈ twoChannels.rows, v.channelId = w.channelId →
      v.channelTitle = w.channelTitle := by decide
  obtain ⟨v, hv, rfl⟩ := exists_of_mem_channelGroups hg
  have hsizes : ∀ v ∈ twoChannels.rows, (groupOf twoChannels.rows v).appearCount < 2 ^ 63 ∧
      -2 ^ 63 ≤ (groupOf twoChannels.rows v).totalViews ∧
        (groupOf twoChannels.rows v).totalViews < 2 ^ 63 := by decide
  refine ⟨fun w hw hid => htitles w hw v hv hid, (hsizes v hv).1, (hsizes v hv).2, ?_⟩
  rintro _ _ ⟨x, hx, y, hy, hxid, hyid, hne⟩
  exact absurd (htitles x hx y hy (hxid.trans hyid.symm)) hne

def renamed : VideosTable where
  rows := [entry "b" "UC1" "New name" 20, entry "a" "UC1" "Old name" 10]
  key_nodup := by decide
  category_range := by decide

/-- It is returned twice, with one row and a part of its views each time. -/
theorem renamed_counted_twice :
    Answers codePoints renamed "US" 10 "appear_count"
        (some [⟨"UC1", "New name", 1, 20⟩, ⟨"UC1", "Old name", 1, 10⟩]) ∧
      ¬ ∀ out, Answers codePoints renamed "US" 10 "appear_count" out →
        ∃ stats, out = some stats ∧
          PerChannel "appear_count" (matching "US" renamed) (10 : Int32).toInt.toNat stats := by
  have hten : (0 : Int32) ≤ 10 := by decide
  have hanswer := answers_getTopChannels codePoints renamed "US" hten "appear_count"
  have hout : getTopChannels renamed "US" 10 "appear_count" =
      some [⟨"UC1", "New name", 1, 20⟩, ⟨"UC1", "Old name", 1, 10⟩] := by decide
  rw [hout] at hanswer
  refine ⟨hanswer, ?_⟩
  intro hall
  obtain ⟨stats, heq, hstats⟩ := hall _ hanswer
  obtain rfl := Option.some.inj heq
  exact absurd hstats.distinct (by decide)

end TrendingPipeline.Store.TopChannels

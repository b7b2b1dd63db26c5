/- Unit: TrendingPipeline/Store/Agreement
   source: backend/db/db.go
   digest: The counts and sums that different queries give of one table agree. -/

import Mathlib.Algebra.BigOperators.Ring.Finset
import TrendingPipeline.Base.Grouping
import TrendingPipeline.Store.TopChannels
import TrendingPipeline.Store.Trends

set_option autoImplicit false
set_option relaxedAutoImplicit false

namespace TrendingPipeline.Store.Agreement

open TrendingPipeline.Base.Grouping
open TrendingPipeline.Store.Queries
open TrendingPipeline.Store.Select
open TrendingPipeline.Store.Tables (VideosTable)
open TrendingPipeline.Store.TopChannels
open TrendingPipeline.Store.Trends (RegionsAnswer)
open TrendingPipeline.Youtube.FetchTrending (Video)

variable {coll : Collation} {videos : VideosTable} {region sortBy : String} {limit : Int32}
  {rows : List Video} {stats : List ChannelStat}

def channelKey (v : Video) : String × String := (v.channelId, v.channelTitle)

private theorem key_mem_firsts (rows : List Video) :
    ∀ v ∈ rows, channelKey v ∈ (firsts rows).map channelKey :=
  fun _ hv => key_mem_distinctOn channelKey hv

private theorem sum_groups {M : Type} [AddCommMonoid M] (weight : Video → M) (rows : List Video) :
    ((firsts rows).map fun v => fiberSum channelKey weight rows (channelKey v)).sum =
      (rows.map weight).sum := by
  have hkeys : ((firsts rows).map fun v => fiberSum channelKey weight rows (channelKey v)) =
      ((firsts rows).map channelKey).map (fiberSum channelKey weight rows) := by
    rw [List.map_map]
    rfl
  rw [hkeys]
  exact sum_fiberSum channelKey weight (nodup_distinctOn rows) (key_mem_firsts rows)

private theorem sum_appearCount (rows : List Video) :
    ((channelGroups rows).map (·.appearCount)).sum = rows.length := by
  have hkeys : (channelGroups rows).map (·.appearCount) =
      ((firsts rows).map channelKey).map fun k =>
        (rows.filter fun w => channelKey w = k).length := by
    rw [List.map_map, channelGroups, List.map_map]
    rfl
  rw [hkeys]
  exact sum_length_filter channelKey (nodup_distinctOn rows) (key_mem_firsts rows)

private theorem sum_totalViews (rows : List Video) :
    ((channelGroups rows).map (·.totalViews)).sum = (rows.map (·.viewCount.toInt)).sum := by
  have hgroups := sum_groups (fun v => v.viewCount.toInt) rows
  rw [← hgroups, channelGroups, List.map_map]
  rfl

def appearances (stats : List ChannelStat) : ℤ := (stats.map (·.appearCount.toInt)).sum

def views (stats : List ChannelStat) : ℤ := (stats.map (·.totalViews.toInt)).sum

def Uncut (limit : Int32) (stats : List ChannelStat) : Prop := stats.length < limit.toInt

instance (limit : Int32) (stats : List ChannelStat) : Decidable (Uncut limit stats) :=
  inferInstanceAs (Decidable (_ < _))

private theorem exists_groups (hanswer : Answers coll videos region limit sortBy (some stats))
    (huncut : Uncut limit stats) :
    ∃ groups : List Group, groups.Perm (channelGroups (matching region videos)) ∧
      (∀ g ∈ groups, -2 ^ 63 ≤ g.totalViews ∧ g.totalViews < 2 ^ 63) ∧
        stats = groups.map toStat := by
  unfold Uncut at huncut
  have hlimit : 0 ≤ limit := by
    rw [Int32.le_iff_toInt_le]
    have hzero : (0 : Int32).toInt = 0 := rfl
    omega
  obtain ⟨ordered, hordered, hout⟩ := (answers_iff hlimit).mp hanswer
  obtain ⟨hfits, hstats⟩ := mapM_scan_iff.mp hout.symm
  have hlength := congrArg List.length hstats
  rw [List.length_map, List.length_take] at hlength
  have hwhole : ordered.take limit.toInt.toNat = ordered := List.take_of_length_le (by omega)
  rw [hwhole] at hfits hstats
  exact ⟨ordered, hordered.perm, hfits, hstats⟩

private theorem appearCount_le {g : Group} (hg : g ∈ channelGroups rows) :
    g.appearCount ≤ rows.length := by
  obtain ⟨v, -, rfl⟩ := exists_of_mem_channelGroups hg
  exact List.length_filter_le _ _

private theorem totals_of_answer (hsmall : videos.rows.length < 2 ^ 63)
    (hanswer : Answers coll videos region limit sortBy (some stats)) (huncut : Uncut limit stats) :
    appearances stats = (matching region videos).length ∧
      views stats = ((matching region videos).map (·.viewCount.toInt)).sum := by
  obtain ⟨groups, hperm, hfits, rfl⟩ := exists_groups hanswer huncut
  have hrows : (matching region videos).length ≤ videos.rows.length := List.length_filter_le _ _
  have hcount : ∀ g ∈ groups, (toStat g).appearCount.toInt = g.appearCount := by
    intro g hg
    have hle := appearCount_le (hperm.mem_iff.mp hg)
    exact toInt_appearCount (by omega)
  constructor
  · have hsum := (hperm.map (·.appearCount)).sum_eq
    rw [sum_appearCount] at hsum
    rw [appearances, List.map_map, ← hsum, Nat.cast_list_sum, List.map_map]
    exact congrArg List.sum (List.map_congr_left hcount)
  · have hsum := (hperm.map (·.totalViews)).sum_eq
    rw [sum_totalViews] at hsum
    rw [views, List.map_map, ← hsum]
    exact congrArg List.sum (List.map_congr_left fun g hg => toInt_totalViews (hfits g hg))

private theorem matching_any : matching "" videos = videos.rows := by
  rw [matching]
  exact List.filter_eq_self.mpr fun _ _ => rfl

private theorem matching_of_ne (h : region ≠ "") :
    matching region videos = videos.rows.filter (·.region = region) := by
  rw [matching]
  refine List.filter_congr fun v _ => ?_
  rw [decide_eq_false h, Bool.false_or]

/-- However the databases break ties, whatever each list is sorted by: over the tracked
regions the listed channels count each row of the table once and add up all its views, and
so does the list for all regions, as long as no LIMIT cuts a list off. A tracked region
without a name would count every row again. -/
theorem totals_agree {count : Int64} {regions : List String}
    (hregions : RegionsAnswer videos count regions) (hnamed : "" ∉ regions)
    (hsmall : videos.rows.length < 2 ^ 63) {sorting : String → String}
    {lists : String → List ChannelStat}
    (hlists : ∀ region ∈ "" :: regions,
      Answers coll videos region limit (sorting region) (some (lists region)) ∧
        Uncut limit (lists region)) :
    (regions.map fun region => appearances (lists region)).sum = (getVideoCount videos).toInt ∧
      appearances (lists "") = (getVideoCount videos).toInt ∧
        (regions.map fun region => views (lists region)).sum = views (lists "") := by
  obtain ⟨⟨hall, hcut⟩, heach⟩ := List.forall_mem_cons.mp hlists
  obtain ⟨hrows, hviews⟩ := totals_of_answer hsmall hall hcut
  rw [matching_any] at hrows hviews
  have hcount : (getVideoCount videos).toInt = videos.rows.length :=
    Int64.toInt_ofNat_of_lt hsmall
  have hcover : ∀ v ∈ videos.rows, v.region ∈ regions :=
    fun v hv => hregions.mem_iff.mpr ⟨v, hv, rfl⟩
  have hregion : ∀ region ∈ regions, matching region videos =
      videos.rows.filter (·.region = region) := by
    intro region hmem
    refine matching_of_ne ?_
    rintro rfl
    exact hnamed hmem
  refine ⟨?_, hrows.trans hcount.symm, ?_⟩
  · have hsplit := sum_length_filter (fun v : Video => v.region) hregions.nodup hcover
    rw [hcount, ← hsplit, Nat.cast_list_sum, List.map_map]
    refine congrArg List.sum (List.map_congr_left fun region hmem => ?_)
    obtain ⟨hanswer, huncut⟩ := heach region hmem
    rw [(totals_of_answer hsmall hanswer huncut).1, hregion region hmem]
    rfl
  · have hsplit := sum_fiberSum (fun v : Video => v.region) (fun v => v.viewCount.toInt)
      hregions.nodup hcover
    rw [hviews, ← hsplit]
    refine congrArg List.sum (List.map_congr_left fun region hmem => ?_)
    obtain ⟨hanswer, huncut⟩ := heach region hmem
    rw [(totals_of_answer hsmall hanswer huncut).2, hregion region hmem]
    rfl

/-- The list of ten for a region, of three videos of two channels. -/
def topTen (region : String) : List ChannelStat :=
  (getTopChannels twoChannels region 10 "appear_count").getD []

theorem totals_agree_twoChannels :
    appearances (topTen "US") = 3 ∧ views (topTen "US") = views (topTen "") := by
  have hregions : RegionsAnswer twoChannels 1 ["US"] := by
    constructor <;> decide +kernel
  have hlists : ∀ region ∈ ["", "US"],
      Answers GetVideos.codePoints twoChannels region 10 "appear_count" (some (topTen region)) ∧
        Uncut 10 (topTen region) := by
    intro region hmem
    have hsome : getTopChannels twoChannels region 10 "appear_count" = some (topTen region) ∧
        Uncut 10 (topTen region) := by
      rcases List.mem_cons.mp hmem with rfl | hmem
      · decide +kernel
      · obtain rfl := List.mem_singleton.mp hmem
        decide +kernel
    refine ⟨?_, hsome.2⟩
    rw [← hsome.1]
    exact answers_getTopChannels GetVideos.codePoints twoChannels region (by decide) "appear_count"
  obtain ⟨hrows, -, hviews⟩ := totals_agree hregions (by decide) (by decide) hlists
  rw [List.map_singleton, List.sum_singleton] at hrows hviews
  exact ⟨hrows, hviews⟩

end TrendingPipeline.Store.Agreement

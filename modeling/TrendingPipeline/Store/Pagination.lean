/- Unit: TrendingPipeline/Store/Pagination
   source: backend/db/db.go
   digest: Pages of GetVideos read one after the other, and when they miss or repeat nothing. -/

import TrendingPipeline.Store.GetVideos

set_option autoImplicit false
set_option relaxedAutoImplicit false

namespace TrendingPipeline.Store.Pagination

open TrendingPipeline.Base.Calendar (Time)
open TrendingPipeline.Base.OrderedAnswers
open TrendingPipeline.Store.Queries (micros selected)
open TrendingPipeline.Store.Select (Collation)
open TrendingPipeline.Store.GetVideos
open TrendingPipeline.Store.Tables (VideosTable)
open TrendingPipeline.Youtube.FetchTrending (Video)

structure Query where
  region : String := ""
  categoryId : Int32 := 0
  fetchedAfter : Time := Time.zero
  fetchedBefore : Time := Time.zero

def Query.Matches (q : Query) : Video → Prop :=
  Satisfies q.region q.categoryId q.fetchedAfter q.fetchedBefore

/-- Results of GetVideos at the offsets 0, `limit`, twice `limit` and so on, on one table
and up to the first empty one. -/
structure PagesRead (coll : Collation) (videos : VideosTable) (q : Query) (limit : Int32)
    (pages : List (List Video)) : Prop where
  page : ∀ k p, pages[k]? = some p →
    Answers coll videos q.region q.categoryId q.fetchedAfter q.fetchedBefore limit
      (Int32.ofNat (k * limit.toInt.toNat)) (some p)
  nonempty : ∀ p ∈ pages.dropLast, p ≠ []
  last : pages.getLast? = some []

def ReadOnce (videos : VideosTable) (q : Query) (pages : List (List Video)) : Prop :=
  ∀ v ∈ videos.rows, q.Matches v → (pages.flatten.map (·.videoId)).count v.videoId = 1

/-- Some `b` videos have more views than all the others, in each of their latest rows. -/
def CutByViews (videos : VideosTable) (q : Query) (b : ℕ) : Prop :=
  ∃ first : Finset String, first.card = b ∧
    (∀ id ∈ first, ∃ v ∈ videos.rows, q.Matches v ∧ v.videoId = id) ∧
    ∀ v w, Latest videos.rows q.Matches v → Latest videos.rows q.Matches w →
      v.videoId ∈ first → w.videoId ∉ first → w.viewCount < v.viewCount

def countVideos (videos : VideosTable) (q : Query) : ℕ :=
  ((videos.rows.filter
    (selected q.region q.categoryId q.fetchedAfter q.fetchedBefore)).map (·.videoId)).dedup.length

def lastOffset (n limit : ℕ) : ℕ := (n + limit - 1) / limit * limit

def Listed (videos : VideosTable) (q : Query) (v : Video) : Prop :=
  ∃ w, Latest videos.rows q.Matches w ∧ stored w = v

def NoFewerViews (v w : Video) : Prop := w.viewCount ≤ v.viewCount

instance : Std.Total NoFewerViews := ⟨fun v w => Int64.le_total w.viewCount v.viewCount⟩

instance : IsTrans Video NoFewerViews := ⟨fun _ _ _ hvw hwx => Int64.le_trans hwx hvw⟩

variable {coll : Collation} {videos : VideosTable} {q : Query} {limit : Int32}

abbrev Listing (videos : VideosTable) (q : Query) : List Video → Prop :=
  Answer (·.videoId) (Listed videos q) NoFewerViews

private theorem listing_iff {out : List Video} :
    Listing videos q out ↔
      ∃ ordered, LatestOfEach videos.rows q.Matches ordered ∧ out = ordered.map stored := by
  have hids : ∀ l : List Video, (l.map stored).map (·.videoId) = l.map (·.videoId) := by
    intro l
    rw [List.map_map]
    rfl
  constructor
  · intro h
    have hsource : ∀ v, ∃ w, Listed videos q v → Latest videos.rows q.Matches w ∧ stored w = v := by
      intro v
      by_cases hv : Listed videos q v
      · obtain ⟨w, hw⟩ := hv
        exact ⟨w, fun _ => hw⟩
      · exact ⟨v, fun h => absurd h hv⟩
    choose source hsource using hsource
    have hback : (out.map source).map stored = out := by
      rw [List.map_map]
      refine (List.map_congr_left ?_).trans (List.map_id out)
      intro v hv
      exact (hsource v (h.sound v hv)).2
    have hsame : (out.map source).map (·.videoId) = out.map (·.videoId) := by
      rw [← hids, hback]
    refine ⟨out.map source, ⟨?_, hsame ▸ h.nodup, ?_, ?_⟩, hback.symm⟩
    · have hordered := h.ordered
      rw [← hback, List.pairwise_map] at hordered
      exact hordered
    · intro v hv
      obtain ⟨w, hw, rfl⟩ := List.mem_map.mp hv
      exact (hsource w (h.sound w hw)).1
    · intro v hv hP
      obtain ⟨w, hw, hid⟩ := exists_latest hv hP
      rw [hsame]
      exact hid ▸ h.complete (stored w) ⟨w, hw, rfl⟩
  · rintro ⟨ordered, h, rfl⟩
    refine ⟨?_, (hids ordered).symm ▸ h.once, ?_, ?_⟩
    · rw [List.pairwise_map]
      exact h.byViews
    · intro v hv
      obtain ⟨w, hw, rfl⟩ := List.mem_map.mp hv
      exact ⟨w, h.latest w hw, rfl⟩
    · rintro _ ⟨w, hw, rfl⟩
      rw [hids]
      exact h.complete w hw.mem hw.satisfies

private theorem exists_listing (videos : VideosTable) (q : Query) : ∃ out, Listing videos q out :=
  ⟨_, listing_iff.mpr ⟨_, latestOfEach_sorted videos.rows, rfl⟩⟩

private theorem length_listing {out : List Video} (h : Listing videos q out) :
    out.length = countVideos videos q := by
  have hperm : (out.map (·.videoId)).Perm ((videos.rows.filter
      (selected q.region q.categoryId q.fetchedAfter q.fetchedBefore)).map (·.videoId)).dedup := by
    refine (List.perm_ext_iff_of_nodup h.nodup (List.nodup_dedup _)).mpr ?_
    intro id
    rw [List.mem_dedup]
    constructor
    · intro hid
      obtain ⟨v, hv, rfl⟩ := List.mem_map.mp hid
      obtain ⟨w, hw, rfl⟩ := h.sound v hv
      exact List.mem_map.mpr ⟨w, List.mem_filter.mpr ⟨hw.mem, selected_iff.mpr hw.satisfies⟩, rfl⟩
    · intro hid
      obtain ⟨v, hv, rfl⟩ := List.mem_map.mp hid
      obtain ⟨hrow, hselected⟩ := List.mem_filter.mp hv
      obtain ⟨w, hw, hid⟩ := exists_latest hrow (selected_iff.mp hselected)
      have hmem := h.complete (stored w) ⟨w, hw, rfl⟩
      rwa [← hid]
  have hlength := hperm.length_eq
  rwa [List.length_map] at hlength

private theorem pos_of_one_le (h : 1 ≤ limit) : 0 < limit.toInt.toNat := by
  have hle : (1 : Int32).toInt ≤ limit.toInt := Int32.le_iff_toInt_le.mp h
  have hone : (1 : Int32).toInt = 1 := rfl
  omega

private theorem nonneg_of_one_le (h : 1 ≤ limit) : 0 ≤ limit := by
  have hpos := pos_of_one_le h
  rw [Int32.le_iff_toInt_le]
  have hzero : (0 : Int32).toInt = 0 := rfl
  omega

private theorem toNat_limit_lt (limit : Int32) : limit.toInt.toNat < 2 ^ 31 := by
  have hlt := limit.toInt_lt
  omega

private theorem toInt_offset {n : ℕ} (h : n < 2 ^ 31) : (Int32.ofNat n).toInt.toNat = n := by
  rw [Int32.toInt_ofNat_of_lt h]
  exact Int.toNat_natCast n

private theorem offset_nonneg {n : ℕ} (h : n < 2 ^ 31) : 0 ≤ Int32.ofNat n := by
  rw [Int32.le_iff_toInt_le, Int32.toInt_ofNat_of_lt h]
  exact Int.natCast_nonneg n

private theorem offset_neg {n : ℕ} (h : 2 ^ 31 ≤ n) (h' : n < 2 ^ 32) :
    (Int32.ofNat n).toInt < 0 := by
  rw [Int32.toInt_ofNat']
  have hsize : Int32.size = 4294967296 := rfl
  rw [hsize, Int.bmod_def]
  omega

private theorem offset_nonneg_of_answers {offset : Int32} {p : List Video}
    (h : Answers coll videos q.region q.categoryId q.fetchedAfter q.fetchedBefore limit offset
      (some p)) : 0 ≤ offset.toInt := by
  by_contra hneg
  obtain ⟨rows, hruns, hrows⟩ := h
  rw [(query_eq q.region q.categoryId q.fetchedAfter q.fetchedBefore limit offset).2] at hruns
  simp only [Select.Statement.Runs, bind_statement] at hruns
  rw [if_pos (Or.inr (not_le.mp hneg))] at hruns
  rw [hruns] at hrows
  cases hrows

private theorem answers_page_iff (hlimit : 1 ≤ limit) {k : ℕ} (hk : k * limit.toInt.toNat < 2 ^ 31)
    {p : List Video} :
    Answers coll videos q.region q.categoryId q.fetchedAfter q.fetchedBefore limit
        (Int32.ofNat (k * limit.toInt.toNat)) (some p) ↔
      ∃ out, Listing videos q out ∧ p = pageOf limit.toInt.toNat out k := by
  rw [answers_iff coll (nonneg_of_one_le hlimit) (offset_nonneg hk), toInt_offset hk]
  constructor
  · rintro ⟨ordered, hordered, hp⟩
    refine ⟨ordered.map stored, listing_iff.mpr ⟨ordered, hordered, rfl⟩, ?_⟩
    rw [Option.some.inj hp, pageOf, List.map_take, List.map_drop]
  · rintro ⟨out, hout, rfl⟩
    obtain ⟨ordered, hordered, rfl⟩ := listing_iff.mp hout
    refine ⟨ordered, hordered, congrArg some ?_⟩
    rw [pageOf, List.map_take, List.map_drop]

private theorem PagesRead.offset_lt {pages : List (List Video)}
    (h : PagesRead coll videos q limit pages) :
    ∀ k < pages.length, k * limit.toInt.toNat < 2 ^ 31 := by
  intro k hk
  induction k with
  | zero =>
      rw [Nat.zero_mul]
      decide
  | succ k ih =>
      have hprev := ih (Nat.lt_of_succ_lt hk)
      have hlimit := toNat_limit_lt limit
      by_contra hge
      have hnonneg := offset_nonneg_of_answers (h.page (k + 1) _ (List.getElem?_eq_getElem hk))
      rw [Nat.succ_mul] at hge hnonneg
      have hneg := offset_neg (Nat.le_of_not_lt hge) (by omega)
      omega

private theorem offset_le_lastOffset {pages : List (List Video)} {L : ℕ} (hL : 0 < L)
    (h : Read (·.videoId) (Listed videos q) NoFewerViews L pages) :
    ∀ k < pages.length, k * L ≤ lastOffset (countVideos videos q) L := by
  intro k hk
  refine Nat.mul_le_mul_right L ?_
  rcases k with _ | k
  · exact Nat.zero_le _
  · rw [Nat.le_div_iff_mul_le hL, Nat.succ_mul]
    have hlt : k < pages.length := Nat.lt_of_succ_lt hk
    have hdrop : k < pages.dropLast.length := by
      rw [List.length_dropLast]
      omega
    obtain ⟨out, hout, hpage⟩ := h.page k _ (List.getElem?_eq_getElem hlt)
    have hne : pages[k] ≠ [] := by
      refine h.nonempty _ (List.mem_iff_getElem.mpr ⟨k, hdrop, ?_⟩)
      exact List.getElem_dropLast hdrop
    have hinside : k * L < out.length := by
      by_contra hge
      refine hne (hpage.trans (List.take_eq_nil_of_eq_nil (List.drop_eq_nil_of_le ?_)))
      exact Nat.le_of_not_lt hge
    rw [length_listing hout] at hinside
    omega

theorem PagesRead.read {pages : List (List Video)} (hlimit : 1 ≤ limit)
    (h : PagesRead coll videos q limit pages) :
    Read (·.videoId) (Listed videos q) NoFewerViews limit.toInt.toNat pages := by
  refine ⟨?_, h.nonempty, h.last⟩
  intro k p hk
  have hlt : k < pages.length := (List.getElem?_eq_some_iff.mp hk).1
  exact (answers_page_iff hlimit (h.offset_lt k hlt)).mp (h.page k p hk)

private theorem pagesRead_of_read {pages : List (List Video)} (hlimit : 1 ≤ limit)
    (hfits : lastOffset (countVideos videos q) limit.toInt.toNat < 2 ^ 31)
    (h : Read (·.videoId) (Listed videos q) NoFewerViews limit.toInt.toNat pages) :
    PagesRead coll videos q limit pages := by
  refine ⟨?_, h.nonempty, h.last⟩
  intro k p hk
  have hlt : k < pages.length := (List.getElem?_eq_some_iff.mp hk).1
  have hle := offset_le_lastOffset (pos_of_one_le hlimit) h k hlt
  exact (answers_page_iff hlimit (lt_of_le_of_lt hle hfits)).mpr (h.page k p hk)

private theorem PagesRead.lastOffset_lt {pages : List (List Video)} (hlimit : 1 ≤ limit)
    (h : PagesRead coll videos q limit pages) :
    lastOffset (countVideos videos q) limit.toInt.toNat < 2 ^ 31 := by
  have hL := pos_of_one_le hlimit
  obtain ⟨init, rfl⟩ := List.getLast?_eq_some_iff.mp h.last
  obtain ⟨out, hout, hpage⟩ :=
    (h.read hlimit).page init.length [] List.getElem?_concat_length
  have hend := length_le_of_pageOf hL hpage.symm
  have hlt := h.offset_lt init.length (by rw [List.length_append]; exact Nat.lt_succ_self _)
  rw [length_listing hout] at hend
  refine lt_of_le_of_lt (Nat.mul_le_mul_right _ ?_) hlt
  refine Nat.le_of_lt_succ ((Nat.div_lt_iff_lt_mul hL).mpr ?_)
  rw [Nat.succ_mul]
  omega

private theorem exact_iff_readOnce {pages : List (List Video)} :
    Exact (·.videoId) (Listed videos q) pages ↔ ReadOnce videos q pages := by
  constructor
  · intro h v hv hP
    obtain ⟨w, hw, hid⟩ := exists_latest hv hP
    rw [← hid]
    exact h (stored w) ⟨w, hw, rfl⟩
  · rintro h _ ⟨w, hw, rfl⟩
    exact h w hw.mem hw.satisfies

private theorem separated_iff_cutByViews {b : ℕ} :
    Separated (·.videoId) (Listed videos q) NoFewerViews b ↔ CutByViews videos q b := by
  constructor
  · rintro ⟨first, hcard, hfirst, hcut⟩
    refine ⟨first, hcard, ?_, ?_⟩
    · intro id hid
      obtain ⟨_, ⟨v, hv, rfl⟩, rfl⟩ := hfirst id hid
      exact ⟨v, hv.mem, hv.satisfies, rfl⟩
    · intro v w hv hw hin hout
      exact Int64.not_le.mp (hcut (stored v) (stored w) ⟨v, hv, rfl⟩ ⟨w, hw, rfl⟩ hin hout)
  · rintro ⟨first, hcard, hfirst, hcut⟩
    refine ⟨first, hcard, ?_, ?_⟩
    · intro id hid
      obtain ⟨v, hv, hP, rfl⟩ := hfirst id hid
      obtain ⟨w, hw, hid⟩ := exists_latest hv hP
      exact ⟨stored w, ⟨w, hw, rfl⟩, hid⟩
    · rintro _ _ ⟨v, hv, rfl⟩ ⟨w, hw, rfl⟩ hin hout
      exact Int64.not_le.mpr (hcut v w hv hw hin hout)

/-- However each query orders rows with as many views: all pages together have every
video once, exactly when the videos before each page have more views than the others. -/
theorem readOnce_iff_cutByViews (coll : Collation) (videos : VideosTable) (q : Query)
    {limit : Int32} (hlimit : 1 ≤ limit) :
    (∀ pages, PagesRead coll videos q limit pages → ReadOnce videos q pages) ↔
      (lastOffset (countVideos videos q) limit.toInt.toNat < 2 ^ 31 →
        ∀ k, 0 < k * limit.toInt.toNat → k * limit.toInt.toNat < countVideos videos q →
          CutByViews videos q (k * limit.toInt.toNat)) := by
  have hL := pos_of_one_le hlimit
  obtain ⟨out, hout⟩ := exists_listing videos q
  have hexact := exact_iff_separated hL hout
  rw [length_listing hout] at hexact
  constructor
  · intro hall hfits k hpos hlt
    refine separated_iff_cutByViews.mp (hexact.mp ?_ k hpos hlt)
    intro pages hread
    exact exact_iff_readOnce.mpr (hall pages (pagesRead_of_read hlimit hfits hread))
  · intro hcut pages hpages
    refine exact_iff_readOnce.mp (hexact.mpr ?_ pages (hpages.read hlimit))
    intro k hpos hlt
    exact separated_iff_cutByViews.mpr (hcut (hpages.lastOffset_lt hlimit) k hpos hlt)

/-- Two videos with as many views, and one with fewer. -/
def twoLevels : VideosTable where
  rows := [snapshot "a" 30, snapshot "b" 30, snapshot "c" 10]
  key_nodup := by decide
  category_range := by decide

/-- The tied videos share the first page, and the only boundary is cut by the views. -/
theorem readOnce_iff_cutByViews_twoLevels :
    countVideos twoLevels {} = 3 ∧
      ∀ pages, PagesRead codePoints twoLevels {} 2 pages → ReadOnce twoLevels {} pages := by
  have htwo : (1 : Int32) ≤ 2 := by decide
  have hcount : countVideos twoLevels {} = 3 := by decide
  refine ⟨hcount, (readOnce_iff_cutByViews codePoints twoLevels {} htwo).mpr ?_⟩
  intro _ k hpos hlt
  have hlimit : (2 : Int32).toInt.toNat = 2 := rfl
  rw [hlimit] at hpos hlt ⊢
  obtain rfl : k = 1 := by omega
  refine ⟨{"a", "b"}, rfl, ?_, ?_⟩
  · intro id hid
    have hrow : ∀ id ∈ ({"a", "b"} : Finset String), ∃ v ∈ twoLevels.rows, v.videoId = id := by
      decide
    obtain ⟨v, hv, hvid⟩ := hrow id hid
    exact ⟨v, hv, ⟨nofun, nofun, nofun, nofun⟩, hvid⟩
  · have hviews : ∀ v ∈ twoLevels.rows, ∀ w ∈ twoLevels.rows,
        v.videoId ∈ ({"a", "b"} : Finset String) → w.videoId ∉ ({"a", "b"} : Finset String) →
          w.viewCount < v.viewCount := by decide
    exact fun v w hv hw => hviews v hv.mem w hw.mem

private theorem latestOfEach_tied {ordered : List Video}
    (hperm : ordered.Perm [snapshot "a" 10, snapshot "b" 10]) :
    LatestOfEach tiedVideos.rows (Query.Matches {}) ordered := by
  have hrows : ∀ v, v ∈ ordered ↔ v ∈ tiedVideos.rows := fun v => hperm.mem_iff
  have hviews : ∀ v ∈ tiedVideos.rows, v.viewCount = 10 ∧ micros v.fetchedAt = 0 := by decide
  refine ⟨List.pairwise_of_forall_mem_list ?_, ?_, ?_, ?_⟩
  · intro v hv w hw
    rw [(hviews v ((hrows v).mp hv)).1, (hviews w ((hrows w).mp hw)).1]
    exact Int64.le_refl 10
  · exact (hperm.map _).nodup_iff.mpr (by decide)
  · intro v hv
    refine ⟨(hrows v).mp hv, ⟨nofun, nofun, nofun, nofun⟩, ?_⟩
    intro w hw _ _
    rw [(hviews w hw).2, (hviews v ((hrows v).mp hv)).2]
  · intro v hv _
    exact List.mem_map_of_mem ((hrows v).mpr hv)

/-- The first page has "a", the second one has "a" again, and "b" is on no page. -/
theorem tied_repeats :
    PagesRead codePoints tiedVideos {} 1
        [[stored (snapshot "a" 10)], [stored (snapshot "a" 10)], []] ∧
      snapshot "b" 10 ∈ tiedVideos.rows ∧ Query.Matches {} (snapshot "b" 10) ∧
      ¬ ReadOnce tiedVideos {}
        [[stored (snapshot "a" 10)], [stored (snapshot "a" 10)], []] := by
  have hmatches : Query.Matches {} (snapshot "b" 10) := ⟨nofun, nofun, nofun, nofun⟩
  have hmem : snapshot "b" 10 ∈ tiedVideos.rows := by decide
  have hone : (1 : Int32) ≤ 1 := Int32.le_refl 1
  have hab := latestOfEach_tied (List.Perm.refl _)
  have hba := latestOfEach_tied (List.Perm.swap (snapshot "a" 10) (snapshot "b" 10) [])
  refine ⟨⟨?_, by decide, rfl⟩, hmem, hmatches, ?_⟩
  · intro k p hk
    have hlt : k < 3 := (List.getElem?_eq_some_iff.mp hk).1
    have hlimit : (1 : Int32).toInt.toNat = 1 := rfl
    refine (answers_page_iff hone (by rw [hlimit]; omega)).mpr ?_
    rcases k with _ | _ | _ | k
    · exact ⟨_, listing_iff.mpr ⟨_, hab, rfl⟩, (Option.some.inj hk).symm⟩
    · exact ⟨_, listing_iff.mpr ⟨_, hba, rfl⟩, (Option.some.inj hk).symm⟩
    · exact ⟨_, listing_iff.mpr ⟨_, hab, rfl⟩, (Option.some.inj hk).symm⟩
    · omega
  · intro h
    exact absurd (h _ hmem hmatches) (by decide)

end TrendingPipeline.Store.Pagination

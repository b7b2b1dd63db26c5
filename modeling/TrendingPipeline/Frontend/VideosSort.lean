/- Unit: TrendingPipeline/Frontend/VideosSort
   source: frontend/components/videos-table.tsx, frontend/lib/api.ts, backend/api/server.go
   digest: The search and the sort of the video browser on what the gateway sends. -/

import TrendingPipeline.Base.ArraySort
import TrendingPipeline.Base.OrderedAnswers
import TrendingPipeline.Frontend.WireFormat

set_option autoImplicit false
set_option relaxedAutoImplicit false

namespace TrendingPipeline.Frontend.VideosSort

open TrendingPipeline.Analytics.Responses (videoRecord)
open TrendingPipeline.Base.ArraySort
open TrendingPipeline.Base.Decimal (decimal)
open TrendingPipeline.Base.JsonCodec
open TrendingPipeline.Base.JsonText (Json)
open TrendingPipeline.Base.JsValue
open TrendingPipeline.Base.OrderedAnswers (OrdersBy ordersBy_map_iff)
open TrendingPipeline.Frontend.Api (VideosParams)
open TrendingPipeline.Frontend.WireFormat (Call returned_getVideos)
open TrendingPipeline.Proto.Messages (GetVideosResponse Video)

inductive SortKey
  | viewCount
  | likeCount
  | commentCount
  deriving DecidableEq

def SortKey.name : SortKey → String
  | .viewCount => "view_count"
  | .likeCount => "like_count"
  | .commentCount => "comment_count"

inductive SortDir
  | asc
  | desc
  deriving DecidableEq

/-- `v.name.toLowerCase()`, which throws where the property is not there. -/
def readLower (toLowerCase : String → String) (name : String) (v : Json) : Option String :=
  match property name v with
  | some (some (.str s)) => some (toLowerCase s)
  | _ => none

/-- `s.includes(part)`. -/
def includes (s part : String) : Bool := decide (part.toList <:+: s.toList)

/-- The search's answer for a video; `none` is an exception. -/
def matchesSearch (toLowerCase : String → String) (searchLower : String) (v : Json) :
    Option Bool := do
  let title ← readLower toLowerCase "title" v
  if includes title searchLower then return true
  let channelTitle ← readLower toLowerCase "channel_title" v
  return includes channelTitle searchLower

/-- `Array.prototype.filter` with a callback that may throw. -/
def filterOrThrow (callback : Json → Option Bool) : List Json → Option (List Json)
  | [] => some []
  | v :: vs => do
      let keep ← callback v
      let rest ← filterOrThrow callback vs
      return if keep then v :: rest else rest

def filtered (toLowerCase : String → String) (search : String) (videos : List Json) :
    Option (List Json) :=
  let searchLower := toLowerCase search
  if searchLower ≠ "" then
    filterOrThrow (matchesSearch toLowerCase searchLower) videos
  else some videos

/-- `v[sortKey]` as a number; `none` is NaN, which `undefined` becomes. -/
def number (key : SortKey) (v : Json) : Option ℤ :=
  match property key.name v with
  | some (some (.num literal)) => numberOf literal
  | _ => none

/-- `a[sortKey] - b[sortKey]`. -/
def diff (key : SortKey) (a b : Json) : Option ℤ := do
  let x ← number key a
  let y ← number key b
  return nearestDouble (x - y)

/-- The comparator's answer as the sort takes it, NaN as zero. -/
def compare (key : SortKey) (dir : SortDir) (a b : Json) : ℤ :=
  ((diff key a b).map fun d => if dir = .desc then -d else d).getD 0

variable (toLowerCase : String → String) (sort : (Json → Json → ℤ) → List Json → List Json)

/-- `none` where rendering throws. -/
def sorted (search : String) (key : SortKey) (dir : SortDir) (videos : List Json) :
    Option (List Json) :=
  (filtered toLowerCase search videos).map (sort (compare key dir))

/-- What `setVideos` is given once `getVideos` has resolved. -/
def stored (c : Call) : List Json :=
  match c.returned with
  | .ok (some (.arr items)) => items
  | _ => []

def SortKey.count (key : SortKey) (v : Video) : ℤ :=
  match key with
  | .viewCount => v.viewCount.toInt
  | .likeCount => v.likeCount.toInt
  | .commentCount => v.commentCount.toInt

def matching (search : String) (videos : List Video) : List Video :=
  if toLowerCase search = "" then videos
  else videos.filter fun v =>
    includes (toLowerCase v.title) (toLowerCase search) ||
      includes (toLowerCase v.channelTitle) (toLowerCase search)

def InOrder (key : SortKey) (dir : SortDir) (v w : Video) : Prop :=
  match dir with
  | .asc => key.count v ≤ key.count w
  | .desc => key.count w ≤ key.count v

instance (key : SortKey) (dir : SortDir) (v w : Video) : Decidable (InOrder key dir v w) :=
  match dir with
  | .asc => inferInstanceAs (Decidable (_ ≤ _))
  | .desc => inferInstanceAs (Decidable (_ ≤ _))

/-- The list is computed, holds the videos searched for and is in order. -/
def Sorted (search : String) (key : SortKey) (dir : SortDir) (resp : GetVideosResponse)
    (params : VideosParams) : Prop :=
  ∃ out : List Video,
    sorted toLowerCase sort search key dir (stored (.getVideos params resp)) =
        some (out.map videoRecord.codec.encode) ∧
      out.Perm (matching toLowerCase search resp.videos) ∧ out.Pairwise (InOrder key dir)

private theorem stored_getVideos (params : VideosParams) (resp : GetVideosResponse) :
    stored (.getVideos params resp) = resp.videos.map videoRecord.codec.encode := by
  rw [stored, returned_getVideos]
  cases hvideos : resp.videos with
  | nil => rfl
  | cons v vs => rfl

theorem encode_injective : Function.Injective videoRecord.codec.encode := by
  intro v w h
  have hv := videoRecord.codec.decode_encode v
  rw [h, videoRecord.codec.decode_encode w] at hv
  exact (Option.some.inj hv).symm

private theorem property_string (i : ℕ) {name : String} {get : Video → String}
    {set : Video → String → Video}
    (hs : videoRecord.slots[i]? = some (slot name get set string)) (v : Video) :
    property name (videoRecord.codec.encode v) =
      some (if get v = "" then none else some (.str (get v))) :=
  property_encode videoRecord (List.mem_of_getElem? hs) v

private theorem property_count (i : ℕ) {name : String} {get : Video → Int64}
    {set : Video → Int64 → Video}
    (hs : videoRecord.slots[i]? = some (slot name get set int64)) (v : Video) :
    property name (videoRecord.codec.encode v) =
      some (if get v = 0 then none else some (.num (decimal (get v).toInt))) :=
  property_encode videoRecord (List.mem_of_getElem? hs) v

theorem number_encode (key : SortKey) (v : Video) :
    number key (videoRecord.codec.encode v) =
      if key.count v = 0 then none else some (nearestDouble (key.count v)) := by
  have hread : ∀ n : Int64,
      (match some (if n = 0 then none else some (Json.num (decimal n.toInt))) with
        | some (some (.num literal)) => numberOf literal
        | _ => none) = if n.toInt = 0 then none else some (nearestDouble n.toInt) := by
    intro n
    by_cases hzero : n = 0
    · have hvalue : n.toInt = 0 := by
        rw [hzero]
        rfl
      rw [if_pos hzero, if_pos hvalue]
    · have hvalue : n.toInt ≠ 0 := fun h => hzero (Int64.toInt_inj.mp (h.trans rfl))
      rw [if_neg hzero, if_neg hvalue]
      exact numberOf_decimal n.toInt
  cases key with
  | viewCount =>
      simp only [number, SortKey.name, property_count 9 rfl v]
      exact hread v.viewCount
  | likeCount =>
      simp only [number, SortKey.name, property_count 10 rfl v]
      exact hread v.likeCount
  | commentCount =>
      simp only [number, SortKey.name, property_count 11 rfl v]
      exact hread v.commentCount

variable {toLowerCase} {search : String} {videos : List Video}

/-- The search reads no title that was not written. -/
def Searchable (toLowerCase : String → String) (search : String) (videos : List Video) : Prop :=
  toLowerCase search = "" ∨ ∀ v ∈ videos, v.title ≠ "" ∧
    (includes (toLowerCase v.title) (toLowerCase search) = true ∨ v.channelTitle ≠ "")

private theorem readLower_encode (toLowerCase : String → String) (i : ℕ) {name : String}
    {get : Video → String} {set : Video → String → Video}
    (hs : videoRecord.slots[i]? = some (slot name get set string)) (v : Video) :
    readLower toLowerCase name (videoRecord.codec.encode v) =
      if get v = "" then none else some (toLowerCase (get v)) := by
  rw [readLower, property_string i hs]
  split
  · next s hwritten =>
      split at hwritten
      · cases hwritten
      · next hne =>
          obtain rfl : get v = s := by simpa using hwritten
          rw [if_neg hne]
  · next hmissing =>
      split
      · rfl
      · next hne => exact absurd (by rw [if_neg hne]) (hmissing (get v))

private theorem matchesSearch_encode (searchLower : String) (v : Video) :
    matchesSearch toLowerCase searchLower (videoRecord.codec.encode v) =
      if v.title ≠ "" ∧
          (includes (toLowerCase v.title) searchLower = true ∨ v.channelTitle ≠ "") then
        some (includes (toLowerCase v.title) searchLower ||
          includes (toLowerCase v.channelTitle) searchLower)
      else none := by
  have htitle := readLower_encode toLowerCase 4 rfl v
  have hchannel := readLower_encode toLowerCase 6 rfl v
  unfold matchesSearch
  rw [htitle, hchannel]
  by_cases hempty : v.title = ""
  · simp [hempty]
  · by_cases hfound : includes (toLowerCase v.title) searchLower = true
    · simp [hempty, hfound]
    · by_cases hnone : v.channelTitle = "" <;> simp [hempty, hfound, hnone]

private theorem filterOrThrow_map {callback : Json → Option Bool} {reads : Video → Prop}
    [DecidablePred reads] {keeps : Video → Bool} {encode : Video → Json}
    (hcallback : ∀ v, callback (encode v) = if reads v then some (keeps v) else none)
    (videos : List Video) :
    filterOrThrow callback (videos.map encode) =
      if ∀ v ∈ videos, reads v then some ((videos.filter keeps).map encode) else none := by
  induction videos with
  | nil => simp [filterOrThrow]
  | cons v vs ih =>
      rw [List.map_cons, filterOrThrow, hcallback, ih]
      have hcons : (∀ w ∈ v :: vs, reads w) ↔ reads v ∧ ∀ w ∈ vs, reads w := List.forall_mem_cons
      rw [if_congr hcons rfl rfl]
      by_cases hv : reads v
      · by_cases hvs : ∀ w ∈ vs, reads w
        · rw [if_pos hv, if_pos hvs, if_pos ⟨hv, hvs⟩]
          by_cases hkeep : keeps v = true <;> simp [hkeep]
        · have hboth : ¬ (reads v ∧ ∀ w ∈ vs, reads w) := fun h => hvs h.2
          rw [if_pos hv, if_neg hvs, if_neg hboth]
          rfl
      · have hboth : ¬ (reads v ∧ ∀ w ∈ vs, reads w) := fun h => hv h.1
        rw [if_neg hv, if_neg hboth]
        rfl

private theorem filtered_encode [Decidable (Searchable toLowerCase search videos)] :
    filtered toLowerCase search (videos.map videoRecord.codec.encode) =
      if Searchable toLowerCase search videos then
        some ((matching toLowerCase search videos).map videoRecord.codec.encode)
      else none := by
  unfold filtered matching
  by_cases hempty : toLowerCase search = ""
  · have hsearchable : Searchable toLowerCase search videos := .inl hempty
    simp only [hempty, ne_eq, not_true, if_false, if_true, if_pos hsearchable]
  · rw [if_pos hempty, if_neg hempty, filterOrThrow_map (matchesSearch_encode _)]
    refine if_congr ?_ rfl rfl
    exact (or_iff_right hempty).symm

section Order

variable {key : SortKey} {dir : SortDir}

/-- The number compared, upside down for a descending order. -/
def directed (key : SortKey) (dir : SortDir) (v : Json) : Option ℤ :=
  (number key v).map fun x => if dir = .desc then -x else x

private theorem follows_compare (key : SortKey) (dir : SortDir) :
    Follows (directed key dir) (compare key dir) := by
  have hneg : ∀ d : ℤ, nearestDouble d < 0 ↔ d < 0 := fun d => by
    rw [← Int.sign_eq_neg_one_iff_neg, sign_nearestDouble, Int.sign_eq_neg_one_iff_neg]
  have hpos : ∀ d : ℤ, 0 < nearestDouble d ↔ 0 < d := fun d => by
    rw [← Int.sign_eq_one_iff_pos, sign_nearestDouble, Int.sign_eq_one_iff_pos]
  intro a b
  unfold compare diff directed
  cases hx : number key a with
  | none => simp
  | some x =>
      cases hy : number key b with
      | none => simp
      | some y =>
          cases dir with
          | asc => simp [hneg, hpos]
          | desc => simp [hneg, hpos]

private theorem directed_encode (v : Video) :
    directed key dir (videoRecord.codec.encode v) =
      if key.count v = 0 then none
      else some (if dir = .desc then -nearestDouble (key.count v)
        else nearestDouble (key.count v)) := by
  rw [directed, number_encode]
  by_cases hzero : key.count v = 0
  · rw [if_pos hzero, if_pos hzero]
    rfl
  · rw [if_neg hzero, if_neg hzero]
    rfl

def Alike (key : SortKey) (v w : Video) : Prop :=
  key.count v = 0 ∨ key.count w = 0 ∨
    nearestDouble (key.count v) = nearestDouble (key.count w)

private theorem equal_directed_iff {v w : Video} :
    (∀ x ∈ directed key dir (videoRecord.codec.encode v),
      ∀ y ∈ directed key dir (videoRecord.codec.encode w), x = y) ↔ Alike key v w := by
  rw [directed_encode, directed_encode, Alike]
  by_cases hv : key.count v = 0
  · simp [hv]
  · by_cases hw : key.count w = 0
    · simp [hw]
    · cases dir <;> simp [hv, hw]

private theorem compare_eq_zero_iff {v w : Video} :
    compare key dir (videoRecord.codec.encode v) (videoRecord.codec.encode w) = 0 ↔
      Alike key v w :=
  (follows_compare key dir).eq_zero_iff.trans equal_directed_iff

private theorem inOrder_of_directed_lt {v w : Video} (hv : 0 ≤ key.count v) (hw : 0 ≤ key.count w)
    (h : ∃ x ∈ directed key dir (videoRecord.codec.encode v),
      ∃ y ∈ directed key dir (videoRecord.codec.encode w), x < y) :
    InOrder key dir v w ∧ ¬ InOrder key dir w v := by
  have hstrict : ∀ m n : ℤ, 0 ≤ n → nearestDouble m < nearestDouble n → m < n :=
    fun m n hn hlt => lt_of_not_ge fun hle => absurd (nearestDouble_mono hn hle) (not_le.mpr hlt)
  obtain ⟨x, hx, y, hy, hxy⟩ := h
  rw [directed_encode] at hx hy
  split at hx
  · cases hx
  · split at hy
    · cases hy
    · obtain rfl := Option.some.inj hx
      obtain rfl := Option.some.inj hy
      cases dir with
      | asc =>
          have hlt := hstrict _ _ hw hxy
          exact ⟨hlt.le, not_le.mpr hlt⟩
      | desc =>
          have hlt := hstrict _ _ hv (neg_lt_neg_iff.mp hxy)
          exact ⟨hlt.le, not_le.mpr hlt⟩

/-- The order of the videos, on what is sent for them. -/
def SentInOrder (key : SortKey) (dir : SortDir) (a b : Json) : Prop :=
  ∀ v w, a = videoRecord.codec.encode v → b = videoRecord.codec.encode w → InOrder key dir v w

private theorem sentInOrder_encode {v w : Video} :
    SentInOrder key dir (videoRecord.codec.encode v) (videoRecord.codec.encode w) ↔
      InOrder key dir v w := by
  constructor
  · exact fun h => h v w rfl rfl
  · intro h v' w' hv hw
    rw [← encode_injective hv, ← encode_injective hw]
    exact h

private theorem reflects_compare (hcounts : ∀ v ∈ videos, 0 ≤ key.count v) :
    Reflects (compare key dir) (SentInOrder key dir) (videos.map videoRecord.codec.encode) := by
  intro a ha b hb
  obtain ⟨v, hv, rfl⟩ := List.mem_map.mp ha
  obtain ⟨w, hw, rfl⟩ := List.mem_map.mp hb
  rw [(follows_compare key dir _ _).1, (follows_compare key dir _ _).2, sentInOrder_encode,
    sentInOrder_encode]
  constructor
  · exact inOrder_of_directed_lt (hcounts v hv) (hcounts w hw)
  · rintro ⟨x, hx, y, hy, hyx⟩
    exact inOrder_of_directed_lt (hcounts w hw) (hcounts v hv) ⟨y, hy, x, hx, hyx⟩

/-- No zero stands among counts that are told apart. -/
def Comparable (key : SortKey) (videos : List Video) : Prop :=
  (∀ v ∈ videos, key.count v ≠ 0) ∨ ∀ v ∈ videos, ∀ w ∈ videos, Alike key v w

private theorem consistent_compare_iff :
    Consistent (compare key dir) (videos.map videoRecord.codec.encode) ↔ Comparable key videos := by
  rw [(follows_compare key dir).consistent_iff, Comparable]
  simp only [List.forall_mem_map]
  refine or_congr ?_ ?_
  · refine forall₂_congr fun v _ => ?_
    rw [directed_encode]
    split <;> simp_all
  · exact forall₂_congr fun v _ => forall₂_congr fun w _ => equal_directed_iff

end Order

/-- When the list comes out right: the search can be read, zeros do not stand among
different counts, and what compares equal is in the order already. -/
structure ComesRight (toLowerCase : String → String) (search : String) (key : SortKey)
    (dir : SortDir) (videos : List Video) : Prop where
  searchable : Searchable toLowerCase search videos
  comparable : Comparable key (matching toLowerCase search videos)
  ties : (matching toLowerCase search videos).Pairwise fun v w =>
    Alike key v w → InOrder key dir v w

variable {sort : (Json → Json → ℤ) → List Json → List Json} {key : SortKey} {dir : SortDir}
  {params : VideosParams} {resp : GetVideosResponse}

private theorem sorted_iff_ordersBy (h : Searchable toLowerCase search resp.videos) :
    Sorted toLowerCase sort search key dir resp params ↔
      OrdersBy (SentInOrder key dir)
        ((matching toLowerCase search resp.videos).map videoRecord.codec.encode)
        (sort (compare key dir)
          ((matching toLowerCase search resp.videos).map videoRecord.codec.encode)) := by
  classical
  have hsorted : sorted toLowerCase sort search key dir (stored (.getVideos params resp)) =
      some (sort (compare key dir)
        ((matching toLowerCase search resp.videos).map videoRecord.codec.encode)) := by
    rw [sorted, stored_getVideos, filtered_encode, if_pos h, Option.map_some]
  rw [Sorted, hsorted, ordersBy_map_iff]
  constructor
  · rintro ⟨out, hout, hperm, hordered⟩
    refine ⟨out, ⟨hperm, hordered.imp fun hvw => sentInOrder_encode.mpr hvw⟩, ?_⟩
    exact Option.some.inj hout
  · rintro ⟨out, ⟨hperm, hordered⟩, hout⟩
    exact ⟨out, congrArg some hout, hperm, hordered.imp fun hvw => sentInOrder_encode.mp hvw⟩

private theorem not_sorted_of_not_searchable (h : ¬ Searchable toLowerCase search resp.videos) :
    ¬ Sorted toLowerCase sort search key dir resp params := by
  classical
  rintro ⟨out, hout, -⟩
  rw [sorted, stored_getVideos, filtered_encode, if_neg h] at hout
  cases hout

/-- For every response with counts that are not negative, every search, sort key and
direction: the list comes out right with every sort there may be exactly if nothing in the
response stands against it. -/
theorem comesRight_iff (toLowerCase : String → String) (search : String) (key : SortKey)
    (dir : SortDir) (params : VideosParams) {resp : GetVideosResponse}
    (hcounts : ∀ v ∈ resp.videos, 0 ≤ key.count v) :
    (∀ sort, Sorts sort → Sorted toLowerCase sort search key dir resp params) ↔
      ComesRight toLowerCase search key dir resp.videos := by
  by_cases hsearch : Searchable toLowerCase search resp.videos
  · have hmatching : ∀ v ∈ matching toLowerCase search resp.videos, 0 ≤ key.count v := by
      intro v hv
      refine hcounts v ?_
      unfold matching at hv
      split at hv
      · exact hv
      · exact List.mem_of_mem_filter hv
    have hsorts : (∀ sort, Sorts sort → Sorted toLowerCase sort search key dir resp params) ↔
        Comparable key (matching toLowerCase search resp.videos) ∧
          (matching toLowerCase search resp.videos).Pairwise fun v w =>
            Alike key v w → InOrder key dir v w := by
      have hpairwise : ∀ sort, Sorts sort →
          (Sorted toLowerCase sort search key dir resp params ↔
            (sort (compare key dir)
              ((matching toLowerCase search resp.videos).map
                videoRecord.codec.encode)).Pairwise (SentInOrder key dir)) := fun sort hsort =>
        (sorted_iff_ordersBy hsearch).trans ⟨fun h => h.ordered, fun h => ⟨hsort.perm _ _, h⟩⟩
      rw [forall₂_congr hpairwise, forall_sorts_iff (reflects_compare hmatching),
        consistent_compare_iff, List.pairwise_map]
      simp only [compare_eq_zero_iff, sentInOrder_encode]
    rw [hsorts]
    exact ⟨fun h => ⟨hsearch, h.1, h.2⟩, fun h => ⟨h.comparable, h.ties⟩⟩
  · refine iff_of_false ?_ fun h => hsearch h.searchable
    exact fun h => not_sorted_of_not_searchable hsearch (h mergeSorted sorts_mergeSorted)

def liked (videoId : String) (likes : Int64) : Video :=
  { videoId := videoId, title := "News", channelTitle := "Channel", likeCount := likes }

def unliked : GetVideosResponse := { videos := [liked "a" 0, liked "b" 7] }

def likedBoth : GetVideosResponse := { videos := [liked "a" 3, liked "b" 7] }

theorem comesRight_iff_likedBoth :
    (∀ v ∈ likedBoth.videos, 0 ≤ SortKey.likeCount.count v) ∧
      ∀ sort, Sorts sort → Sorted id sort "" .likeCount .desc likedBoth {} := by
  have hcounts : ∀ v ∈ likedBoth.videos, 0 ≤ SortKey.likeCount.count v := by decide
  refine ⟨hcounts, (comesRight_iff id "" .likeCount .desc {} hcounts).mpr ⟨.inl rfl, .inl ?_, ?_⟩⟩
  · decide
  · refine List.pairwise_pair.mpr ?_
    rintro (hzero | hzero | hsame)
    · cases hzero
    · cases hzero
    · exact absurd hsame (by decide)

/-- With every sort there is the first video stays first, under a descending order. -/
theorem unliked_staysFirst :
    (∀ v ∈ unliked.videos, 0 ≤ SortKey.likeCount.count v) ∧
      ∀ sort, Sorts sort →
        sorted id sort "" .likeCount .desc (stored (.getVideos {} unliked)) =
            some (unliked.videos.map videoRecord.codec.encode) ∧
          ¬ Sorted id sort "" .likeCount .desc unliked {} := by
  have halike : ∀ v ∈ unliked.videos, ∀ w ∈ unliked.videos, Alike .likeCount v w := by
    unfold Alike
    decide
  refine ⟨by decide, ?_⟩
  intro sort hsort
  have hstays : sort (compare .likeCount .desc) (unliked.videos.map videoRecord.codec.encode) =
      unliked.videos.map videoRecord.codec.encode := by
    refine (hsort.sorts _ _ (consistent_compare_iff.mpr (.inr halike))).eq_of_equal ?_
    intro a ha b hb
    obtain ⟨v, hv, rfl⟩ := List.mem_map.mp ha
    obtain ⟨w, hw, rfl⟩ := List.mem_map.mp hb
    exact compare_eq_zero_iff.mpr (halike v hv w hw)
  have hsorted : sorted id sort "" .likeCount .desc (stored (.getVideos {} unliked)) =
      some (unliked.videos.map videoRecord.codec.encode) := by
    rw [stored_getVideos]
    exact congrArg some hstays
  refine ⟨hsorted, ?_⟩
  rintro ⟨out, hout, -, hordered⟩
  rw [hsorted] at hout
  have hsame := List.map_injective_iff.mpr encode_injective (Option.some.inj hout)
  rw [← hsame] at hordered
  exact absurd (List.pairwise_pair.mp hordered) (by decide)

end TrendingPipeline.Frontend.VideosSort

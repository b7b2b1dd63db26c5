/- Unit: TrendingPipeline/Api/Numbers
   source: backend/api/server.go, README.md
   digest: The numbers of a query string, and those of the request the gateway makes of it. -/

import TrendingPipeline.Api.Server

set_option autoImplicit false
set_option relaxedAutoImplicit false

namespace TrendingPipeline.Api.Numbers

open TrendingPipeline.Analytics.Responses
open TrendingPipeline.Api.Server
open TrendingPipeline.Base.Decimal
open TrendingPipeline.Proto.Messages

/-- The request of `handleGetVideos`. -/
def videosRequest (params : Params) : GetVideosRequest where
  region := query params "region"
  categoryId := intParam params "category_id" "0"
  limit := intParam params "limit" "50"
  offset := intParam params "offset" "0"

/-- The request of `handleGetTopChannels`. -/
def topChannelsRequest (params : Params) : GetTopChannelsRequest where
  region := query params "region"
  limit := intParam params "limit" "10"
  sortBy :=
    let sortBy := defaultQuery params "sort_by" "appear_count"
    if sortBy = "appear_count" then .appearCount
    else if sortBy = "total_views" then .viewCount
    else .appearCount

theorem handleGetVideos_eq (getVideos : GetVideosRequest → Option GetVideosResponse)
    (params : Params) :
    handleGetVideos getVideos params =
      reply getVideosResponse.codec "failed to get videos" (getVideos (videosRequest params)) :=
  rfl

theorem handleGetTopChannels_eq
    (getTopChannels : GetTopChannelsRequest → Option GetTopChannelsResponse) (params : Params) :
    handleGetTopChannels getTopChannels params =
      reply getTopChannelsResponse.codec "failed to get top channels"
        (getTopChannels (topChannelsRequest params)) :=
  rfl

def FitsInt32 (z : ℤ) : Prop := -2 ^ 31 ≤ z ∧ z < 2 ^ 31

instance (z : ℤ) : Decidable (FitsInt32 z) := inferInstanceAs (Decidable (_ ∧ _))

/-- The number passed on for a parameter: the integer its text denotes if that has 32
bits, and else the default. -/
def Conforms (default : Int32) (text : Option String) (n : Int32) : Prop :=
  match text.bind denoted with
  | some z => if FitsInt32 z then n.toInt = z else n = default
  | none => n = default

instance (default : Int32) (text : Option String) (n : Int32) :
    Decidable (Conforms default text n) :=
  match h : text.bind denoted with
  | some z =>
      decidable_of_iff (if FitsInt32 z then n.toInt = z else n = default) (by rw [Conforms, h])
  | none => decidable_of_iff (n = default) (by rw [Conforms, h])

/-- The texts for which the number passed on conforms, under a default that is not negative. -/
def Kept (default : Int32) (text : Option String) : Prop :=
  ∀ s, text = some s →
    match denoted s with
    | some z =>
        FitsInt32 z ∨ (-2 ^ 63 ≤ z ∧ z < 2 ^ 63 ∧ z % 2 ^ 32 = default.toInt) ∨
          z < -2 ^ 63 ∧ default = 0
    | none => default = 0 ∧ (StartsTooLarge s → (splitSign s.toList).1 = true)

/-- The numbers of both requests conform to the documented defaults. -/
structure VideosForwarded (params : Params) : Prop where
  categoryId : Conforms 0 (params.lookup "category_id") (videosRequest params).categoryId
  limit : Conforms 50 (params.lookup "limit") (videosRequest params).limit
  offset : Conforms 0 (params.lookup "offset") (videosRequest params).offset

structure TopChannelsForwarded (params : Params) : Prop where
  limit : Conforms 10 (params.lookup "limit") (topChannelsRequest params).limit

private theorem intParam_of_absent {params : Params} {key : String} (h : params.lookup key = none)
    (default : String) : intParam params key default = (atoi default).1.toInt32 := by
  rw [intParam, defaultQuery, h]
  rfl

private theorem intParam_of_present {params : Params} {key s : String}
    (h : params.lookup key = some s)
    (default : String) : intParam params key default = (atoi s).1.toInt32 := by
  rw [intParam, defaultQuery, h]
  rfl

private theorem toInt32_maxValue : Int64.maxValue.toInt32 = -1 := by decide

private theorem toInt32_minValue : Int64.minValue.toInt32 = 0 := by decide

private theorem toInt_narrowed {z : ℤ} (hlow : -2 ^ 63 ≤ z) (hhigh : z < 2 ^ 63) :
    (Int64.ofInt z).toInt32.toInt = z.bmod (2 ^ 32) := by
  rw [Int64.toInt_toInt32, Int64.toInt_ofInt_of_le hlow hhigh]

private theorem ne_neg_one {default : Int32} (h : 0 ≤ default.toInt) : (-1 : Int32) ≠ default := by
  rintro rfl
  exact absurd h (by decide)

section

variable {default : Int32} {s : String} {z : ℤ}

private theorem narrowed_of_fits (hdenoted : denoted s = some z) (hfits : FitsInt32 z) :
    (atoi s).1.toInt32.toInt = z := by
  have hrange : -2 ^ 31 ≤ z ∧ z < 2 ^ 31 := hfits
  rw [atoi_of_denoted hdenoted, if_neg (by omega), if_neg (by omega),
    toInt_narrowed (by omega) (by omega)]
  exact Int.bmod_eq_of_le (by omega) (by omega)

private theorem narrowed_eq_iff (hdefault : 0 ≤ default.toInt) (hdenoted : denoted s = some z) :
    (atoi s).1.toInt32 = default ↔
      (-2 ^ 63 ≤ z ∧ z < 2 ^ 63 ∧ z % 2 ^ 32 = default.toInt) ∨ z < -2 ^ 63 ∧ default = 0 := by
  have hmax := default.toInt_lt
  rw [atoi_of_denoted hdenoted]
  by_cases habove : 2 ^ 63 ≤ z
  · rw [if_pos habove, toInt32_maxValue]
    refine iff_of_false (ne_neg_one hdefault) ?_
    rintro (hrange | hbelow)
    · omega
    · omega
  · rw [if_neg habove]
    by_cases hbelow : z < -2 ^ 63
    · rw [if_pos hbelow, toInt32_minValue, eq_comm]
      constructor
      · exact fun hzero => Or.inr ⟨hbelow, hzero⟩
      · rintro (hrange | ⟨_, hzero⟩)
        · omega
        · exact hzero
    · rw [if_neg hbelow, ← Int32.toInt_inj, toInt_narrowed (by omega) (by omega)]
      have hmod : z.bmod (2 ^ 32) = default.toInt ↔ z % 2 ^ 32 = default.toInt := by
        rw [Int.bmod_def]
        split <;> omega
      rw [hmod]
      constructor
      · exact fun heq => Or.inl ⟨by omega, by omega, heq⟩
      · rintro (hrange | hbelow')
        · exact hrange.2.2
        · omega

private theorem unread_eq_iff (hdefault : 0 ≤ default.toInt) (hdenoted : denoted s = none) :
    (atoi s).1.toInt32 = default ↔
      default = 0 ∧ (StartsTooLarge s → (splitSign s.toList).1 = true) := by
  rw [atoi_of_not_denoted hdenoted]
  by_cases hlarge : StartsTooLarge s
  · rw [if_pos hlarge]
    cases hneg : (splitSign s.toList).1 with
    | true =>
        rw [if_pos rfl, toInt32_minValue, eq_comm]
        exact ⟨fun hzero => ⟨hzero, fun _ => rfl⟩, And.left⟩
    | false =>
        rw [if_neg Bool.false_ne_true, toInt32_maxValue]
        refine iff_of_false (ne_neg_one hdefault) ?_
        exact fun h => Bool.false_ne_true (h.2 hlarge)
  · rw [if_neg hlarge]
    have hzero : (0 : Int64).toInt32 = 0 := by decide
    rw [hzero, eq_comm]
    exact ⟨fun hzero => ⟨hzero, fun h => absurd h hlarge⟩, And.left⟩

theorem conforms_iff (hdefault : 0 ≤ default.toInt) (s : String) :
    Conforms default (some s) (atoi s).1.toInt32 ↔ Kept default (some s) := by
  simp only [Conforms, Kept, Option.bind_some, Option.some.injEq, forall_eq']
  cases hdenoted : denoted s with
  | some z =>
      dsimp only
      by_cases hfits : FitsInt32 z
      · rw [if_pos hfits]
        exact iff_of_true (narrowed_of_fits hdenoted hfits) (Or.inl hfits)
      · rw [if_neg hfits, narrowed_eq_iff hdefault hdenoted]
        exact (or_iff_right hfits).symm
  | none => exact unread_eq_iff hdefault hdenoted

end

private theorem intParam_conforms_iff (params : Params) (key text : String) (default : Int32)
    (hdefault : 0 ≤ default.toInt) (htext : (atoi text).1.toInt32 = default) :
    Conforms default (params.lookup key) (intParam params key text) ↔
      Kept default (params.lookup key) := by
  cases hlookup : params.lookup key with
  | none =>
      rw [intParam_of_absent hlookup, htext]
      exact iff_of_true rfl nofun
  | some s =>
      rw [intParam_of_present hlookup]
      exact conforms_iff hdefault s

/-- The requests carry the numbers of the query string exactly if each text that is
present denotes a number of 32 bits, or by chance ends up as the default. -/
theorem forwarded_iff_kept (params : Params) :
    (VideosForwarded params ↔
      Kept 0 (params.lookup "category_id") ∧ Kept 50 (params.lookup "limit") ∧
        Kept 0 (params.lookup "offset")) ∧
      (TopChannelsForwarded params ↔ Kept 10 (params.lookup "limit")) := by
  have hcategory := intParam_conforms_iff params "category_id" "0" 0 (by decide) (by decide)
  have hlimit := intParam_conforms_iff params "limit" "50" 50 (by decide) (by decide)
  have hoffset := intParam_conforms_iff params "offset" "0" 0 (by decide) (by decide)
  have htop := intParam_conforms_iff params "limit" "10" 10 (by decide) (by decide)
  refine ⟨⟨?_, ?_⟩, ⟨?_, ?_⟩⟩
  · intro h
    exact ⟨hcategory.mp h.categoryId, hlimit.mp h.limit, hoffset.mp h.offset⟩
  · rintro ⟨h1, h2, h3⟩
    exact ⟨hcategory.mpr h1, hlimit.mpr h2, hoffset.mpr h3⟩
  · exact fun h => htop.mp h.limit
  · exact fun h => ⟨htop.mpr h⟩

/-- A category past 32 bits is passed on as another one, and a limit that is no number
as 0. -/
theorem passedOn_differs :
    (videosRequest [("category_id", "4294967306")]).categoryId = 10 ∧
      ¬ VideosForwarded [("category_id", "4294967306")] ∧
      (topChannelsRequest [("limit", "abc")]).limit = 0 ∧
      ¬ TopChannelsForwarded [("limit", "abc")] := by
  refine ⟨by decide, ?_, by decide, ?_⟩
  · intro h
    exact absurd h.categoryId (by decide)
  · intro h
    exact absurd h.limit (by decide)

end TrendingPipeline.Api.Numbers

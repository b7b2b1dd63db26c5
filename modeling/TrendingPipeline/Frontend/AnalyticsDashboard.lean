/- Unit: TrendingPipeline/Frontend/AnalyticsDashboard
   source: frontend/components/analytics-dashboard.tsx
   digest: The dashboard's region, its overlapping fetches, and whose data it shows. -/

import Mathlib.Algebra.GroupWithZero.Nat
import TrendingPipeline.Base.Holdings
import TrendingPipeline.Frontend.VideosTable

/-!
The channels and the videos are two overlapping views of one region, and each projects to
the general one of `Base.Overlap`. What the component holds is tied to the responses that
have come by `HoldsLast`, so that a statement about the newest response is one about the
lists themselves.
-/

set_option autoImplicit false
set_option relaxedAutoImplicit false

namespace TrendingPipeline.Frontend.AnalyticsDashboard

open TrendingPipeline.Base.Runs
open TrendingPipeline.Base.Overlap
  (Empties Fits View current_step_iff held_iff_requestedFor inFlight_eq_nil_iff)

/-- One of the two promises of a `Promise.all`. -/
inductive Leg (α : Type)
  | pending
  | resolved (value : α)
  | rejected

def Leg.isPending {α : Type} : Leg α → Bool
  | .pending => true
  | .resolved _ | .rejected => false

/-- What a promise comes to; a rejection that is an Error has a message. -/
inductive Response (α : Type)
  | resolved (value : α)
  | rejected (message : Option String)

def Response.leg {α : Type} : Response α → Leg α
  | .resolved value => .resolved value
  | .rejected _ => .rejected

@[simp]
theorem Response.isPending_leg {α : Type} (response : Response α) :
    response.leg.isPending = false := by
  cases response <;> rfl

/-- A `fetchChannels` on its way; `getTopChannels` may resolve to `undefined`. -/
structure ChannelsFetch (C : Type) where
  region : String
  byAppearances : Leg (Option (List C)) := .pending
  byViews : Leg (Option (List C)) := .pending

/-- The one fetch of the count and the tracked regions, which may be `undefined`. -/
structure StatsFetch where
  count : Leg (Option Nat) := .pending
  regions : Leg (Option (List String)) := .pending

/-- The component's state with what is on its way, oldest first, and two history fields,
newest first: the fetches of channels both of whose promises have an answer, and the
responses about videos, each with the region it was requested for. -/
structure State (C V : Type) where
  region : String := "US"
  channels : List C := []
  channelsByViews : List C := []
  videos : List V := []
  loadingChannels : Bool := true
  loadingVideos : Bool := true
  channelsError : Option String := none
  videoCount : Option Nat := none
  trackedRegions : List String := []
  loadingStats : Bool := true
  channelsFetches : List (ChannelsFetch C)
  videosFetches : List String
  statsFetch : StatsFetch := {}
  answeredChannels : List (ChannelsFetch C) := []
  answeredVideos : List (String × Response (Option (List V))) := []

inductive Act (C V : Type)
  | selectRegion (v : String)
  /-- `getTopChannels` by appearances, of the `i`-th fetch -/
  | respondByAppearances (i : ℕ) (response : Response (Option (List C)))
  /-- `getTopChannels` by views, of the `i`-th fetch -/
  | respondByViews (i : ℕ) (response : Response (Option (List C)))
  | respondVideos (i : ℕ) (response : Response (Option (List V)))
  | respondCount (response : Response (Option Nat))
  | respondRegions (response : Response (Option (List String)))

variable {C V : Type}

/-- The effect that runs `fetchChannels` and `fetchVideos`, up to their awaits. -/
def State.fetchAll (s : State C V) : State C V :=
  { s with
    loadingChannels := true
    channelsError := none
    channelsFetches := s.channelsFetches ++ [{ region := s.region }]
    loadingVideos := true
    videosFetches := s.videosFetches ++ [s.region] }

def mounted : State C V := State.fetchAll { channelsFetches := [], videosFetches := [] }

/-- `fetchChannels` when one of its promises has an answer and `f` is what it waits for
now: `Promise.all` goes on once both have resolved, and at the first rejection. -/
def State.resumeChannels (s : State C V) (i : ℕ) (f : ChannelsFetch C)
    (response : Response (Option (List C))) (other : Leg (Option (List C))) : State C V :=
  let s :=
    { s with
      channelsFetches :=
        if other.isPending then s.channelsFetches.set i f else s.channelsFetches.eraseIdx i
      answeredChannels :=
        if other.isPending then s.answeredChannels else f :: s.answeredChannels }
  match f.byAppearances, f.byViews with
  | .resolved byAppearances, .resolved byViews =>
      { s with
        channels := byAppearances.getD []
        channelsByViews := byViews.getD []
        loadingChannels := false }
  | _, _ =>
      match response, other with
      | .rejected message, .pending | .rejected message, .resolved _ =>
          { s with
            channelsError := some (message.getD "Failed to load"), loadingChannels := false }
      | .rejected _, .rejected | .resolved _, _ => s

/-- `fetchVideos` after its await. -/
def State.resumeVideos (s : State C V) : Response (Option (List V)) → State C V
  | .resolved data => { s with videos := data.getD [], loadingVideos := false }
  | .rejected _ => { s with videos := [], loadingVideos := false }

/-- The region after the answer about the tracked ones: kept if it is among them, and
else the first of them. -/
def chooseRegion (region : String) (f : StatsFetch) : String :=
  match f.count, f.regions with
  | .resolved _, .resolved (some regions) =>
      if region ∈ regions then region else regions.head?.getD region
  | _, _ => region

/-- The chain of `Promise.all([getVideoCount(), getTrackedRegions()])`. Without a list of
regions the next render throws, and there is no component any more. -/
def State.resumeStats (s : State C V) (f : StatsFetch) : Option (State C V) :=
  match f.count, f.regions with
  | .resolved count, .resolved (some regions) =>
      let region := chooseRegion s.region f
      let t :=
        { s with
          statsFetch := f, videoCount := count, trackedRegions := regions, loadingStats := false }
      some (if region = s.region then t else { t with region := region }.fetchAll)
  | .resolved _, .resolved none => none
  | .rejected, _ | _, .rejected => some { s with statsFetch := f, loadingStats := false }
  | .pending, _ | _, .pending => some { s with statsFetch := f }

def step (s : State C V) : Act C V → Option (State C V)
  | .selectRegion v =>
      if v = "" ∨ v = s.region then some s else some ({ s with region := v }.fetchAll)
  | .respondByAppearances i response =>
      (s.channelsFetches[i]?).bind fun f =>
        if f.byAppearances.isPending then
          some (s.resumeChannels i { f with byAppearances := response.leg } response f.byViews)
        else none
  | .respondByViews i response =>
      (s.channelsFetches[i]?).bind fun f =>
        if f.byViews.isPending then
          some (s.resumeChannels i { f with byViews := response.leg } response f.byAppearances)
        else none
  | .respondVideos i response =>
      (s.videosFetches[i]?).map fun region =>
        ({ s with
            videosFetches := s.videosFetches.eraseIdx i
            answeredVideos := (region, response) :: s.answeredVideos }).resumeVideos response
  | .respondCount response =>
      if s.statsFetch.count.isPending then
        s.resumeStats { s.statsFetch with count := response.leg }
      else none
  | .respondRegions response =>
      if s.statsFetch.regions.isPending then
        s.resumeStats { s.statsFetch with regions := response.leg }
      else none

def ChannelsFetch.inFlight (f : ChannelsFetch C) : ℕ :=
  f.byAppearances.isPending.toNat + f.byViews.isPending.toNat

def StatsFetch.inFlight (f : StatsFetch) : ℕ := f.count.isPending.toNat + f.regions.isPending.toNat

def State.inFlight (s : State C V) : ℕ :=
  (s.channelsFetches.map (·.inFlight)).sum + s.videosFetches.length + s.statsFetch.inFlight

/-- What both promises of a fetch of channels resolved to. -/
structure ChannelsLoad (C : Type) where
  region : String
  byAppearances : Option (List C)
  byViews : Option (List C)

/-- The newest fetch both of whose promises resolved. -/
def lastLoaded : List (ChannelsFetch C) → Option (ChannelsLoad C)
  | [] => none
  | ⟨region, .resolved byAppearances, .resolved byViews⟩ :: _ =>
      some ⟨region, byAppearances, byViews⟩
  | _ :: earlier => lastLoaded earlier

/-- The newest response about videos, if it resolved. -/
def loadedVideos : List (String × Response (Option (List V))) →
    Option (String × Option (List V))
  | (region, .resolved data) :: _ => some (region, data)
  | (_, .rejected _) :: _ | [] => none

/-- When no request is on its way, the two channel lists are those of the newest fetch that
came through, the videos are those of the newest response, and both were requested for the
region. -/
def ShowsSelected (s : State C V) : Prop :=
  s.inFlight = 0 →
    (∃ load, lastLoaded s.answeredChannels = some load ∧ load.region = s.region ∧
      s.channels = load.byAppearances.getD [] ∧ s.channelsByViews = load.byViews.getD []) ∧
    ∃ data, loadedVideos s.answeredVideos = some (s.region, data) ∧ s.videos = data.getD []

/-- What the newest fetch of channels that came through was for. -/
def State.channelsFor (s : State C V) : Option String :=
  (lastLoaded s.answeredChannels).map (·.region)

/-- What the newest response about videos was for, if it resolved. -/
def State.videosFor (s : State C V) : Option String :=
  (loadedVideos s.answeredVideos).map Prod.fst

def channelsView (s : State C V) : View String :=
  ⟨s.region, s.channelsFetches.map (·.region), s.channelsFor⟩

def videosView (s : State C V) : View String := ⟨s.region, s.videosFetches, s.videosFor⟩

/-- A choice of region, for both views. -/
def selects (s : State C V) (region : String) : Base.Overlap.Act String :=
  if region = s.region then .wait else .select region

/-- What an answer to one promise of the `i`-th fetch does, the other one given. -/
def channelsAnswer (i : ℕ) (response : Response (Option (List C))) :
    Leg (Option (List C)) → Base.Overlap.Act String
  | .pending => .wait
  | .rejected => .answer i .kept
  | .resolved _ =>
      match response with
      | .resolved _ => .answer i .stored
      | .rejected _ => .answer i .kept

def nextRegion (s : State C V) : Act C V → String
  | .selectRegion v => if v = "" then s.region else v
  | .respondCount response => chooseRegion s.region { s.statsFetch with count := response.leg }
  | .respondRegions response =>
      chooseRegion s.region { s.statsFetch with regions := response.leg }
  | .respondByAppearances _ _ | .respondByViews _ _ | .respondVideos _ _ => s.region

def channelsAct (s : State C V) : Act C V → Base.Overlap.Act String
  | .respondByAppearances i response =>
      match s.channelsFetches[i]? with
      | some f => channelsAnswer i response f.byViews
      | none => .wait
  | .respondByViews i response =>
      match s.channelsFetches[i]? with
      | some f => channelsAnswer i response f.byAppearances
      | none => .wait
  | .respondVideos _ _ => .wait
  | .selectRegion v => selects s (nextRegion s (.selectRegion v))
  | .respondCount response => selects s (nextRegion s (.respondCount response))
  | .respondRegions response => selects s (nextRegion s (.respondRegions response))

def videosAct (s : State C V) : Act C V → Base.Overlap.Act String
  | .respondVideos i (.resolved _) => .answer i .stored
  | .respondVideos i (.rejected _) => .answer i .cleared
  | .respondByAppearances _ _ | .respondByViews _ _ => .wait
  | .selectRegion v => selects s (nextRegion s (.selectRegion v))
  | .respondCount response => selects s (nextRegion s (.respondCount response))
  | .respondRegions response => selects s (nextRegion s (.respondRegions response))

def isResponse : Act C V → Bool
  | .selectRegion _ => false
  | .respondByAppearances _ _ | .respondByViews _ _ | .respondVideos _ _ | .respondCount _
  | .respondRegions _ => true

/-- The last response to arrive, if it leaves the region alone, fits both views: what is
stored in it was requested for the region, or what stays was. -/
def LastFits (s : State C V) (a : Act C V) : Prop :=
  isResponse a = true → s.inFlight = 1 → nextRegion s a = s.region →
    Fits (channelsView s) (channelsAct s a) ∧ Fits (videosView s) (videosAct s a)

instance (s : State C V) (a : Act C V) : Decidable (LastFits s a) :=
  inferInstanceAs (Decidable (_ → _ → _ → _))

variable {s t : State C V} {a : Act C V}

theorem resumeStats_cases {f : StatsFetch} (h : s.resumeStats f = some t) :
    ∃ count regions loading,
      (chooseRegion s.region f = s.region ∧
        t = { s with
              statsFetch := f, videoCount := count, trackedRegions := regions,
              loadingStats := loading }) ∨
      (chooseRegion s.region f ≠ s.region ∧
        t = ({ s with
               statsFetch := f, videoCount := count, trackedRegions := regions,
               loadingStats := loading, region := chooseRegion s.region f }).fetchAll) := by
  obtain ⟨count, regions⟩ := f
  cases count with
  | pending =>
      cases regions with
      | rejected => exact ⟨_, _, _, .inl ⟨rfl, (Option.some.inj h).symm⟩⟩
      | pending | resolved => exact ⟨_, _, s.loadingStats, .inl ⟨rfl, (Option.some.inj h).symm⟩⟩
  | rejected => exact ⟨_, _, _, .inl ⟨rfl, (Option.some.inj h).symm⟩⟩
  | resolved count =>
      cases regions with
      | pending => exact ⟨_, _, s.loadingStats, .inl ⟨rfl, (Option.some.inj h).symm⟩⟩
      | rejected => exact ⟨_, _, _, .inl ⟨rfl, (Option.some.inj h).symm⟩⟩
      | resolved regions =>
          cases regions with
          | none => cases h
          | some regions =>
              refine ⟨count, regions, false, ?_⟩
              simp only [State.resumeStats, Option.some.injEq] at h
              split at h
              · next hkept => exact .inl ⟨hkept, h.symm⟩
              · next hmoved => exact .inr ⟨hmoved, h.symm⟩

private theorem channelsView_fetchAll (s : State C V) :
    channelsView s.fetchAll =
      ⟨s.region, s.channelsFetches.map (·.region) ++ [s.region], s.channelsFor⟩ := by
  rw [channelsView, State.fetchAll, List.map_append]
  rfl

private theorem inFlight_fetchAll (s : State C V) : s.fetchAll.inFlight ≠ 0 := by
  simp [State.inFlight, State.fetchAll]

private theorem channelsView_resumeStats {f : StatsFetch} (h : s.resumeStats f = some t) :
    Base.Overlap.step (channelsView s) (selects s (chooseRegion s.region f)) =
      some (channelsView t) := by
  obtain ⟨_, _, _, ⟨hkept, rfl⟩ | ⟨hmoved, rfl⟩⟩ := resumeStats_cases h
  · rw [selects, if_pos hkept]
    rfl
  · rw [selects, if_neg hmoved, channelsView_fetchAll]
    rfl

private theorem videosView_resumeStats {f : StatsFetch} (h : s.resumeStats f = some t) :
    Base.Overlap.step (videosView s) (selects s (chooseRegion s.region f)) =
      some (videosView t) := by
  obtain ⟨_, _, _, ⟨hkept, rfl⟩ | ⟨hmoved, rfl⟩⟩ := resumeStats_cases h
  · rw [selects, if_pos hkept]
    rfl
  · rw [selects, if_neg hmoved]
    rfl

private theorem inFlight_resumeStats {f : StatsFetch} (h : s.resumeStats f = some t)
    (hf : f.inFlight + 1 = s.statsFetch.inFlight) :
    t.inFlight = 0 ↔ s.inFlight = 1 ∧ chooseRegion s.region f = s.region := by
  obtain ⟨_, _, _, ⟨hkept, rfl⟩ | ⟨hmoved, rfl⟩⟩ := resumeStats_cases h
  · simp only [State.inFlight, ← hf, hkept, and_true]
    omega
  · exact ⟨fun h => absurd h (inFlight_fetchAll _), fun h => absurd h.2 hmoved⟩

variable {i : ℕ} {f g : ChannelsFetch C} {response : Response (Option (List C))}
  {other : Leg (Option (List C))}

/-- The two promises of `f`, the one that has its answer now and the other. -/
def Legs (f : ChannelsFetch C) (response : Response (Option (List C)))
    (other : Leg (Option (List C))) : Prop :=
  f.byAppearances = response.leg ∧ f.byViews = other ∨
    f.byAppearances = other ∧ f.byViews = response.leg

/-- The fetches that have come through, once a promise of `f` has its answer. -/
def answeredAfter (s : State C V) (f : ChannelsFetch C) (other : Leg (Option (List C))) :
    List (ChannelsFetch C) :=
  if other.isPending then s.answeredChannels else f :: s.answeredChannels

private theorem resumeChannels_cases (s : State C V) (i : ℕ) (hlegs : Legs f response other) :
    ∃ channels channelsByViews error loading,
      s.resumeChannels i f response other =
        { s with
          channelsFetches :=
            if other.isPending then s.channelsFetches.set i f else s.channelsFetches.eraseIdx i
          channels := channels
          channelsByViews := channelsByViews
          channelsError := error
          loadingChannels := loading
          answeredChannels := answeredAfter s f other } := by
  obtain ⟨region, byAppearances, byViews⟩ := f
  obtain ⟨rfl, rfl⟩ | ⟨rfl, rfl⟩ := hlegs
  · cases response <;> cases byViews <;> exact ⟨_, _, _, _, rfl⟩
  · cases response <;> cases byAppearances <;> exact ⟨_, _, _, _, rfl⟩

private theorem map_region_set (hg : s.channelsFetches[i]? = some g)
    (hregion : f.region = g.region) :
    (s.channelsFetches.set i f).map (·.region) = s.channelsFetches.map (·.region) := by
  obtain ⟨hi, rfl⟩ := List.getElem?_eq_some_iff.mp hg
  have hmap : i < (s.channelsFetches.map ChannelsFetch.region).length := by rwa [List.length_map]
  have hat : (s.channelsFetches.map ChannelsFetch.region)[i] = f.region := by
    rw [List.getElem_map, hregion]
  rw [List.map_set, ← hat, List.set_getElem_self hmap]

/-- What the newest fetch that came through is for, once a promise of one for `region` has
its answer. -/
def forAfter (s : State C V) (region : String) :
    Response (Option (List C)) → Leg (Option (List C)) → Option String
  | .resolved _, .resolved _ => some region
  | .resolved _, .pending | .resolved _, .rejected | .rejected _, _ => s.channelsFor

private theorem channelsFor_resumeChannels (s : State C V) (i : ℕ) (hlegs : Legs f response other) :
    (s.resumeChannels i f response other).channelsFor = forAfter s f.region response other := by
  obtain ⟨region, byAppearances, byViews⟩ := f
  obtain ⟨rfl, rfl⟩ | ⟨rfl, rfl⟩ := hlegs
  · cases response <;> cases byViews <;> rfl
  · cases response <;> cases byAppearances <;> rfl

private theorem channelsView_resumeChannels_eq (s : State C V) (i : ℕ)
    (hlegs : Legs f response other) :
    channelsView (s.resumeChannels i f response other) =
      ⟨s.region,
        (if other.isPending then s.channelsFetches.set i f else s.channelsFetches.eraseIdx i).map
          (·.region),
        forAfter s f.region response other⟩ := by
  obtain ⟨_, _, _, _, hresult⟩ := resumeChannels_cases s i hlegs
  rw [channelsView, channelsFor_resumeChannels s i hlegs, hresult]

private theorem channelsView_resumeChannels (hg : s.channelsFetches[i]? = some g)
    (hregion : f.region = g.region) (hlegs : Legs f response other) :
    Base.Overlap.step (channelsView s) (channelsAnswer i response other) =
      some (channelsView (s.resumeChannels i f response other)) := by
  have hat : (s.channelsFetches.map (·.region))[i]? = some f.region := by
    rw [List.getElem?_map, hg, hregion, Option.map_some]
  rw [channelsView_resumeChannels_eq s i hlegs]
  cases other with
  | pending =>
      have hmap := map_region_set hg hregion
      cases response <;>
        simp [channelsAnswer, Base.Overlap.step, channelsView, forAfter, Leg.isPending, hmap]
  | rejected =>
      cases response <;>
        simp [channelsAnswer, Base.Overlap.step, channelsView, forAfter,
          Base.Overlap.Outcome.apply, Leg.isPending, hat, List.eraseIdx_map]
  | resolved value =>
      cases response <;>
        simp [channelsAnswer, Base.Overlap.step, channelsView, forAfter,
          Base.Overlap.Outcome.apply, Leg.isPending, hat, List.eraseIdx_map]

private theorem videosView_resumeChannels (hlegs : Legs f response other) :
    videosView (s.resumeChannels i f response other) = videosView s := by
  obtain ⟨_, _, _, _, hresult⟩ := resumeChannels_cases s i hlegs
  rw [hresult]
  rfl

private theorem inFlight_resumeChannels (hg : s.channelsFetches[i]? = some g)
    (hf : g.inFlight = f.inFlight + 1) (hlegs : Legs f response other) :
    (s.resumeChannels i f response other).inFlight + 1 = s.inFlight := by
  obtain ⟨_, _, _, _, hresult⟩ := resumeChannels_cases s i hlegs
  rw [hresult]
  cases hother : other.isPending with
  | true =>
      obtain ⟨rest, hold, hnew⟩ := Base.Holdings.sum_map_set hg f (·.inFlight)
      simp only [State.inFlight, if_true]
      omega
  | false =>
      have hdone : f.inFlight = 0 := by
        obtain ⟨hanswered, hrest⟩ | ⟨hrest, hanswered⟩ := hlegs <;>
          simp [ChannelsFetch.inFlight, hanswered, hrest, hother]
      obtain ⟨hi, rfl⟩ := List.getElem?_eq_some_iff.mp hg
      have hsum :=
        ((List.getElem_cons_eraseIdx_perm hi).map (·.inFlight)).sum_eq
      rw [List.map_cons, List.sum_cons] at hsum
      simp only [State.inFlight, Bool.false_eq_true, if_false]
      omega

theorem selectRegion_cases {v : String} (h : step s (.selectRegion v) = some t) :
    (nextRegion s (.selectRegion v : Act C V) = s.region ∧ t = s) ∨
      (nextRegion s (.selectRegion v : Act C V) ≠ s.region ∧
        t = ({ s with region := nextRegion s (.selectRegion v : Act C V) }).fetchAll) := by
  simp only [step] at h
  split at h
  · next hstays =>
      obtain rfl | rfl := hstays
      · exact .inl ⟨rfl, (Option.some.inj h).symm⟩
      · exact .inl ⟨ite_self _, (Option.some.inj h).symm⟩
  · next hmoves =>
      obtain ⟨hne, hother⟩ := not_or.mp hmoves
      have hnext : nextRegion s (.selectRegion v : Act C V) = v := if_neg hne
      rw [hnext]
      exact .inr ⟨hother, (Option.some.inj h).symm⟩

private theorem respondChannels_cases {i : ℕ} {response : Response (Option (List C))}
    (ha : a = .respondByAppearances i response ∨ a = .respondByViews i response)
    (h : step s a = some t) :
    ∃ g f other, s.channelsFetches[i]? = some g ∧ f.region = g.region ∧
      g.inFlight = f.inFlight + 1 ∧ Legs f response other ∧
      channelsAct s a = channelsAnswer i response other ∧
      t = s.resumeChannels i f response other := by
  obtain rfl | rfl := ha
  · obtain ⟨g, hg, hanswer⟩ := Option.bind_eq_some_iff.mp h
    split at hanswer
    · next hpending =>
        refine ⟨g, { g with byAppearances := response.leg }, g.byViews, hg, rfl, ?_,
          .inl ⟨rfl, rfl⟩, ?_, (Option.some.inj hanswer).symm⟩
        · simp [ChannelsFetch.inFlight, hpending, Nat.add_comm]
        · simp only [channelsAct, hg]
    · cases hanswer
  · obtain ⟨g, hg, hanswer⟩ := Option.bind_eq_some_iff.mp h
    split at hanswer
    · next hpending =>
        refine ⟨g, { g with byViews := response.leg }, g.byAppearances, hg, rfl, ?_,
          .inr ⟨rfl, rfl⟩, ?_, (Option.some.inj hanswer).symm⟩
        · simp [ChannelsFetch.inFlight, hpending]
        · simp only [channelsAct, hg]
    · cases hanswer

theorem respondVideos_cases {i : ℕ} {response : Response (Option (List V))}
    (h : step s (.respondVideos i response) = some t) :
    ∃ region, s.videosFetches[i]? = some region ∧
      t = ({ s with
              videosFetches := s.videosFetches.eraseIdx i
              answeredVideos := (region, response) :: s.answeredVideos }).resumeVideos
            response := by
  obtain ⟨region, hregion, ht⟩ := Option.map_eq_some_iff.mp h
  exact ⟨region, hregion, ht.symm⟩

theorem respondStats_cases
    (ha : (∃ response, a = .respondCount response) ∨ ∃ response, a = .respondRegions response)
    (h : step s a = some t) :
    ∃ f : StatsFetch, f.inFlight + 1 = s.statsFetch.inFlight ∧
      nextRegion s a = chooseRegion s.region f ∧ s.resumeStats f = some t := by
  obtain ⟨response, rfl⟩ | ⟨response, rfl⟩ := ha
  · simp only [step] at h
    split at h
    · next hpending =>
        refine ⟨{ s.statsFetch with count := response.leg }, ?_, rfl, h⟩
        simp [StatsFetch.inFlight, hpending, Nat.add_comm]
    · cases h
  · simp only [step] at h
    split at h
    · next hpending =>
        refine ⟨{ s.statsFetch with regions := response.leg }, ?_, rfl, h⟩
        simp [StatsFetch.inFlight, hpending]
    · cases h

private theorem channelsView_step (h : step s a = some t) :
    Base.Overlap.step (channelsView s) (channelsAct s a) = some (channelsView t) := by
  cases a with
  | selectRegion v =>
      obtain ⟨hstays, rfl⟩ | ⟨hmoves, rfl⟩ := selectRegion_cases h
      · rw [channelsAct, selects, if_pos hstays]
        rfl
      · rw [channelsAct, selects, if_neg hmoves, channelsView_fetchAll]
        rfl
  | respondByAppearances i response =>
      obtain ⟨g, f, other, hg, hregion, _, hlegs, hact, rfl⟩ :=
        respondChannels_cases (.inl rfl) h
      rw [hact]
      exact channelsView_resumeChannels hg hregion hlegs
  | respondByViews i response =>
      obtain ⟨g, f, other, hg, hregion, _, hlegs, hact, rfl⟩ :=
        respondChannels_cases (.inr rfl) h
      rw [hact]
      exact channelsView_resumeChannels hg hregion hlegs
  | respondVideos i response =>
      obtain ⟨region, _, rfl⟩ := respondVideos_cases h
      cases response <;> rfl
  | respondCount response =>
      obtain ⟨f, _, hnext, hresume⟩ := respondStats_cases (.inl ⟨response, rfl⟩) h
      rw [channelsAct, hnext]
      exact channelsView_resumeStats hresume
  | respondRegions response =>
      obtain ⟨f, _, hnext, hresume⟩ := respondStats_cases (.inr ⟨response, rfl⟩) h
      rw [channelsAct, hnext]
      exact channelsView_resumeStats hresume

private theorem videosView_step (h : step s a = some t) :
    Base.Overlap.step (videosView s) (videosAct s a) = some (videosView t) := by
  cases a with
  | selectRegion v =>
      obtain ⟨hstays, rfl⟩ | ⟨hmoves, rfl⟩ := selectRegion_cases h
      · rw [videosAct, selects, if_pos hstays]
        rfl
      · rw [videosAct, selects, if_neg hmoves]
        rfl
  | respondByAppearances i response =>
      obtain ⟨_, _, _, _, _, _, hlegs, _, rfl⟩ := respondChannels_cases (.inl rfl) h
      rw [videosView_resumeChannels hlegs]
      rfl
  | respondByViews i response =>
      obtain ⟨_, _, _, _, _, _, hlegs, _, rfl⟩ := respondChannels_cases (.inr rfl) h
      rw [videosView_resumeChannels hlegs]
      rfl
  | respondVideos i response =>
      obtain ⟨region, hregion, rfl⟩ := respondVideos_cases h
      have hview : (videosView s).inFlight[i]? = some region := hregion
      cases response <;>
        (simp only [videosAct, Base.Overlap.step, hview, Option.map_some]; rfl)
  | respondCount response =>
      obtain ⟨f, _, hnext, hresume⟩ := respondStats_cases (.inl ⟨response, rfl⟩) h
      rw [videosAct, hnext]
      exact videosView_resumeStats hresume
  | respondRegions response =>
      obtain ⟨f, _, hnext, hresume⟩ := respondStats_cases (.inr ⟨response, rfl⟩) h
      rw [videosAct, hnext]
      exact videosView_resumeStats hresume

def Settles (s : State C V) (a : Act C V) : Prop :=
  s.inFlight = (isResponse a).toNat ∧ nextRegion s a = s.region

private theorem inFlight_eq_zero_iff (h : step s a = some t) : t.inFlight = 0 ↔ Settles s a := by
  cases a with
  | selectRegion v =>
      obtain ⟨hstays, rfl⟩ | ⟨hmoves, rfl⟩ := selectRegion_cases h
      · exact ⟨fun hnone => ⟨hnone, hstays⟩, And.left⟩
      · exact ⟨fun hnone => absurd hnone (inFlight_fetchAll _), fun hs => absurd hs.2 hmoves⟩
  | respondByAppearances i response =>
      obtain ⟨g, f, other, hg, _, hf, hlegs, _, rfl⟩ := respondChannels_cases (.inl rfl) h
      have hone := inFlight_resumeChannels hg hf hlegs
      simp only [Settles, isResponse, nextRegion, and_true, Bool.toNat_true]
      omega
  | respondByViews i response =>
      obtain ⟨g, f, other, hg, _, hf, hlegs, _, rfl⟩ := respondChannels_cases (.inr rfl) h
      have hone := inFlight_resumeChannels hg hf hlegs
      simp only [Settles, isResponse, nextRegion, and_true, Bool.toNat_true]
      omega
  | respondVideos i response =>
      obtain ⟨region, hregion, rfl⟩ := respondVideos_cases h
      have hi : i < s.videosFetches.length := (List.getElem?_eq_some_iff.mp hregion).1
      have hone := List.length_eraseIdx_of_lt hi
      cases response <;>
        (simp only [Settles, isResponse, nextRegion, and_true, Bool.toNat_true, State.inFlight,
          State.resumeVideos]; omega)
  | respondCount response =>
      obtain ⟨f, hf, hnext, hresume⟩ := respondStats_cases (.inl ⟨response, rfl⟩) h
      rw [Settles, hnext]
      exact inFlight_resumeStats hresume hf
  | respondRegions response =>
      obtain ⟨f, hf, hnext, hresume⟩ := respondStats_cases (.inr ⟨response, rfl⟩) h
      rw [Settles, hnext]
      exact inFlight_resumeStats hresume hf

/-- What the component holds is what came with the newest fetch of channels that came
through, and with the newest response about videos. -/
structure HoldsLast (s : State C V) : Prop where
  channels : s.channels = ((lastLoaded s.answeredChannels).bind (·.byAppearances)).getD []
  channelsByViews : s.channelsByViews = ((lastLoaded s.answeredChannels).bind (·.byViews)).getD []
  videos : s.videos = ((loadedVideos s.answeredVideos).bind Prod.snd).getD []

theorem HoldsLast.resumeChannels (hholds : HoldsLast s) (i : ℕ) (hlegs : Legs f response other) :
    HoldsLast (s.resumeChannels i f response other) := by
  obtain ⟨hchannels, hviews, hvideos⟩ := hholds
  obtain ⟨region, byAppearances, byViews⟩ := f
  obtain ⟨rfl, rfl⟩ | ⟨rfl, rfl⟩ := hlegs
  · cases response <;> cases byViews <;>
      first | exact ⟨rfl, rfl, hvideos⟩ | exact ⟨hchannels, hviews, hvideos⟩
  · cases response <;> cases byAppearances <;>
      first | exact ⟨rfl, rfl, hvideos⟩ | exact ⟨hchannels, hviews, hvideos⟩

theorem HoldsLast.resumeStats {f : StatsFetch} (hholds : HoldsLast s)
    (h : s.resumeStats f = some t) : HoldsLast t := by
  obtain ⟨_, _, _, ⟨_, rfl⟩ | ⟨_, rfl⟩⟩ := resumeStats_cases h
  · exact ⟨hholds.channels, hholds.channelsByViews, hholds.videos⟩
  · exact ⟨hholds.channels, hholds.channelsByViews, hholds.videos⟩

theorem HoldsLast.step (hholds : HoldsLast s) (h : step s a = some t) : HoldsLast t := by
  cases a with
  | selectRegion v =>
      obtain ⟨_, rfl⟩ | ⟨_, rfl⟩ := selectRegion_cases h
      · exact hholds
      · exact ⟨hholds.channels, hholds.channelsByViews, hholds.videos⟩
  | respondByAppearances i response =>
      obtain ⟨_, _, _, _, _, _, hlegs, _, rfl⟩ := respondChannels_cases (.inl rfl) h
      exact hholds.resumeChannels i hlegs
  | respondByViews i response =>
      obtain ⟨_, _, _, _, _, _, hlegs, _, rfl⟩ := respondChannels_cases (.inr rfl) h
      exact hholds.resumeChannels i hlegs
  | respondVideos i response =>
      obtain ⟨region, _, rfl⟩ := respondVideos_cases h
      cases response <;> exact ⟨hholds.channels, hholds.channelsByViews, rfl⟩
  | respondCount response =>
      obtain ⟨f, _, _, hresume⟩ := respondStats_cases (.inl ⟨response, rfl⟩) h
      exact hholds.resumeStats hresume
  | respondRegions response =>
      obtain ⟨f, _, _, hresume⟩ := respondStats_cases (.inr ⟨response, rfl⟩) h
      exact hholds.resumeStats hresume

theorem holdsLast_mounted : HoldsLast (mounted : State C V) := ⟨rfl, rfl, rfl⟩

private theorem showsSelected_iff_current (hholds : HoldsLast s) :
    ShowsSelected s ↔ (s.inFlight = 0 → (channelsView s).Current ∧ (videosView s).Current) := by
  unfold ShowsSelected
  refine imp_congr_right fun _ => and_congr ?_ ?_
  · constructor
    · rintro ⟨load, hlast, hregion, -, -⟩
      show s.channelsFor = some s.region
      rw [State.channelsFor, hlast, Option.map_some, hregion]
    · intro hcurrent
      obtain ⟨load, hlast, hregion⟩ := Option.map_eq_some_iff.mp hcurrent
      refine ⟨load, hlast, hregion, ?_, ?_⟩
      · rw [hholds.channels, hlast, Option.bind_some]
      · rw [hholds.channelsByViews, hlast, Option.bind_some]
  · refine held_iff_requestedFor ?_
    intro region data hlast
    rw [hholds.videos, hlast, Option.bind_some]

/-- What the dashboard holds once nothing is on its way: a step keeps it of the region
exactly when, if it is the last response, it fits. -/
theorem showsSelected_step_iff (hholds : HoldsLast s) (hshows : ShowsSelected s)
    (h : step s a = some t) : ShowsSelected t ↔ LastFits s a := by
  have hcurrent := (showsSelected_iff_current hholds).mp hshows
  have hsettled : ShowsSelected t ↔
      (Settles s a → Fits (channelsView s) (channelsAct s a) ∧
        Fits (videosView s) (videosAct s a)) := by
    rw [showsSelected_iff_current (hholds.step h), inFlight_eq_zero_iff h,
      current_step_iff (channelsView_step h), current_step_iff (videosView_step h)]
  rw [hsettled]
  cases hresponse : isResponse a with
  | true =>
      rw [LastFits, Settles, hresponse]
      exact ⟨fun hfits _ hone hstays => hfits ⟨hone, hstays⟩,
        fun hfits hs => hfits rfl hs.1 hs.2⟩
  | false =>
      refine ⟨fun _ hyes => absurd (hresponse.symm.trans hyes) nofun, ?_⟩
      intro _ hs
      cases a with
      | selectRegion v =>
          rw [channelsAct, videosAct, selects, if_pos hs.2]
          exact hcurrent (by rw [hs.1, hresponse]; rfl)
      | respondByAppearances | respondByViews | respondVideos | respondCount | respondRegions =>
          cases hresponse

theorem showsSelected_iff {acts : List (Act C V)} (hrun : run step mounted acts = some t) :
    Always step ShowsSelected mounted acts ↔ Meets step LastFits mounted acts := by
  have hstart : ShowsSelected (mounted : State C V) := fun h => absurd h (inFlight_fetchAll _)
  exact always_iff_meets (I := HoldsLast) (fun _ _ _ hholds _ hstep => hholds.step hstep)
    (fun _ _ _ hholds hshows _ hstep => showsSelected_step_iff hholds hshows hstep)
    holdsLast_mounted hstart (meets_true _ _) hrun

/-- In every run of the video browser, and in every run of the dashboard, what is held is
of the selection whenever nothing is on its way, exactly when each last response fits. -/
theorem showsSelected_iff_lastFits {tableActs : List (VideosTable.Act V)}
    {table : VideosTable.State V} {acts : List (Act C V)}
    (htable : run VideosTable.step VideosTable.mounted tableActs = some table)
    (hrun : run step mounted acts = some t) :
    (Always VideosTable.step VideosTable.ShowsSelected VideosTable.mounted tableActs ↔
        Meets VideosTable.step VideosTable.LastFits VideosTable.mounted tableActs) ∧
      (Always step ShowsSelected mounted acts ↔ Meets step LastFits mounted acts) :=
  ⟨VideosTable.showsSelected_iff htable, showsSelected_iff hrun⟩

/-- The region is changed to GB while the first fetch, for US, is on its way; then two
answers come, each given by its place among the fetches and its data. -/
def tableRun (first second : ℕ × String) : List (VideosTable.Act String) :=
  [.selectRegion "GB", .respond first.1 (.resolved (some [first.2])),
    .respond second.1 (.resolved (some [second.2]))]

def dashboardRun (first second : ℕ × String) : List (Act String String) :=
  [.respondCount (.resolved (some 2)), .respondRegions (.resolved (some ["US", "GB"])),
    .selectRegion "GB", .respondByAppearances first.1 (.resolved (some [first.2])),
    .respondByViews first.1 (.resolved (some [first.2])),
    .respondVideos first.1 (.resolved (some [first.2])),
    .respondByAppearances second.1 (.resolved (some [second.2])),
    .respondByViews second.1 (.resolved (some [second.2])),
    .respondVideos second.1 (.resolved (some [second.2]))]

/-- With the answers in the order of their requests, both show GB. -/
theorem showsSelected_iff_lastFits_inOrder :
    Always VideosTable.step VideosTable.ShowsSelected VideosTable.mounted
        (tableRun (0, "of US") (0, "of GB")) ∧
      Always step ShowsSelected mounted (dashboardRun (0, "of US") (0, "of GB")) := by
  have htable : run VideosTable.step VideosTable.mounted (tableRun (0, "of US") (0, "of GB")) =
      some _ := rfl
  have hrun : run step mounted (dashboardRun (0, "of US") (0, "of GB")) = some _ := rfl
  obtain ⟨htableIff, hrunIff⟩ := showsSelected_iff_lastFits htable hrun
  exact ⟨htableIff.mpr (by decide), hrunIff.mpr (by decide)⟩

/-- With the answer for US as the last one, both keep it under the region GB. -/
theorem lateAnswer_stays :
    (∃ table, run VideosTable.step VideosTable.mounted (tableRun (1, "of GB") (0, "of US")) =
        some table ∧
      table.inFlight = [] ∧ table.region = "GB" ∧ table.videos = ["of US"] ∧
      ¬ VideosTable.ShowsSelected table) ∧
    ∃ t, run step mounted (dashboardRun (1, "of GB") (0, "of US")) = some t ∧
      t.inFlight = 0 ∧ t.region = "GB" ∧ t.videos = ["of US"] ∧ t.channels = ["of US"] ∧
      t.channelsByViews = ["of US"] ∧ ¬ ShowsSelected t := by
  refine ⟨⟨_, rfl, rfl, rfl, rfl, ?_⟩,
    ⟨_, rfl, rfl, rfl, rfl, rfl, rfl, ?_⟩⟩
  · intro hshows
    obtain ⟨data, hlast, -⟩ := hshows rfl
    exact absurd (Prod.mk.inj (Option.some.inj hlast)).1 (by decide)
  · intro hshows
    obtain ⟨-, data, hlast, -⟩ := hshows rfl
    exact absurd (Prod.mk.inj (Option.some.inj hlast)).1 (by decide)

end TrendingPipeline.Frontend.AnalyticsDashboard

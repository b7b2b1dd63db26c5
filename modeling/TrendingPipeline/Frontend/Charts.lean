/- Unit: TrendingPipeline/Frontend/Charts
   source: frontend/components/analytics-dashboard.tsx
   digest: What the dashboard renders, and of which region, as its requests fail. -/

import TrendingPipeline.Frontend.AnalyticsDashboard

/-!
While regions are selected one at a time there is at most one fetch of each kind and it is
for the region (`Calm`). Then data of another region can only be what a failed fetch left
behind, and the one list that a failure leaves is that of the channels.
-/

set_option autoImplicit false
set_option relaxedAutoImplicit false

namespace TrendingPipeline.Frontend.Charts

open TrendingPipeline.Base.Runs
open TrendingPipeline.Frontend.AnalyticsDashboard

variable {C V : Type}

/-- What a card shows: a spinner, an error, that there is no data, nothing at all, or
what is drawn from data. -/
inductive Content (α : Type)
  | spinner
  | error (message : String)
  | noData
  | empty
  | drawn (data : α)

/-- Top Channels by Appearances; an error without a text is no error here. -/
def topByAppearances (s : State C V) : Content (List C) :=
  if s.loadingChannels then .spinner
  else
    match s.channelsError with
    | none | some "" => if s.channels.isEmpty then .noData else .drawn s.channels
    | some message => .error message

def topByTotalViews (s : State C V) : Content (List C) :=
  if s.loadingChannels then .spinner
  else if s.channels.isEmpty then .empty
  else .drawn s.channelsByViews

/-- `moreViews v best` is `v.view_count > best.view_count`. -/
def mostViewed (moreViews : V → V → Bool) (videos : List V) : Option V :=
  videos.foldl
    (fun best v =>
      match best with
      | none => some v
      | some best => if moreViews v best then some v else some best)
    none

def mostViewedFigure (moreViews : V → V → Bool) (s : State C V) : Content V :=
  if s.loadingVideos then .spinner
  else
    match mostViewed moreViews s.videos with
    | some v => .drawn v
    | none => .noData

def NothingLoading (s : State C V) : Prop :=
  s.loadingChannels = false ∧ s.loadingVideos = false ∧ s.loadingStats = false

instance (s : State C V) : Decidable (NothingLoading s) := inferInstanceAs (Decidable (_ ∧ _))

/-- With nothing loading, each list that is drawn came with the newest fetch of channels that
came through, the video with the newest response about videos, and these were requested for
the region. -/
def ShowsOnlySelected (moreViews : V → V → Bool) (s : State C V) : Prop :=
  NothingLoading s →
    (∀ list, topByAppearances s = .drawn list →
        ∃ load, lastLoaded s.answeredChannels = some load ∧ load.region = s.region ∧
          list = load.byAppearances.getD []) ∧
      (∀ list, topByTotalViews s = .drawn list →
        ∃ load, lastLoaded s.answeredChannels = some load ∧ load.region = s.region ∧
          list = load.byViews.getD []) ∧
      ∀ v, mostViewedFigure moreViews s = .drawn v →
        ∃ data, loadedVideos s.answeredVideos = some (s.region, data) ∧
          mostViewed moreViews (data.getD []) = some v

/-- A region is selected, by the user or from the tracked ones, with no request on its way
(but for the one about the tracked regions that the selection answers). -/
def OneAtATime (s : State C V) (a : Act C V) : Prop :=
  nextRegion s a ≠ s.region → s.inFlight = (isResponse a).toNat

instance (s : State C V) (a : Act C V) : Decidable (OneAtATime s a) :=
  inferInstanceAs (Decidable (_ → _))

/-- The answer to one promise makes `Promise.all` reject, the other promise given. -/
def fails {α β : Type} : Response α → Leg β → Bool
  | .rejected _, .pending | .rejected _, .resolved _ => true
  | .rejected _, .rejected | .resolved _, _ => false

/-- The action makes a `fetchChannels` fail. -/
def failsChannels (s : State C V) : Act C V → Bool
  | .respondByAppearances i response =>
      (s.channelsFetches[i]?).any fun f => fails response f.byViews
  | .respondByViews i response =>
      (s.channelsFetches[i]?).any fun f => fails response f.byAppearances
  | .selectRegion _ | .respondVideos _ _ | .respondCount _ | .respondRegions _ => false

/-- There are no channels, or the newest fetch that came through was for the region. -/
def HeldOwn (s : State C V) : Prop := s.channels = [] ∨ s.channelsFor = some s.region

instance heldOwn_decidable (s : State C V) : Decidable (HeldOwn s) :=
  inferInstanceAs (Decidable (_ ∨ _))

/-- A `fetchChannels` that fails leaves no channels of another region. -/
def FailsOwn (s : State C V) (a : Act C V) : Prop :=
  failsChannels s a = true → HeldOwn s

instance (s : State C V) (a : Act C V) : Decidable (FailsOwn s a) :=
  inferInstanceAs (Decidable (_ → _))

/-- The region of a `fetchChannels` that has brought channels. -/
def broughtFor (f : ChannelsFetch C) : Option String :=
  match f.byViews, f.byAppearances with
  | .resolved _, .resolved (some (_ :: _)) => some f.region
  | _, _ => none

/-- The region that the data an action brings were requested for. -/
def brings (s : State C V) : Act C V → Option String
  | .respondByAppearances i response =>
      (s.channelsFetches[i]?).bind fun f => broughtFor { f with byAppearances := response.leg }
  | .respondByViews i response =>
      (s.channelsFetches[i]?).bind fun f => broughtFor { f with byViews := response.leg }
  | .respondVideos i (.resolved (some (_ :: _))) => s.videosFetches[i]?
  | .respondVideos _ _ | .selectRegion _ | .respondCount _ | .respondRegions _ => none

/-- What an action brings, and what a failure leaves, is of the region. -/
def AnswerFits (s : State C V) (a : Act C V) : Prop :=
  FailsOwn s a ∧ ∀ region ∈ brings s a, region = s.region

instance (s : State C V) (a : Act C V) : Decidable (AnswerFits s a) :=
  inferInstanceAs (Decidable (_ ∧ _))

variable {moreViews : V → V → Bool} {s t : State C V} {a : Act C V}

private theorem topByAppearances_drawn {list : List C} (h : topByAppearances s = .drawn list) :
    s.loadingChannels = false ∧ s.channels ≠ [] ∧ list = s.channels := by
  unfold topByAppearances at h
  split at h
  · cases h
  · next hloading =>
      have hdrawn : (if s.channels.isEmpty then Content.noData else .drawn s.channels) =
          .drawn list := by
        split at h
        · exact h
        · exact h
        · cases h
      split at hdrawn
      · cases hdrawn
      · next hsome =>
          refine ⟨Bool.eq_false_of_not_eq_true hloading, ?_, (Content.drawn.inj hdrawn).symm⟩
          exact fun hnone => hsome (List.isEmpty_iff.mpr hnone)

private theorem topByTotalViews_drawn_iff {list : List C} :
    topByTotalViews s = .drawn list ↔
      s.loadingChannels = false ∧ s.channels ≠ [] ∧ list = s.channelsByViews := by
  unfold topByTotalViews
  cases s.loadingChannels <;> cases s.channels <;> simp [eq_comm]

private theorem mostViewedFigure_drawn {v : V} (h : mostViewedFigure moreViews s = .drawn v) :
    s.loadingVideos = false ∧ s.videos ≠ [] ∧ mostViewed moreViews s.videos = some v := by
  unfold mostViewedFigure at h
  split at h
  · cases h
  · next hloading =>
      refine ⟨Bool.eq_false_of_not_eq_true hloading, ?_, ?_⟩
      · intro hnone
        rw [hnone] at h
        cases h
      · split at h
        · next w hmost =>
            rw [hmost, Content.drawn.inj h]
        · cases h

/-- The channels held while none load are of the region, or none. -/
def ChannelsOwn (s : State C V) : Prop :=
  s.loadingChannels = false → HeldOwn s

def VideosOwn (s : State C V) : Prop :=
  s.loadingVideos = false → s.videos = [] ∨ s.videosFor = some s.region

theorem HeldOwn.of_same (h : HeldOwn s) (hchannels : t.channels = s.channels)
    (hlast : lastLoaded t.answeredChannels = lastLoaded s.answeredChannels)
    (hregion : t.region = s.region) : HeldOwn t := by
  rw [HeldOwn, State.channelsFor, hchannels, hlast, hregion]
  exact h

private theorem showsOnlySelected_of_own (hholds : HoldsLast s) (hchannels : ChannelsOwn s)
    (hvideos : VideosOwn s) : ShowsOnlySelected moreViews s := by
  intro _
  refine ⟨?_, ?_, ?_⟩
  · intro list hdrawn
    obtain ⟨hloading, hsome, rfl⟩ := topByAppearances_drawn hdrawn
    obtain ⟨load, hlast, hregion⟩ :=
      Option.map_eq_some_iff.mp ((hchannels hloading).resolve_left hsome)
    exact ⟨load, hlast, hregion, by rw [hholds.channels, hlast, Option.bind_some]⟩
  · intro list hdrawn
    obtain ⟨hloading, hsome, rfl⟩ := topByTotalViews_drawn_iff.mp hdrawn
    obtain ⟨load, hlast, hregion⟩ :=
      Option.map_eq_some_iff.mp ((hchannels hloading).resolve_left hsome)
    exact ⟨load, hlast, hregion, by rw [hholds.channelsByViews, hlast, Option.bind_some]⟩
  · intro v hdrawn
    obtain ⟨hloading, hsome, hmost⟩ := mostViewedFigure_drawn hdrawn
    obtain ⟨⟨region, data⟩, hlast, hregion⟩ :=
      Option.map_eq_some_iff.mp ((hvideos hloading).resolve_left hsome)
    obtain rfl : region = s.region := hregion
    refine ⟨data, hlast, ?_⟩
    rw [hholds.videos, hlast, Option.bind_some] at hmost
    exact hmost

private theorem channelsOwn_of_showsOnlySelected (hnothing : NothingLoading s)
    (hshows : ShowsOnlySelected moreViews s) : ChannelsOwn s := by
  intro hloading
  by_cases hnone : s.channels = []
  · exact .inl hnone
  · obtain ⟨load, hlast, hregion, -⟩ :=
      (hshows hnothing).2.1 _ (topByTotalViews_drawn_iff.mpr ⟨hloading, hnone, rfl⟩)
    refine .inr ?_
    rw [State.channelsFor, hlast, Option.map_some, hregion]

def rejected {α : Type} : Leg α → Bool
  | .rejected => true
  | .pending | .resolved _ => false

/-- A promise of the fetch has rejected; the other one may have no answer yet. -/
def failed (f : ChannelsFetch C) : Bool := rejected f.byAppearances || rejected f.byViews

/-- What the answer to a promise of the `i`-th fetch, `g`, comes to: the other promise is
awaited, the lists are stored, the fetch fails, or it has failed before. -/
inductive ChannelsAnswered (s : State C V) (a : Act C V) (i : ℕ) (g : ChannelsFetch C) :
    State C V → Prop
  | waits (f : ChannelsFetch C) (hregion : f.region = g.region) (hsame : failed f = failed g)
      (hpending : f.inFlight ≠ 0) (hfails : failsChannels s a = false)
      (hbrings : brings s a = none) :
      ChannelsAnswered s a i g { s with channelsFetches := s.channelsFetches.set i f }
  | stores (byAppearances byViews : Option (List C)) (hbefore : failed g = false)
      (hfails : failsChannels s a = false)
      (hbrings : byAppearances.getD [] ≠ [] → brings s a = some g.region) :
      ChannelsAnswered s a i g
        { s with
          channelsFetches := s.channelsFetches.eraseIdx i
          answeredChannels :=
            ⟨g.region, .resolved byAppearances, .resolved byViews⟩ :: s.answeredChannels
          channels := byAppearances.getD []
          channelsByViews := byViews.getD []
          loadingChannels := false }
  | fails (message : String) (fetches answered : List (ChannelsFetch C))
      (hfetches : fetches = s.channelsFetches.eraseIdx i ∨
        ∃ f, f.region = g.region ∧ failed f = true ∧ f.inFlight ≠ 0 ∧
          fetches = s.channelsFetches.set i f)
      (hanswered : lastLoaded answered = lastLoaded s.answeredChannels)
      (hbefore : failed g = false) (hfails : failsChannels s a = true)
      (hbrings : brings s a = none) :
      ChannelsAnswered s a i g
        { s with
          channelsFetches := fetches
          answeredChannels := answered
          channelsError := some message
          loadingChannels := false }
  | ends (answered : List (ChannelsFetch C))
      (hanswered : lastLoaded answered = lastLoaded s.answeredChannels)
      (hbefore : failed g = true) (hfails : failsChannels s a = false)
      (hbrings : brings s a = none) :
      ChannelsAnswered s a i g
        { s with
          channelsFetches := s.channelsFetches.eraseIdx i
          answeredChannels := answered }

variable {i : ℕ} {f g : ChannelsFetch C} {response : Response (Option (List C))}
  {other : Leg (Option (List C))}

private theorem brought_of_stores {byAppearances byViews : Option (List C)}
    (hbrings : brings s a = broughtFor f) (hregion : f.region = g.region)
    (hfirst : f.byAppearances = .resolved byAppearances) (hsecond : f.byViews = .resolved byViews)
    (hsome : byAppearances.getD [] ≠ []) : brings s a = some g.region := by
  rw [hbrings, broughtFor, hfirst, hsecond, ← hregion]
  cases byAppearances with
  | none => exact absurd rfl hsome
  | some list =>
      cases list with
      | nil => exact absurd rfl hsome
      | cons c cs => rfl

private theorem resumeChannels_answered (hregion : f.region = g.region)
    (hlegs : Legs f response other)
    (hbefore : failed g = rejected other) (hfails : failsChannels s a = fails response other)
    (hbrings : brings s a = broughtFor f) :
    ChannelsAnswered s a i g (s.resumeChannels i f response other) := by
  obtain ⟨region, byAppearances, byViews⟩ := f
  subst hregion
  obtain ⟨rfl, rfl⟩ | ⟨rfl, rfl⟩ := hlegs
  · cases response with
    | resolved value =>
        cases byViews with
        | pending => exact .waits _ rfl hbefore.symm Nat.one_ne_zero hfails hbrings
        | resolved => exact .stores _ _ hbefore hfails (brought_of_stores hbrings rfl rfl rfl)
        | rejected => exact .ends _ rfl hbefore hfails hbrings
    | rejected message =>
        cases byViews with
        | pending =>
            exact .fails _ _ _
              (.inr ⟨⟨g.region, .rejected, .pending⟩, rfl, rfl, Nat.one_ne_zero, rfl⟩) rfl
              hbefore hfails hbrings
        | resolved => exact .fails _ _ _ (.inl rfl) rfl hbefore hfails hbrings
        | rejected => exact .ends _ rfl hbefore hfails hbrings
  · cases response with
    | resolved value =>
        cases byAppearances with
        | pending => exact .waits _ rfl hbefore.symm Nat.one_ne_zero hfails hbrings
        | resolved => exact .stores _ _ hbefore hfails (brought_of_stores hbrings rfl rfl rfl)
        | rejected => exact .ends _ rfl hbefore hfails hbrings
    | rejected message =>
        cases byAppearances with
        | pending =>
            exact .fails _ _ _
              (.inr ⟨⟨g.region, .pending, .rejected⟩, rfl, rfl, Nat.one_ne_zero, rfl⟩) rfl
              hbefore hfails hbrings
        | resolved => exact .fails _ _ _ (.inl rfl) rfl hbefore hfails hbrings
        | rejected => exact .ends _ rfl hbefore hfails hbrings

private theorem respondByAppearances_answered
    (h : step s (.respondByAppearances i response) = some t) :
    ∃ g, s.channelsFetches[i]? = some g ∧
      ChannelsAnswered s (.respondByAppearances i response) i g t := by
  obtain ⟨g, hg, hanswer⟩ := Option.bind_eq_some_iff.mp h
  split at hanswer
  · next hpending =>
      obtain rfl := Option.some.inj hanswer
      refine ⟨g, hg, resumeChannels_answered rfl (.inl ⟨rfl, rfl⟩) ?_ ?_ ?_⟩
      · cases hfirst : g.byAppearances with
        | pending => simp [failed, hfirst, rejected]
        | resolved | rejected => simp [hfirst, Leg.isPending] at hpending
      · simp [failsChannels, hg]
      · simp [brings, hg]
  · cases hanswer

private theorem respondByViews_answered (h : step s (.respondByViews i response) = some t) :
    ∃ g, s.channelsFetches[i]? = some g ∧
      ChannelsAnswered s (.respondByViews i response) i g t := by
  obtain ⟨g, hg, hanswer⟩ := Option.bind_eq_some_iff.mp h
  split at hanswer
  · next hpending =>
      obtain rfl := Option.some.inj hanswer
      refine ⟨g, hg, resumeChannels_answered rfl (.inr ⟨rfl, rfl⟩) ?_ ?_ ?_⟩
      · cases hsecond : g.byViews with
        | pending => simp [failed, hsecond, rejected]
        | resolved | rejected => simp [hsecond, Leg.isPending] at hpending
      · simp [failsChannels, hg]
      · simp [brings, hg]
  · cases hanswer

private theorem channelsOwn_answered (hown : ChannelsOwn s) (hfits : AnswerFits s a)
    (hanswered : ChannelsAnswered s a i g t) : ChannelsOwn t := by
  cases hanswered with
  | waits f hregion hsame hpending hfails hbrings => exact hown
  | stores byAppearances byViews hbefore hfails hbrings =>
      intro _
      by_cases hnone : byAppearances.getD [] = []
      · exact .inl hnone
      · exact .inr (congrArg some (hfits.2 g.region (hbrings hnone)))
  | fails message fetches answered hfetches hsame hbefore hfails hbrings =>
      exact fun _ => (hfits.1 hfails).of_same rfl hsame rfl
  | ends answered hsame hbefore hfails hbrings =>
      exact fun hloading => (hown hloading).of_same rfl hsame rfl

private theorem videosOwn_answered (hown : VideosOwn s) (hanswered : ChannelsAnswered s a i g t) :
    VideosOwn t := by
  cases hanswered <;> exact hown

private theorem videosOwn_respondVideos {response : Response (Option (List V))}
    (hfits : AnswerFits s (.respondVideos i response))
    (h : step s (.respondVideos i response) = some t) : VideosOwn t := by
  obtain ⟨region, hregion, rfl⟩ := respondVideos_cases h
  intro _
  cases response with
  | rejected message => exact .inl rfl
  | resolved data =>
      cases data with
      | none => exact .inl rfl
      | some videos =>
          cases videos with
          | nil => exact .inl rfl
          | cons v vs => exact .inr (congrArg some (hfits.2 region hregion))

private theorem own_resumeStats {f : StatsFetch} (hchannels : ChannelsOwn s) (hvideos : VideosOwn s)
    (h : s.resumeStats f = some t) : ChannelsOwn t ∧ VideosOwn t := by
  obtain ⟨_, _, _, ⟨_, rfl⟩ | ⟨_, rfl⟩⟩ := resumeStats_cases h
  · exact ⟨hchannels, hvideos⟩
  · exact ⟨nofun, nofun⟩

private theorem own_step (hown : ChannelsOwn s ∧ VideosOwn s) (hfits : AnswerFits s a)
    (h : step s a = some t) : ChannelsOwn t ∧ VideosOwn t := by
  obtain ⟨hchannels, hvideos⟩ := hown
  cases a with
  | selectRegion v =>
      obtain ⟨_, rfl⟩ | ⟨_, rfl⟩ := selectRegion_cases h
      · exact ⟨hchannels, hvideos⟩
      · exact ⟨nofun, nofun⟩
  | respondByAppearances i response =>
      obtain ⟨g, _, hanswered⟩ := respondByAppearances_answered h
      exact ⟨channelsOwn_answered hchannels hfits hanswered, videosOwn_answered hvideos hanswered⟩
  | respondByViews i response =>
      obtain ⟨g, _, hanswered⟩ := respondByViews_answered h
      exact ⟨channelsOwn_answered hchannels hfits hanswered, videosOwn_answered hvideos hanswered⟩
  | respondVideos i response =>
      refine ⟨?_, videosOwn_respondVideos hfits h⟩
      obtain ⟨region, _, rfl⟩ := respondVideos_cases h
      cases response <;> exact hchannels
  | respondCount response =>
      obtain ⟨f, _, _, hresume⟩ := respondStats_cases (.inl ⟨response, rfl⟩) h
      exact own_resumeStats hchannels hvideos hresume
  | respondRegions response =>
      obtain ⟨f, _, _, hresume⟩ := respondStats_cases (.inr ⟨response, rfl⟩) h
      exact own_resumeStats hchannels hvideos hresume

private theorem own_mounted : ChannelsOwn (mounted : State C V) ∧ VideosOwn (mounted : State C V) :=
  ⟨nofun, nofun⟩

private theorem showsOnlySelected_of_answerFits {acts : List (Act C V)}
    (hfits : Meets step AnswerFits mounted acts) :
    Always step (ShowsOnlySelected moreViews) mounted acts :=
  always_of_invariant (I := fun s => HoldsLast s ∧ ChannelsOwn s ∧ VideosOwn s)
    (fun _ _ _ hown hcond hstep => ⟨hown.1.step hstep, own_step hown.2 hcond hstep⟩)
    (fun _ hown => showsOnlySelected_of_own hown.1 hown.2.1 hown.2.2)
    ⟨holdsLast_mounted, own_mounted⟩ hfits

/-- One fetch of the channels at most is on its way: it is for the region, and it has
failed unless they are loading. -/
def ChannelsCalm (s : State C V) : Prop :=
  (s.channelsFetches = [] ∧ s.loadingChannels = false) ∨
    ∃ f, s.channelsFetches = [f] ∧ f.region = s.region ∧ f.inFlight ≠ 0 ∧
      s.loadingChannels = !failed f

def VideosCalm (s : State C V) : Prop :=
  (s.videosFetches = [] ∧ s.loadingVideos = false) ∨
    (s.videosFetches = [s.region] ∧ s.loadingVideos = true)

/-- While the counts are awaited the region has never changed. -/
def StatsCalm (s : State C V) : Prop :=
  (s.loadingStats = true → s.statsFetch.inFlight ≠ 0) ∧
    (s.statsFetch.inFlight ≠ 0 → HeldOwn s)

structure Calm (s : State C V) : Prop where
  channels : ChannelsCalm s
  videos : VideosCalm s
  stats : StatsCalm s

private theorem calm_mounted : Calm (mounted : State C V) where
  channels := .inr ⟨_, rfl, rfl, nofun, rfl⟩
  videos := .inr ⟨rfl, rfl⟩
  stats := ⟨fun _ => nofun, fun _ => .inl rfl⟩

private theorem channelsCalm_at (hcalm : ChannelsCalm s) (hg : s.channelsFetches[i]? = some g) :
    i = 0 ∧ s.channelsFetches = [g] ∧ g.region = s.region ∧ s.loadingChannels = !failed g := by
  obtain ⟨hnone, _⟩ | ⟨f, hone, hregion, _, hloading⟩ := hcalm
  · rw [hnone] at hg
    cases hg
  · rw [hone] at hg
    obtain ⟨hi, rfl⟩ := List.getElem?_eq_some_iff.mp hg
    obtain rfl : i = 0 := Nat.lt_one_iff.mp hi
    exact ⟨rfl, hone, hregion, hloading⟩

private theorem videosCalm_at {region : String} (hcalm : VideosCalm s)
    (hregion : s.videosFetches[i]? = some region) :
    i = 0 ∧ s.videosFetches = [s.region] ∧ region = s.region := by
  obtain ⟨hnone, _⟩ | ⟨hone, _⟩ := hcalm
  · rw [hnone] at hregion
    cases hregion
  · rw [hone] at hregion
    obtain ⟨hi, rfl⟩ := List.getElem?_eq_some_iff.mp hregion
    obtain rfl : i = 0 := Nat.lt_one_iff.mp hi
    exact ⟨rfl, hone, rfl⟩

private theorem channelsCalm_answered (hcalm : ChannelsCalm s) (hg : s.channelsFetches[i]? = some g)
    (hanswered : ChannelsAnswered s a i g t) : ChannelsCalm t := by
  obtain ⟨rfl, hone, hregion, hloading⟩ := channelsCalm_at hcalm hg
  have herase : s.channelsFetches.eraseIdx 0 = [] := by rw [hone]; rfl
  have hset : ∀ f, s.channelsFetches.set 0 f = [f] := fun f => by rw [hone]; rfl
  cases hanswered with
  | waits f hsameRegion hsame hpending hfails hbrings =>
      refine .inr ⟨f, hset f, hsameRegion.trans hregion, hpending, ?_⟩
      rw [hsame]
      exact hloading
  | stores byAppearances byViews hbefore hfails hbrings => exact .inl ⟨herase, rfl⟩
  | fails message fetches answered hfetches hsame hbefore hfails hbrings =>
      obtain rfl | ⟨f, hsameRegion, hfailed, hpending, rfl⟩ := hfetches
      · exact .inl ⟨herase, rfl⟩
      · refine .inr ⟨f, hset f, hsameRegion.trans hregion, hpending, ?_⟩
        rw [hfailed]
        rfl
  | ends answered hsame hbefore hfails hbrings =>
      refine .inl ⟨herase, ?_⟩
      rw [hbefore] at hloading
      exact hloading

private theorem calm_answered (hcalm : Calm s) (hg : s.channelsFetches[i]? = some g)
    (hanswered : ChannelsAnswered s a i g t) : Calm t where
  channels := channelsCalm_answered hcalm.channels hg hanswered
  videos := by
    have hvideos := hcalm.videos
    cases hanswered <;> exact hvideos
  stats := by
    obtain ⟨hloading, hfresh⟩ := hcalm.stats
    cases hanswered with
    | stores byAppearances byViews hbefore hfails hbrings =>
        obtain ⟨_, _, hregion, _⟩ := channelsCalm_at hcalm.channels hg
        exact ⟨hloading, fun _ => .inr (congrArg some hregion)⟩
    | waits => exact ⟨hloading, hfresh⟩
    | fails message fetches answered hfetches hsame hbefore hfails hbrings =>
        exact ⟨hloading, fun hpending => (hfresh hpending).of_same rfl hsame rfl⟩
    | ends answered hsame hbefore hfails hbrings =>
        exact ⟨hloading, fun hpending => (hfresh hpending).of_same rfl hsame rfl⟩

private theorem fetches_eq_nil (hcalm : Calm s) (h : s.inFlight = s.statsFetch.inFlight) :
    (s.channelsFetches = [] ∧ s.loadingChannels = false) ∧
      (s.videosFetches = [] ∧ s.loadingVideos = false) := by
  refine ⟨?_, ?_⟩
  · refine hcalm.channels.resolve_right ?_
    rintro ⟨f, hone, _, hpending, _⟩
    simp only [State.inFlight, hone, List.map_cons, List.map_nil, List.sum_cons, List.sum_nil] at h
    omega
  · refine hcalm.videos.resolve_right ?_
    rintro ⟨hone, _⟩
    simp only [State.inFlight, hone, List.length_singleton] at h
    omega

private theorem nothingLoading_of_inFlight (hcalm : Calm s) (h : s.inFlight = 0) :
    NothingLoading s := by
  have hstats : s.statsFetch.inFlight = 0 := by
    simp only [State.inFlight] at h
    omega
  obtain ⟨⟨_, hchannels⟩, _, hvideos⟩ := fetches_eq_nil hcalm (h.trans hstats.symm)
  refine ⟨hchannels, hvideos, ?_⟩
  exact Bool.eq_false_of_not_eq_true fun hloading => hcalm.stats.1 hloading hstats

private theorem calm_fetchAll (hchannels : s.channelsFetches = []) (hvideos : s.videosFetches = [])
    (hloading : s.loadingStats = true → s.statsFetch.inFlight ≠ 0)
    (hstats : s.statsFetch.inFlight = 0) : Calm s.fetchAll where
  channels := .inr ⟨{ region := s.region }, by simp [State.fetchAll, hchannels], rfl, nofun, rfl⟩
  videos := .inr ⟨by simp [State.fetchAll, hvideos], rfl⟩
  stats := ⟨hloading, fun h => absurd hstats h⟩

private theorem loadingStats_resumeStats {f : StatsFetch} (h : s.resumeStats f = some t)
    (hloading : t.loadingStats = true) : t.statsFetch.inFlight ≠ 0 := by
  obtain ⟨count, regions⟩ := f
  cases count with
  | pending =>
      cases regions <;> obtain rfl := Option.some.inj h
      · exact nofun
      · exact nofun
      · cases hloading
  | rejected =>
      obtain rfl := Option.some.inj h
      cases hloading
  | resolved count =>
      cases regions with
      | pending =>
          obtain rfl := Option.some.inj h
          exact nofun
      | rejected =>
          obtain rfl := Option.some.inj h
          cases hloading
      | resolved regions =>
          cases regions with
          | none => cases h
          | some regions =>
              obtain rfl := Option.some.inj h
              split at hloading <;> cases hloading

private theorem calm_resumeStats {f : StatsFetch} (hcalm : Calm s)
    (hone : chooseRegion s.region f ≠ s.region → s.inFlight = 1)
    (hf : f.inFlight + 1 = s.statsFetch.inFlight) (h : s.resumeStats f = some t) : Calm t := by
  have hloading := loadingStats_resumeStats h
  obtain ⟨_, _, _, ⟨_, rfl⟩ | ⟨hmoved, rfl⟩⟩ := resumeStats_cases h
  · refine ⟨hcalm.channels, hcalm.videos, hloading, fun _ => hcalm.stats.2 ?_⟩
    omega
  · have hlast : s.inFlight = s.statsFetch.inFlight ∧ f.inFlight = 0 := by
      have hcount := hone hmoved
      have hsum : s.statsFetch.inFlight ≤ s.inFlight := Nat.le_add_left _ _
      omega
    obtain ⟨⟨hchannels, _⟩, hvideos, _⟩ := fetches_eq_nil hcalm hlast.1
    exact calm_fetchAll hchannels hvideos hloading hlast.2

private theorem calm_step (hcalm : Calm s) (hone : OneAtATime s a) (h : step s a = some t) :
    Calm t := by
  cases a with
  | selectRegion v =>
      obtain ⟨_, rfl⟩ | ⟨hmoved, rfl⟩ := selectRegion_cases h
      · exact hcalm
      · have hnone : s.inFlight = 0 := hone hmoved
        have hstats : s.statsFetch.inFlight = 0 := by
          simp only [State.inFlight] at hnone
          omega
        obtain ⟨⟨hchannels, _⟩, hvideos, _⟩ := fetches_eq_nil hcalm (hnone.trans hstats.symm)
        exact calm_fetchAll hchannels hvideos hcalm.stats.1 hstats
  | respondByAppearances i response =>
      obtain ⟨g, hg, hanswered⟩ := respondByAppearances_answered h
      exact calm_answered hcalm hg hanswered
  | respondByViews i response =>
      obtain ⟨g, hg, hanswered⟩ := respondByViews_answered h
      exact calm_answered hcalm hg hanswered
  | respondVideos i response =>
      obtain ⟨region, hregion, rfl⟩ := respondVideos_cases h
      obtain ⟨rfl, hvideos, _⟩ := videosCalm_at hcalm.videos hregion
      have herase : s.videosFetches.eraseIdx 0 = [] := by rw [hvideos]; rfl
      cases response <;> exact ⟨hcalm.channels, .inl ⟨herase, rfl⟩, hcalm.stats⟩
  | respondCount response =>
      obtain ⟨f, hf, hnext, hresume⟩ := respondStats_cases (.inl ⟨response, rfl⟩) h
      exact calm_resumeStats hcalm (fun hmoved => hone (hnext ▸ hmoved)) hf hresume
  | respondRegions response =>
      obtain ⟨f, hf, hnext, hresume⟩ := respondStats_cases (.inr ⟨response, rfl⟩) h
      exact calm_resumeStats hcalm (fun hmoved => hone (hnext ▸ hmoved)) hf hresume

private theorem region_of_broughtFor {region : String} (h : broughtFor f = some region) :
    f.region = region := by
  unfold broughtFor at h
  split at h
  · exact Option.some.inj h
  · cases h

private theorem fetch_of_brings_videos {region : String} {response : Response (Option (List V))}
    (h : brings s (.respondVideos i response : Act C V) = some region) :
    s.videosFetches[i]? = some region := by
  cases response with
  | rejected message => cases h
  | resolved data =>
      cases data with
      | none => cases h
      | some videos =>
          cases videos with
          | nil => cases h
          | cons v vs => exact h

private theorem answerFits_of_calm (hcalm : Calm s) (hfails : FailsOwn s a) : AnswerFits s a := by
  refine ⟨hfails, ?_⟩
  intro region hbrings
  cases a with
  | respondByAppearances i response =>
      obtain ⟨g, hg, hbrought⟩ := Option.bind_eq_some_iff.mp hbrings
      obtain ⟨_, _, hregion, _⟩ := channelsCalm_at hcalm.channels hg
      exact (region_of_broughtFor hbrought).symm.trans hregion
  | respondByViews i response =>
      obtain ⟨g, hg, hbrought⟩ := Option.bind_eq_some_iff.mp hbrings
      obtain ⟨_, _, hregion, _⟩ := channelsCalm_at hcalm.channels hg
      exact (region_of_broughtFor hbrought).symm.trans hregion
  | respondVideos i response =>
      exact (videosCalm_at hcalm.videos (fetch_of_brings_videos hbrings)).2.2
  | selectRegion | respondCount | respondRegions => cases hbrings

private theorem showsOnlySelected_of_failsOwn {acts : List (Act C V)}
    (hone : Meets step OneAtATime mounted acts) (hfails : Meets step FailsOwn mounted acts) :
    Always step (ShowsOnlySelected moreViews) mounted acts := by
  refine always_of_invariant
    (I := fun s => Calm s ∧ HoldsLast s ∧ ChannelsOwn s ∧ VideosOwn s) ?_
    (fun _ hown => showsOnlySelected_of_own hown.2.1 hown.2.2.1 hown.2.2.2)
    ⟨calm_mounted, holdsLast_mounted, own_mounted⟩ (meets_and hone hfails)
  rintro s a t ⟨hcalm, hholds, hown⟩ ⟨hselects, hcond⟩ hstep
  exact ⟨calm_step hcalm hselects hstep, hholds.step hstep,
    own_step hown (answerFits_of_calm hcalm hcond) hstep⟩

private theorem not_channelsOwn_of_fails (hanswered : ChannelsAnswered s a i g t)
    (hmiss : ¬ FailsOwn s a) : ¬ ChannelsOwn t := by
  have hfailed : failsChannels s a = true := by
    by_contra hnot
    exact hmiss fun h => absurd h hnot
  intro hown
  cases hanswered with
  | waits f hregion hsame hpending hfails hbrings => rw [hfailed] at hfails; cases hfails
  | stores byAppearances byViews hbefore hfails hbrings => rw [hfailed] at hfails; cases hfails
  | fails message fetches answered hfetches hsame hbefore hfails hbrings =>
      exact hmiss fun _ => (hown rfl).of_same rfl hsame.symm rfl
  | ends answered hsame hbefore hfails hbrings => rw [hfailed] at hfails; cases hfails

private theorem not_channelsOwn_step (hcalm : Calm s) (hshows : ShowsOnlySelected moreViews s)
    (hone : OneAtATime s a) (hnot : ¬ ChannelsOwn s) (h : step s a = some t) :
    ¬ ChannelsOwn t := by
  have hloading : s.loadingChannels = false := by
    by_contra hloads
    exact hnot fun h => absurd h hloads
  have hstale : ¬ HeldOwn s := fun hown =>
    hnot fun _ => hown
  have hanswer : ∀ {i : ℕ} {g : ChannelsFetch C}, s.channelsFetches[i]? = some g →
      ChannelsAnswered s a i g t → ¬ ChannelsOwn t := by
    intro i g hg hanswered
    obtain ⟨_, _, _, hfailed⟩ := channelsCalm_at hcalm.channels hg
    rw [hloading] at hfailed
    cases hanswered with
    | waits => exact hnot
    | ends answered hsame =>
        exact fun hown => hnot fun hloads => (hown hloads).of_same rfl hsame.symm rfl
    | stores byAppearances byViews hbefore => rw [hbefore] at hfailed; cases hfailed
    | fails message fetches answered hfetches hsame hbefore =>
        rw [hbefore] at hfailed
        cases hfailed
  have hstats : ∀ {f : StatsFetch}, f.inFlight + 1 = s.statsFetch.inFlight →
      ¬ ChannelsOwn t := fun hf => absurd (hcalm.stats.2 (by omega)) hstale
  cases a with
  | selectRegion v =>
      obtain ⟨_, rfl⟩ | ⟨hmoved, _⟩ := selectRegion_cases h
      · exact hnot
      · exact absurd (channelsOwn_of_showsOnlySelected
          (nothingLoading_of_inFlight hcalm (hone hmoved)) hshows) hnot
  | respondByAppearances i response =>
      obtain ⟨g, hg, hanswered⟩ := respondByAppearances_answered h
      exact hanswer hg hanswered
  | respondByViews i response =>
      obtain ⟨g, hg, hanswered⟩ := respondByViews_answered h
      exact hanswer hg hanswered
  | respondVideos i response =>
      obtain ⟨region, _, rfl⟩ := respondVideos_cases h
      cases response <;> exact hnot
  | respondCount response =>
      obtain ⟨f, hf, _⟩ := respondStats_cases (.inl ⟨response, rfl⟩) h
      exact hstats hf
  | respondRegions response =>
      obtain ⟨f, hf, _⟩ := respondStats_cases (.inr ⟨response, rfl⟩) h
      exact hstats hf

private theorem not_channelsOwn_of_not_failsOwn (hmiss : ¬ FailsOwn s a) (h : step s a = some t) :
    ¬ ChannelsOwn t := by
  cases a with
  | respondByAppearances i response =>
      obtain ⟨g, _, hanswered⟩ := respondByAppearances_answered h
      exact not_channelsOwn_of_fails hanswered hmiss
  | respondByViews i response =>
      obtain ⟨g, _, hanswered⟩ := respondByViews_answered h
      exact not_channelsOwn_of_fails hanswered hmiss
  | selectRegion | respondVideos | respondCount | respondRegions => exact absurd nofun hmiss

private theorem failsOwn_of_showsOnlySelected {acts : List (Act C V)}
    (hone : Meets step OneAtATime mounted acts) (hrun : run step mounted acts = some t)
    (hsettled : t.inFlight = 0) (hshows : Always step (ShowsOnlySelected moreViews) mounted acts) :
    Meets step FailsOwn mounted acts := by
  by_contra hmiss
  have hspoilt : Calm t ∧ ¬ ChannelsOwn t := by
    refine spoilt_of_not_meets (I := Calm) (B := fun s => Calm s ∧ ¬ ChannelsOwn s) ?_ ?_ ?_
      calm_mounted (meets_and hone (meets_of_always hshows)) hrun hmiss
    · intro s a t hcalm hok _ hstep
      exact calm_step hcalm hok.1 hstep
    · intro s a t hcalm hok hfails hstep
      exact ⟨calm_step hcalm hok.1 hstep, not_channelsOwn_of_not_failsOwn hfails hstep⟩
    · intro s a t hbad hok hstep
      exact ⟨calm_step hbad.1 hok.1 hstep,
        not_channelsOwn_step hbad.1 hok.2 hok.1 hbad.2 hstep⟩
  exact hspoilt.2 (channelsOwn_of_showsOnlySelected
    (nothingLoading_of_inFlight hspoilt.1 hsettled) (always_last hshows hrun))

/-- In every run whose selections are made one at a time, what is drawn is of the region
if every `fetchChannels` that fails leaves channels of the region or none; a run that ends
with every request answered shows only the region exactly then. When selections overlap,
what the answers bring has to be of the region as well. -/
theorem showsOnlySelected_iff (moreViews : V → V → Bool) {acts : List (Act C V)}
    (hrun : run step mounted acts = some t) :
    (Meets step OneAtATime mounted acts →
        (Meets step FailsOwn mounted acts →
          Always step (ShowsOnlySelected moreViews) mounted acts) ∧
        (t.inFlight = 0 → Always step (ShowsOnlySelected moreViews) mounted acts →
          Meets step FailsOwn mounted acts)) ∧
      (Meets step AnswerFits mounted acts →
        Always step (ShowsOnlySelected moreViews) mounted acts) := by
  refine ⟨fun hone => ⟨fun hfails => ?_, fun hsettled hshows => ?_⟩, fun hfits => ?_⟩
  · exact showsOnlySelected_of_failsOwn hone hfails
  · exact failsOwn_of_showsOnlySelected hone hrun hsettled hshows
  · exact showsOnlySelected_of_answerFits hfits

/-- Both promises of the fetch for US come to `us` and, after GB is selected with nothing on
its way, both of that for GB to `gb`; the videos, here their view counts, arrive. -/
def switchRun (us gb : Response (Option (List String))) : List (Act String ℕ) :=
  [.respondCount (.resolved (some 2)), .respondRegions (.resolved (some ["US", "GB"])),
    .respondByAppearances 0 us, .respondByViews 0 us, .respondVideos 0 (.resolved (some [3, 5])),
    .selectRegion "GB",
    .respondByAppearances 0 gb, .respondByViews 0 gb, .respondVideos 0 (.resolved (some [4]))]

/-- The answer of `getTopChannels` when the gateway's is not ok. -/
def notOk : Response (Option (List String)) := .rejected (some "Failed to fetch top channels")

/-- With nothing held the channels may fail, and GB's are then shown. -/
theorem showsOnlySelected_iff_failsFirst :
    Always step (ShowsOnlySelected fun v best => decide (best < v)) mounted
        (switchRun notOk (.resolved (some ["of GB"]))) ∧
      Meets step FailsOwn mounted (switchRun notOk (.resolved (some ["of GB"]))) := by
  have hrun : run step mounted (switchRun notOk (.resolved (some ["of GB"]))) = some _ := rfl
  obtain ⟨honeAtATime, hfits⟩ := showsOnlySelected_iff (fun v best => decide (best < v)) hrun
  obtain ⟨_, hconverse⟩ := honeAtATime (by decide)
  have hshows := hfits (by decide)
  exact ⟨hshows, hconverse rfl hshows⟩

/-- Once the channels of GB have failed, the chart by total views is that of US, beside
the error in the chart by appearances. -/
theorem failedRegion_showsLast :
    Meets step OneAtATime mounted (switchRun (.resolved (some ["of US"])) notOk) ∧
      ∃ t, run step mounted (switchRun (.resolved (some ["of US"])) notOk) = some t ∧
        NothingLoading t ∧ t.region = "GB" ∧ t.channelsFor = some "US" ∧
        topByAppearances t = .error "Failed to fetch top channels" ∧
        topByTotalViews t = .drawn ["of US"] ∧
        ¬ ShowsOnlySelected (fun v best => decide (best < v)) t := by
  refine ⟨by decide, _, rfl, ⟨rfl, rfl, rfl⟩, rfl, rfl, rfl, rfl, ?_⟩
  intro hshows
  obtain ⟨load, hlast, hregion, -⟩ := (hshows ⟨rfl, rfl, rfl⟩).2.1 ["of US"] rfl
  obtain rfl := Option.some.inj hlast
  exact absurd hregion (by decide)

end TrendingPipeline.Frontend.Charts

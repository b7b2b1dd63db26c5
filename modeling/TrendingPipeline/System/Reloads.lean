/- Unit: TrendingPipeline/System/Reloads
   source: frontend/components/videos-summary-card.tsx, backend/analytics/server.go,
     backend/db/db.go
   digest: The figures of the summary card beside the process, from one load to the next. -/

import TrendingPipeline.Frontend.SummaryCard
import TrendingPipeline.System.History

set_option autoImplicit false
set_option relaxedAutoImplicit false

namespace TrendingPipeline.System.Reloads

open Relation (ReflTransGen)
open TrendingPipeline.Base.Runs
open TrendingPipeline.Frontend.Api (Result Thrown)
open TrendingPipeline.Frontend.SummaryCard
open TrendingPipeline.Store.Queries (getVideoCount)
open TrendingPipeline.Store.Tables (VideosTable)
open TrendingPipeline.Store.Trends (RegionsAnswer)
open TrendingPipeline.System.History (dedup_length_le)
open TrendingPipeline.System.Provenance (appended_of_path)
open TrendingPipeline.System.Step (Anything)

structure State where
  sys : Step.State
  card : Card := {}

inductive Act
  | process (a : Step.Act)
  /-- GetVideosCount reads the table for the first request -/
  | readCount
  /-- GetTrackedRegions reads it for the second, and finds this -/
  | readRegions (count : Int64) (regions : List String)
  /-- the query for a figure fails -/
  | failQuery (w : Which)
  /-- no response arrives, or none that can be read -/
  | reject (w : Which) (e : Thrown)
  /-- `then` or `catch` runs -/
  | store (w : Which)
  /-- `finally` runs -/
  | finish (w : Which)

instance regionsAnswer_decidable (videos : VideosTable) (count : Int64) (regions : List String) :
    Decidable (RegionsAnswer videos count regions) :=
  decidable_of_iff
    (count = Int64.ofNat (videos.rows.map (·.region)).dedup.length ∧
      regions.Perm (videos.rows.map (·.region)).dedup)
    ⟨fun h => ⟨h.1, h.2⟩, fun h => ⟨h.count_eq, h.perm⟩⟩

def State.move (s : State) (w : Which) (f : Tile → Option Tile) : Option State :=
  (f (s.card.tile w)).map fun tile => { s with card := s.card.set w tile }

def step (s : State) : Act → Option State
  | .process a => (Step.step s.sys a).map fun t => { s with sys := t }
  | .readCount =>
      if s.sys.phase = .down then none
      else s.move .videos (Tile.answer (countCall (some (getVideoCount s.sys.db.videos))))
  | .readRegions count regions =>
      if s.sys.phase ≠ .down ∧ RegionsAnswer s.sys.db.videos count regions then
        s.move .regions (Tile.answer (regionsCall (some (count, regions))))
      else none
  | .failQuery w =>
      if s.sys.phase = .down then none else s.move w (Tile.answer (failedCall w))
  | .reject w e => s.move w (Tile.answer (.error e))
  | .store w => s.move w Tile.store
  | .finish w => s.move w Tile.finish

/-- The card is rendered for the first time, beside whatever tables there are. -/
def Mounts (s : State) : Prop := s.card = {}

def State.reloaded (s : State) : State := { s with card := {} }

def Served (_ : State) : Act → Prop
  | .failQuery _ | .reject _ _ => False
  | .process _ | .readCount | .readRegions _ _ | .store _ | .finish _ => True

instance served_decidable (s : State) : ∀ a, Decidable (Served s a)
  | .failQuery _ | .reject _ _ => inferInstanceAs (Decidable False)
  | .process _ | .readCount | .readRegions _ _ | .store _ | .finish _ =>
      inferInstanceAs (Decidable True)

def counted (videos : VideosTable) : Which → ℕ
  | .videos => videos.rows.length
  | .regions => (videos.rows.map (·.region)).dedup.length

def Between (lo hi : ℕ) (v : Option Base.JsonText.Json) : Prop :=
  ∃ n, lo ≤ n ∧ n ≤ hi ∧ v = written n

/-- A figure whose answer, once it is there, is in a range. -/
structure Holds (lo hi : ℕ) (tile : Tile) : Prop where
  loading : tile.loading = true ∨ tile.phase = .settled ∧ tile.loading = false
  answered : ∀ result, tile.phase = .answered result → Between lo hi (kept result)
  value : tile.phase = .stored ∨ tile.phase = .settled → Between lo hi tile.value

variable {lo hi hi' : ℕ} {tile tile' : Tile}

theorem Between.mono {v : Option Base.JsonText.Json} (hle : hi ≤ hi') (h : Between lo hi v) :
    Between lo hi' v := by
  obtain ⟨n, hlo, hhi, hv⟩ := h
  exact ⟨n, hlo, hhi.trans hle, hv⟩

theorem Holds.mono (hle : hi ≤ hi') (h : Holds lo hi tile) : Holds lo hi' tile where
  loading := h.loading
  answered result hresult := (h.answered result hresult).mono hle
  value hphase := (h.value hphase).mono hle

private theorem holds_start : Holds lo hi {} where
  loading := .inl rfl
  answered := nofun
  value := by
    rintro (hphase | hphase) <;> cases hphase

theorem Holds.answer {result : Result} (h : Holds lo hi tile)
    (hresult : Between lo hi (kept result)) (hanswer : tile.answer result = some tile') :
    Holds lo hi tile' := by
  unfold Tile.answer at hanswer
  split at hanswer
  · next hphase =>
      obtain rfl := Option.some.inj hanswer
      refine ⟨.inl ?_, ?_, ?_⟩
      · rcases h.loading with hloading | ⟨hsettled, -⟩
        · exact hloading
        · rw [hphase] at hsettled
          cases hsettled
      · intro result' hsame
        obtain rfl := Phase.answered.inj hsame
        exact hresult
      · rintro (hstored | hsettled)
        · cases hstored
        · cases hsettled
  all_goals cases hanswer

theorem Holds.store (h : Holds lo hi tile) (hstore : tile.store = some tile') :
    Holds lo hi tile' := by
  unfold Tile.store at hstore
  split at hstore
  · next result hphase =>
      obtain rfl := Option.some.inj hstore
      refine ⟨.inl ?_, nofun, fun _ => h.answered result hphase⟩
      rcases h.loading with hloading | ⟨hsettled, -⟩
      · exact hloading
      · rw [hphase] at hsettled
        cases hsettled
  all_goals cases hstore

theorem Holds.finish (h : Holds lo hi tile) (hfinish : tile.finish = some tile') :
    Holds lo hi tile' := by
  unfold Tile.finish at hfinish
  split at hfinish
  · next hphase =>
      obtain rfl := Option.some.inj hfinish
      exact ⟨.inr ⟨rfl, rfl⟩, nofun, fun _ => h.value (.inl hphase)⟩
  all_goals cases hfinish

theorem Holds.figure (h : Holds lo hi tile) :
    tile.loading = true ∧ tile.figure = .spinner ∨
      tile.phase = .settled ∧ ∃ n, lo ≤ n ∧ n ≤ hi ∧ tile.figure = shown n := by
  unfold Tile.figure
  rcases h.loading with hloading | ⟨hsettled, hloading⟩
  · exact .inl ⟨hloading, if_pos hloading⟩
  · obtain ⟨n, hlo, hhi, hvalue⟩ := h.value (.inr hsettled)
    refine .inr ⟨hsettled, n, hlo, hhi, ?_⟩
    rw [if_neg (by simp [hloading]), hvalue, ofValue_written]

variable {s t : State} {low : Which → ℕ}

/-- Both figures are in their ranges, as long as a count fits its type. -/
def InRange (low : Which → ℕ) (s : State) : Prop :=
  (∀ w, low w ≤ counted s.sys.db.videos w) ∧
    (s.sys.db.videos.rows.length < 2 ^ 63 →
      ∀ w, Holds (low w) (counted s.sys.db.videos w) (s.card.tile w))

private theorem counted_le {sys sys' : Step.State}
    (hpath : ReflTransGen (Next Step.step Anything) sys sys') (w : Which) :
    counted sys.db.videos w ≤ counted sys'.db.videos w := by
  obtain ⟨new, hnew⟩ := appended_of_path hpath
  cases w with
  | videos =>
      show sys.db.videos.rows.length ≤ sys'.db.videos.rows.length
      rw [hnew, List.length_append]
      omega
  | regions =>
      refine dedup_length_le ?_
      rw [hnew, List.map_append]
      exact List.subset_append_right _ _

private theorem counted_le_rows (videos : VideosTable) (w : Which) :
    counted videos w ≤ videos.rows.length := by
  cases w with
  | videos => exact le_rfl
  | regions => exact (List.dedup_sublist _).length_le.trans_eq (List.length_map _)

theorem InRange.process (h : InRange low s) {a : Step.Act} {sys : Step.State}
    (hstep : Step.step s.sys a = some sys) : InRange low { s with sys := sys } := by
  have hle : ∀ w, counted s.sys.db.videos w ≤ counted sys.db.videos w :=
    counted_le (.single ⟨a, trivial, hstep⟩)
  refine ⟨fun w => (h.1 w).trans (hle w), ?_⟩
  intro hsmall w
  have hbefore : s.sys.db.videos.rows.length < 2 ^ 63 := (hle .videos).trans_lt hsmall
  exact (h.2 hbefore w).mono (hle w)

theorem InRange.move (h : InRange low s) {w : Which} {f : Tile → Option Tile}
    (hmove : s.move w f = some t)
    (hkeep : ∀ tile tile', s.sys.db.videos.rows.length < 2 ^ 63 →
      Holds (low w) (counted s.sys.db.videos w) tile → f tile = some tile' →
        Holds (low w) (counted s.sys.db.videos w) tile') : InRange low t := by
  obtain ⟨tile, htile, rfl⟩ := Option.map_eq_some_iff.mp hmove
  refine ⟨h.1, ?_⟩
  intro hsmall w'
  by_cases hsame : w' = w
  · subst hsame
    rw [Card.tile_set]
    exact hkeep _ _ hsmall (h.2 hsmall w') htile
  · rw [Card.tile_set_of_ne _ hsame]
    exact h.2 hsmall w'

private theorem InRange.fail (h : InRange low s) {w : Which} {result : Result} (hlow : low w = 0)
    (hfailed : kept result = none) (hmove : s.move w (Tile.answer result) = some t) :
    InRange low t := by
  refine h.move hmove fun tile tile' _ htile hanswer => htile.answer ⟨0, ?_, ?_, ?_⟩ hanswer
  · exact Nat.le_of_eq hlow
  · exact Nat.zero_le _
  · exact hfailed

theorem InRange.step {a : Act} (h : InRange low s) (ha : Served s a ∨ ∀ w, low w = 0)
    (hstep : step s a = some t) : InRange low t := by
  cases a with
  | process a =>
      obtain ⟨sys, hsys, rfl⟩ := Option.map_eq_some_iff.mp hstep
      exact h.process hsys
  | readCount =>
      simp only [Reloads.step] at hstep
      split at hstep
      · cases hstep
      · refine h.move hstep fun tile tile' hsmall htile hanswer => htile.answer ?_ hanswer
        refine ⟨_, h.1 .videos, le_rfl, ?_⟩
        rw [getVideoCount, countCall_some hsmall]
        rfl
  | readRegions count regions =>
      simp only [Reloads.step] at hstep
      split at hstep
      · next hread =>
          refine h.move hstep fun tile tile' hsmall htile hanswer => htile.answer ?_ hanswer
          refine ⟨_, h.1 .regions, le_rfl, ?_⟩
          have hbound : (s.sys.db.videos.rows.map (·.region)).dedup.length < 2 ^ 63 :=
            (counted_le_rows s.sys.db.videos .regions).trans_lt hsmall
          rw [hread.2.count_eq, regionsCall_some hbound]
          rfl
      · cases hstep
  | failQuery w =>
      simp only [Reloads.step] at hstep
      split at hstep
      · cases hstep
      · exact h.fail (ha.resolve_left id w) (kept_failedCall w) hstep
  | reject w e => exact h.fail (ha.resolve_left id w) rfl hstep
  | store w => exact h.move hstep fun _ _ _ htile => htile.store
  | finish w => exact h.move hstep fun _ _ _ htile => htile.finish

private theorem inRange_mounted (hcard : s.card = {})
    (hlow : ∀ w, low w ≤ counted s.sys.db.videos w) :
    InRange low s := by
  refine ⟨hlow, fun _ w => ?_⟩
  rw [hcard]
  cases w <;> exact holds_start

/-- Whatever the process does before, between and after, if the summary card is loaded anew
and no request of the new load fails: a figure is a spinner until its request is through,
and then stands for a number of rows, or of regions, that is none below that at the reload
and none above that now. Where a number stood before, with failures or without, there is
again a number then, and none that is lower. -/
theorem reload_never_lowers {as : List Act} (h : Reachable Mounts step (fun _ _ => True) s)
    (hrun : run step s.reloaded as = some t) (hserved : Meets step Served s.reloaded as)
    (hsmall : t.sys.db.videos.rows.length < 2 ^ 63) (w : Which) :
    (t.card.tile w).loading = true ∧ (t.card.tile w).figure = .spinner ∨
      (t.card.tile w).phase = .settled ∧ ∃ n, counted s.sys.db.videos w ≤ n ∧
        n ≤ counted t.sys.db.videos w ∧ (t.card.tile w).figure = shown n ∧
          ∀ k, (s.card.tile w).figure = .number k →
            ∃ k', (t.card.tile w).figure = .number k' ∧ k ≤ k' := by
  have hbefore : InRange (fun _ => 0) s :=
    h.invariant (fun _ hmounts => inRange_mounted hmounts fun _ => Nat.zero_le _)
      fun _ _ _ hin _ => hin.step (.inr fun _ => rfl)
  have hafter : InRange (counted s.sys.db.videos) t := by
    have hreloaded : InRange (counted s.sys.db.videos) s.reloaded :=
      inRange_mounted rfl fun _ => le_rfl
    exact run_invariant (fun _ _ _ hin ha hstep => InRange.step hin (.inl ha) hstep) hreloaded
      hserved hrun
  have hrows : s.sys.db.videos.rows.length < 2 ^ 63 := (hafter.1 .videos).trans_lt hsmall
  rcases (hafter.2 hsmall w).figure with hspinner | ⟨hsettled, n, hlo, hhi, hshown⟩
  · exact .inl hspinner
  refine .inr ⟨hsettled, n, hlo, hhi, hshown, ?_⟩
  intro k hk
  rw [hshown]
  rcases (hbefore.2 hrows w).figure with hspinner | ⟨-, m, -, hm, hearlier⟩
  · rw [hspinner.2] at hk
    cases hk
  · exact shown_mono (hm.trans hlo) (hearlier.symm.trans hk)

/-- The card is loaded over one row, and anew before there is a second. -/
def mounted : State := { sys := Accounting.halfIngested }

def loading : List Act := [.readCount, .store .videos, .finish .videos]

def loaded : State := (run step mounted loading).getD mounted

/-- Another job stores a second row before the count is read again. -/
def growing : List Act := History.again.map .process ++ loading

def grown : State := (run step loaded.reloaded growing).getD loaded

private theorem grown_runs :
    (run step mounted loading).isSome = true ∧ Meets step Served mounted loading ∧
      (loaded.card.tile .videos).loading = false ∧
      counted loaded.sys.db.videos .videos = 1 ∧
      (run step loaded.reloaded growing).isSome = true ∧
      Meets step Served loaded.reloaded growing ∧
      (grown.card.tile .videos).loading = false ∧
      counted grown.sys.db.videos .videos = 2 := by
  decide +kernel

/-- A 1 stands on the card, and after the reload a number that is no lower. -/
theorem reload_never_lowers_grown :
    (loaded.card.tile .videos).figure = .number 1 ∧
      ∃ k, (grown.card.tile .videos).figure = .number k ∧ 1 ≤ k := by
  obtain ⟨hloaded, hserved, hthrough, hone, hgrown, hserved', hthrough', htwo⟩ := grown_runs
  have hrun : run step mounted loading = some loaded := run_eq_getD hloaded mounted
  have hrun' : run step loaded.reloaded growing = some grown := run_eq_getD hgrown loaded
  have hmounted : Reachable Mounts step (fun _ _ => True) mounted := ⟨mounted, rfl, .refl⟩
  have hreach : Reachable Mounts step (fun _ _ => True) loaded :=
    hmounted.path (path_of_run hrun (meets_true _ _))
  have hsmall : loaded.sys.db.videos.rows.length < 2 ^ 63 := by
    show counted loaded.sys.db.videos .videos < 2 ^ 63
    omega
  have hsmall' : grown.sys.db.videos.rows.length < 2 ^ 63 := by
    show counted grown.sys.db.videos .videos < 2 ^ 63
    omega
  have hshows : (loaded.card.tile .videos).figure = .number 1 := by
    rcases reload_never_lowers hmounted hrun hserved hsmall .videos with
      ⟨hloading, -⟩ | ⟨-, n, hlo, hhi, hshown, -⟩
    · rw [hthrough] at hloading
      cases hloading
    · have hrow : counted mounted.sys.db.videos .videos = 1 := by decide +kernel
      obtain rfl : n = 1 := by omega
      exact hshown
  refine ⟨hshows, ?_⟩
  rcases reload_never_lowers hreach hrun' hserved' hsmall' .videos with
    ⟨hloading, -⟩ | ⟨-, n, -, -, -, hnever⟩
  · rw [hthrough'] at hloading
    cases hloading
  · exact hnever 1 hshows

end TrendingPipeline.System.Reloads

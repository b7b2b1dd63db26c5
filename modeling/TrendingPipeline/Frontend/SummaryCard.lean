/- Unit: TrendingPipeline/Frontend/SummaryCard
   source: frontend/components/videos-summary-card.tsx, backend/analytics/server.go
   digest: The summary card: how its two requests settle, and the figures it shows. -/

import TrendingPipeline.Frontend.WireFormat

set_option autoImplicit false
set_option relaxedAutoImplicit false

namespace TrendingPipeline.Frontend.SummaryCard

open TrendingPipeline.Analytics.Responses (getTrackedRegionsResponse)
open TrendingPipeline.Analytics.Server (getVideosCount)
open TrendingPipeline.Api.Server (handleGetTrackedRegions handleGetVideoCount)
open TrendingPipeline.Base.Decimal (decimal)
open TrendingPipeline.Base.JsValue
open TrendingPipeline.Base.JsonText (Json)
open TrendingPipeline.Frontend.Api (Result readProperty)
open TrendingPipeline.Frontend.WireFormat
open TrendingPipeline.Proto.Messages (GetTrackedRegionsResponse)

/-- `GetTrackedRegions`, given the answer of the database. -/
def getTrackedRegions (answer : Option (Int64 × List String)) : Option GetTrackedRegionsResponse :=
  answer.map fun (count, regions) => { count := count, regions := regions }

inductive Phase
  | sent
  /-- it has settled, and `then` or `catch` runs next -/
  | answered (result : Result)
  /-- `finally` runs next -/
  | stored
  | settled

/-- The state of one figure; a value that is `undefined` or `null` is none. -/
structure Tile where
  value : Option Json := none
  loading : Bool := true
  phase : Phase := .sent

/-- What stands on the card: a number in the digits of `toLocaleString`. -/
inductive Figure
  | spinner
  | dash
  | number (n : ℤ)
  /-- the value's own `toLocaleString`, where it is no integer -/
  | text (v : Json)

def Figure.ofValue : Option Json → Figure
  | none | some .null => .dash
  | some (.num literal) =>
      match numberOf literal with
      | some n => .number n
      | none => .text (.num literal)
  | some v => .text v

def Tile.figure (tile : Tile) : Figure :=
  if tile.loading then .spinner else .ofValue tile.value

def Tile.answer (result : Result) (tile : Tile) : Option Tile :=
  match tile.phase with
  | .sent => some { tile with phase := .answered result }
  | .answered _ | .stored | .settled => none

/-- What `then` stores, or `catch`. -/
def kept : Result → Option Json
  | .ok v => v
  | .error _ => none

/-- `then` or `catch`. -/
def Tile.store (tile : Tile) : Option Tile :=
  match tile.phase with
  | .answered result => some { tile with value := kept result, phase := .stored }
  | .sent | .stored | .settled => none

/-- `finally`. -/
def Tile.finish (tile : Tile) : Option Tile :=
  match tile.phase with
  | .stored => some { tile with loading := false, phase := .settled }
  | .sent | .answered _ | .settled => none

structure Card where
  count : Tile := {}
  regionCount : Tile := {}

inductive Which
  | videos
  | regions
  deriving DecidableEq

def Card.tile (card : Card) : Which → Tile
  | .videos => card.count
  | .regions => card.regionCount

def Card.set (card : Card) : Which → Tile → Card
  | .videos, tile => { card with count := tile }
  | .regions, tile => { card with regionCount := tile }

@[simp] theorem Card.tile_set (card : Card) (w : Which) (tile : Tile) :
    (card.set w tile).tile w = tile := by
  cases w with
  | videos => rfl
  | regions => rfl

theorem Card.tile_set_of_ne (card : Card) {w w' : Which} (h : w' ≠ w) (tile : Tile) :
    (card.set w tile).tile w' = card.tile w' := by
  cases w <;> cases w' <;> first | rfl | exact absurd rfl h

/-- How `getVideoCount()` settles, given the answer of the database. -/
def countCall (count : Option Int64) : Result :=
  Api.getVideoCount fun _ _ => .ok (handleGetVideoCount (getVideosCount count))

/-- `(d) => d.count`. -/
def countOf : Option Json → Result
  | none => .error .typeError
  | some d => readProperty "count" d

/-- How `getTrackedRegions().then((d) => d.count)` settles, likewise. -/
def regionsCall (answer : Option (Int64 × List String)) : Result :=
  (Api.getTrackedRegions fun _ _ => .ok (handleGetTrackedRegions (getTrackedRegions answer))).bind
    countOf

def written (n : ℕ) : Option Json := if n = 0 then none else some (.num (decimal n))

def shown (n : ℕ) : Figure := if n = 0 then .dash else .number (nearestDouble n)

private theorem encode_ofNat {depth n : ℕ} (hn : n < 2 ^ 63) :
    (Base.JsonCodec.int64 : Base.JsonCodec.OmitEmpty depth Int64).encode (Int64.ofNat n) =
      written n := by
  have hint : (Int64.ofNat n).toInt = n := Int64.toInt_ofNat_of_lt hn
  have hzero : Int64.ofNat n = 0 ↔ n = 0 := by
    rw [← Int64.toInt_inj, hint]
    exact Int.natCast_eq_zero
  change (if Int64.ofNat n = 0 then none else some (Json.num (decimal (Int64.ofNat n).toInt))) = _
  rw [hint, written]
  exact ite_congr (propext hzero) (fun _ => rfl) fun _ => rfl

theorem countCall_some {n : ℕ} (hn : n < 2 ^ 63) :
    countCall (some (Int64.ofNat n)) = .ok (written n) := by
  have hcall : countCall (some (Int64.ofNat n)) =
      (Call.getVideoCount { count := Int64.ofNat n }).returned := rfl
  rw [hcall, returned_getVideoCount, encode_ofNat hn]

theorem regionsCall_some {n : ℕ} (hn : n < 2 ^ 63) (regions : List String) :
    regionsCall (some (Int64.ofNat n, regions)) = .ok (written n) := by
  have hcall : regionsCall (some (Int64.ofNat n, regions)) =
      (Call.getTrackedRegions { count := Int64.ofNat n, regions := regions }).returned.bind
        countOf := rfl
  have hproperty : property "count" (getTrackedRegionsResponse.codec.encode
      { count := Int64.ofNat n, regions := regions }) = some (written n) :=
    (property_encode getTrackedRegionsResponse (List.mem_of_getElem? (i := 0) rfl) _).trans
      (congrArg some (encode_ofNat hn))
  rw [hcall, returned_getTrackedRegions]
  show countOf (some (getTrackedRegionsResponse.codec.encode _)) = _
  rw [countOf, readProperty, hproperty]

def failedCall : Which → Result
  | .videos => countCall none
  | .regions => regionsCall none

theorem kept_failedCall (w : Which) : kept (failedCall w) = none := by
  cases w with
  | videos => rfl
  | regions => rfl

theorem ofValue_written (n : ℕ) : Figure.ofValue (written n) = shown n := by
  unfold written shown
  split
  · rfl
  · rw [Figure.ofValue, numberOf_decimal]

theorem shown_mono {m n : ℕ} (h : m ≤ n) {k : ℤ} (hm : shown m = .number k) :
    ∃ k', shown n = .number k' ∧ k ≤ k' := by
  unfold shown at hm ⊢
  split at hm
  · cases hm
  · next hpos =>
      obtain rfl := Figure.number.inj hm
      refine ⟨nearestDouble n, if_neg (by omega), ?_⟩
      exact nearestDouble_mono (Int.natCast_nonneg m) (by exact_mod_cast h)

end TrendingPipeline.Frontend.SummaryCard

/- Unit: TrendingPipeline/Frontend/JobForm
   source: frontend/lib/jobs.ts, frontend/components/job-form.tsx
   digest: The job form, the idempotency key it makes, and what equal keys have in common. -/

import Mathlib.Data.Set.Function
import TrendingPipeline.Base.Decimal
import TrendingPipeline.Proto.Messages

set_option autoImplicit false
set_option relaxedAutoImplicit false

namespace TrendingPipeline.Frontend.JobForm

open TrendingPipeline.Base.Decimal (decimal decimal_injective)
open TrendingPipeline.Proto.Messages (JobRequest)

/-- `crypto.subtle.digest("SHA-256", data)`: 32 bytes for any data. -/
structure Sha256 where
  digest : List UInt8 → List UInt8
  length_digest : ∀ data, (digest data).length = 32

/-- `new TextEncoder().encode(input)`. -/
def encode (input : String) : List UInt8 := input.toUTF8.data.toList

/-- `b.toString(16).padStart(2, "0")`. -/
def hexByte (b : UInt8) : List Char := (Nat.toDigits 16 b.toNat).leftpad 2 '0'

/-- The digest in hexadecimal, cut at 32 digits. -/
def truncatedHex (hash : List UInt8) : String := String.ofList ((hash.flatMap hexByte).take 32)

/-- `Math.floor(Date.now() / 3_600_000)`. -/
def currentHour (now : Int) : Int := now / 3600000

/-- The text that is hashed: three parts with nothing between them. -/
def keyInput (region : String) (categoryId now : Int) : String :=
  region ++ String.ofList (decimal categoryId) ++ String.ofList (decimal (currentHour now))

/-- `generateIdempotencyKey`, with the milliseconds `Date.now` gives. -/
def generateIdempotencyKey (sha : Sha256) (region : String) (categoryId now : Int) : String :=
  truncatedHex (sha.digest (encode (keyInput region categoryId now)))

/-- The ids of `YOUTUBE_CATEGORIES`. -/
def youtubeCategories : List Nat := [0, 1, 2, 10, 15, 17, 19, 20, 22, 23, 24, 25, 26, 27, 28, 29]

/-- The codes of `REGIONS`. -/
def regions : List String :=
  ["US", "GB", "CA", "AU", "IN", "JP", "BR", "DE", "FR", "KR", "MX", "IT"]

/-- What the form holds when it is submitted, and when that is. -/
structure FormInput where
  region : String
  region_mem : region ∈ regions
  categoryId : Nat
  categoryId_mem : categoryId ∈ youtubeCategories
  maxResults : Int32
  now : Int
  deriving DecidableEq

/-- The request `handleSubmit` posts. -/
def FormInput.request (sha : Sha256) (f : FormInput) : JobRequest where
  region := f.region
  categoryId := Int32.ofNat f.categoryId
  maxResults := f.maxResults
  idempotencyKey := generateIdempotencyKey sha f.region f.categoryId f.now

def FormInput.hashed (f : FormInput) : List UInt8 := encode (keyInput f.region f.categoryId f.now)

def FormInput.hourText (f : FormInput) : List Char := decimal (currentHour f.now)

theorem encode_injective : Function.Injective encode := by
  intro s t h
  have hdata : s.toUTF8 = t.toUTF8 := ByteArray.ext (Array.ext' h)
  exact String.toByteArray_inj.mp hdata

private theorem length_hexByte (b : UInt8) : 2 ≤ (hexByte b).length := by
  rw [hexByte, List.length_leftpad]
  exact Nat.le_max_left _ _

theorem generateIdempotencyKey_ne_empty (sha : Sha256) (region : String) (categoryId now : Int) :
    generateIdempotencyKey sha region categoryId now ≠ "" := by
  intro hempty
  have hlength := sha.length_digest (encode (keyInput region categoryId now))
  have hnil := congrArg String.toList hempty
  rw [generateIdempotencyKey, truncatedHex, String.toList_ofList] at hnil
  cases hdigest : sha.digest (encode (keyInput region categoryId now)) with
  | nil =>
      rw [hdigest] at hlength
      cases hlength
  | cons b bs =>
      have hb := length_hexByte b
      have htake := congrArg List.length hnil
      rw [hdigest, List.length_take, List.flatMap_cons, List.length_append] at htake
      have hzero : "".toList.length = 0 := rfl
      omega

private theorem length_region {f : FormInput} : f.region.toList.length = 2 := by
  have hall : ∀ r ∈ regions, r.toList.length = 2 := by decide
  exact hall _ f.region_mem

theorem keyInput_inj {f g : FormInput}
    (h : keyInput f.region f.categoryId f.now = keyInput g.region g.categoryId g.now) :
    f.region = g.region ∧
      (f.hourText.length = g.hourText.length →
        f.categoryId = g.categoryId ∧ currentHour f.now = currentHour g.now) := by
  have hlist := congrArg String.toList h
  simp only [keyInput, String.toList_append, String.toList_ofList, List.append_assoc] at hlist
  obtain ⟨hregion, hrest⟩ := List.append_inj hlist (by rw [length_region, length_region])
  refine ⟨String.ext hregion, ?_⟩
  intro hlength
  obtain ⟨hcategory, hhour⟩ := List.append_inj' hrest hlength
  exact ⟨Int.ofNat.inj (decimal_injective hcategory), decimal_injective hhour⟩

end TrendingPipeline.Frontend.JobForm

/- Unit: TrendingPipeline/Frontend/StoredJobs
   source: frontend/components/jobs-list.tsx
   digest: The job ids a browser keeps in localStorage. -/

import TrendingPipeline.Base.JsonCodec
import TrendingPipeline.Base.Recency

set_option autoImplicit false
set_option relaxedAutoImplicit false

namespace TrendingPipeline.Frontend.StoredJobs

open TrendingPipeline.Base.JsonCodec (Codec decodeItems_map stringItem)
open TrendingPipeline.Base.JsonDecode (decodeSlice decodeString)
open TrendingPipeline.Base.JsonRoundTrip (Fits parse_render)
open TrendingPipeline.Base.JsonText (Json maxNestingDepth parse render)
open TrendingPipeline.Base.Recency

/-- The texts of localStorage by their keys; `none` is null. -/
abbrev Storage := String → Option String

def emptyStorage : Storage := fun _ => none

def storageKey : String := "yt_etl_job_ids"

def maxStored : ℕ := 20

/-- `JSON.parse` and `JSON.stringify` on arrays of strings; `none` is an exception. -/
structure StringArrays where
  parse : String → Option (List String)
  stringify : List String → String

/-- Every array of strings is read back, and the text of the empty one is read. -/
structure StringArrays.Exact (json : StringArrays) : Prop where
  parse_stringify : ∀ ids, json.parse (json.stringify ids) = some ids
  parse_empty : json.parse "[]" = some []

variable (json : StringArrays)

/-- `getStoredJobIds` in a tab, where `window` is defined. -/
def getStoredJobIds (storage : Storage) : Option (List String) :=
  json.parse ((storage storageKey).getD "[]")

/-- `storeJobId` in a tab. -/
def storeJobId (storage : Storage) (jobId : String) : Option Storage := do
  let existing ← json.parse ((storage storageKey).getD "[]")
  let updated := (jobId :: existing.filter fun id => id ≠ jobId).take maxStored
  return fun key => if key = storageKey then some (json.stringify updated) else storage key

variable {json}

private theorem storeJobId_eq (hjson : json.Exact) {storage : Storage} {ids : List String}
    (hids : getStoredJobIds json storage = some ids) (jobId : String) :
    ∃ storage', storeJobId json storage jobId = some storage' ∧
      getStoredJobIds json storage' = some ((moveToFront jobId ids).take maxStored) := by
  refine ⟨_, by rw [storeJobId, ← getStoredJobIds, hids]; rfl, ?_⟩
  rw [getStoredJobIds, if_pos rfl]
  exact hjson.parse_stringify _

private theorem stored_eq (hjson : json.Exact) (calls : List String) :
    ∃ storage, calls.foldlM (storeJobId json) emptyStorage = some storage ∧
      getStoredJobIds json storage = some ((byLastUse calls).take maxStored) := by
  induction calls using List.reverseRecOn with
  | nil => exact ⟨emptyStorage, rfl, hjson.parse_empty⟩
  | append_singleton calls jobId ih =>
      obtain ⟨storage, hrun, hids⟩ := ih
      obtain ⟨storage', hstep, hids'⟩ := storeJobId_eq hjson hids jobId
      refine ⟨storage', ?_, ?_⟩
      · rw [List.foldlM_append, hrun]
        simpa using hstep
      · rw [hids', byLastUse_concat, take_moveToFront jobId (nodup_byLastUse calls)]

/-- The list stored is the first ids by their last call, newest first, and one is
missing only behind as many others. -/
theorem stored_mostRecent (hjson : json.Exact) (calls : List String) :
    ∃ storage stored, calls.foldlM (storeJobId json) emptyStorage = some storage ∧
      getStoredJobIds json storage = some stored ∧
      (∃ ids : List String, ids.Nodup ∧ (∀ id, id ∈ ids ↔ id ∈ calls) ∧
        (ids.Pairwise fun a b => age calls a < age calls b) ∧ stored = ids.take 20) ∧
      stored.Nodup ∧ stored.length ≤ 20 ∧
      ∀ before id after, calls = before ++ id :: after → id ∉ after →
        (id ∉ stored ↔ 20 ≤ after.toFinset.card) := by
  obtain ⟨storage, hrun, hstored⟩ := stored_eq hjson calls
  refine ⟨storage, _, hrun, hstored, ⟨byLastUse calls, nodup_byLastUse calls,
    fun id => mem_byLastUse, pairwise_age calls, rfl⟩, ?_, List.length_take_le _ _, ?_⟩
  · exact (nodup_byLastUse calls).sublist (List.take_sublist _ _)
  · rintro before id after rfl hlast
    exact notMem_take_iff before after hlast 20

/-- Arrays of strings as the gateway's side writes and reads them. -/
def jsonText : StringArrays where
  parse text := (parse text).bind (decodeSlice "" decodeString [])
  stringify ids := String.ofList (render (.arr (ids.map .str)))

private theorem jsonText_exact : jsonText.Exact := by
  have hexact : ∀ ids, jsonText.parse (jsonText.stringify ids) = some ids := by
    intro ids
    have hfits : Fits 1 (.arr (ids.map .str)) := by
      intro v hv
      obtain ⟨id, _, rfl⟩ := List.mem_map.mp hv
      exact stringItem.fits id
    have hparse : parse (jsonText.stringify ids) = some (.arr (ids.map .str)) :=
      parse_render (hfits.mono (by decide))
    change (parse (jsonText.stringify ids)).bind _ = _
    rw [hparse]
    exact decodeItems_map (stringItem : Codec 0 String) ids
  exact ⟨hexact, hexact []⟩

/-- An id stored again is first, and stored once. -/
theorem stored_mostRecent_again :
    ∃ storage stored, ["a", "b", "a"].foldlM (storeJobId jsonText) emptyStorage = some storage ∧
      getStoredJobIds jsonText storage = some stored ∧ "b" ∈ stored ∧ stored.length ≤ 20 := by
  obtain ⟨storage, stored, hrun, hget, _, _, hlength, hmissing⟩ :=
    stored_mostRecent jsonText_exact ["a", "b", "a"]
  have hkept := (hmissing ["a"] "b" ["a"] rfl (by decide)).not.mpr (by decide)
  exact ⟨storage, stored, hrun, hget, not_not.mp hkept, hlength⟩

end TrendingPipeline.Frontend.StoredJobs

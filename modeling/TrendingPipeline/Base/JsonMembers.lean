/- Unit: TrendingPipeline/Base/JsonMembers
   source: none (Go's encoding/json on structs with omitempty tags)
   digest: Objects written member by member, and what a program in JavaScript reads in them. -/

import TrendingPipeline.Base.JsValue

set_option autoImplicit false
set_option relaxedAutoImplicit false

namespace TrendingPipeline.Base.JsonMembers

open TrendingPipeline.Base.JsonRoundTrip (Fits parse_render)
open TrendingPipeline.Base.JsonText (Json maxNestingDepth parse render)
open TrendingPipeline.Base.JsValue (member_eq_some_iff property)

variable {α : Type}

/-- The fields of a type in order, with what is written of each; `none` leaves it out. -/
abbrev Members (α : Type) := List (String × (α → Option Json))

def objectOf (ms : Members α) (a : α) : Json :=
  .obj (ms.filterMap fun m => (m.2 a).map fun v => (m.1, v))

def marshal (ms : Members α) (a : α) : String := String.ofList (render (objectOf ms a))

theorem property_objectOf {ms : Members α} (hnames : (ms.map Prod.fst).Nodup)
    {m : String × (α → Option Json)} (hm : m ∈ ms) (a : α) :
    property m.1 (objectOf ms a) = some (m.2 a) := by
  have hsub : ((ms.filterMap fun m => (m.2 a).map fun v => (m.1, v)).map Prod.fst).Sublist
      (ms.map Prod.fst) := by
    clear hm hnames
    induction ms with
    | nil => exact List.Sublist.refl _
    | cons m ms ih =>
        rw [List.map_cons, List.filterMap_cons]
        cases m.2 a with
        | none => exact ih.cons _
        | some v => exact ih.cons_cons _
  refine congrArg some (Option.ext fun v => ?_)
  rw [member_eq_some_iff (hsub.nodup hnames), List.mem_filterMap]
  constructor
  · rintro ⟨n, hn, hwritten⟩
    obtain ⟨w, hw, heq⟩ := Option.map_eq_some_iff.mp hwritten
    obtain ⟨hname, rfl⟩ := Prod.mk.inj heq
    obtain rfl : n = m := List.inj_on_of_nodup_map hnames hn hm hname
    exact hw
  · intro hwritten
    exact ⟨m, hm, by rw [hwritten]; rfl⟩

theorem fits_objectOf {depth : Nat} {ms : Members α} {a : α}
    (h : ∀ m ∈ ms, ∀ v, m.2 a = some v → Fits depth v) : Fits (depth + 1) (objectOf ms a) := by
  intro x hx
  obtain ⟨m, hm, hwritten⟩ := List.mem_filterMap.mp hx
  obtain ⟨v, hv, rfl⟩ := Option.map_eq_some_iff.mp hwritten
  exact h m hm v hv

theorem parse_marshal {depth : Nat} (hdepth : depth ≤ maxNestingDepth) {ms : Members α} {a : α}
    (h : Fits depth (objectOf ms a)) : parse (marshal ms a) = some (objectOf ms a) :=
  parse_render (h.mono hdepth)

end TrendingPipeline.Base.JsonMembers

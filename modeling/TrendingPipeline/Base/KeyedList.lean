/- Unit: TrendingPipeline/Base/KeyedList
   source: none (general)
   digest: Finding and changing the entries of a list in which one column is a key. -/

import Mathlib.Data.List.Nodup

set_option autoImplicit false
set_option relaxedAutoImplicit false

namespace TrendingPipeline.Base.KeyedList

universe u v

variable {α : Type u} {κ : Type v} {key : α → κ} {l : List α}

theorem map_key {f : α → α} (hf : ∀ x, key (f x) = key x) : (l.map f).map key = l.map key := by
  rw [List.map_map]
  exact List.map_congr_left fun x _ => hf x

variable [DecidableEq κ] {k : κ} {a : α}

theorem find_eq_some_iff (hkey : (l.map key).Nodup) :
    l.find? (fun x => key x = k) = some a ↔ a ∈ l ∧ key a = k := by
  constructor
  · intro h
    exact ⟨List.mem_of_find?_eq_some h, by simpa using List.find?_some h⟩
  · rintro ⟨ha, rfl⟩
    cases hfind : l.find? (fun x => key x = key a) with
    | none =>
        have hnone := List.find?_eq_none.mp hfind a ha
        simp at hnone
    | some b =>
        have hb : key b = key a := by simpa using List.find?_some hfind
        rw [List.inj_on_of_nodup_map hkey (List.mem_of_find?_eq_some hfind) ha hb]

theorem find_eq_none_iff : l.find? (fun x => key x = k) = none ↔ k ∉ l.map key := by
  simp

theorem find_cons : (a :: l).find? (fun x => key x = k) =
    if key a = k then some a else l.find? (fun x => key x = k) := by
  rw [List.find?_cons]
  split <;> simp_all

theorem find_map {f : α → α} (hf : ∀ x, key (f x) = key x) :
    (l.map f).find? (fun x => key x = k) = (l.find? fun x => key x = k).map f := by
  rw [List.find?_map]
  simp only [Function.comp_def, hf]

end TrendingPipeline.Base.KeyedList

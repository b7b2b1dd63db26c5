/- Unit: TrendingPipeline/Frontend/WatchJob
   source: frontend/lib/api.ts, backend/api/server.go
   digest: What watchJob's callback gets of the text that the gateway writes. -/

import TrendingPipeline.Api.Jobs

set_option autoImplicit false
set_option relaxedAutoImplicit false

namespace TrendingPipeline.Frontend.WatchJob

open TrendingPipeline.Api.Jobs (updateText updatesText)
open TrendingPipeline.Base.EventStream
open TrendingPipeline.Base.JsonMembers (marshal objectOf)
open TrendingPipeline.Base.JsonRoundTrip (parse_render unbroken_render)
open TrendingPipeline.Base.JsonText (Json parse render)
open TrendingPipeline.Etl.Responses (fits_jobUpdate jobUpdate)
open TrendingPipeline.Proto.Messages (JobUpdate)

/-- The listener of the event "update": what `onUpdate` is called with, if JSON.parse does
not throw. -/
def onEvent (e : Event) : Option Json :=
  if e.type = "update".toList then parse (String.ofList e.data) else none

/-- The values of all calls of `onUpdate`. -/
def updatesOf (events : List Event) : List Json := events.filterMap onEvent

/-- How gin's event writer puts an event with the name "update" and the JSON of a struct. -/
def WritesUpdates (sse : String → String → List Char) : Prop :=
  ∀ json, sse "update" json = "event:update\ndata:".toList ++ json.toList ++ "\n\n".toList

def eventField : Field where
  name := "event".toList
  value := "update".toList
  name_ne_nil := by decide
  colon_not_mem := by decide
  name_oneLine := by decide
  value_oneLine := by decide
  no_space := by decide

def dataField (u : JobUpdate) : Field where
  name := "data".toList
  value := render (objectOf jobUpdate u)
  name_ne_nil := by decide
  colon_not_mem := by decide
  name_oneLine := by decide
  value_oneLine := unbroken_render (fits_jobUpdate u)
  no_space := by
    unfold objectOf
    cases (jobUpdate.filterMap fun m => (m.2 u).map fun v => (m.1, v)) with
    | nil => decide
    | cons m ms =>
        rw [render, List.head?_cons]
        exact fun h => absurd (Option.some.inj h) (by decide)

def fieldsOf (u : JobUpdate) : List Field := [eventField, dataField u]

private theorem updateText_eq {sse : String → String → List Char} (hsse : WritesUpdates sse)
    (u : JobUpdate) : updateText sse u = block (fieldsOf u) := by
  have htext : (marshal jobUpdate u).toList = render (objectOf jobUpdate u) := String.toList_ofList
  rw [updateText, hsse, htext]
  simp only [block, lines, fieldsOf, List.flatMap_cons, List.flatMap_nil, Field.line, eventField,
    dataField, List.append_assoc]
  rfl

private theorem updatesText_eq {sse : String → String → List Char} (hsse : WritesUpdates sse)
    (us : List JobUpdate) : updatesText sse us = stream (us.map fieldsOf) := by
  rw [updatesText, stream, List.flatMap_map]
  exact List.flatMap_congr fun u _ => updateText_eq hsse u

def Fresh (b : Buffers) : Prop := b.data = [] ∧ b.type = []

private theorem filled_fieldsOf {b : Buffers} (hb : Fresh b) (u : JobUpdate) :
    filled b (fieldsOf u) =
      { b with type := "update".toList, data := render (objectOf jobUpdate u) ++ ['\n'] } := by
  have hevent : setField b eventField.name eventField.value = { b with type := "update".toList } :=
    if_pos rfl
  have hname : "data".toList ≠ "event".toList := by decide
  have hdata : ∀ b' : Buffers, setField b' (dataField u).name (dataField u).value =
      { b' with data := b'.data ++ render (objectOf jobUpdate u) ++ ['\n'] } := fun _ =>
    (if_neg hname).trans (if_pos rfl)
  simp only [filled, fieldsOf, List.foldl_cons, List.foldl_nil, hevent, hdata, hb.1,
    List.nil_append]

private theorem dispatch_fieldsOf {b : Buffers} (hb : Fresh b) (u : JobUpdate) :
    Fresh (dispatch (filled b (fieldsOf u))).1 ∧
      (dispatch (filled b (fieldsOf u))).2.toList.filterMap onEvent = [objectOf jobUpdate u] := by
  have hdata : render (objectOf jobUpdate u) ++ ['\n'] ≠ [] := List.append_ne_nil_of_right_ne_nil _
    (List.cons_ne_nil _ _)
  have htype : "update".toList ≠ [] := by decide
  have hparse : parse (String.ofList (render (objectOf jobUpdate u))) =
      some (objectOf jobUpdate u) :=
    parse_render ((fits_jobUpdate u).mono (by decide))
  rw [filled_fieldsOf hb]
  simp only [dispatch, if_neg hdata, if_neg htype]
  refine ⟨⟨rfl, rfl⟩, ?_⟩
  have hevent : onEvent
      { type := "update".toList
        data := (render (objectOf jobUpdate u) ++ ['\n']).dropLast
        lastEventId := b.lastEventId } = some (objectOf jobUpdate u) := by
    rw [onEvent, if_pos rfl, List.dropLast_concat, hparse]
  rw [Option.toList_some, List.filterMap_cons_some hevent, List.filterMap_nil]

private theorem updatesOf_dispatched {b : Buffers} (hb : Fresh b) (us : List JobUpdate) :
    updatesOf (dispatched b (us.map fieldsOf)) = us.map (objectOf jobUpdate) := by
  induction us generalizing b with
  | nil => rfl
  | cons u us ih =>
      obtain ⟨hfresh, hone⟩ := dispatch_fieldsOf hb u
      have hrest := ih hfresh
      rw [updatesOf] at hrest ⊢
      rw [List.map_cons, dispatched, List.filterMap_append, hone, hrest]
      rfl

/-- Wherever the text is cut off: the callback has had the messages that are complete, each
once and in order. -/
theorem updatesOf_read {sse : String → String → List Char} (hsse : WritesUpdates sse)
    {us : List JobUpdate} {cs : List Char} (h : cs <+: updatesText sse us) :
    ∃ k ≤ us.length, updatesOf (read {} cs).2 = (us.take k).map (objectOf jobUpdate) ∧
      updatesText sse (us.take k) <+: cs ∧
        (k < us.length → ¬ updatesText sse (us.take (k + 1)) <+: cs) := by
  rw [updatesText_eq hsse] at h
  obtain ⟨k, hk, hevents, hread, hnext⟩ := read_stream {} h
  have hfresh : Fresh {} := ⟨rfl, rfl⟩
  have hmap : ∀ n, (us.map fieldsOf).take n = (us.take n).map fieldsOf := fun n =>
    List.map_take.symm
  rw [List.length_map] at hk hnext
  rw [hmap, ← updatesText_eq hsse] at hread hnext
  rw [hmap] at hevents
  refine ⟨k, hk, ?_, hread, hnext⟩
  change updatesOf (read (atLine {}) cs).2 = _
  rw [hevents, updatesOf_dispatched hfresh]

theorem all_of_whole {sse : String → String → List Char} {us : List JobUpdate} {k : ℕ}
    (hk : k ≤ us.length)
    (hnext : k < us.length → ¬ updatesText sse (us.take (k + 1)) <+: updatesText sse us) :
    k = us.length := by
  by_contra hne
  refine hnext (by omega) ⟨updatesText sse (us.drop (k + 1)), ?_⟩
  rw [updatesText, updatesText, ← List.flatMap_append, List.take_append_drop]
  rfl

end TrendingPipeline.Frontend.WatchJob

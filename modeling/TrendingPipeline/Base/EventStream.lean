/- Unit: TrendingPipeline/Base/EventStream
   source: none (the event stream format of the HTML standard)
   digest: The reader of an event stream, a character at a time, and the events it dispatches. -/

import Mathlib.Data.List.Infix
import Mathlib.Data.List.TakeWhile

set_option autoImplicit false
set_option relaxedAutoImplicit false

namespace TrendingPipeline.Base.EventStream

structure Event where
  type : List Char
  data : List Char
  lastEventId : List Char
  deriving DecidableEq

structure Buffers where
  data : List Char := []
  type : List Char := []
  lastEventId : List Char := []
  deriving DecidableEq

/-- A field. The reconnection time is no part of an event, and other names are ignored. -/
def setField (b : Buffers) (name value : List Char) : Buffers :=
  if name = "event".toList then { b with type := value }
  else if name = "data".toList then { b with data := b.data ++ value ++ ['\n'] }
  else if name = "id".toList ∧ Char.ofNat 0 ∉ value then { b with lastEventId := value }
  else b

/-- At an empty line. The last newline is not part of the data. -/
def dispatch (b : Buffers) : Buffers × Option Event :=
  if b.data = [] then ({ b with type := [] }, none)
  else
    ({ b with data := [], type := [] },
      some
        { type := if b.type = [] then "message".toList else b.type
          data := b.data.dropLast
          lastEventId := b.lastEventId })

/-- The value after a colon, without the one space that may stand before it. -/
def dropSpace : List Char → List Char
  | ' ' :: value => value
  | value => value

def readLine (b : Buffers) (line : List Char) : Buffers × Option Event :=
  if line = [] then dispatch b
  else
    match line.takeWhile (· ≠ ':'), line.dropWhile (· ≠ ':') with
    | name, [] => (setField b name [], none)
    | [], _ :: _ => (b, none)
    | name, _ :: value => (setField b name (dropSpace value), none)

structure Reader where
  buffers : Buffers := {}
  line : List Char := []
  /-- a carriage return has just ended a line -/
  afterReturn : Bool := false
  deriving DecidableEq

def endLine (r : Reader) : Reader × Option Event :=
  ({ buffers := (readLine r.buffers r.line).1 }, (readLine r.buffers r.line).2)

def readChar (r : Reader) (c : Char) : Reader × Option Event :=
  if c = '\n' then
    if r.afterReturn then ({ r with afterReturn := false }, none) else endLine r
  else if c = '\r' then ({ (endLine r).1 with afterReturn := true }, (endLine r).2)
  else ({ r with line := r.line ++ [c], afterReturn := false }, none)

/-- Some text, with the events dispatched on the way. -/
def read (r : Reader) : List Char → Reader × List Event
  | [] => (r, [])
  | c :: cs =>
      ((read (readChar r c).1 cs).1, (readChar r c).2.toList ++ (read (readChar r c).1 cs).2)

def readPieces (r : Reader) : List (List Char) → Reader × List Event
  | [] => (r, [])
  | cs :: pieces =>
      ((readPieces (read r cs).1 pieces).1, (read r cs).2 ++ (readPieces (read r cs).1 pieces).2)

theorem read_append (r : Reader) (cs ds : List Char) :
    read r (cs ++ ds) =
      ((read (read r cs).1 ds).1, (read r cs).2 ++ (read (read r cs).1 ds).2) := by
  induction cs generalizing r with
  | nil => rfl
  | cons c cs ih =>
      simp only [List.cons_append, read, ih, List.append_assoc]

theorem readPieces_eq (r : Reader) (pieces : List (List Char)) :
    readPieces r pieces = read r pieces.flatten := by
  induction pieces generalizing r with
  | nil => rfl
  | cons cs pieces ih =>
      rw [readPieces, ih, List.flatten_cons, read_append]

private theorem events_prefix (r : Reader) {cs ds : List Char} (h : cs <+: ds) :
    (read r cs).2 <+: (read r ds).2 := by
  obtain ⟨rest, rfl⟩ := h
  rw [read_append]
  exact List.prefix_append _ _

def OneLine (cs : List Char) : Prop := ∀ c ∈ cs, c ≠ '\n' ∧ c ≠ '\r'

instance oneLine_decidable (cs : List Char) : Decidable (OneLine cs) := List.decidableBAll _ cs

structure Field where
  name : List Char
  value : List Char
  name_ne_nil : name ≠ []
  colon_not_mem : ':' ∉ name
  name_oneLine : OneLine name
  value_oneLine : OneLine value
  no_space : value.head? ≠ some ' '

def Field.line (f : Field) : List Char := f.name ++ ':' :: f.value

def lines (fs : List Field) : List Char := fs.flatMap fun f => f.line ++ ['\n']

/-- The lines of an event and the empty line that dispatches it. -/
def block (fs : List Field) : List Char := lines fs ++ ['\n']

def atLine (b : Buffers) : Reader := { buffers := b }

def filled (b : Buffers) (fs : List Field) : Buffers :=
  fs.foldl (fun b f => setField b f.name f.value) b

private theorem dropSpace_value (f : Field) : dropSpace f.value = f.value := by
  unfold dropSpace
  split
  · next value heq => exact absurd (by rw [heq]; rfl) f.no_space
  · rfl

private theorem readLine_field (b : Buffers) (f : Field) :
    readLine b f.line = (setField b f.name f.value, none) := by
  have hname : ∀ c ∈ f.name, (decide (c ≠ ':')) = true := by
    intro c hc
    refine decide_eq_true ?_
    rintro rfl
    exact f.colon_not_mem hc
  have htake : f.line.takeWhile (· ≠ ':') = f.name := by
    rw [Field.line, List.takeWhile_append_of_pos hname]
    simp
  have hdrop : f.line.dropWhile (· ≠ ':') = ':' :: f.value := by
    rw [Field.line, List.dropWhile_append_of_pos hname]
    simp
  have hline : f.line ≠ [] := by simp [Field.line]
  rw [readLine, if_neg hline, htake, hdrop]
  split
  · next heq => cases heq
  · next heq _ => exact absurd heq f.name_ne_nil
  · next name c value heq _ =>
      obtain ⟨-, rfl⟩ := List.cons.inj heq
      rw [dropSpace_value]

private theorem read_oneLine (b : Buffers) {cs : List Char} (h : OneLine cs) (line : List Char) :
    read { buffers := b, line := line } cs = ({ buffers := b, line := line ++ cs }, []) := by
  induction cs generalizing line with
  | nil => rw [List.append_nil, read]
  | cons c cs ih =>
      obtain ⟨hnewline, hreturn⟩ := h c List.mem_cons_self
      have hrest := ih (fun d hd => h d (List.mem_cons_of_mem c hd)) (line ++ [c])
      have hchar : readChar { buffers := b, line := line } c =
          ({ buffers := b, line := line ++ [c] }, none) := by
        rw [readChar, if_neg hnewline, if_neg hreturn]
      rw [read, hchar, hrest, List.append_assoc]
      rfl

private theorem Field.line_oneLine (f : Field) : OneLine f.line := by
  intro c hc
  rcases List.mem_append.mp hc with hc | hc
  · exact f.name_oneLine c hc
  · rcases List.mem_cons.mp hc with rfl | hc
    · decide
    · exact f.value_oneLine c hc

private theorem read_field (b : Buffers) (f : Field) :
    read (atLine b) (f.line ++ ['\n']) = (atLine (setField b f.name f.value), []) := by
  have hline := read_oneLine b f.line_oneLine []
  have hend : readChar { buffers := b, line := f.line } '\n' =
      (atLine (setField b f.name f.value), none) := by
    rw [readChar, if_pos rfl, if_neg Bool.false_ne_true, endLine, readLine_field]
    rfl
  rw [List.nil_append] at hline
  rw [read_append, atLine, hline, read, hend]
  rfl

private theorem read_lines (b : Buffers) (fs : List Field) :
    read (atLine b) (lines fs) = (atLine (filled b fs), []) := by
  induction fs generalizing b with
  | nil => rfl
  | cons f fs ih =>
      have hcons : lines (f :: fs) = (f.line ++ ['\n']) ++ lines fs := rfl
      rw [hcons, read_append, read_field, ih]
      rfl

private theorem read_block (b : Buffers) (fs : List Field) :
    read (atLine b) (block fs) =
      (atLine (dispatch (filled b fs)).1, (dispatch (filled b fs)).2.toList) := by
  have hend : readChar (atLine (filled b fs)) '\n' =
      (atLine (dispatch (filled b fs)).1, (dispatch (filled b fs)).2) := by
    rw [atLine, readChar, if_pos rfl, if_neg Bool.false_ne_true]
    rfl
  rw [block, read_append, read_lines, read, hend]
  simp only [read, List.nil_append, List.append_nil]

private theorem read_unfinished (b : Buffers) {fs : List Field} {cs : List Char}
    (h : cs <+: block fs)
    (hne : cs ≠ block fs) : (read (atLine b) cs).2 = [] := by
  have hlines : cs <+: lines fs := by
    rcases List.prefix_concat_iff.mp h with heq | hbegun
    · exact absurd heq hne
    · exact hbegun
  have hevents := events_prefix (atLine b) hlines
  rw [read_lines] at hevents
  exact List.prefix_nil.mp hevents

/-- The events of the blocks, where an id stays for the next. -/
def dispatched (b : Buffers) : List (List Field) → List Event
  | [] => []
  | fs :: blocks =>
      (dispatch (filled b fs)).2.toList ++ dispatched (dispatch (filled b fs)).1 blocks

def stream (blocks : List (List Field)) : List Char := blocks.flatMap block

/-- Wherever a stream is cut off, the events so far are those of the blocks that are
complete, each once and in order. -/
theorem read_stream (b : Buffers) {blocks : List (List Field)} {cs : List Char}
    (h : cs <+: stream blocks) :
    ∃ k ≤ blocks.length, (read (atLine b) cs).2 = dispatched b (blocks.take k) ∧
      stream (blocks.take k) <+: cs ∧
        (k < blocks.length → ¬ stream (blocks.take (k + 1)) <+: cs) := by
  induction blocks generalizing b cs with
  | nil =>
      obtain rfl : cs = [] := List.prefix_nil.mp h
      exact ⟨0, Nat.le_refl 0, rfl, List.prefix_refl _, fun hlt => absurd hlt (Nat.lt_irrefl 0)⟩
  | cons fs blocks ih =>
      have hcons : ∀ rest, stream (fs :: rest) = block fs ++ stream rest := fun _ => rfl
      rw [hcons] at h
      by_cases hfirst : block fs <+: cs
      · obtain ⟨rest, rfl⟩ := hfirst
        have hrest := (List.prefix_append_right_inj (block fs)).mp h
        obtain ⟨k, hk, hevents, hread, hnext⟩ := ih (dispatch (filled b fs)).1 hrest
        refine ⟨k + 1, Nat.succ_le_succ hk, ?_, ?_, ?_⟩
        · rw [read_append, read_block, hevents, List.take_succ_cons, dispatched]
        · rw [List.take_succ_cons, hcons]
          exact (List.prefix_append_right_inj _).mpr hread
        · intro hlt hmore
          rw [List.take_succ_cons, hcons] at hmore
          exact hnext (Nat.lt_of_succ_lt_succ hlt) ((List.prefix_append_right_inj _).mp hmore)
      · have hshort : cs <+: block fs :=
          (List.prefix_or_prefix_of_prefix h (List.prefix_append _ _)).resolve_right hfirst
        refine ⟨0, Nat.zero_le _, ?_, List.nil_prefix, ?_⟩
        · refine read_unfinished b hshort ?_
          rintro rfl
          exact hfirst (List.prefix_refl _)
        · intro _ hmore
          refine hfirst ?_
          rwa [List.take_succ_cons, List.take_zero, hcons, stream, List.flatMap_nil,
            List.append_nil] at hmore

end TrendingPipeline.Base.EventStream

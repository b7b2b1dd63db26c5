/- Unit: TrendingPipeline/Base/TimedCache
   source: none (general)
   digest: A look-aside cache with a time to live over a source that changes: how old a reply is. -/

import Mathlib.Logic.Function.Basic
import TrendingPipeline.Base.Runs

set_option autoImplicit false
set_option relaxedAutoImplicit false

namespace TrendingPipeline.Base.TimedCache

open TrendingPipeline.Base.Runs

universe u

variable {Key Text Req Res : Type u}

/-- The key of a request, the text that is stored for a result, and what a request reads in
a stored text. -/
structure Scheme (Key Text Req Res : Type u) where
  key : Req → Key
  write : Req → Res → Text
  read : Req → Text → Option Res
  ttl : Nat

/-- Where a request is: before the look-up, before the query of the source, before the write
of a result with the time of the query, and after the reply with its time. -/
inductive Point (Res : Type u)
  | lookup
  | query
  | store (res : Res) (asked : Nat)
  | replied (out : Option Res) (time : Nat)

/-- The clock, the entries with the times they end, and the requests so far. -/
structure State (Key Text Req Res : Type u) where
  now : Nat
  entries : Key → Option (Text × Nat)
  calls : List (Req × Point Res)

def start : State Key Text Req Res where
  now := 0
  entries _ := none
  calls := []

inductive Act (Key Req Res : Type u)
  /-- a unit of time passes -/
  | tick
  | call (req : Req)
  | lookup (i : Nat) (fails : Bool)
  /-- the source answers, `none` being an error -/
  | query (i : Nat) (out : Option Res)
  | store (i : Nat) (fails : Bool)
  /-- an entry is dropped before its time -/
  | evict (key : Key)

def found (s : State Key Text Req Res) (key : Key) : Option Text :=
  (s.entries key).bind fun e => if s.now < e.2 then some e.1 else none

def step [DecidableEq Key] (c : Scheme Key Text Req Res) (s : State Key Text Req Res) :
    Act Key Req Res → Option (State Key Text Req Res)
  | .tick => some { s with now := s.now + 1 }
  | .call req => some { s with calls := s.calls ++ [(req, .lookup)] }
  | .lookup i fails =>
      match s.calls[i]? with
      | some (req, .lookup) =>
          let hit := if fails then none else (found s (c.key req)).bind (c.read req)
          let next : Point Res :=
            match hit with
            | some res => .replied (some res) s.now
            | none => .query
          some { s with calls := s.calls.set i (req, next) }
      | _ => none
  | .query i out =>
      match s.calls[i]? with
      | some (req, .query) =>
          let next : Point Res :=
            match out with
            | some res => .store res s.now
            | none => .replied none s.now
          some { s with calls := s.calls.set i (req, next) }
      | _ => none
  | .store i fails =>
      match s.calls[i]? with
      | some (req, .store res _) =>
          let entry := (c.write req res, s.now + c.ttl)
          some
            { s with
              entries :=
                if fails then s.entries else Function.update s.entries (c.key req) (some entry)
              calls := s.calls.set i (req, .replied (some res) s.now) }
      | _ => none
  | .evict key => some { s with entries := Function.update s.entries key none }

/-- The source gives only the answers it has at the time, and a result is written at most
`delay` after it was asked for. -/
def Lawful (answers : Nat → Req → Option Res → Prop) (delay : Nat) (s : State Key Text Req Res) :
    Act Key Req Res → Prop
  | .query i out => ∀ req, s.calls[i]? = some (req, .query) → answers s.now req out
  | .store i _ => ∀ req res asked, s.calls[i]? = some (req, .store res asked) →
      s.now ≤ asked + delay
  | _ => True

/-- What one request stores, any other with its key reads as an answer of its own. -/
def Agreeing (c : Scheme Key Text Req Res) (answers : Nat → Req → Option Res → Prop) : Prop :=
  ∀ time req req' res res', c.key req = c.key req' → answers time req (some res) →
    c.read req' (c.write req res) = some res' → answers time req' (some res')

/-- The answer of the source at a time not more than `age` before. -/
def AnswerWithin (answers : Nat → Req → Option Res → Prop) (age : Nat) (req : Req)
    (out : Option Res) (time : Nat) : Prop :=
  ∃ asked, asked ≤ time ∧ time ≤ asked + age ∧ answers asked req out

section Freshness

variable {c : Scheme Key Text Req Res} {answers : Nat → Req → Option Res → Prop} {delay : Nat}
  {s t : State Key Text Req Res} {a : Act Key Req Res}

def PointSound (answers : Nat → Req → Option Res → Prop) (age now : Nat) (req : Req) :
    Point Res → Prop
  | .lookup | .query => True
  | .store res asked => asked ≤ now ∧ answers asked req (some res)
  | .replied out time => time ≤ now ∧ AnswerWithin answers age req out time

/-- An entry is of an answer that some request with its key got, and it ends in time. -/
def EntrySound (c : Scheme Key Text Req Res) (answers : Nat → Req → Option Res → Prop)
    (age now : Nat) (key : Key) (e : Text × Nat) : Prop :=
  ∃ req res asked, c.key req = key ∧ e.1 = c.write req res ∧ answers asked req (some res) ∧
    asked ≤ now ∧ e.2 ≤ asked + age

structure Sound (c : Scheme Key Text Req Res) (answers : Nat → Req → Option Res → Prop) (age : Nat)
    (s : State Key Text Req Res) : Prop where
  entries : ∀ key e, s.entries key = some e → EntrySound c answers age s.now key e
  calls : ∀ x ∈ s.calls, PointSound answers age s.now x.1 x.2

theorem EntrySound.later {age now now' : Nat} {key : Key} {e : Text × Nat}
    (h : EntrySound c answers age now key e) (hle : now ≤ now') :
    EntrySound c answers age now' key e := by
  obtain ⟨req, res, asked, hkey, htext, hanswer, hasked, hend⟩ := h
  exact ⟨req, res, asked, hkey, htext, hanswer, Nat.le_trans hasked hle, hend⟩

theorem PointSound.later {age now now' : Nat} {req : Req} {p : Point Res}
    (h : PointSound answers age now req p) (hle : now ≤ now') :
    PointSound answers age now' req p := by
  cases p with
  | lookup => trivial
  | query => trivial
  | store res asked => exact ⟨Nat.le_trans h.1 hle, h.2⟩
  | replied out time => exact ⟨Nat.le_trans h.1 hle, h.2⟩

theorem Sound.move {age i : Nat} {req : Req} {p : Point Res} (h : Sound c answers age s)
    {entries : Key → Option (Text × Nat)}
    (hentries : ∀ key e, entries key = some e → EntrySound c answers age s.now key e)
    (hp : PointSound answers age s.now req p) :
    Sound c answers age { s with entries := entries, calls := s.calls.set i (req, p) } where
  entries := hentries
  calls := by
    intro x hx
    rcases List.mem_or_eq_of_mem_set hx with hx | rfl
    · exact h.calls x hx
    · exact hp

/-- What is found under the key of a request and can be read is an answer to it, from no
longer ago than a write may take and an entry live. -/
private theorem answerWithin_of_found (hagree : Agreeing c answers) {age : Nat}
    (h : Sound c answers age s)
    {req : Req} {res : Res} (hfound : (found s (c.key req)).bind (c.read req) = some res) :
    AnswerWithin answers age req (some res) s.now := by
  obtain ⟨text, htext, hread⟩ := Option.bind_eq_some_iff.mp hfound
  obtain ⟨e, hentry, hlive⟩ := Option.bind_eq_some_iff.mp htext
  split at hlive
  · rename_i hlt
    obtain rfl := Option.some.inj hlive
    obtain ⟨req', res', asked, hkey, hwritten, hanswer, hasked, hend⟩ := h.entries _ _ hentry
    rw [hwritten] at hread
    exact ⟨asked, hasked, by omega, hagree asked req' req res' res hkey hanswer hread⟩
  · cases hlive

theorem Sound.step [DecidableEq Key] (hagree : Agreeing c answers)
    (h : Sound c answers (delay + c.ttl) s) (ha : Lawful answers delay s a)
    (hstep : TimedCache.step c s a = some t) :
    Sound c answers (delay + c.ttl) t := by
  cases a with
  | tick =>
      obtain rfl := Option.some.inj hstep
      have hle : s.now ≤ s.now + 1 := Nat.le_succ s.now
      exact ⟨fun key e he => (h.entries key e he).later hle,
        fun x hx => (h.calls x hx).later hle⟩
  | call req =>
      obtain rfl := Option.some.inj hstep
      refine ⟨h.entries, ?_⟩
      intro x hx
      rcases List.mem_append.mp hx with hx | hx
      · exact h.calls x hx
      · obtain rfl := List.mem_singleton.mp hx
        trivial
  | lookup i fails =>
      simp only [TimedCache.step] at hstep
      split at hstep
      · rename_i req hcall
        obtain rfl := Option.some.inj hstep
        refine h.move h.entries ?_
        split
        · rename_i res hhit
          split at hhit
          · cases hhit
          · exact ⟨Nat.le_refl _, answerWithin_of_found hagree h hhit⟩
        · trivial
      · cases hstep
  | query i out =>
      simp only [TimedCache.step] at hstep
      split at hstep
      · rename_i req hcall
        obtain rfl := Option.some.inj hstep
        have hanswer := ha req hcall
        refine h.move h.entries ?_
        cases out with
        | some res => exact ⟨Nat.le_refl _, hanswer⟩
        | none => exact ⟨Nat.le_refl _, s.now, Nat.le_refl _, Nat.le_add_right _ _, hanswer⟩
      · cases hstep
  | store i fails =>
      simp only [TimedCache.step] at hstep
      split at hstep
      · rename_i req res asked hcall
        obtain rfl := Option.some.inj hstep
        obtain ⟨hasked, hanswer⟩ := h.calls _ (List.mem_of_getElem? hcall)
        have hprompt : s.now ≤ asked + delay := ha req res asked hcall
        refine h.move ?_ ⟨Nat.le_refl _, asked, hasked, by omega, hanswer⟩
        intro key e he
        cases fails with
        | true => exact h.entries key e he
        | false =>
            rw [if_neg Bool.false_ne_true, Function.update_apply] at he
            split at he
            · rename_i hkey
              obtain rfl := Option.some.inj he
              exact ⟨req, res, asked, hkey.symm, rfl, hanswer, hasked, by dsimp only; omega⟩
            · exact h.entries key e he
      · cases hstep
  | evict key =>
      obtain rfl := Option.some.inj hstep
      refine ⟨?_, h.calls⟩
      intro key' e he
      dsimp only at he
      rw [Function.update_apply] at he
      split at he
      · cases he
      · exact h.entries key' e he

/-- However requests interleave, whatever the cache loses and however the source changes:
a reply is an answer that the source had to that request, no longer ago than an entry lives
and a write may take. -/
theorem reply_within [DecidableEq Key] (hagree : Agreeing c answers)
    (h : Reachable (· = start) (TimedCache.step c) (Lawful answers delay) s) {req : Req}
    {out : Option Res} {time : Nat} (hreply : (req, .replied out time) ∈ s.calls) :
    AnswerWithin answers (delay + c.ttl) req out time := by
  have hsound : Sound c answers (delay + c.ttl) s := by
    refine h.invariant ?_ fun s a t hs ha hstep => hs.step hagree ha hstep
    rintro _ rfl
    exact ⟨fun _ _ he => (by cases he), fun _ hx => absurd hx List.not_mem_nil⟩
  exact (hsound.calls _ hreply).2

end Freshness

end TrendingPipeline.Base.TimedCache

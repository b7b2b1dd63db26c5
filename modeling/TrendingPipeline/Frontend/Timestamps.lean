/- Unit: TrendingPipeline/Frontend/Timestamps
   source: frontend/lib/jobs.ts, frontend/types/jobs.ts
   digest: The Date made of a Timestamp that arrives as JSON, and which instants survive. -/

import TrendingPipeline.Analytics.Responses
import TrendingPipeline.Base.Doubles
import TrendingPipeline.Base.JsValue

set_option autoImplicit false
set_option relaxedAutoImplicit false

namespace TrendingPipeline.Frontend.Timestamps

open TrendingPipeline.Analytics.Responses (timestampRecord)
open TrendingPipeline.Base.Decimal (decimal)
open TrendingPipeline.Base.Doubles
open TrendingPipeline.Base.JsonCodec
open TrendingPipeline.Base.JsonText (Json maxNestingDepth parse)
open TrendingPipeline.Base.JsValue
open TrendingPipeline.Proto.Messages (Timestamp)

/-- The interface ProtoTimestamp as its properties compute: one that is `undefined` is NaN. -/
structure ProtoTimestamp where
  seconds : Number
  nanos : Number

/-- A Date by its time value, whole milliseconds since the epoch; `none` is NaN, an
Invalid Date. -/
structure Date where
  time : Option ℤ
  deriving DecidableEq

def maxTime : ℤ := 8640000000000000

/-- `new Date(value)`. -/
def Date.ofNumber (value : Number) : Date where
  time := value.bind fun v => if |v| ≤ maxTime then some (v.num.tdiv v.den) else none

/-- `date.getTime()`. -/
def Date.getTime (date : Date) : Number := date.time.bind Number.ofInt

def protoTimestampToDate (ts : Option ProtoTimestamp) : Option Date :=
  ts.map fun ts =>
    .ofNumber (.plus (.times ts.seconds (.ofInt 1000))
      (.floor (.dividedBy ts.nanos (.ofInt 1000000))))

inductive Rendered
  | dash
  /-- `date.toLocaleString("en-US", ..)` of a time value; of NaN it is Invalid Date -/
  | localeString (time : Option ℤ)
  /-- a number, and s, m or h ago -/
  | ago (n : Number) (unit : Char)
  deriving DecidableEq

def Rendered.Invalid (r : Rendered) : Prop := r = .localeString none ∨ ∃ unit, r = .ago none unit

def formatTimestamp (ts : Option ProtoTimestamp) : Rendered :=
  match protoTimestampToDate ts with
  | none => .dash
  | some date => .localeString date.time

/-- `now` is `Date.now()`. -/
def formatRelativeTime (now : ℤ) (ts : Option ProtoTimestamp) : Rendered :=
  match protoTimestampToDate ts with
  | none => .dash
  | some date =>
      let diff := Number.minus (.ofInt now) date.getTime
      let seconds := Number.floor (.dividedBy diff (.ofInt 1000))
      if Number.less seconds (.ofInt 60) then .ago seconds 's'
      else
        let minutes := Number.floor (.dividedBy seconds (.ofInt 60))
        if Number.less minutes (.ofInt 60) then .ago minutes 'm'
        else
          let hours := Number.floor (.dividedBy minutes (.ofInt 60))
          if Number.less hours (.ofInt 24) then .ago hours 'h' else formatTimestamp ts

/-- A property of the timestamps of the gateway, which hold nothing but numbers. -/
def number (name : String) (v : Json) : Number :=
  match property name v with
  | some (some (.num literal)) => (numberOf literal).bind Number.ofInt
  | _ => none

/-- `JSON.parse` of the text a Timestamp is marshalled to. -/
def received (ts : Timestamp) : Option ProtoTimestamp :=
  (parse (timestampRecord.codec.marshal ts)).map fun v =>
    { seconds := number "seconds" v, nanos := number "nanos" v }

def instant (ts : Timestamp) : ℤ := ts.seconds.toInt * 1000000000 + ts.nanos.toInt

/-- The seconds are within the range of a Date, the nanoseconds within a second. -/
structure Datable (ts : Timestamp) : Prop where
  seconds : |ts.seconds.toInt * 1000| ≤ maxTime
  nanos : 0 ≤ ts.nanos.toInt ∧ ts.nanos.toInt < 1000000000

/-- Each instant arrives as the Date of its millisecond, in order, and is rendered. -/
structure Survive (S : Set Timestamp) : Prop where
  dated : ∀ ts ∈ S, protoTimestampToDate (received ts) = some ⟨some (instant ts / 1000000)⟩
  ordered : ∀ a ∈ S, ∀ b ∈ S, instant a ≤ instant b →
    ∃ x y, protoTimestampToDate (received a) = some ⟨some x⟩ ∧
      protoTimestampToDate (received b) = some ⟨some y⟩ ∧ x ≤ y
  formatted : ∀ ts ∈ S, ¬ (formatTimestamp (received ts)).Invalid
  relative : ∀ ts ∈ S, ∀ now, ¬ (formatRelativeTime now (received ts)).Invalid

/-- Both fields are written, and the millisecond is within the range of a Date. -/
structure Whole (ts : Timestamp) : Prop where
  seconds : ts.seconds ≠ 0
  nanos : ts.nanos ≠ 0
  inRange : instant ts / 1000000 ≤ maxTime

private theorem number_eq {name : String} {v : Json} {absent : Prop} [Decidable absent] {n : ℤ}
    (hv : property name v = some (if absent then none else some (.num (decimal n))))
    (hn : |n| < 2 ^ 53) : number name v = if absent then none else Number.ofInt n := by
  rw [number, hv]
  split_ifs with habsent
  · rfl
  · have hexact : nearestDouble n = n := by
      refine nearestDouble_eq ?_
      rw [Int.abs_eq_natAbs] at hn
      exact_mod_cast hn
    simp only [numberOf_decimal, hexact, Option.bind_some]

private theorem property_seconds (ts : Timestamp) :
    property "seconds" (timestampRecord.codec.encode ts) =
      some (if ts.seconds = 0 then none else some (.num (decimal ts.seconds.toInt))) := by
  have hslot : timestampRecord.slots[0]? = some
      (slot "seconds" (·.seconds) (fun x v => { x with seconds := v }) int64) := rfl
  exact property_encode timestampRecord (List.mem_of_getElem? hslot) ts

private theorem property_nanos (ts : Timestamp) :
    property "nanos" (timestampRecord.codec.encode ts) =
      some (if ts.nanos = 0 then none else some (.num (decimal ts.nanos.toInt))) := by
  have hslot : timestampRecord.slots[1]? = some
      (slot "nanos" (·.nanos) (fun x v => { x with nanos := v }) int32) := rfl
  exact property_encode timestampRecord (List.mem_of_getElem? hslot) ts

private theorem received_eq {ts : Timestamp} (h : Datable ts) :
    received ts = some {
      seconds := if ts.seconds = 0 then none else Number.ofInt ts.seconds.toInt
      nanos := if ts.nanos = 0 then none else Number.ofInt ts.nanos.toInt } := by
  have hseconds := h.seconds
  have hnanos := h.nanos
  have hsmall : |ts.seconds.toInt| < 2 ^ 53 := by
    rw [abs_le] at hseconds
    rw [abs_lt]
    unfold maxTime at hseconds
    omega
  have hsmall' : |ts.nanos.toInt| < 2 ^ 53 := by
    rw [abs_lt]
    omega
  rw [received, timestampRecord.codec.parse_marshal (by decide), Option.map_some,
    number_eq (property_seconds ts) hsmall, number_eq (property_nanos ts) hsmall']

private theorem ofNumber_ofInt (n : ℤ) :
    Date.ofNumber (.ofInt n) = ⟨if |n| ≤ maxTime then some n else none⟩ := by
  have hcast : |(n : ℚ)| ≤ (maxTime : ℚ) ↔ |n| ≤ maxTime := by exact_mod_cast Iff.rfl
  simp only [Date.ofNumber, Number.ofInt, Option.bind_some, Rat.num_intCast, Rat.den_intCast,
    Nat.cast_one, Int.tdiv_one]
  exact congrArg Date.mk (if_congr hcast rfl rfl)

private theorem date_of_missing {ts : Timestamp} (h : Datable ts)
    (hmissing : ts.seconds = 0 ∨ ts.nanos = 0) :
    protoTimestampToDate (received ts) = some ⟨none⟩ := by
  rw [received_eq h]
  rcases hmissing with hzero | hzero
  · rw [if_pos hzero]
    rfl
  · rw [if_pos hzero]
    simp [protoTimestampToDate, Number.dividedBy, Number.plus, Number.floor, Date.ofNumber]

private theorem date_of_written {ts : Timestamp} (h : Datable ts) (hseconds : ts.seconds ≠ 0)
    (hnanos : ts.nanos ≠ 0) :
    protoTimestampToDate (received ts) =
      some ⟨if instant ts / 1000000 ≤ maxTime then some (instant ts / 1000000) else none⟩ := by
  obtain ⟨hlow, hhigh⟩ := abs_le.mp h.seconds
  obtain ⟨hnonneg, hlt⟩ := h.nanos
  unfold maxTime at hlow hhigh
  have hmillis : instant ts / 1000000 = ts.seconds.toInt * 1000 + ts.nanos.toInt / 1000000 := by
    unfold instant
    omega
  have hproduct : Number.times (.ofInt ts.seconds.toInt) (.ofInt 1000) =
      .ofInt (ts.seconds.toInt * 1000) :=
    Number.times_ofInt (by rw [abs_lt]; omega)
  have hquotient : Number.floor (.dividedBy (.ofInt ts.nanos.toInt) (.ofInt 1000000)) =
      .ofInt (ts.nanos.toInt / 1000000) := by
    obtain ⟨m, hm⟩ := Int.eq_ofNat_of_zero_le hnonneg
    rw [hm]
    exact Number.floor_dividedBy_ofInt (by decide) (by omega)
  have hsum : Number.plus (.ofInt (ts.seconds.toInt * 1000)) (.ofInt (ts.nanos.toInt / 1000000)) =
      .ofInt (instant ts / 1000000) := by
    rw [hmillis]
    exact Number.plus_ofInt (by rw [abs_lt]; omega)
  have hbound : |instant ts / 1000000| ≤ maxTime ↔ instant ts / 1000000 ≤ maxTime := by
    rw [abs_le]
    unfold maxTime
    omega
  rw [received_eq h, if_neg hseconds, if_neg hnanos, protoTimestampToDate, Option.map_some,
    hproduct, hquotient, hsum, ofNumber_ofInt]
  simp only [hbound]

private theorem date_iff {ts : Timestamp} (h : Datable ts) :
    protoTimestampToDate (received ts) = some ⟨some (instant ts / 1000000)⟩ ↔ Whole ts := by
  constructor
  · intro hdate
    have hfields : ts.seconds ≠ 0 ∧ ts.nanos ≠ 0 := by
      rw [← not_or]
      intro hmissing
      rw [date_of_missing h hmissing] at hdate
      cases hdate
    rw [date_of_written h hfields.1 hfields.2] at hdate
    refine ⟨hfields.1, hfields.2, ?_⟩
    by_contra hlate
    rw [if_neg hlate] at hdate
    cases hdate
  · intro hwhole
    rw [date_of_written h hwhole.seconds hwhole.nanos, if_pos hwhole.inRange]

private theorem formatTimestamp_valid {ts : Option ProtoTimestamp} {time : ℤ}
    (h : protoTimestampToDate ts = some ⟨some time⟩) : ¬ (formatTimestamp ts).Invalid := by
  rw [formatTimestamp, h]
  rintro (hinvalid | ⟨unit, hinvalid⟩)
  · cases hinvalid
  · cases hinvalid

private theorem ago_valid {n m : Number} {unit : Char} (h : Number.less n m = true) :
    ¬ (Rendered.ago n unit).Invalid := by
  rintro (hinvalid | ⟨unit', hinvalid⟩)
  · cases hinvalid
  · cases hinvalid
    cases h

private theorem formatRelativeTime_valid {ts : Option ProtoTimestamp} {time : ℤ}
    (h : protoTimestampToDate ts = some ⟨some time⟩) (now : ℤ) :
    ¬ (formatRelativeTime now ts).Invalid := by
  rw [formatRelativeTime, h]
  dsimp only
  split
  · next hless => exact ago_valid hless
  · split
    · next hless => exact ago_valid hless
    · split
      · next hless => exact ago_valid hless
      · exact formatTimestamp_valid h

/-- Instants survive exactly if of each both fields are written and its millisecond is
within the range of a Date. -/
theorem survive_iff_whole {S : Set Timestamp} (hS : ∀ ts ∈ S, Datable ts) :
    Survive S ↔ ∀ ts ∈ S, Whole ts := by
  constructor
  · intro hsurvive ts hts
    exact (date_iff (hS ts hts)).mp (hsurvive.dated ts hts)
  · intro hwhole
    have hdated : ∀ ts ∈ S,
        protoTimestampToDate (received ts) = some ⟨some (instant ts / 1000000)⟩ :=
      fun ts hts => (date_iff (hS ts hts)).mpr (hwhole ts hts)
    refine ⟨hdated, ?_, ?_, ?_⟩
    · intro a ha b hb hle
      exact ⟨_, _, hdated a ha, hdated b hb, Int.ediv_le_ediv (by decide) hle⟩
    · intro ts hts
      exact formatTimestamp_valid (hdated ts hts)
    · intro ts hts
      exact formatRelativeTime_valid (hdated ts hts)

/-- Two instants of 2023 a nanosecond apart. -/
def twoInstants : Set Timestamp :=
  {⟨1700000000, 123456789⟩, ⟨1700000000, 123456790⟩}

theorem survive_iff_whole_two : Survive twoInstants := by
  refine (survive_iff_whole ?_).mpr ?_
  · rintro ts (rfl | rfl)
    · exact ⟨by decide, by decide⟩
    · exact ⟨by decide, by decide⟩
  · rintro ts (rfl | rfl)
    · exact ⟨by decide, by decide, by decide⟩
    · exact ⟨by decide, by decide, by decide⟩

/-- A whole second arrives without nanos, and its date is invalid. -/
theorem wholeSecond_invalid :
    Datable ⟨1700000000, 0⟩ ∧
      protoTimestampToDate (received ⟨1700000000, 0⟩) = some ⟨none⟩ ∧
      (formatTimestamp (received ⟨1700000000, 0⟩)).Invalid ∧
      ¬ Survive {⟨1700000000, 0⟩} := by
  have hdatable : Datable ⟨1700000000, 0⟩ := ⟨by decide, by decide⟩
  have hdate : protoTimestampToDate (received ⟨1700000000, 0⟩) = some ⟨none⟩ :=
    date_of_missing hdatable (Or.inr rfl)
  refine ⟨hdatable, hdate, ?_, ?_⟩
  · rw [formatTimestamp, hdate]
    exact Or.inl rfl
  · intro hsurvive
    have hdated := hsurvive.dated _ rfl
    rw [hdate] at hdated
    cases hdated

end TrendingPipeline.Frontend.Timestamps

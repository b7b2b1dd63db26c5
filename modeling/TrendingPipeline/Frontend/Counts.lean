/- Unit: TrendingPipeline/Frontend/Counts
   source: frontend/components/videos-table.tsx, frontend/components/video-trend-chart.tsx,
     frontend/components/analytics-dashboard.tsx
   digest: The shortened counts of the tables and charts, and the numbers their texts say. -/

import TrendingPipeline.Base.Coarsening
import TrendingPipeline.Base.Doubles
import TrendingPipeline.Frontend.VideosSort

set_option autoImplicit false
set_option relaxedAutoImplicit false

namespace TrendingPipeline.Frontend.Counts

open TrendingPipeline.Base.Coarsening (Graded Near le_of_near stepAt)
open TrendingPipeline.Base.Decimal (append_sep_inj decimal decimal_injective not_mem_decimal)
open TrendingPipeline.Base.Doubles (Number le_nearest nearest nearest_le)
open TrendingPipeline.Base.Doubles.Number (dividedBy ofInt)
open TrendingPipeline.Analytics.Responses (videoRecord)
open TrendingPipeline.Base.JsonText (Json)
open TrendingPipeline.Base.JsValue (nearestDouble nearestDouble_eq)
open TrendingPipeline.Frontend.VideosSort (SortKey number number_encode)
open TrendingPipeline.Proto.Messages (Video)

/-- The whole number of tenths nearest to `q`, and of two the greater one. -/
def tenths (q : ℚ) : ℤ := ⌊q * 10 + 1 / 2⌋

/-- `x.toFixed(1)` of NaN, or of a number that is not negative and below `10 ^ 21`. -/
def toFixed1 : Number → List Char
  | none => "NaN".toList
  | some q => decimal (tenths q / 10) ++ '.' :: decimal (tenths q % 10)

/-- `String(n)` below the units, and else the quotient by the first unit that `n` reaches. -/
def formatWith : List (ℕ × Char) → ℤ → List Char
  | [], n => decimal n
  | (unit, suffix) :: units, n =>
      if unit ≤ n then toFixed1 ((ofInt n).dividedBy (ofInt unit)) ++ [suffix]
      else formatWith units n

/-- `formatCount`, with the units of a component; `undefined` reaches no unit. -/
def formatCount (units : List (ℕ × Char)) : Option ℤ → List Char
  | none => "undefined".toList
  | some n => formatWith units n

def grades (units : List (ℕ × Char)) : List (ℕ × ℕ) := units.map fun p => (p.1, p.1 / 10)

structure Units where
  units : List (ℕ × Char)
  graded : Graded (grades units)
  even : ∀ p ∈ units, 20 ∣ p.1
  suffixes : (units.map Prod.snd).Nodup

def tableUnits : Units where
  units := [(1000000, 'M'), (1000, 'K')]
  graded := by simp only [grades, List.map, Graded]; decide
  even := by decide
  suffixes := by decide

def dashboardUnits : Units where
  units := [(1000000000, 'B'), (1000000, 'M'), (1000, 'K')]
  graded := by simp only [grades, List.map, Graded]; decide
  even := by decide
  suffixes := by decide

inductive Says (units : List (ℕ × Char)) : List Char → ℕ → Prop
  | whole (n : ℕ) : Says units (decimal n) n
  | scaled {unit : ℕ} {suffix : Char} (h : (unit, suffix) ∈ units) (k : ℕ) :
      Says units (decimal (k / 10 : ℕ) ++ '.' :: decimal (k % 10 : ℕ) ++ [suffix])
        (k * (unit / 10))

section Rounding

variable {e n : ℕ}

private theorem abs_nearest_sub_lt (he : 0 < e) (hn : 0 < n) (hsmall : n < 2 ^ 53) :
    |nearest ((n : ℚ) / (10 * e : ℕ)) * 10 * e - n| < 1 := by
  have hepos : (0 : ℚ) < e := by exact_mod_cast he
  have hq : (0 : ℚ) < (n : ℚ) / (10 * e : ℕ) := by positivity
  have hvalue : (n : ℚ) / (10 * e : ℕ) * 10 * e = n := by
    push_cast
    field_simp
  generalize (n : ℚ) / (10 * e : ℕ) = q at hq hvalue ⊢
  have hlt : (n : ℚ) < 2 ^ 53 := by exact_mod_cast hsmall
  have herror : q / 2 ^ 53 * (10 * (e : ℚ)) < 1 := by
    calc q / 2 ^ 53 * (10 * (e : ℚ)) = q * 10 * (e : ℚ) / 2 ^ 53 := by ring
      _ = (n : ℚ) / 2 ^ 53 := by rw [hvalue]
      _ < 1 := by rwa [div_lt_one (by norm_num)]
  have hscale : (0 : ℚ) ≤ 10 * e := by positivity
  have hup := mul_le_mul_of_nonneg_right (nearest_le hq) hscale
  have hdown := mul_le_mul_of_nonneg_right (le_nearest hq) hscale
  rw [abs_lt]
  constructor <;> linarith

private theorem tenths_nonneg {q : ℚ} (hq : 0 < q) : 0 ≤ tenths (nearest q) := by
  have hle : q / 2 ^ 53 ≤ q := div_le_self hq.le (by norm_num)
  have hbelow := le_nearest hq
  apply Int.floor_nonneg.mpr
  linarith

/-- The tenths of a quotient, in units: a nearest multiple of a tenth of the unit. -/
private theorem near_tenths (he : 0 < e) (heven : 2 ∣ e) (hn : 0 < n) (hsmall : n < 2 ^ 53) :
    ∃ k : ℕ, tenths (nearest ((n : ℚ) / (10 * e : ℕ))) = k ∧ Near e n (k * e) := by
  have hepos : (0 : ℚ) < e := by exact_mod_cast he
  have hq : (0 : ℚ) < (n : ℚ) / (10 * e : ℕ) := by positivity
  obtain ⟨hlow, hhigh⟩ := abs_lt.mp (abs_nearest_sub_lt he hn hsmall)
  obtain ⟨k, hk⟩ := Int.eq_ofNat_of_zero_le (tenths_nonneg hq)
  have hfloor : ((k : ℤ) : ℚ) ≤ nearest ((n : ℚ) / (10 * e : ℕ)) * 10 + 1 / 2 :=
    hk ▸ Int.floor_le _
  have hnext : nearest ((n : ℚ) / (10 * e : ℕ)) * 10 + 1 / 2 < ((k : ℤ) : ℚ) + 1 :=
    hk ▸ Int.lt_floor_add_one _
  rw [Int.cast_natCast] at hfloor hnext
  refine ⟨k, hk, Nat.dvd_mul_left e k, ?_, ?_⟩
  · have hmul := mul_le_mul_of_nonneg_right hfloor hepos.le
    have hlt : (2 * (k * e) : ℚ) < 2 * n + e + 2 := by linarith
    have hlt' : 2 * (k * e) < 2 * n + e + 2 := by exact_mod_cast hlt
    omega
  · have hmul := mul_lt_mul_of_pos_right hnext hepos
    have hlt : (2 * n : ℚ) < 2 * (k * e) + e + 2 := by linarith
    have hlt' : 2 * n < 2 * (k * e) + e + 2 := by exact_mod_cast hlt
    omega

end Rounding

section Texts

variable {units : List (ℕ × Char)} {p : ℕ × Char} {s : List Char} {m n v w : ℕ}

theorem Says.cons (h : Says units s v) : Says (p :: units) s v := by
  cases h with
  | whole v => exact .whole v
  | scaled hmem k => exact .scaled (List.mem_cons_of_mem p hmem) k

private theorem toFixed1_of_tenths {q : ℚ} {k : ℕ} (h : tenths q = k) :
    toFixed1 (some q) = decimal (k / 10 : ℕ) ++ '.' :: decimal (k % 10 : ℕ) := by
  show decimal (tenths q / 10) ++ '.' :: decimal (tenths q % 10) = _
  rw [h]
  rfl

private theorem says_formatWith (hgraded : Graded (grades units)) (heven : ∀ p ∈ units, 20 ∣ p.1)
    (hsmall : n < 2 ^ 53) :
    ∃ v, Says units (formatWith units n) v ∧ Near (stepAt (grades units) n) n v := by
  induction units with
  | nil => exact ⟨n, .whole n, Near.self n⟩
  | cons p units ih =>
      obtain ⟨unit, suffix⟩ := p
      obtain ⟨he, hdvd, -, hrest⟩ := hgraded
      by_cases hreach : unit ≤ n
      · obtain ⟨c, hc⟩ := heven (unit, suffix) List.mem_cons_self
        have hunit : unit = 10 * (unit / 10) := by omega
        have hhalf : 2 ∣ unit / 10 := by omega
        have hpos : 0 < n := by omega
        obtain ⟨k, hk, hnear⟩ := near_tenths he hhalf hpos hsmall
        rw [← hunit] at hk
        refine ⟨k * (unit / 10), ?_, ?_⟩
        · have hreach' : (unit : ℤ) ≤ n := by exact_mod_cast hreach
          have hquotient : (ofInt n).dividedBy (ofInt unit) =
              some (nearest ((n : ℚ) / unit)) := by
            show some (nearest (((n : ℤ) : ℚ) / ((unit : ℤ) : ℚ))) = _
            rw [Int.cast_natCast, Int.cast_natCast]
          rw [formatWith, if_pos hreach', hquotient, toFixed1_of_tenths hk]
          exact .scaled List.mem_cons_self k
        · show Near (if unit ≤ n then unit / 10 else _) n _
          rw [if_pos hreach]
          exact hnear
      · obtain ⟨v, hsays, hnear⟩ := ih hrest fun q hq => heven q (List.mem_cons_of_mem _ hq)
        refine ⟨v, ?_, ?_⟩
        · have hbelow : ¬ (unit : ℤ) ≤ n := by exact_mod_cast hreach
          rw [formatWith, if_neg hbelow]
          exact hsays.cons
        · show Near (if unit ≤ n then unit / 10 else stepAt (grades units) n) n v
          rw [if_neg hreach]
          exact hnear

private theorem says_cases (h : Says units s v) :
    s = decimal v ∨ ∃ unit suffix k, (unit, suffix) ∈ units ∧ v = k * (unit / 10) ∧
      s = decimal (k / 10 : ℕ) ++ '.' :: decimal (k % 10 : ℕ) ++ [suffix] := by
  cases h with
  | whole n => exact .inl rfl
  | scaled hmem k => exact .inr ⟨_, _, k, hmem, rfl, rfl⟩

private theorem dot_not_mem_decimal (n : ℤ) : '.' ∉ decimal n := not_mem_decimal rfl (by decide)

private theorem says_unique (hsuffixes : (units.map Prod.snd).Nodup) (hv : Says units s v)
    (hw : Says units s w) : v = w := by
  have hscaled : ∀ n k : ℕ, ∀ suffix : Char,
      decimal n ≠ decimal (k / 10 : ℕ) ++ '.' :: decimal (k % 10 : ℕ) ++ [suffix] := by
    intro n k suffix h
    apply dot_not_mem_decimal n
    rw [h]
    simp
  rcases says_cases hv with rfl | ⟨unit, suffix, k, hmem, rfl, rfl⟩
  · rcases says_cases hw with h | ⟨unit, suffix, k, -, -, h⟩
    · exact Int.ofNat.inj (decimal_injective h)
    · exact absurd h (hscaled v k suffix)
  · rcases says_cases hw with h | ⟨unit', suffix', k', hmem', rfl, h⟩
    · exact absurd h.symm (hscaled w k suffix)
    · obtain ⟨htenths, hsuffix⟩ := List.append_inj' h rfl
      obtain ⟨hwhole, htenth⟩ :=
        append_sep_inj (dot_not_mem_decimal _) (dot_not_mem_decimal _) htenths
      have hdiv : k / 10 = k' / 10 := Int.ofNat.inj (decimal_injective hwhole)
      have hmod : k % 10 = k' % 10 := Int.ofNat.inj (decimal_injective htenth)
      have hk : k = k' := by omega
      have hpair : (unit, suffix) = (unit', suffix') :=
        List.inj_on_of_nodup_map hsuffixes hmem hmem' (List.cons.inj hsuffix).1
      rw [hk, (Prod.mk.inj hpair).1]

end Texts

/-- `{formatCount(v[key])}` of a video as the page has it. -/
def cell (U : Units) (key : SortKey) (v : Json) : List Char :=
  formatCount U.units (number key v)

private theorem cell_encode (U : Units) {key : SortKey} {v : Video} (hsmall : key.count v < 2 ^ 53)
    (hpos : 0 < key.count v) :
    cell U key (videoRecord.codec.encode v) = formatWith U.units (key.count v) := by
  have hexact : nearestDouble (key.count v) = key.count v := nearestDouble_eq (by omega)
  rw [cell, number_encode, if_neg hpos.ne', hexact]
  rfl

/-- Of videos whose counts are exact in the browser: a count of zero is shown as undefined;
every other one as a text that says one number, at most half of its last digit off the
count; and these numbers are in the order of the counts, also across the units. -/
theorem cells_say_counts (U : Units) (key : SortKey) {vs : List Video}
    (hcounts : ∀ v ∈ vs, 0 ≤ key.count v ∧ key.count v < 2 ^ 53) :
    ∃ said : Video → ℕ, ∀ v ∈ vs,
      (key.count v = 0 → cell U key (videoRecord.codec.encode v) = "undefined".toList) ∧
      (key.count v ≠ 0 →
        (∀ n, Says U.units (cell U key (videoRecord.codec.encode v)) n ↔ n = said v) ∧
        Near (stepAt (grades U.units) (key.count v).toNat) (key.count v).toNat (said v)) ∧
      ∀ w ∈ vs, key.count v ≠ 0 → key.count v ≤ key.count w → said v ≤ said w := by
  have hsays : ∀ v : Video, ∃ n, v ∈ vs → key.count v ≠ 0 →
      Says U.units (cell U key (videoRecord.codec.encode v)) n ∧
        Near (stepAt (grades U.units) (key.count v).toNat) (key.count v).toNat n := by
    intro v
    by_cases hmem : v ∈ vs ∧ key.count v ≠ 0
    · obtain ⟨hv, hne⟩ := hmem
      obtain ⟨hnonneg, hsmall⟩ := hcounts v hv
      have hcast : ((key.count v).toNat : ℤ) = key.count v := Int.toNat_of_nonneg hnonneg
      have hlt : (key.count v).toNat < 2 ^ 53 := by omega
      obtain ⟨n, hn, hnear⟩ := says_formatWith U.graded U.even hlt
      rw [hcast] at hn
      refine ⟨n, fun _ _ => ⟨?_, hnear⟩⟩
      rw [cell_encode U hsmall (by omega)]
      exact hn
    · exact ⟨0, fun hv hne => absurd ⟨hv, hne⟩ hmem⟩
  choose said hsaid using hsays
  refine ⟨said, fun v hv => ⟨?_, ?_, ?_⟩⟩
  · intro hzero
    rw [cell, number_encode, if_pos hzero]
    rfl
  · intro hne
    obtain ⟨hn, hnear⟩ := hsaid v hv hne
    refine ⟨fun n => ⟨fun h => says_unique U.suffixes h hn, fun h => h ▸ hn⟩, hnear⟩
  · intro w hw hne hle
    have hpos : 0 < key.count v := lt_of_le_of_ne (hcounts v hv).1 hne.symm
    have hnear := (hsaid v hv hne).2
    have hnear' := (hsaid w hw (by omega)).2
    rcases hle.lt_or_eq with hlt | heq
    · exact le_of_near U.graded (by omega) hnear hnear'
    · obtain ⟨hn, -⟩ := hsaid v hv hne
      obtain ⟨hn', -⟩ := hsaid w hw (by omega)
      rw [cell_encode U (hcounts v hv).2 hpos, heq] at hn
      rw [cell_encode U (hcounts w hw).2 (by omega)] at hn'
      exact (says_unique U.suffixes hn hn').le

/-- Two counts that both read as a million. -/
theorem cells_say_counts_million :
    ∃ m n, Says tableUnits.units
        (cell tableUnits .viewCount (videoRecord.codec.encode { viewCount := 999950 })) m ∧
      Says tableUnits.units
        (cell tableUnits .viewCount (videoRecord.codec.encode { viewCount := 1000000 })) n ∧
      m ≤ n := by
  have hcounts : ∀ v ∈ [{ viewCount := 999950 }, ({ viewCount := 1000000 } : Video)],
      0 ≤ SortKey.viewCount.count v ∧ SortKey.viewCount.count v < 2 ^ 53 := by decide
  obtain ⟨said, hsaid⟩ := cells_say_counts tableUnits .viewCount hcounts
  obtain ⟨-, hfirst, horder⟩ := hsaid _ List.mem_cons_self
  obtain ⟨-, hsecond, -⟩ := hsaid _ (List.mem_cons_of_mem _ List.mem_cons_self)
  exact ⟨_, _, ((hfirst (by decide)).1 _).mpr rfl, ((hsecond (by decide)).1 _).mpr rfl,
    horder _ (List.mem_cons_of_mem _ List.mem_cons_self) (by decide) (by decide)⟩

end TrendingPipeline.Frontend.Counts

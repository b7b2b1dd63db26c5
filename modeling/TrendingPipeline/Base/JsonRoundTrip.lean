/- Unit: TrendingPipeline/Base/JsonRoundTrip
   source: none (the text format of Go's encoding/json)
   digest: What Marshal writes is read back as the value it was written for. -/

import Mathlib.Data.List.TakeWhile
import TrendingPipeline.Base.JsonText
import TrendingPipeline.Base.Decimal

set_option autoImplicit false
set_option relaxedAutoImplicit false

namespace TrendingPipeline.Base.JsonRoundTrip

open TrendingPipeline.Base.Decimal (decimal decimal_negSucc decimal_ofNat isDigit_of_mem_toDigits
  minus_cons_ne_toDigits)
open TrendingPipeline.Base.JsonText

private theorem hexValue_hexDigit : ∀ n < 16, hexValue (hexDigit n) = some n := by decide

private theorem hex4_digits {n : Nat} (hn : n < 65536) :
    hex4 (hexDigit (n / 4096 % 16)) (hexDigit (n / 256 % 16)) (hexDigit (n / 16 % 16))
      (hexDigit (n % 16)) = some n := by
  have hdigit : ∀ m, hexValue (hexDigit (m % 16)) = some (m % 16) :=
    fun m => hexValue_hexDigit _ (Nat.mod_lt _ (by decide))
  have hsum : n / 4096 % 16 * 4096 + n / 256 % 16 * 256 + n / 16 % 16 * 16 + n % 16 = n := by
    omega
  simp only [hex4, hdigit, Option.bind_eq_bind, Option.bind_some, Option.pure_def, hsum]

/-- A character and the two ways a literal may spell it as one code unit. -/
inductive Spells : CodeUnit → Char → Prop
  | char (c : Char) : Spells (.char c) c
  | unit (c : Char) : Spells (.unit c.toNat) c

private theorem not_surrogate (c : Char) : isHighSurrogate c.toNat = false ∧
    isLowSurrogate c.toNat = false := by
  have hvalid := c.valid
  simp only [isHighSurrogate, isLowSurrogate, Char.toNat, Bool.and_eq_false_iff,
    decide_eq_false_iff_not]
  simp only [UInt32.isValidChar, Nat.isValidChar] at hvalid
  omega

private theorem loneUnit_toNat (c : Char) : loneUnit c.toNat = c := by
  simp [loneUnit, not_surrogate c]

private theorem pairUnits_cons {u : CodeUnit} {c : Char} (h : Spells u c) (us : List CodeUnit) :
    pairUnits (u :: us) = c :: pairUnits us := by
  cases h with
  | char => rfl
  | unit =>
      rcases us with _ | ⟨_ | _, us⟩
      · simp [pairUnits, loneUnit_toNat]
      · simp [pairUnits, loneUnit_toNat]
      · simp [pairUnits, loneUnit_toNat, not_surrogate c]

private theorem pairUnits_of_spells {us : List CodeUnit} {cs : List Char}
    (h : List.Forall₂ Spells us cs) : pairUnits us = cs := by
  induction h with
  | nil => rfl
  | cons hu _ ih => rw [pairUnits_cons hu, ih]

private theorem stringUnits_unicodeEscape {n : Nat} (hn : n < 65536) (cs : List Char) :
    stringUnits (unicodeEscape n ++ cs) =
      (stringUnits cs).map fun p => (.unit n :: p.1, p.2) := by
  simp only [unicodeEscape, List.cons_append, List.nil_append, stringUnits, hex4_digits hn]
  cases stringUnits cs <;> rfl

private theorem stringUnits_plain {c : Char} (hquote : c ≠ '"') (hslash : c ≠ '\\')
    (hcontrol : ¬ c.toNat < 32) (cs : List Char) :
    stringUnits (c :: cs) = (stringUnits cs).map fun p => (.char c :: p.1, p.2) := by
  rw [stringUnits]
  · simp only [hcontrol, hslash, or_self, if_false]
    cases stringUnits cs <;> rfl
  all_goals simp_all

private theorem stringUnits_simple {e c : Char} (h : simpleEscape e = some c) (cs : List Char) :
    stringUnits ('\\' :: e :: cs) = (stringUnits cs).map fun p => (.char c :: p.1, p.2) := by
  have hu : e ≠ 'u' := by
    rintro rfl
    cases h
  rw [stringUnits]
  · simp only [h]
    cases stringUnits cs <;> rfl
  · intro _ _ _ _ _ he
    exact absurd he hu

private theorem stringUnits_escapeChar (c : Char) (cs : List Char) :
    ∃ u, Spells u c ∧
      stringUnits (escapeChar c ++ cs) = (stringUnits cs).map fun p => (u :: p.1, p.2) := by
  -- every two-character escape is the inverse of one row of `simpleEscape`
  have hsimple : ∀ e, simpleEscape e = some c →
      ∃ u, Spells u c ∧ stringUnits (['\\', e] ++ cs) =
        (stringUnits cs).map fun p => (u :: p.1, p.2) :=
    fun e he => ⟨_, .char c, stringUnits_simple he cs⟩
  have hcode : ∀ n, c.toNat = n → some (Char.ofNat n) = some c := by
    rintro n rfl
    rw [Char.ofNat_toNat]
  unfold escapeChar
  split
  next h => exact hsimple _ (by rw [h]; rfl)
  split
  next h => exact hsimple _ (by rw [h]; rfl)
  split
  next h => exact hsimple _ (hcode 8 h)
  split
  next h => exact hsimple _ (hcode 9 h)
  split
  next h => exact hsimple _ (hcode 10 h)
  split
  next h => exact hsimple _ (hcode 12 h)
  split
  next h => exact hsimple _ (hcode 13 h)
  split
  next h =>
    refine ⟨_, .unit c, stringUnits_unicodeEscape ?_ cs⟩
    simp only [needsUnicodeEscape, Bool.or_eq_true, decide_eq_true_eq] at h
    rcases h with ((((h | rfl) | rfl) | rfl) | h) | h
    · omega
    · decide
    · decide
    · decide
    · omega
    · omega
  next hquote hslash _ _ _ _ _ h =>
    refine ⟨_, .char c, stringUnits_plain hquote hslash ?_ cs⟩
    intro hlt
    simp [needsUnicodeEscape, hlt] at h

private theorem stringUnits_escaped (cs rest : List Char) :
    ∃ us, List.Forall₂ Spells us cs ∧
      stringUnits (cs.flatMap escapeChar ++ '"' :: rest) = some (us, rest) := by
  induction cs with
  | nil => exact ⟨[], .nil, rfl⟩
  | cons c cs ih =>
      obtain ⟨us, hus, htail⟩ := ih
      obtain ⟨u, hu, hhead⟩ := stringUnits_escapeChar c (cs.flatMap escapeChar ++ '"' :: rest)
      refine ⟨u :: us, .cons hu hus, ?_⟩
      rw [List.flatMap_cons, List.append_assoc, hhead, htail]
      rfl

private theorem stringBody_renderString (s : String) (rest : List Char) :
    stringBody (s.toList.flatMap escapeChar ++ '"' :: rest) = some (s, rest) := by
  obtain ⟨us, hus, hunits⟩ := stringUnits_escaped s.toList rest
  simp only [stringBody, hunits, Option.map_some, pairUnits_of_spells hus, String.ofList_toList]

structure Literal (cs : List Char) : Prop where
  valid : validNumber cs = true
  chars : ∀ c ∈ cs, isNumberChar c = true

def Stops (rest : List Char) : Prop := ∀ c ∈ rest.head?, isNumberChar c = false

private theorem takeWhile_literal {cs rest : List Char} (hcs : Literal cs) (hrest : Stops rest) :
    (cs ++ rest).takeWhile isNumberChar = cs ∧ (cs ++ rest).dropWhile isNumberChar = rest := by
  have hstop : rest.takeWhile isNumberChar = [] ∧ rest.dropWhile isNumberChar = rest := by
    cases rest with
    | nil => exact ⟨rfl, rfl⟩
    | cons c rest =>
        have hc := hrest c rfl
        simp [hc]
  rw [List.takeWhile_append_of_pos hcs.chars, List.dropWhile_append_of_pos hcs.chars, hstop.1,
    hstop.2, List.append_nil]
  exact ⟨rfl, rfl⟩

private theorem toDigits_head {n : Nat} (hn : 0 < n) :
    ∃ c cs, Nat.toDigits 10 n = c :: cs ∧ c ≠ '0' := by
  induction n using Nat.strongRecOn with
  | ind n ih =>
      rcases Nat.lt_or_ge n 10 with hlt | hge
      · have hdigit : ∀ m < 10, 0 < m → Nat.digitChar m ≠ '0' := by decide
        exact ⟨_, [], Nat.toDigits_of_lt_base hlt, hdigit n hlt hn⟩
      · obtain ⟨c, cs, hcs, hc⟩ := ih (n / 10) (by omega) (by omega)
        rw [Nat.toDigits_of_base_le (by decide) hge, hcs]
        exact ⟨c, _, rfl, hc⟩

private theorem validUnsigned_toDigits (n : Nat) : validUnsigned (Nat.toDigits 10 n) = true := by
  rcases Nat.eq_zero_or_pos n with rfl | hpos
  · rfl
  · obtain ⟨c, cs, hcs, hc⟩ := toDigits_head hpos
    have hdigits : ∀ x ∈ c :: cs, x.isDigit = true := fun x hx =>
      isDigit_of_mem_toDigits (hcs ▸ hx)
    have hdrop : cs.dropWhile Char.isDigit = [] :=
      List.dropWhile_eq_nil_iff.mpr fun x hx => hdigits x (List.mem_cons_of_mem c hx)
    rw [hcs, validUnsigned, hdrop, hdigits c List.mem_cons_self]
    · rfl
    · exact fun h => hc h

private theorem isNumberChar_of_isDigit {c : Char} (h : c.isDigit = true) :
    isNumberChar c = true := by
  simp [isNumberChar, h]

theorem literal_decimal (n : Int) : Literal (decimal n) := by
  cases n with
  | ofNat n =>
      have hdigits : ∀ c ∈ Nat.toDigits 10 n, c.isDigit = true :=
        fun c hc => isDigit_of_mem_toDigits hc
      have hvalid : validNumber (Nat.toDigits 10 n) = true := by
        rw [validNumber]
        · exact validUnsigned_toDigits n
        · intro cs hcs
          exact minus_cons_ne_toDigits cs n hcs.symm
      rw [Int.ofNat_eq_natCast, decimal_ofNat]
      exact ⟨hvalid, fun c hc => isNumberChar_of_isDigit (hdigits c hc)⟩
  | negSucc n =>
      rw [decimal_negSucc]
      refine ⟨validUnsigned_toDigits (n + 1), ?_⟩
      intro c hc
      rcases List.mem_cons.mp hc with rfl | hc
      · rfl
      · exact isNumberChar_of_isDigit (isDigit_of_mem_toDigits hc)

/-- Values that open at most so many nested levels and whose numbers are literals. -/
def Fits : Nat → Json → Prop
  | _, .num literal => Literal literal
  | 0, .arr _ => False
  | 0, .obj _ => False
  | depth + 1, .arr vs => ∀ v ∈ vs, Fits depth v
  | depth + 1, .obj ms => ∀ m ∈ ms, Fits depth m.2
  | _, _ => True

/-- A reader of values that reads back one value, whatever text follows it. -/
def Reads (item : List Char → Option (Json × List Char)) (v : Json) : Prop :=
  ∀ rest, Stops rest → item (render v ++ rest) = some (v, rest)

private theorem skipSpace_cons {c : Char} (h : isSpace c = false) (cs : List Char) :
    skipSpace (c :: cs) = c :: cs := by
  simp [skipSpace, h]

theorem Literal.head {cs : List Char} (h : Literal cs) :
    ∃ c ds, cs = c :: ds ∧ (c.isDigit = true ∨ c = '-') := by
  rcases cs with _ | ⟨c, ds⟩
  · cases h.valid
  · refine ⟨c, ds, rfl, ?_⟩
    by_cases hminus : c = '-'
    · exact .inr hminus
    · have hvalid := h.valid
      rw [validNumber] at hvalid
      · by_cases hzero : c = '0'
        · rw [hzero]
          exact .inl rfl
        · rw [validUnsigned] at hvalid
          · exact .inl (Bool.and_eq_true_iff.mp hvalid).1
          · exact hzero
      · rintro cs hcs
        exact hminus (List.cons.inj hcs).1

private theorem Literal.head_ne {c d : Char} {cs : List Char} (h : Literal (c :: cs))
    (hd : d.isDigit = false) (hminus : d ≠ '-') : c ≠ d := by
  rintro rfl
  obtain ⟨_, _, hcs, hc⟩ := h.head
  obtain rfl := (List.cons.inj hcs).1
  rcases hc with hc | hc
  · rw [hc] at hd
    cases hd
  · exact hminus hc

private theorem Literal.head_not_space {c : Char} {cs : List Char} (h : Literal (c :: cs)) :
    isSpace c = false := by
  have hspace : c ≠ ' ' := h.head_ne (by decide) (by decide)
  have htab : c ≠ '\t' := h.head_ne (by decide) (by decide)
  have hnewline : c ≠ '\n' := h.head_ne (by decide) (by decide)
  have hreturn : c ≠ '\r' := h.head_ne (by decide) (by decide)
  simp [isSpace, hspace, htab, hnewline, hreturn]

private theorem scalar_literal {cs rest : List Char} (h : Literal cs) (hrest : Stops rest) :
    scalar (cs ++ rest) = some (.num cs, rest) := by
  obtain ⟨htake, hdrop⟩ := takeWhile_literal h hrest
  obtain ⟨c, ds, rfl, -⟩ := h.head
  rw [List.cons_append] at *
  rw [scalar]
  · rw [htake, hdrop, h.valid]
    rfl
  -- a number starts like no other value
  all_goals
    intro _ heq
    exact h.head_ne (by decide) (by decide) (List.cons.inj heq).1

private theorem render_head {depth : Nat} {v : Json} (h : Fits depth v) :
    ∃ c cs, render v = c :: cs ∧ isSpace c = false ∧ c ≠ ']' ∧ c ≠ '}' := by
  cases v with
  | null => exact ⟨'n', _, rfl, by decide⟩
  | bool b => cases b with
    | true => exact ⟨'t', _, rfl, by decide⟩
    | false => exact ⟨'f', _, rfl, by decide⟩
  | num literal =>
      have hlit : Literal literal := by
        cases depth <;> exact h
      obtain ⟨c, cs, rfl, -⟩ := hlit.head
      exact ⟨c, cs, by rw [render], hlit.head_not_space, hlit.head_ne (by decide) (by decide),
        hlit.head_ne (by decide) (by decide)⟩
  | str s => exact ⟨'"', _, rfl, by decide⟩
  | arr vs => cases vs with
    | nil => exact ⟨'[', _, rfl, by decide⟩
    | cons v vs => exact ⟨'[', _, rfl, by decide⟩
  | obj ms => cases ms with
    | nil => exact ⟨'{', _, rfl, by decide⟩
    | cons m ms => exact ⟨'{', _, rfl, by decide⟩

private theorem stops_renderItems (vs : List Json) (rest : List Char) :
    Stops (renderItems vs ++ rest) := by
  cases vs with
  | nil => simp [Stops, renderItems, isNumberChar]
  | cons v vs => simp [Stops, renderItems, isNumberChar]

private theorem stops_renderMembers (ms : List (String × Json)) (rest : List Char) :
    Stops (renderMembers ms ++ rest) := by
  cases ms with
  | nil => simp [Stops, renderMembers, isNumberChar]
  | cons m ms => simp [Stops, renderMembers, isNumberChar]

private theorem items_render {item : List Char → Option (Json × List Char)} {v : Json}
    {vs : List Json}
    (h : ∀ w ∈ v :: vs, Reads item w) (fuel : Nat) (hfuel : vs.length < fuel)
    (rest : List Char) :
    items item fuel (render v ++ (renderItems vs ++ rest)) = some (v :: vs, rest) := by
  induction vs generalizing v fuel with
  | nil =>
      obtain ⟨fuel, rfl⟩ : ∃ m, fuel = m + 1 := ⟨fuel - 1, by omega⟩
      have hv := h v List.mem_cons_self _ (stops_renderItems [] rest)
      rw [items, hv]
      rfl
  | cons w vs ih =>
      obtain ⟨fuel, rfl⟩ : ∃ m, fuel = m + 1 := ⟨fuel - 1, by omega⟩
      have hv := h v List.mem_cons_self _ (stops_renderItems (w :: vs) rest)
      have htail := ih (fun x hx => h x (List.mem_cons_of_mem v hx)) fuel
        (by simpa using hfuel)
      rw [items, hv, renderItems, List.cons_append, List.append_assoc]
      simp only [Option.bind_eq_bind, Option.bind_some, skipSpace_cons (show isSpace ',' = false by
        decide), htail, Option.pure_def]

private theorem renderString_append (s : String) (rest : List Char) :
    renderString s ++ rest = '"' :: (s.toList.flatMap escapeChar ++ '"' :: rest) := by
  simp [renderString]

private theorem members_render {item : List Char → Option (Json × List Char)} {m : String × Json}
    {ms : List (String × Json)} (h : ∀ w ∈ m :: ms, Reads item w.2) (fuel : Nat)
    (hfuel : ms.length < fuel) (rest : List Char) :
    members item fuel (renderString m.1 ++ ':' :: (render m.2 ++ (renderMembers ms ++ rest))) =
      some (m :: ms, rest) := by
  have hquote : isSpace '"' = false := by decide
  have hcolon : isSpace ':' = false := by decide
  have hcomma : isSpace ',' = false := by decide
  induction ms generalizing m fuel with
  | nil =>
      obtain ⟨fuel, rfl⟩ : ∃ n, fuel = n + 1 := ⟨fuel - 1, by omega⟩
      have hv := h m List.mem_cons_self _ (stops_renderMembers [] rest)
      rw [renderString_append, members, skipSpace_cons hquote]
      simp only [stringBody_renderString, Option.bind_eq_bind, Option.bind_some,
        skipSpace_cons hcolon, hv]
      rfl
  | cons w ms ih =>
      obtain ⟨fuel, rfl⟩ : ∃ n, fuel = n + 1 := ⟨fuel - 1, by omega⟩
      have hv := h m List.mem_cons_self _ (stops_renderMembers (w :: ms) rest)
      have htail := ih (fun x hx => h x (List.mem_cons_of_mem m hx)) fuel (by simpa using hfuel)
      rw [renderString_append, members, skipSpace_cons hquote]
      simp only [stringBody_renderString, Option.bind_eq_bind, Option.bind_some,
        skipSpace_cons hcolon, hv]
      simp only [renderMembers, List.cons_append, List.append_assoc, skipSpace_cons hcomma, htail,
        Option.bind_some, Option.pure_def]

private theorem length_renderItems (vs : List Json) : vs.length < (renderItems vs).length := by
  induction vs with
  | nil => simp [renderItems]
  | cons v vs ih =>
      simp only [renderItems, List.length_cons, List.length_append]
      omega

private theorem length_renderMembers (ms : List (String × Json)) :
    ms.length < (renderMembers ms).length := by
  induction ms with
  | nil => simp [renderMembers]
  | cons m ms ih =>
      simp only [renderMembers, List.length_cons, List.length_append]
      omega

/-- A value that is neither an array nor an object is read as a scalar at any depth. -/
private theorem value_scalar {depth : Nat} {c : Char} (hspace : isSpace c = false)
    (hbracket : c ≠ '[')
    (hbrace : c ≠ '{') (cs : List Char) : value depth (c :: cs) = scalar (c :: cs) := by
  cases depth with
  | zero => rw [value, skipSpace_cons hspace]
  | succ depth =>
      rw [value, skipSpace_cons hspace]
      split
      · next heq => exact absurd (List.cons.inj heq).1 hbracket
      · next heq => exact absurd (List.cons.inj heq).1 hbrace
      · rfl

def IsScalar : Json → Prop
  | .arr _ | .obj _ => False
  | _ => True

private theorem value_render_scalar {depth : Nat} {v : Json} (hv : IsScalar v) (h : Fits depth v) :
    Reads (value depth) v := by
  intro rest hrest
  cases v with
  | null => exact value_scalar (by decide) (by decide) (by decide) _
  | bool b => cases b with
    | true => exact value_scalar (by decide) (by decide) (by decide) _
    | false => exact value_scalar (by decide) (by decide) (by decide) _
  | num literal =>
      have hlit : Literal literal := by
        cases depth <;> exact h
      have hscalar := scalar_literal hlit hrest
      obtain ⟨c, cs, rfl, -⟩ := hlit.head
      rw [render, List.cons_append, value_scalar hlit.head_not_space
        (hlit.head_ne (by decide) (by decide)) (hlit.head_ne (by decide) (by decide))]
      exact hscalar
  | str s =>
      rw [render, renderString_append, value_scalar (by decide) (by decide) (by decide), scalar,
        stringBody_renderString]
      rfl
  | arr vs => exact hv.elim
  | obj ms => exact hv.elim

private theorem value_render_arr {depth : Nat} {vs : List Json} (h : ∀ v ∈ vs, Fits depth v)
    (hreads : ∀ v ∈ vs, Reads (value depth) v) : Reads (value (depth + 1)) (.arr vs) := by
  intro rest _
  have hopen : isSpace '[' = false := by decide
  have hclose : isSpace ']' = false := by decide
  cases vs with
  | nil =>
      simp only [render, List.cons_append, List.nil_append, value, skipSpace_cons hopen,
        skipSpace_cons hclose]
  | cons v vs =>
      obtain ⟨c, cs, hcs, hspace, hbracket, -⟩ := render_head (h v List.mem_cons_self)
      have hlen := length_renderItems vs
      have hitems := items_render hreads (render v ++ (renderItems vs ++ rest)).length
        (by simp only [List.length_append]; omega) rest
      simp only [render, List.cons_append, List.append_assoc, value, skipSpace_cons hopen]
      rw [hcs, List.cons_append] at hitems ⊢
      rw [skipSpace_cons hspace]
      split
      · next heq => exact absurd (List.cons.inj heq).1 hbracket
      · rw [hitems]
        rfl

private theorem value_render_obj {depth : Nat} {ms : List (String × Json)}
    (hreads : ∀ m ∈ ms, Reads (value depth) m.2) : Reads (value (depth + 1)) (.obj ms) := by
  intro rest _
  have hopen : isSpace '{' = false := by decide
  have hclose : isSpace '}' = false := by decide
  have hquote : isSpace '"' = false := by decide
  cases ms with
  | nil =>
      simp only [render, List.cons_append, List.nil_append, value, skipSpace_cons hopen,
        skipSpace_cons hclose]
  | cons m ms =>
      have hlen := length_renderMembers ms
      have hmembers := members_render hreads
        (renderString m.1 ++ ':' :: (render m.2 ++ (renderMembers ms ++ rest))).length
        (by simp only [List.length_append, List.length_cons]; omega) rest
      simp only [render, List.cons_append, List.append_assoc, value, skipSpace_cons hopen]
      rw [renderString_append] at hmembers ⊢
      rw [skipSpace_cons hquote]
      split
      · next heq => exact absurd (List.cons.inj heq).1 (by decide)
      · rw [hmembers]
        rfl

private theorem value_render {depth : Nat} {v : Json} (h : Fits depth v) : Reads
    (value depth) v := by
  induction depth generalizing v with
  | zero =>
      cases v with
      | arr vs => exact h.elim
      | obj ms => exact h.elim
      | _ => exact value_render_scalar trivial h
  | succ depth ih =>
      cases v with
      | arr vs => exact value_render_arr h fun v hv => ih (h v hv)
      | obj ms => exact value_render_obj fun m hm => ih (h m hm)
      | _ => exact value_render_scalar trivial h

theorem Fits.succ {depth : Nat} {v : Json} (h : Fits depth v) : Fits (depth + 1) v := by
  induction depth generalizing v with
  | zero =>
      cases v with
      | arr vs => exact h.elim
      | obj ms => exact h.elim
      | num literal => exact h
      | _ => trivial
  | succ depth ih =>
      cases v with
      | arr vs => exact fun v hv => ih (h v hv)
      | obj ms => exact fun m hm => ih (h m hm)
      | num literal => exact h
      | _ => trivial

theorem Fits.mono {m n : Nat} {v : Json} (h : Fits m v) (hmn : m ≤ n) : Fits n v := by
  induction hmn with
  | refl => exact h
  | step _ ih => exact ih.succ

theorem parse_render {v : Json} (h : Fits maxNestingDepth v) :
    parse (String.ofList (render v)) = some v := by
  have hvalue := value_render h [] (by simp [Stops])
  rw [List.append_nil] at hvalue
  simp [parse, String.toList_ofList, hvalue, skipSpace]

theorem decodeFirst_render {v : Json} (h : Fits maxNestingDepth v) :
    decodeFirst (String.ofList (render v)) = some v := by
  have hvalue := value_render h [] (by simp [Stops])
  rw [List.append_nil] at hvalue
  simp [decodeFirst, String.toList_ofList, hvalue]

def Unbroken (cs : List Char) : Prop := ∀ c ∈ cs, c ≠ '\n' ∧ c ≠ '\r'

instance unbroken_decidable (cs : List Char) : Decidable (Unbroken cs) := List.decidableBAll _ cs

theorem Unbroken.append {cs ds : List Char} (hcs : Unbroken cs) (hds : Unbroken ds) :
    Unbroken (cs ++ ds) := by
  intro c hc
  exact (List.mem_append.mp hc).elim (hcs c) (hds c)

theorem Unbroken.cons {c : Char} {cs : List Char} (hc : c ≠ '\n' ∧ c ≠ '\r') (hcs : Unbroken cs) :
    Unbroken (c :: cs) := by
  intro d hd
  rcases List.mem_cons.mp hd with rfl | hd
  · exact hc
  · exact hcs d hd

private theorem unbroken_escapeChar (c : Char) : Unbroken (escapeChar c) := by
  have hdigit : ∀ n < 16, hexDigit n ≠ '\n' ∧ hexDigit n ≠ '\r' := by decide
  have hescape : ∀ n, Unbroken (unicodeEscape n) := by
    intro n d hd
    simp only [unicodeEscape, List.mem_cons, List.not_mem_nil, or_false] at hd
    rcases hd with rfl | rfl | rfl | rfl | rfl | rfl
    · decide
    · decide
    all_goals exact hdigit _ (Nat.mod_lt _ (by decide))
  have hpair : ∀ e, e ≠ '\n' ∧ e ≠ '\r' → Unbroken ['\\', e] := fun e he =>
    .cons (by decide) (.cons he fun _ hd => absurd hd List.not_mem_nil)
  unfold escapeChar
  iterate 7
    split
    · exact hpair _ (by decide)
  split
  · exact hescape _
  · next hplain =>
      -- the controls have an escape
      intro d hd
      obtain rfl := List.mem_singleton.mp hd
      constructor
      · rintro rfl
        exact absurd rfl hplain
      · rintro rfl
        exact absurd rfl hplain

private theorem unbroken_renderString (s : String) : Unbroken (renderString s) := by
  have hescaped : Unbroken (s.toList.flatMap escapeChar) := by
    intro c hc
    obtain ⟨d, -, hd⟩ := List.mem_flatMap.mp hc
    exact unbroken_escapeChar d c hd
  have hquote : Unbroken ['"'] := .cons (by decide) fun _ hd => absurd hd List.not_mem_nil
  exact .append (.cons (by decide) hescaped) hquote

private theorem unbroken_renderItems {vs : List Json} (h : ∀ v ∈ vs, Unbroken (render v)) :
    Unbroken (renderItems vs) := by
  induction vs with
  | nil => exact .cons (by decide) fun _ hd => absurd hd List.not_mem_nil
  | cons v vs ih =>
      obtain ⟨hv, hvs⟩ := List.forall_mem_cons.mp h
      rw [renderItems]
      exact .cons (by decide) (hv.append (ih hvs))

private theorem unbroken_renderMembers {ms : List (String × Json)}
    (h : ∀ m ∈ ms, Unbroken (render m.2)) :
    Unbroken (renderMembers ms) := by
  induction ms with
  | nil => exact .cons (by decide) fun _ hd => absurd hd List.not_mem_nil
  | cons m ms ih =>
      obtain ⟨hm, hms⟩ := List.forall_mem_cons.mp h
      rw [renderMembers]
      exact .cons (by decide)
        ((unbroken_renderString m.1).append (.cons (by decide) (hm.append (ih hms))))

private theorem unbroken_render_scalar {depth : Nat} {v : Json} (hv : IsScalar v)
    (h : Fits depth v) :
    Unbroken (render v) := by
  have hword : Unbroken "null".toList ∧ Unbroken "true".toList ∧ Unbroken "false".toList := by
    decide
  cases v with
  | null => exact hword.1
  | bool b => cases b with
    | true => exact hword.2.1
    | false => exact hword.2.2
  | num literal =>
      have hlit : Literal literal := by
        cases depth <;> exact h
      intro c hc
      rw [render] at hc
      have hnumber := hlit.chars c hc
      constructor
      · rintro rfl
        exact absurd hnumber (by decide)
      · rintro rfl
        exact absurd hnumber (by decide)
  | str s =>
      rw [render]
      exact unbroken_renderString s
  | arr vs => exact hv.elim
  | obj ms => exact hv.elim

theorem unbroken_render {depth : Nat} {v : Json} (h : Fits depth v) : Unbroken (render v) := by
  have hclosed : ∀ c, c ≠ '\n' ∧ c ≠ '\r' → Unbroken [c] :=
    fun c hc => .cons hc fun _ hd => absurd hd List.not_mem_nil
  induction depth generalizing v with
  | zero =>
      cases v with
      | arr vs => exact h.elim
      | obj ms => exact h.elim
      | _ => exact unbroken_render_scalar trivial h
  | succ depth ih =>
      cases v with
      | arr vs =>
          cases vs with
          | nil =>
              rw [render]
              exact .cons (by decide) (hclosed _ (by decide))
          | cons v vs =>
              obtain ⟨hv, hvs⟩ := List.forall_mem_cons.mp h
              rw [render]
              exact .cons (by decide)
                ((ih hv).append (unbroken_renderItems fun w hw => ih (hvs w hw)))
      | obj ms =>
          cases ms with
          | nil =>
              rw [render]
              exact .cons (by decide) (hclosed _ (by decide))
          | cons m ms =>
              obtain ⟨hm, hms⟩ := List.forall_mem_cons.mp h
              rw [render]
              exact .cons (by decide) ((unbroken_renderString m.1).append
                (.cons (by decide)
                  ((ih hm).append (unbroken_renderMembers fun w hw => ih (hms w hw)))))
      | _ => exact unbroken_render_scalar trivial h

end TrendingPipeline.Base.JsonRoundTrip

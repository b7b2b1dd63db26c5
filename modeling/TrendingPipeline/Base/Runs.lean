/- Unit: TrendingPipeline/Base/Runs
   source: none (general)
   digest: Partial labelled steps, their finite runs, and the induction rules over runs. -/

import Mathlib.Logic.Relation

/-!
A step is a partial function of a state and a labelled action, so a run is a list of
actions and can be computed. The rules here lift what one step keeps to whole runs: to
every reachable state, along one given run, and, when a condition tells for each step
whether it keeps a property, to the runs that keep it throughout.
-/

set_option autoImplicit false
set_option relaxedAutoImplicit false

namespace TrendingPipeline.Base.Runs

open Relation (ReflTransGen)

universe u v

variable {σ : Type u} {α : Type v}

/-- One step under some action that `ok` lets the environment choose. The step
function answers `none` where the action is not enabled. -/
def Next (step : σ → α → Option σ) (ok : σ → α → Prop) (s t : σ) : Prop :=
  ∃ a, ok s a ∧ step s a = some t

def Reachable (init : σ → Prop) (step : σ → α → Option σ) (ok : σ → α → Prop) (s : σ) : Prop :=
  ∃ s₀, init s₀ ∧ ReflTransGen (Next step ok) s₀ s

/-- Perform the listed actions in order; `none` as soon as one is not enabled. -/
def run (step : σ → α → Option σ) : σ → List α → Option σ
  | s, [] => some s
  | s, a :: as => (step s a).bind fun t => run step t as

/-- Every action of the run meets `cond` in the state it is taken from. -/
def Meets (step : σ → α → Option σ) (cond : σ → α → Prop) : σ → List α → Prop
  | _, [] => True
  | s, a :: as => cond s a ∧ (step s a).elim True fun t => Meets step cond t as

/-- `P` holds in every state of the run. -/
def Always (step : σ → α → Option σ) (P : σ → Prop) : σ → List α → Prop
  | s, [] => P s
  | s, a :: as => P s ∧ (step s a).elim True fun t => Always step P t as

instance meetsDecidable (step : σ → α → Option σ) (cond : σ → α → Prop)
    [∀ s a, Decidable (cond s a)] : ∀ s as, Decidable (Meets step cond s as)
  | _, [] => inferInstanceAs (Decidable True)
  | s, a :: as =>
    match h : step s a with
    | none => decidable_of_iff (cond s a) (by simp [Meets, h])
    | some t =>
      have := meetsDecidable step cond t as
      decidable_of_iff (cond s a ∧ Meets step cond t as) (by simp [Meets, h])

variable {step : σ → α → Option σ} {ok cond : σ → α → Prop} {init : σ → Prop}

theorem run_cons_eq_some {s t : σ} {a : α} {as : List α} :
    run step s (a :: as) = some t ↔ ∃ m, step s a = some m ∧ run step m as = some t := by
  simp [run, Option.bind_eq_some_iff]

theorem run_eq_getD {s : σ} {as : List α} (h : (run step s as).isSome = true) (d : σ) :
    run step s as = some ((run step s as).getD d) := by
  obtain ⟨t, ht⟩ := Option.isSome_iff_exists.mp h
  rw [ht, Option.getD_some]

theorem meets_cons {s m : σ} {a : α} {as : List α} (hstep : step s a = some m) :
    Meets step cond s (a :: as) ↔ cond s a ∧ Meets step cond m as := by
  simp [Meets, hstep]

theorem meets_true (s : σ) (as : List α) : Meets step (fun _ _ => True) s as := by
  induction as generalizing s with
  | nil => trivial
  | cons a as ih =>
      refine ⟨trivial, ?_⟩
      cases step s a with
      | none => trivial
      | some m => exact ih m

theorem meets_mono {cond' : σ → α → Prop} (himp : ∀ s a, cond s a → cond' s a) {s : σ}
    {as : List α} (h : Meets step cond s as) : Meets step cond' s as := by
  induction as generalizing s with
  | nil => trivial
  | cons a as ih =>
      refine ⟨himp s a h.1, ?_⟩
      cases hst : step s a with
      | none => trivial
      | some m => exact ih ((meets_cons hst).mp h).2

theorem meets_and {cond' : σ → α → Prop} {s : σ} {as : List α} (h : Meets step cond s as)
    (h' : Meets step cond' s as) : Meets step (fun s a => cond s a ∧ cond' s a) s as := by
  induction as generalizing s with
  | nil => trivial
  | cons a as ih =>
      refine ⟨⟨h.1, h'.1⟩, ?_⟩
      cases hst : step s a with
      | none => trivial
      | some m => exact ih ((meets_cons hst).mp h).2 ((meets_cons hst).mp h').2

/-- What holds at every step from a state with the invariant holds along every run. -/
theorem meets_of_invariant {I : σ → Prop} (hstep : ∀ s a t, I s → step s a = some t → I t)
    (hcond : ∀ s a, I s → cond s a) {s : σ} (hI : I s) (as : List α) : Meets step cond s as := by
  induction as generalizing s with
  | nil => trivial
  | cons a as ih =>
      refine ⟨hcond s a hI, ?_⟩
      cases hst : step s a with
      | none => trivial
      | some m => exact ih (hstep s a m hI hst)

theorem meets_congr {cond' : σ → α → Prop} {s : σ} {as : List α}
    (h : Meets step (fun s a => cond s a ↔ cond' s a) s as) :
    Meets step cond s as ↔ Meets step cond' s as := by
  constructor
  · exact fun hcond => meets_mono (fun _ _ hboth => hboth.1.mp hboth.2) (meets_and h hcond)
  · exact fun hcond => meets_mono (fun _ _ hboth => hboth.1.mpr hboth.2) (meets_and h hcond)

theorem run_append {s m : σ} {as bs : List α} (hrun : run step s as = some m) :
    run step s (as ++ bs) = run step m bs := by
  induction as generalizing s with
  | nil =>
      obtain rfl := Option.some.inj hrun
      rfl
  | cons a as ih =>
      obtain ⟨n, hstep, hrest⟩ := run_cons_eq_some.mp hrun
      rw [List.cons_append, run, hstep, Option.bind_some]
      exact ih hrest

theorem meets_append {s m : σ} {as bs : List α} (hrun : run step s as = some m)
    (h : Meets step cond s as) (h' : Meets step cond m bs) : Meets step cond s (as ++ bs) := by
  induction as generalizing s with
  | nil =>
      obtain rfl := Option.some.inj hrun
      exact h'
  | cons a as ih =>
      obtain ⟨n, hstep, hrest⟩ := run_cons_eq_some.mp hrun
      obtain ⟨ha, has⟩ := (meets_cons hstep).mp h
      exact (meets_cons hstep).mpr ⟨ha, ih hrest has⟩

theorem path_of_run {s t : σ} {as : List α} (hrun : run step s as = some t)
    (hok : Meets step ok s as) : ReflTransGen (Next step ok) s t := by
  induction as generalizing s with
  | nil =>
      obtain rfl := Option.some.inj hrun
      exact .refl
  | cons a as ih =>
      obtain ⟨m, hstep, hrest⟩ := run_cons_eq_some.mp hrun
      obtain ⟨ha, has⟩ := (meets_cons hstep).mp hok
      exact .head ⟨a, ha, hstep⟩ (ih hrest has)

theorem Reachable.of_run {s t : σ} {as : List α} (hinit : init s)
    (hrun : run step s as = some t) (hok : Meets step ok s as) : Reachable init step ok t :=
  ⟨s, hinit, path_of_run hrun hok⟩

theorem Reachable.next {s t : σ} {a : α} (h : Reachable init step ok s) (ha : ok s a)
    (hstep : step s a = some t) : Reachable init step ok t := by
  obtain ⟨s₀, h₀, hpath⟩ := h
  exact ⟨s₀, h₀, hpath.tail ⟨a, ha, hstep⟩⟩

theorem Reachable.path {s t : σ} (h : Reachable init step ok s)
    (hpath : ReflTransGen (Next step ok) s t) : Reachable init step ok t := by
  obtain ⟨s₀, h₀, hpre⟩ := h
  exact ⟨s₀, h₀, hpre.trans hpath⟩

theorem Reachable.mono {ok' : σ → α → Prop} (himp : ∀ s a, ok s a → ok' s a) {s : σ}
    (h : Reachable init step ok s) : Reachable init step ok' s := by
  obtain ⟨s₀, h₀, hpath⟩ := h
  refine ⟨s₀, h₀, ReflTransGen.mono ?_ _ _ hpath⟩
  rintro x y ⟨a, ha, hstep⟩
  exact ⟨a, himp x a ha, hstep⟩

/-- What holds initially and is preserved by every allowed step holds wherever
the system can get. -/
theorem Reachable.invariant {I : σ → Prop} (hinit : ∀ s, init s → I s)
    (hstep : ∀ s a t, I s → ok s a → step s a = some t → I t) {s : σ}
    (h : Reachable init step ok s) : I s := by
  obtain ⟨s₀, h₀, hpath⟩ := h
  induction hpath with
  | refl => exact hinit _ h₀
  | tail _ hnext ih =>
      obtain ⟨a, ha, hst⟩ := hnext
      exact hstep _ _ _ ih ha hst

/-- From a reachable state on, what every allowed step between reachable states
preserves stays. -/
theorem Reachable.stays {P : σ → Prop} {s t : σ} (h : Reachable init step ok s)
    (hstep : ∀ s a t, Reachable init step ok s → P s → ok s a → step s a = some t → P t)
    (hP : P s) (hpath : ReflTransGen (Next step ok) s t) : P t := by
  induction hpath with
  | refl => exact hP
  | tail hpre hnext ih =>
      obtain ⟨a, ha, hst⟩ := hnext
      exact hstep _ _ _ (h.path hpre) ih ha hst

theorem run_invariant {I : σ → Prop}
    (hstep : ∀ s a t, I s → cond s a → step s a = some t → I t) {s t : σ} {as : List α}
    (hI : I s) (hmeets : Meets step cond s as) (hrun : run step s as = some t) : I t := by
  induction as generalizing s with
  | nil =>
      obtain rfl := Option.some.inj hrun
      exact hI
  | cons a as ih =>
      obtain ⟨m, hst, hrest⟩ := run_cons_eq_some.mp hrun
      obtain ⟨ha, has⟩ := (meets_cons hst).mp hmeets
      exact ih (hstep s a m hI ha hst) has hrest

/-- If the first step that misses `cond` spoils the run, and nothing repairs a
spoilt run, then every run with such a step ends spoilt. -/
theorem spoilt_of_not_meets {I B : σ → Prop}
    (hstep : ∀ s a t, I s → ok s a → cond s a → step s a = some t → I t)
    (hspoil : ∀ s a t, I s → ok s a → ¬ cond s a → step s a = some t → B t)
    (hbad : ∀ s a t, B s → ok s a → step s a = some t → B t) {s t : σ} {as : List α}
    (hI : I s) (hok : Meets step ok s as) (hrun : run step s as = some t)
    (hmiss : ¬ Meets step cond s as) : B t := by
  induction as generalizing s with
  | nil => exact absurd trivial hmiss
  | cons a as ih =>
      obtain ⟨m, hst, hrest⟩ := run_cons_eq_some.mp hrun
      obtain ⟨ha, has⟩ := (meets_cons hst).mp hok
      by_cases hc : cond s a
      · refine ih (hstep s a m hI ha hc hst) has hrest fun hmeets => hmiss ?_
        exact (meets_cons hst).mpr ⟨hc, hmeets⟩
      · exact run_invariant hbad (hspoil s a m hI ha hc hst) has hrest

theorem run_simulated {σ' α' : Type*} {step' : σ' → α' → Option σ'} {R : σ → σ' → Prop}
    (f : α → Option α')
    (hstep : ∀ s a t s', R s s' → step s a = some t →
      ∃ t', run step' s' (f a).toList = some t' ∧ R t t') {s t : σ} {s' : σ'} {as : List α}
    (hR : R s s') (hrun : run step s as = some t) :
    ∃ t', run step' s' (as.filterMap f) = some t' ∧ R t t' := by
  induction as generalizing s s' with
  | nil =>
      obtain rfl := Option.some.inj hrun
      exact ⟨s', rfl, hR⟩
  | cons a as ih =>
      obtain ⟨m, hst, hrest⟩ := run_cons_eq_some.mp hrun
      obtain ⟨m', hm', hRm⟩ := hstep s a m s' hR hst
      obtain ⟨t', ht', hRt⟩ := ih hRm hrest
      refine ⟨t', ?_, hRt⟩
      have hsplit : (a :: as).filterMap f = (f a).toList ++ as.filterMap f := by
        rw [List.filterMap_cons]
        cases f a <;> rfl
      rw [hsplit, run_append hm']
      exact ht'

/-- What certain steps bring about and no step undoes holds at the end of every run with
such a step. -/
theorem run_once {I P : σ → Prop} {brings : α → Prop}
    (hstep : ∀ s a t, I s → cond s a → step s a = some t → I t)
    (hkeep : ∀ s a t, I s → P s → cond s a → step s a = some t → P t)
    (hbring : ∀ s a t, I s → cond s a → brings a → step s a = some t → P t) {s t : σ}
    {as : List α} (hI : I s) (hmeets : Meets step cond s as) (hrun : run step s as = some t)
    (honce : ∃ a ∈ as, brings a) : P t := by
  induction as generalizing s with
  | nil =>
      obtain ⟨a, ha, -⟩ := honce
      exact absurd ha List.not_mem_nil
  | cons a as ih =>
      obtain ⟨m, hst, hrest⟩ := run_cons_eq_some.mp hrun
      obtain ⟨ha, has⟩ := (meets_cons hst).mp hmeets
      have hm := hstep s a m hI ha hst
      by_cases hnow : brings a
      · have hboth : I t ∧ P t :=
          run_invariant (I := fun x => I x ∧ P x)
            (fun x b y hx hb hxy => ⟨hstep x b y hx.1 hb hxy, hkeep x b y hx.1 hx.2 hb hxy⟩)
            ⟨hm, hbring s a m hI ha hnow hst⟩ has hrest
        exact hboth.2
      · obtain ⟨b, hb, hbrings⟩ := honce
        rcases List.mem_cons.mp hb with rfl | hlater
        · exact absurd hbrings hnow
        · exact ih hm has hrest ⟨b, hlater, hbrings⟩

/-- A system each of whose steps another answers with a path of its own steps only gets
where the other gets. -/
theorem Reachable.simulated {σ' α' : Type*} {init' : σ' → Prop} {step' : σ' → α' → Option σ'}
    {ok' : σ' → α' → Prop} {R : σ → σ' → Prop} (hinit : ∀ s, init s → ∃ s', init' s' ∧ R s s')
    (hstep : ∀ s a t s', R s s' → ok s a → step s a = some t →
      ∃ t', ReflTransGen (Next step' ok') s' t' ∧ R t t') {s : σ}
    (h : Reachable init step ok s) : ∃ s', Reachable init' step' ok' s' ∧ R s s' := by
  obtain ⟨s₀, h₀, hpath⟩ := h
  induction hpath with
  | refl =>
      obtain ⟨s', hs', hR⟩ := hinit s₀ h₀
      exact ⟨s', ⟨s', hs', .refl⟩, hR⟩
  | tail _ hnext ih =>
      obtain ⟨a, ha, hst⟩ := hnext
      obtain ⟨m', hm', hR⟩ := ih
      obtain ⟨t', hpath', hR'⟩ := hstep _ a _ m' hR ha hst
      exact ⟨t', hm'.path hpath', hR'⟩

private theorem always_cons {P : σ → Prop} {s m : σ} {a : α} {as : List α}
    (hstep : step s a = some m) :
    Always step P s (a :: as) ↔ P s ∧ Always step P m as := by
  simp [Always, hstep]

private theorem always_head {P : σ → Prop} {s : σ} {as : List α} (h : Always step P s as) :
    P s := by
  cases as with
  | nil => exact h
  | cons a as => exact h.1

theorem always_last {P : σ → Prop} {s t : σ} {as : List α} (h : Always step P s as)
    (hrun : run step s as = some t) : P t := by
  induction as generalizing s with
  | nil =>
      obtain rfl := Option.some.inj hrun
      exact h
  | cons a as ih =>
      obtain ⟨m, hst, hrest⟩ := run_cons_eq_some.mp hrun
      exact ih ((always_cons hst).mp h).2 hrest

theorem meets_of_always {P : σ → Prop} {s : σ} {as : List α} (h : Always step P s as) :
    Meets step (fun s _ => P s) s as := by
  induction as generalizing s with
  | nil => trivial
  | cons a as ih =>
      refine ⟨h.1, ?_⟩
      cases hst : step s a with
      | none => trivial
      | some m => exact ih ((always_cons hst).mp h).2

/-- Along one run an invariant that survives the steps that meet `cond` holds throughout,
and so does what follows from it. -/
theorem always_of_invariant {I P : σ → Prop}
    (hstep : ∀ s a t, I s → cond s a → step s a = some t → I t) (hP : ∀ s, I s → P s) {s : σ}
    {as : List α} (hI : I s) (hmeets : Meets step cond s as) : Always step P s as := by
  induction as generalizing s with
  | nil => exact hP s hI
  | cons a as ih =>
      refine ⟨hP s hI, ?_⟩
      cases hst : step s a with
      | none => trivial
      | some m =>
          obtain ⟨ha, has⟩ := (meets_cons hst).mp hmeets
          exact ih (hstep s a m hI ha hst) has

/-- When `cond` tells for each allowed step whether it keeps `P`, the runs that
keep `P` throughout are those all of whose steps meet `cond`. -/
theorem always_iff_meets {I P : σ → Prop}
    (hstep : ∀ s a t, I s → ok s a → step s a = some t → I t)
    (hkeep : ∀ s a t, I s → P s → ok s a → step s a = some t → (P t ↔ cond s a)) {s t : σ}
    {as : List α} (hI : I s) (hP : P s) (hok : Meets step ok s as)
    (hrun : run step s as = some t) : Always step P s as ↔ Meets step cond s as := by
  induction as generalizing s with
  | nil => exact ⟨fun _ => trivial, fun _ => hP⟩
  | cons a as ih =>
      obtain ⟨m, hst, hrest⟩ := run_cons_eq_some.mp hrun
      obtain ⟨ha, has⟩ := (meets_cons hst).mp hok
      have hI' := hstep s a m hI ha hst
      have hiff := hkeep s a m hI hP ha hst
      rw [always_cons hst, meets_cons hst]
      constructor
      · rintro ⟨_, hrestP⟩
        have hm : P m := always_head hrestP
        exact ⟨hiff.mp hm, (ih hI' hm has hrest).mp hrestP⟩
      · rintro ⟨hcond, hmeets⟩
        exact ⟨hP, (ih hI' (hiff.mpr hcond) has hrest).mpr hmeets⟩

end TrendingPipeline.Base.Runs

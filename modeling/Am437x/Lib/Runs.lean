import Mathlib.Tactic

/-!
# Runs of labelled machines

A machine is a partial step function `step : σ → α → Option σ`: its nondeterminism is resolved by the
labels, and `step s l = none` says that the label `l` is not enabled in the state `s`. A run is a list
of labels. `AllSteps` states a property of every step of a run; the rules below prove it from what one
step does under an invariant.
-/

namespace Runs

variable {σ α : Type*} {step : σ → α → Option σ}

/-- The state after the labels `ls`; `none` when one of them is not enabled. -/
def run (step : σ → α → Option σ) : σ → List α → Option σ
  | s, [] => some s
  | s, l :: ls => (step s l).bind fun s' => run step s' ls

/-- `P s l s'` holds of every step from `s` to `s'` by the label `l` that the run of the labels makes,
up to the first label that is not enabled. -/
def AllSteps (step : σ → α → Option σ) (P : σ → α → σ → Prop) : σ → List α → Prop
  | _, [] => True
  | s, l :: ls => ∀ s', step s l = some s' → P s l s' ∧ AllSteps step P s' ls

/-- Whether all steps of a run have a property can be computed by making the run. -/
instance AllSteps.decidable (P : σ → α → σ → Prop) [∀ s l s', Decidable (P s l s')] (s : σ) :
    ∀ ls : List α, Decidable (AllSteps step P s ls)
  | [] => inferInstanceAs (Decidable True)
  | l :: ls =>
    match hstep : step s l with
    | none => .isTrue fun _ hs' => nomatch hstep.symm.trans hs'
    | some t =>
      have := AllSteps.decidable P t ls
      decidable_of_iff (P s l t ∧ AllSteps step P t ls)
        ⟨fun h _ hs' => Option.some.inj (hstep.symm.trans hs') ▸ h, fun h => h t hstep⟩

/-- What holds of all steps holds of the step after any first part of the run. -/
theorem AllSteps.of_run {P : σ → α → σ → Prop} (pre : List α) {s t t' : σ} {l : α} {post : List α}
    (h : AllSteps step P s (pre ++ l :: post)) (hrun : run step s pre = some t)
    (hstep : step t l = some t') : P t l t' := by
  induction pre generalizing s with
  | nil =>
    obtain rfl := Option.some.inj hrun
    exact (h t' hstep).1
  | cons a pre ih =>
    obtain ⟨u, hu, hrun'⟩ := Option.bind_eq_some_iff.mp hrun
    exact ih (h u hu).2 hrun'

/-- The step rule: under an invariant, what every step guarantees holds along every run. -/
theorem allSteps_of_inv (Inv : σ → Prop) {P : σ → α → σ → Prop}
    (hstep : ∀ s l s', Inv s → step s l = some s' → P s l s' ∧ Inv s')
    {s : σ} (hs : Inv s) (ls : List α) : AllSteps step P s ls := by
  induction ls generalizing s with
  | nil => trivial
  | cons l ls ih =>
    intro s' hs'
    obtain ⟨hP, hi⟩ := hstep s l s' hs hs'
    exact ⟨hP, ih hi⟩

/-- The condition rule: in a run whose steps all meet the condition, what such a step guarantees under the
invariant holds of every step. -/
theorem allSteps_of_cond (Inv : σ → Prop) {P C : σ → α → σ → Prop}
    (hstep : ∀ s l s', Inv s → step s l = some s' → C s l s' → P s l s' ∧ Inv s')
    {s : σ} (hs : Inv s) {ls : List α} (hC : AllSteps step C s ls) : AllSteps step P s ls := by
  induction ls generalizing s with
  | nil => trivial
  | cons l ls ih =>
    intro s' hs'
    obtain ⟨hCl, hCls⟩ := hC s' hs'
    obtain ⟨hP, hi⟩ := hstep s l s' hs hs' hCl
    exact ⟨hP, ih hi hCls⟩

/-- The exact-condition rule. Under an invariant a step has the property `P` just when it meets the
condition `C`, and the steps that meet `C` keep the invariant. Then a run has the property in all its
steps just when all its steps meet the condition. -/
theorem allSteps_iff_of_inv (Inv : σ → Prop) {P C : σ → α → σ → Prop}
    (hiff : ∀ s l s', Inv s → step s l = some s' → (P s l s' ↔ C s l s'))
    (hstep : ∀ s l s', Inv s → step s l = some s' → C s l s' → Inv s')
    {s : σ} (hs : Inv s) (ls : List α) : AllSteps step P s ls ↔ AllSteps step C s ls := by
  induction ls generalizing s with
  | nil => exact Iff.rfl
  | cons l ls ih =>
    refine forall_congr' fun s' => forall_congr' fun hs' => ?_
    rw [hiff s l s' hs hs']
    refine and_congr_right fun hC => ?_
    exact ih (hstep s l s' hs hs' hC)

end Runs

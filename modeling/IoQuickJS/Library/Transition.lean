import Mathlib.Data.List.Basic

/-!
# Runs of a partial step function

A system is a function `step : σ → ℓ → Option σ`; `none` means that the step cannot be taken
from that state. `run` takes a list of steps in order, `Meets` says that a condition holds of
every step of a run in the state the step is taken from, and `Always` that a property holds of
every state of a run.

## Main results

* `run_invariant`: what holds initially and survives every step that meets the condition holds
  in the state a run ends in.
* `always_iff_meets`: a property that survives exactly the steps meeting the condition.
* `run_outputs`: what a run puts out is as it should be exactly when its steps meet the condition.
-/
namespace Transition

variable {σ ℓ : Type*}

/-- Take the listed steps in order. -/
def run (step : σ → ℓ → Option σ) : σ → List ℓ → Option σ
  | s, [] => some s
  | s, l :: ls => (step s l).bind fun t => run step t ls

/-- `C` holds of every step of the run, in the state the step is taken from. -/
def Meets (step : σ → ℓ → Option σ) (C : σ → ℓ → Prop) : σ → List ℓ → Prop
  | _, [] => True
  | s, l :: ls => C s l ∧ ∀ t, step s l = some t → Meets step C t ls

/-- `I` holds of every state of the run. -/
def Always (step : σ → ℓ → Option σ) (I : σ → Prop) : σ → List ℓ → Prop
  | s, [] => I s
  | s, l :: ls => I s ∧ ∀ t, step s l = some t → Always step I t ls

variable {step : σ → ℓ → Option σ} {C D : σ → ℓ → Prop}

/-- A condition that can be tested in a state can be tested along a run. -/
instance decidableMeets [∀ s l, Decidable (C s l)] : ∀ s ls, Decidable (Meets step C s ls)
  | _, [] => inferInstanceAs (Decidable True)
  | s, l :: ls =>
    have (t : σ) : Decidable (Meets step C t ls) := decidableMeets t ls
    inferInstanceAs (Decidable (C s l ∧ ∀ t ∈ step s l, Meets step C t ls))

@[simp] theorem run_nil (s : σ) : run step s [] = some s := rfl

/-- A run of at least one step takes its first step somewhere. -/
theorem run_cons_eq_some {s t : σ} {l : ℓ} {ls : List ℓ} (h : run step s (l :: ls) = some t) :
    ∃ u, step s l = some u ∧ run step u ls = some t :=
  Option.bind_eq_some_iff.mp h

theorem Meets.and_labels {L : ℓ → Prop} {s : σ} {ls : List ℓ} (hL : ∀ l ∈ ls, L l)
    (h : Meets step C s ls) : Meets step (fun s l => L l ∧ C s l) s ls := by
  induction ls generalizing s with
  | nil => trivial
  | cons l ls ih =>
    exact ⟨⟨hL l (by simp), h.1⟩, fun t ht => ih (fun m hm => hL m (by simp [hm])) (h.2 t ht)⟩

theorem Meets.mono {s : σ} {ls : List ℓ} (hCD : ∀ u l, C u l → D u l) (h : Meets step C s ls) :
    Meets step D s ls := by
  induction ls generalizing s with
  | nil => trivial
  | cons l ls ih => exact ⟨hCD s l h.1, fun t ht => ih (h.2 t ht)⟩

theorem Meets.and {s : σ} {ls : List ℓ} (hC : Meets step C s ls) (hD : Meets step D s ls) :
    Meets step (fun u l => C u l ∧ D u l) s ls := by
  induction ls generalizing s with
  | nil => trivial
  | cons l ls ih => exact ⟨⟨hC.1, hD.1⟩, fun t ht => ih (hC.2 t ht) (hD.2 t ht)⟩

theorem meets_of_forall {s : σ} {ls : List ℓ} (h : ∀ u, ∀ l ∈ ls, C u l) :
    Meets step C s ls := by
  induction ls generalizing s with
  | nil => trivial
  | cons l ls ih =>
    exact ⟨h s l (by simp), fun t _ => ih fun u m hm => h u m (by simp [hm])⟩

/-- The induction over runs: an invariant that every step meeting `C` preserves holds in the
state a run ends in. -/
theorem run_invariant {I : σ → Prop} {s t : σ} {ls : List ℓ} (hinit : I s)
    (hmeets : Meets step C s ls)
    (hstep : ∀ u l v, I u → C u l → step u l = some v → I v)
    (hrun : run step s ls = some t) : I t := by
  induction ls generalizing s with
  | nil =>
    obtain rfl : s = t := by simpa using hrun
    exact hinit
  | cons l ls ih =>
    obtain ⟨u, hu, hrest⟩ := run_cons_eq_some hrun
    exact ih (hstep s l u hinit hmeets.1 hu) (hmeets.2 u hu) hrest

/-- A condition that an invariant turns into another one. -/
theorem Meets.of_invariant {I : σ → Prop} {s : σ} {ls : List ℓ} (hmeets : Meets step C s ls)
    (hinit : I s) (hstep : ∀ u l v, I u → C u l → step u l = some v → I v)
    (hCD : ∀ u l, I u → C u l → D u l) : Meets step D s ls := by
  induction ls generalizing s with
  | nil => trivial
  | cons l ls ih =>
    exact ⟨hCD s l hinit hmeets.1, fun t ht => ih (hmeets.2 t ht) (hstep s l t hinit hmeets.1 ht)⟩

/-- The unconditional form of `run_invariant`. -/
theorem run_preserves {I : σ → Prop} {s t : σ} {ls : List ℓ} (hinit : I s)
    (hstep : ∀ u l v, I u → step u l = some v → I v)
    (hrun : run step s ls = some t) : I t :=
  run_invariant (C := fun _ _ => True) hinit (meets_of_forall fun _ _ _ => trivial)
    (fun u l v hu _ h => hstep u l v hu h) hrun

/-- A property that survives exactly the steps meeting `C` holds all along a run exactly when all
its steps meet `C`. -/
theorem always_iff_meets {I J : σ → Prop} {s t : σ} {ls : List ℓ}
    (hstep : ∀ u l v, J u → I u → step u l = some v → J v ∧ (I v ↔ C u l)) (hJ : J s) (hI : I s)
    (hrun : run step s ls = some t) : Always step I s ls ↔ Meets step C s ls := by
  induction ls generalizing s with
  | nil => exact ⟨fun _ => trivial, fun _ => hI⟩
  | cons l ls ih =>
    obtain ⟨u, hu, hrest⟩ := run_cons_eq_some hrun
    obtain ⟨hJu, hiff⟩ := hstep s l u hJ hI hu
    have hfirst : Always step I u ls → I u := by
      cases ls with
      | nil => exact id
      | cons => exact And.left
    simp only [Always, Meets, hu, Option.some.injEq, forall_eq', hI, true_and]
    constructor
    · intro halways
      have hIu := hfirst halways
      exact ⟨hiff.mp hIu, (ih hJu hIu hrest).mp halways⟩
    · rintro ⟨hC, hmeets⟩
      exact (ih hJu (hiff.mpr hC) hrest).mpr hmeets

/-- Outputs of a run: when each step adds outputs that are all right exactly if the step meets
`C`, the outputs a run adds are all right exactly if all its steps meet `C`. -/
theorem run_outputs {α : Type*} {out : σ → List α} {P : α → Prop} {I : σ → Prop}
    (hstep : ∀ u l v, I u → step u l = some v →
      I v ∧ ∃ new, out v = out u ++ new ∧ ((∀ x ∈ new, P x) ↔ C u l))
    {s t : σ} {ls : List ℓ} (hinit : I s) (hrun : run step s ls = some t) :
    I t ∧ ∃ new, out t = out s ++ new ∧ ((∀ x ∈ new, P x) ↔ Meets step C s ls) := by
  induction ls generalizing s with
  | nil =>
    obtain rfl : s = t := by simpa using hrun
    exact ⟨hinit, [], by simp, by simp [Meets]⟩
  | cons l ls ih =>
    obtain ⟨u, hu, hrest⟩ := run_cons_eq_some hrun
    obtain ⟨hIu, first, hfirst, hC⟩ := hstep s l u hinit hu
    obtain ⟨hIt, rest, hout, hmeets⟩ := ih hIu hrest
    refine ⟨hIt, first ++ rest, by rw [hout, hfirst, List.append_assoc], ?_⟩
    simp only [List.forall_mem_append, hC, hmeets, Meets, hu, Option.some.injEq, forall_eq']

end Transition

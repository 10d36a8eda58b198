import IoQuickJS.Library.Transition

/-!
# Forward simulation between machines with outputs

A machine is a function `step : σ → ℓ → Option (σ × ω)`: `none` means that the label cannot be
taken. `trace` lists the outputs of the labels taken in order. Two machines whose steps stay
`Matched` from related states have the same traces, so that whatever can be observed of the one
can be observed of the other. Where the implementation may fail, `orFail` lets the specification
fail at the same labels, without any other effect.
-/
namespace Simulation

variable {σ τ ℓ ω : Type*}

/-- The outputs of the labels taken in order; `none` when one of them cannot be taken. -/
def trace (step : σ → ℓ → Option (σ × ω)) : σ → List ℓ → Option (List ω)
  | _, [] => some []
  | s, l :: ls => (step s l).bind fun r => (trace step r.1 ls).map (r.2 :: ·)

/-- Both steps are impossible, or both are taken with one output and lead to related states. -/
inductive Matched (R : σ → τ → Prop) : Option (σ × ω) → Option (τ × ω) → Prop where
  | none : Matched R none none
  | some {s : σ} {t : τ} (o : ω) : R s t → Matched R (some (s, o)) (some (t, o))

variable {R : σ → τ → Prop} {impl : σ → ℓ → Option (σ × ω)} {spec : τ → ℓ → Option (τ × ω)}
  {C : ℓ → Prop}

section Parts

variable {α β : Type*} {P : α → β → Prop} {x : Option α} {y : Option β}

theorem rel_bind {γ δ : Type*} {Q : γ → δ → Prop} {f : α → Option γ} {g : β → Option δ}
    (h : Option.Rel P x y) (hfg : ∀ a b, P a b → Option.Rel Q (f a) (g b)) :
    Option.Rel Q (x.bind f) (y.bind g) := by
  cases h with
  | none => exact .none
  | some hab => exact hfg _ _ hab

/-- A step that goes on from a part which both machines have taken, or neither. -/
theorem Matched.bind {f : α → Option (σ × ω)} {g : β → Option (τ × ω)} (h : Option.Rel P x y)
    (hfg : ∀ a b, P a b → Matched R (f a) (g b)) : Matched R (x.bind f) (y.bind g) := by
  cases h with
  | none => exact .none
  | some hab => exact hfg _ _ hab

theorem Matched.map {f : α → σ} {g : β → τ} (o : ω) (h : Option.Rel P x y)
    (hfg : ∀ a b, P a b → R (f a) (g b)) :
    Matched R (x.map fun a => (f a, o)) (y.map fun b => (g b, o)) := by
  cases h with
  | none => exact .none
  | some hab => exact .some o (hfg _ _ hab)

end Parts

/-- A machine without its outputs. -/
def states (step : σ → ℓ → Option (σ × ω)) (s : σ) (l : ℓ) : Option σ := (step s l).map Prod.fst

/-- Machines whose steps match, where the specification meets a condition, put out the same. -/
theorem trace_eq {D : τ → ℓ → Prop}
    (hstep : ∀ s t l, R s t → D t l → Matched R (impl s l) (spec t l)) {s : σ} {t : τ}
    {ls : List ℓ} (hinit : R s t) (hD : Transition.Meets (states spec) D t ls) :
    trace impl s ls = trace spec t ls := by
  induction ls generalizing s t with
  | nil => rfl
  | cons l ls ih =>
    have hmatched := hstep s t l hinit hD.1
    have hrest := hD.2
    simp only [trace, states] at hrest ⊢
    generalize impl s l = x, spec t l = y at hmatched hrest
    cases hmatched with
    | none => rfl
    | some o hrel =>
      simp only [Option.bind_some]
      rw [ih hrel (hrest _ rfl)]

/-- Take a label, or fail at it: put out `failed` and do nothing. -/
def orFail (spec : τ → ℓ → Option (τ × ω)) (failed : ω) (t : τ) (l : ℓ × Bool) :
    Option (τ × ω) := if l.2 then some (t, failed) else spec t l.1

/-- A machine whose steps match those of a specification that may fail at some labels puts out
what the specification does when it fails where the machine did. -/
theorem trace_orFail {failed : ω} {F : ℓ → Prop}
    (hstep : ∀ s t l, R s t → C l →
      ∃ b, (b = true → F l) ∧ Matched R (impl s l) (orFail spec failed t (l, b)))
    {s : σ} {t : τ} {ls : List ℓ} (hinit : R s t) (hC : ∀ l ∈ ls, C l) :
    ∃ bs : List Bool, bs.length = ls.length ∧ (∀ x ∈ ls.zip bs, x.2 = true → F x.1) ∧
      trace impl s ls = trace (orFail spec failed) t (ls.zip bs) := by
  induction ls generalizing s t with
  | nil => exact ⟨[], rfl, by simp, rfl⟩
  | cons l ls ih =>
    obtain ⟨b, hb, hmatched⟩ := hstep s t l hinit (hC l (by simp))
    generalize hx : impl s l = x, hy : orFail spec failed t (l, b) = y at hmatched
    cases hmatched with
    | none =>
      refine ⟨b :: List.replicate ls.length false, by simp, ?_, ?_⟩
      · rintro ⟨m, c⟩ hmem hc
        simp only [List.zip_cons_cons, List.mem_cons, Prod.mk.injEq] at hmem
        rcases hmem with ⟨rfl, rfl⟩ | hmem
        · exact hb hc
        · have hfalse := List.eq_of_mem_replicate (List.of_mem_zip hmem).2
          exact absurd (hfalse.symm.trans hc) (by simp)
      · simp [trace, hx, hy]
    | some o hrel =>
      obtain ⟨bs, hlen, hfails, htrace⟩ := ih hrel fun l hl => hC l (by simp [hl])
      refine ⟨b :: bs, by simp [hlen], ?_, by simp [trace, hx, hy, htrace]⟩
      rintro ⟨m, c⟩ hmem hc
      simp only [List.zip_cons_cons, List.mem_cons, Prod.mk.injEq] at hmem
      rcases hmem with ⟨rfl, rfl⟩ | hmem
      · exact hb hc
      · exact hfails (m, c) hmem hc

/-- A machine that takes every label puts out something for every list of labels. -/
theorem trace_total {step : σ → ℓ → Option (σ × ω)} (h : ∀ s l, (step s l).isSome) (s : σ)
    (ls : List ℓ) : ∃ os, trace step s ls = some os := by
  induction ls generalizing s with
  | nil => exact ⟨[], rfl⟩
  | cons l ls ih =>
    obtain ⟨⟨t, o⟩, ht⟩ := Option.isSome_iff_exists.mp (h s l)
    obtain ⟨os, hos⟩ := ih t
    exact ⟨o :: os, by simp [trace, ht, hos]⟩

end Simulation

import Mathlib.Data.Option.Basic

/-!
# Programs that end without failing

A program with a state that can fail, or run out of fuel, is a `StateT σ Option α`. `Ensures m s Q`
says that `m` ends from `s`, without failing, with a result and a state that meet `Q`.
-/
namespace Total

universe u

variable {σ α β : Type u}

/-- From `s` the program ends, and what it returns meets the postcondition. -/
def Ensures (m : StateT σ Option α) (s : σ) (Q : α → σ → Prop) : Prop :=
  ∃ a t, m s = some (a, t) ∧ Q a t

variable {m m' : StateT σ Option α} {f : α → StateT σ Option β} {s : σ}
  {Q Q' : α → σ → Prop} {R : β → σ → Prop}

theorem Ensures.pure {a : α} (h : Q a s) : Ensures (Pure.pure a) s Q := ⟨a, s, rfl, h⟩

theorem Ensures.mono (h : Ensures m s Q) (hQ : ∀ a t, Q a t → Q' a t) : Ensures m s Q' := by
  obtain ⟨a, t, hm, ha⟩ := h
  exact ⟨a, t, hm, hQ a t ha⟩

/-- One program after the other: what the first ensures is what the second starts from. -/
theorem Ensures.bind (h : Ensures m s Q) (hf : ∀ a t, Q a t → Ensures (f a) t R) :
    Ensures (m >>= f) s R := by
  obtain ⟨a, t, hm, ha⟩ := h
  obtain ⟨b, u, hfa, hb⟩ := hf a t ha
  refine ⟨b, u, ?_, hb⟩
  change (m s).bind (fun x => f x.1 x.2) = some (b, u)
  rw [hm]
  exact hfa

theorem Ensures.ite {c : Prop} [Decidable c] (h : c → Ensures m s Q) (h' : ¬ c → Ensures m' s Q) :
    Ensures (if c then m else m') s Q := by
  split
  · next hc => exact h hc
  · next hc => exact h' hc

end Total

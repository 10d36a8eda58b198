import Mathlib.Data.List.Nodup
import Mathlib.Data.List.Range
import Mathlib.Logic.Equiv.Basic
import Mathlib.Order.Defs.Unbundled

/-!
# Permuting a segment

`Permutes lo hi f g` says that `g` has in the segment from `lo` to `hi` what `f` has there, in
another order, and agrees with `f` elsewhere. `SortedOn r lo hi f` says that the segment is sorted.
-/
namespace Segment

variable {α : Type*} {lo hi lo' hi' : ℕ} {f g h : ℕ → α}

def Permutes (lo hi : ℕ) (f g : ℕ → α) : Prop :=
  ∃ e : Equiv.Perm ℕ, (∀ k, ¬ (lo ≤ k ∧ k < hi) → e k = k) ∧ ∀ k, g k = f (e k)

theorem Permutes.refl : Permutes lo hi f f := ⟨Equiv.refl ℕ, fun _ _ => rfl, fun _ => rfl⟩

theorem Permutes.trans (h₁ : Permutes lo hi f g) (h₂ : Permutes lo hi g h) :
    Permutes lo hi f h := by
  obtain ⟨e₁, hout₁, heq₁⟩ := h₁
  obtain ⟨e₂, hout₂, heq₂⟩ := h₂
  refine ⟨e₂.trans e₁, fun k hk => ?_, fun k => ?_⟩
  · rw [Equiv.trans_apply, hout₂ k hk, hout₁ k hk]
  · rw [heq₂ k, heq₁, Equiv.trans_apply]

theorem Permutes.mono (h : Permutes lo hi f g) (hlo : lo' ≤ lo) (hhi : hi ≤ hi') :
    Permutes lo' hi' f g := by
  obtain ⟨e, hout, heq⟩ := h
  refine ⟨e, fun k hk => hout k fun hin => hk ?_, heq⟩
  exact ⟨Nat.le_trans hlo hin.1, Nat.lt_of_lt_of_le hin.2 hhi⟩

/-- Outside the segment nothing changes. -/
theorem Permutes.outside (h : Permutes lo hi f g) {k : ℕ} (hk : ¬ (lo ≤ k ∧ k < hi)) :
    g k = f k := by
  obtain ⟨e, hout, heq⟩ := h
  rw [heq k, hout k hk]

/-- The permutation maps the segment to itself. -/
theorem Permutes.source (h : Permutes lo hi f g) {k : ℕ} (hk : lo ≤ k ∧ k < hi) :
    ∃ k', (lo ≤ k' ∧ k' < hi) ∧ g k = f k' := by
  obtain ⟨e, hout, heq⟩ := h
  refine ⟨e k, ?_, heq k⟩
  by_contra hk'
  have hfix := e.injective (hout (e k) hk')
  exact hk' (hfix.symm ▸ hk)

/-- What holds of all the values of a segment does so in any order. -/
theorem Permutes.forall (h : Permutes lo hi f g) {p : α → Prop}
    (hp : ∀ k, lo ≤ k → k < hi → p (f k)) : ∀ k, lo ≤ k → k < hi → p (g k) := by
  intro k hlo hhi
  obtain ⟨k', hk', heq⟩ := h.source ⟨hlo, hhi⟩
  exact heq ▸ hp k' hk'.1 hk'.2

/-- Two values of a segment exchanged. -/
def exchange (f : ℕ → α) (i j : ℕ) : ℕ → α := fun k => f (Equiv.swap i j k)

@[simp] theorem exchange_left (f : ℕ → α) (i j : ℕ) : exchange f i j i = f j := by
  simp [exchange]

@[simp] theorem exchange_right (f : ℕ → α) (i j : ℕ) : exchange f i j j = f i := by
  simp [exchange]

theorem exchange_of_ne {i j k : ℕ} (hi : k ≠ i) (hj : k ≠ j) : exchange f i j k = f k := by
  rw [exchange, Equiv.swap_apply_of_ne_of_ne hi hj]

theorem permutes_exchange {i j : ℕ} (hi' : lo ≤ i ∧ i < hi) (hj : lo ≤ j ∧ j < hi) :
    Permutes lo hi f (exchange f i j) := by
  refine ⟨Equiv.swap i j, fun k hk => ?_, fun k => rfl⟩
  exact Equiv.swap_apply_of_ne_of_ne (fun h => hk (h ▸ hi')) (fun h => hk (h ▸ hj))

/-- What a permuted segment holds from the start is a rearrangement of what was there. -/
theorem Permutes.perm {n : ℕ} (h : Permutes 0 n f g) :
    ((List.range n).map g).Perm ((List.range n).map f) := by
  obtain ⟨e, hout, heq⟩ := h
  have hrange : ((List.range n).map e).Perm (List.range n) := by
    refine (List.perm_ext_iff_of_nodup (List.Nodup.map e.injective List.nodup_range)
      List.nodup_range).mpr
      fun k => ?_
    simp only [List.mem_map, List.mem_range]
    constructor
    · rintro ⟨j, hj, rfl⟩
      by_contra hk
      have hfix := e.injective (hout (e j) fun hin => hk hin.2)
      exact hk (hfix.symm ▸ hj)
    · intro hk
      obtain ⟨j, rfl⟩ := e.surjective k
      refine ⟨j, ?_, rfl⟩
      by_contra hj
      rw [hout j fun hin => hj hin.2] at hk
      exact hj hk
  have hmap : (List.range n).map g = ((List.range n).map e).map f := by
    rw [List.map_map]
    exact List.map_congr_left fun k _ => heq k
  rw [hmap]
  exact hrange.map f

def SortedOn (r : α → α → Prop) (lo hi : ℕ) (f : ℕ → α) : Prop :=
  ∀ i j, lo ≤ i → i < j → j < hi → r (f i) (f j)

theorem SortedOn.pairwise {r : α → α → Prop} {n : ℕ} (h : SortedOn r 0 n f) :
    ((List.range n).map f).Pairwise r := by
  rw [List.pairwise_map, List.pairwise_iff_getElem]
  intro i j hi hj hij
  simp only [List.length_range] at hj
  simpa using h i j (Nat.zero_le _) hij hj

end Segment

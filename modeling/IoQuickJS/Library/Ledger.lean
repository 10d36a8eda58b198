import Mathlib.Algebra.BigOperators.Group.Finset.Basic
import Mathlib.Algebra.GroupWithZero.Nat
import Mathlib.Algebra.Order.BigOperators.Group.Finset

/-!
# Counting references over a table

A table `t : ℕ → Option α` maps addresses below a bound to entries, and every entry holds a list
of references. `tally n t refs v` is the number of references to `v` held by the entries below
`n`. The lemmas say how the number changes when one entry is replaced, added or removed, which
is all that an ownership argument needs.
-/
namespace Ledger

variable {α β : Type*} [DecidableEq β]

/-- The references to `v` that one entry of a table holds. -/
def entry (refs : α → List β) (v : β) (a : Option α) : ℕ := a.elim 0 fun a => (refs a).count v

@[simp] theorem entry_none (refs : α → List β) (v : β) : entry refs v none = 0 := rfl

@[simp] theorem entry_some (refs : α → List β) (v : β) (a : α) :
    entry refs v (some a) = (refs a).count v := rfl

/-- The number of references to `v` held by the entries of `t` at addresses below `n`. -/
def tally (n : ℕ) (t : ℕ → Option α) (refs : α → List β) (v : β) : ℕ :=
  ∑ i ∈ Finset.range n, entry refs v (t i)

variable {n i : ℕ} {t : ℕ → Option α} (refs : α → List β) (v : β)

/-- Replacing the entry at `i` exchanges its references for those of the new entry. -/
theorem tally_update (hi : i < n) (a : Option α) :
    tally n (Function.update t i a) refs v + entry refs v (t i) =
      tally n t refs v + entry refs v a := by
  have hmem : i ∈ Finset.range n := Finset.mem_range.mpr hi
  have hrest : ∑ j ∈ (Finset.range n).erase i, entry refs v (Function.update t i a j) =
      ∑ j ∈ (Finset.range n).erase i, entry refs v (t j) := by
    refine Finset.sum_congr rfl fun j hj => ?_
    rw [Function.update_of_ne (Finset.ne_of_mem_erase hj)]
  have hnew := Finset.add_sum_erase (Finset.range n)
    (fun j => entry refs v (Function.update t i a j)) hmem
  have hold := Finset.add_sum_erase (Finset.range n) (fun j => entry refs v (t j)) hmem
  simp only [Function.update_self] at hnew
  unfold tally
  omega

/-- A table without an entry at `n` has the same tally up to `n + 1`. -/
theorem tally_succ_of_none (h : t n = none) : tally (n + 1) t refs v = tally n t refs v := by
  simp [tally, Finset.sum_range_succ, h]

/-- An entry added at the first unused address adds its references. -/
theorem tally_alloc (h : t n = none) (a : Option α) :
    tally (n + 1) (Function.update t n a) refs v = tally n t refs v + entry refs v a := by
  have hupdate := tally_update refs v (t := t) (Nat.lt_succ_self n) a
  rw [h, tally_succ_of_none refs v h] at hupdate
  simpa using hupdate

/-- No entry holds more references than the whole table. -/
theorem count_le_tally {a : α} (hi : i < n) (h : t i = some a) :
    (refs a).count v ≤ tally n t refs v := by
  have hle := Finset.single_le_sum (f := fun j => entry refs v (t j))
    (fun _ _ => Nat.zero_le _) (Finset.mem_range.mpr hi)
  simpa [tally, h] using hle

@[simp] theorem tally_empty : tally n (fun _ => (none : Option α)) refs v = 0 := by
  simp [tally]

/-- Changing an entry without changing its references leaves the tally alone. -/
theorem tally_update_same (hi : i < n) {a b : α} (h : t i = some a)
    (hcount : (refs b).count v = (refs a).count v) :
    tally n (Function.update t i (some b)) refs v = tally n t refs v := by
  have hupdate := tally_update refs v (t := t) hi (some b)
  simp only [h, entry_some, hcount] at hupdate
  omega

/-- Distinct entries together hold no more references than the whole table. -/
theorem sum_entry_le_tally {ks : List ℕ} (hnodup : ks.Nodup) (hlt : ∀ k ∈ ks, k < n) :
    (ks.map fun k => entry refs v (t k)).sum ≤ tally n t refs v := by
  rw [← List.sum_toFinset _ hnodup]
  refine Finset.sum_le_sum_of_subset fun k hk => ?_
  exact Finset.mem_range.mpr (hlt k (List.mem_toFinset.mp hk))

theorem entry_mono {refs' : α → List β} (h : ∀ a, (refs a).count v ≤ (refs' a).count v)
    (a : Option α) : entry refs v a ≤ entry refs' v a := by
  cases a with
  | none => exact Nat.le_refl _
  | some a => exact h a

theorem sum_bind_eq {κ : Type*} (ps : List κ) (f : κ → Option ℕ) :
    (ps.map fun p => entry refs v ((f p).bind t)).sum =
      ((ps.filterMap f).map fun k => entry refs v (t k)).sum := by
  induction ps with
  | nil => rfl
  | cons p ps ih => cases hp : f p <;> simp [hp, ih]

/-- Keys that lead to distinct entries together see no more references than the table holds. -/
theorem sum_bind_le_tally {κ : Type*} {ps : List κ} (f : κ → Option ℕ) (hnodup : ps.Nodup)
    (hinj : ∀ p q k, f p = some k → f q = some k → p = q) (hlt : ∀ p k, f p = some k → k < n) :
    (ps.map fun p => entry refs v ((f p).bind t)).sum ≤ tally n t refs v := by
  rw [sum_bind_eq]
  refine sum_entry_le_tally refs v ?_ fun k hk => ?_
  · exact hnodup.filterMap fun p q k hp hq => hinj p q k hp hq
  · obtain ⟨p, -, hp⟩ := List.mem_filterMap.mp hk
    exact hlt p k hp

/-- Keys that lead to every entry together see all the references that the table holds. -/
theorem tally_le_sum_bind {κ : Type*} (ps : List κ) (f : κ → Option ℕ)
    (hcover : ∀ k, (t k).isSome → ∃ p ∈ ps, f p = some k) :
    tally n t refs v ≤ (ps.map fun p => entry refs v ((f p).bind t)).sum := by
  rw [sum_bind_eq]
  set ks := ps.filterMap f with hks
  have hmem : ∀ k, (t k).isSome → k ∈ ks := fun k hk => by
    obtain ⟨p, hp, hf⟩ := hcover k hk
    exact List.mem_filterMap.mpr ⟨p, hp, hf⟩
  calc tally n t refs v ≤ ∑ k ∈ ks.toFinset, entry refs v (t k) := by
        refine Finset.sum_le_sum_of_ne_zero fun k _ hk => List.mem_toFinset.mpr (hmem k ?_)
        cases htk : t k with
        | none => simp [htk] at hk
        | some a => rfl
    _ = (ks.dedup.map fun k => entry refs v (t k)).sum := by
        rw [← List.sum_toFinset _ ks.nodup_dedup]
        exact Finset.sum_congr (by ext; simp) fun _ _ => rfl
    _ ≤ (ks.map fun k => entry refs v (t k)).sum :=
        ((List.dedup_sublist ks).map _).sum_le_sum fun _ _ => Nat.zero_le _

end Ledger

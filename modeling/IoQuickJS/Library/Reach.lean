import Mathlib.Data.List.Basic
import Mathlib.Data.List.Perm.Basic

/-!
# Reachability in a graph of successor lists

`Reachable root out` is the least set of vertices that contains the roots and is closed under the
successor lists `out`. A traversal that keeps only reachable vertices computes exactly this set
as soon as what it keeps contains the roots and is closed.
-/
namespace Reach

variable {α : Type*}

/-- The vertices reachable from a root. -/
inductive Reachable (root : α → Prop) (out : α → List α) : α → Prop where
  | root {v : α} : root v → Reachable root out v
  | step {v w : α} : Reachable root out v → w ∈ out v → Reachable root out w

variable {root : α → Prop} {out : α → List α}

/-- A closed set that contains the roots contains every reachable vertex. -/
theorem Reachable.mem_of_closed {S : α → Prop} (hroot : ∀ v, root v → S v)
    (hclosed : ∀ v w, S v → w ∈ out v → S w) {v : α} (h : Reachable root out v) : S v := by
  induction h with
  | root hv => exact hroot _ hv
  | step _ hw ih => exact hclosed _ _ ih hw

/-- The way to a vertex does not need the successors of the vertex itself. -/
theorem Reachable.avoid {root' : α → Prop} {out' : α → List α} {v : α}
    (hroot : ∀ u, root u → root' u) (hout : ∀ u, u ≠ v → ∀ w ∈ out u, w ∈ out' u)
    (h : Reachable root out v) : Reachable root' out' v := by
  have hall : ∀ w, Reachable root out w → Reachable root' out' v ∨ Reachable root' out' w := by
    intro w hw
    induction hw with
    | root hw => exact .inr (.root (hroot _ hw))
    | @step u w _ hw ih =>
      rcases ih with ih | ih
      · exact .inl ih
      · by_cases huv : u = v
        · exact .inl (huv ▸ ih)
        · exact .inr (.step ih (hout u huv w hw))
  exact (hall v h).elim id id

/-- What a traversal keeps is the reachable set. -/
theorem mem_iff_reachable {S : α → Prop} (hsound : ∀ v, S v → Reachable root out v)
    (hroot : ∀ v, root v → S v) (hclosed : ∀ v w, S v → w ∈ out v → S w) (v : α) :
    S v ↔ Reachable root out v :=
  ⟨hsound v, Reachable.mem_of_closed hroot hclosed⟩

/-- Without roots nothing is reachable. -/
theorem not_reachable_of_no_root (h : ∀ v, ¬ root v) (v : α) : ¬ Reachable root out v := fun hv =>
  hv.mem_of_closed (S := fun _ => False) (fun w hw => h w hw) (fun _ _ hf _ => hf)

end Reach

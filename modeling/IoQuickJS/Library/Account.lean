import Mathlib.Data.List.Count
import Mathlib.Data.List.Perm.Basic

/-!
# What has been obtained and given up

A program leaves a list of events, some of which obtain a resource and some of which give one up.
`Balanced` says that the resources in `held`, and no others, have been obtained and not given up.
It is an invariant of a program that has its resources in local variables: the caller's `held` is
the same before and after a call.

## Main results

* `Balanced.obtain`, `Balanced.giveUp`: what an event does to the account.
* `Balanced.once_of_not_mem`: what is not held any more has been given up exactly once.
-/
namespace Account

variable {ε κ : Type*} [DecidableEq κ]

/-- How often the events obtain, or give up, the resource `k`. -/
def times (f : ε → Option κ) (k : κ) (events : List ε) : ℕ := events.countP fun e => f e = some k

variable {opens closes : ε → Option κ} {events : List ε} {held held' : List κ} {e : ε} {k : κ}

/-- Exactly the resources in `held` are still to be given up, and none is obtained twice. -/
structure Balanced (opens closes : ε → Option κ) (events : List ε) (held : List κ) : Prop where
  count : ∀ k, times opens k events = times closes k events + held.count k
  once : ∀ k, times opens k events ≤ 1

theorem times_append (f : ε → Option κ) (k : κ) (events : List ε) (e : ε) :
    times f k (events ++ [e]) = times f k events + if f e = some k then 1 else 0 := by
  simp [times, List.countP_append, List.countP_singleton]

theorem Balanced.nil : Balanced opens closes [] [] := ⟨by simp [times], by simp [times]⟩

/-- It does not matter in which variables the resources are. -/
theorem Balanced.perm (h : Balanced opens closes events held) (hp : held.Perm held') :
    Balanced opens closes events held' :=
  ⟨fun k => by rw [h.count, hp.count_eq], h.once⟩

/-- An event that is not about resources. -/
theorem Balanced.idle (h : Balanced opens closes events held) (hopens : opens e = none)
    (hcloses : closes e = none) : Balanced opens closes (events ++ [e]) held := by
  constructor
  · intro k
    simp [times_append, hopens, hcloses, h.count]
  · intro k
    simpa [times_append, hopens] using h.once k

/-- A resource that has not been there before. -/
theorem Balanced.obtain (h : Balanced opens closes events held) (hopens : opens e = some k)
    (hcloses : closes e = none) (hfresh : ∀ e' ∈ events, opens e' ≠ some k) :
    Balanced opens closes (events ++ [e]) (k :: held) := by
  have hzero : times opens k events = 0 :=
    List.countP_eq_zero.mpr fun e' he' => by simpa using hfresh e' he'
  constructor
  · intro k'
    have hcount := h.count k'
    rw [times_append, times_append, List.count_cons]
    grind
  · intro k'
    have honce := h.once k'
    rw [times_append]
    grind

/-- A resource that is held is given up. -/
theorem Balanced.giveUp (h : Balanced opens closes events (k :: held)) (hopens : opens e = none)
    (hcloses : closes e = some k) : Balanced opens closes (events ++ [e]) held := by
  constructor
  · intro k'
    have hcount := h.count k'
    rw [times_append, times_append]
    rw [List.count_cons] at hcount
    grind
  · intro k'
    simpa [times_append, hopens] using h.once k'

/-- What has been obtained and is not held has been given up exactly once. -/
theorem Balanced.once_of_not_mem (h : Balanced opens closes events held) (he : e ∈ events)
    (hopens : opens e = some k) (hk : k ∉ held) :
    times opens k events = 1 ∧ times closes k events = 1 := by
  have hpos : 0 < times opens k events := List.countP_pos_iff.mpr ⟨e, he, by simpa using hopens⟩
  have honce := h.once k
  have hcount := h.count k
  rw [List.count_eq_zero.mpr hk] at hcount
  omega

end Account

import Mathlib.Data.List.Basic
import Mathlib.Data.List.Nodup
import Mathlib.Logic.Function.Basic

/-!
# Circular doubly linked lists

`Links` gives every cell a pointer in each direction. `IsRing l h xs` says that the pointers run
from the head `h` over the cells `xs` in this order and back to `h`, in both directions. The
primitive operation is `join`, which makes one cell follow another; insertion at the end and
removal of the first cell are made of it.
-/
namespace Ring

open Function (update update_self update_of_ne)

/-- The two pointers of every cell; `none` is the null pointer. -/
structure Links (α : Type*) where
  prev : α → Option α
  next : α → Option α

variable {α : Type*} [DecidableEq α]

/-- Let `b` follow `a`. -/
def Links.join (l : Links α) (a b : α) : Links α where
  prev := update l.prev b (some a)
  next := update l.next a (some b)

/-- Reset both pointers of a cell. -/
def Links.clear (l : Links α) (a : α) : Links α where
  prev := update l.prev a none
  next := update l.next a none

/-- The pointers lead from `a` over `xs` to `b`, and back. -/
def Segment (l : Links α) : α → List α → α → Prop
  | a, [], b => l.next a = some b ∧ l.prev b = some a
  | a, x :: xs, b => l.next a = some x ∧ l.prev x = some a ∧ Segment l x xs b

structure IsRing (l : Links α) (h : α) (xs : List α) : Prop where
  nodup : (h :: xs).Nodup
  segment : Segment l h xs h

section Segment

variable {l l' : Links α} {a b y : α} {xs : List α}

omit [DecidableEq α] in
theorem segment_concat : Segment l a (xs ++ [y]) b ↔
    Segment l a xs y ∧ l.next y = some b ∧ l.prev b = some y := by
  induction xs generalizing a with
  | nil => simp [Segment, and_assoc]
  | cons x xs ih => simp [Segment, ih, and_assoc]

omit [DecidableEq α] in
/-- A segment only depends on the pointers along it. -/
theorem Segment.frame (h : Segment l a xs b) (hnext : ∀ c ∈ a :: xs, l'.next c = l.next c)
    (hprev : ∀ c ∈ xs ++ [b], l'.prev c = l.prev c) : Segment l' a xs b := by
  induction xs generalizing a with
  | nil => exact ⟨(hnext a (by simp)).trans h.1, (hprev b (by simp)).trans h.2⟩
  | cons x xs ih =>
    obtain ⟨hax, hxa, hrest⟩ := h
    refine ⟨(hnext a (by simp)).trans hax, (hprev x (by simp)).trans hxa, ih hrest ?_ ?_⟩
    · exact fun c hc => hnext c (List.mem_cons_of_mem a hc)
    · exact fun c hc => hprev c (by grind)

end Segment

section IsRing

variable {l : Links α} {h x : α} {xs : List α}

omit [DecidableEq α] in
theorem IsRing.empty (hnext : l.next h = some h) (hprev : l.prev h = some h) : IsRing l h [] :=
  ⟨by simp, hnext, hprev⟩

omit [DecidableEq α] in
/-- The head's pointer tells whether the ring is empty. -/
theorem IsRing.next_eq_head_iff (hring : IsRing l h xs) : l.next h = some h ↔ xs = [] := by
  cases xs with
  | nil => simpa using hring.segment.1
  | cons x xs =>
    have hne : x ≠ h := by grind [hring.nodup]
    simp [hring.segment.1, hne]

omit [DecidableEq α] in
theorem IsRing.next_head (hring : IsRing l h (x :: xs)) : l.next h = some x := hring.segment.1

/-- Insert a new cell between the last one and the head. -/
theorem IsRing.append (hring : IsRing l h xs) (hx : x ∉ h :: xs) :
    ∃ p, l.prev h = some p ∧ IsRing ((l.join p x).join x h) h (xs ++ [x]) := by
  have hnodup : (h :: (xs ++ [x])).Nodup := by
    have := hring.nodup
    grind
  have hxh : x ≠ h := by grind
  rcases List.eq_nil_or_concat' xs with rfl | ⟨ys, y, rfl⟩
  · refine ⟨h, hring.segment.2, hnodup, ?_⟩
    simp [Segment, Links.join, hxh, hxh.symm]
  · obtain ⟨hys, -, hyh⟩ := segment_concat.mp hring.segment
    have hring' := hring.nodup
    have hxy : x ≠ y := by grind
    refine ⟨y, hyh, hnodup, ?_⟩
    rw [segment_concat, segment_concat]
    refine ⟨⟨hys.frame (fun c hc => ?_) (fun c hc => ?_), ?_, ?_⟩, ?_, ?_⟩
    · have hcy : c ≠ y := by grind
      have hcx : c ≠ x := by grind
      simp [Links.join, hcy, hcx]
    · have hch : c ≠ h := by grind
      have hcx : c ≠ x := by grind
      simp [Links.join, hch, hcx]
    · simp [Links.join, hxy.symm]
    · simp [Links.join, hxh]
    · simp [Links.join]
    · simp [Links.join]

/-- Take the first cell out. -/
theorem IsRing.tail (hring : IsRing l h (x :: xs)) :
    ∃ n, l.prev x = some h ∧ l.next x = some n ∧ IsRing ((l.join h n).clear x) h xs := by
  obtain ⟨-, hxh, hrest⟩ := hring.segment
  have hnodup := hring.nodup
  have hne : h ≠ x := by grind
  cases xs with
  | nil =>
    refine ⟨h, hxh, hrest.1, .empty ?_ ?_⟩ <;> simp [Links.join, Links.clear, hne]
  | cons y ys =>
    obtain ⟨hxy, hyx, hys⟩ := hrest
    have hyne : y ≠ x := by grind
    refine ⟨y, hxh, hxy, by grind, ?_, ?_, hys.frame (fun c hc => ?_) (fun c hc => ?_)⟩
    · simp [Links.join, Links.clear, hne]
    · simp [Links.join, Links.clear, hyne]
    · have hch : c ≠ h := by grind
      have hcx : c ≠ x := by grind
      simp [Links.join, Links.clear, hch, hcx]
    · have hcy : c ≠ y := by grind
      have hcx : c ≠ x := by grind
      simp [Links.join, Links.clear, hcy, hcx]

end IsRing

end Ring

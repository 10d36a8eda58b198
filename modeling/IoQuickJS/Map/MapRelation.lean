import IoQuickJS.Map.MapUpdate

/-!
# The relation of records to entries

A state of the implementation and a state of the specification are related when the records hold
the entries, every lock on a record is an iterator or a forEach call that stands on it, and each
of these has the index after the entry of its record.
-/
namespace IoQuickJS

open Function (update update_self update_of_ne)

namespace JSMapState

variable {α : Type*} {K : KeyOps α} {s : JSMapState α} {es : List (Option (α × α))}
  {pos held : Nat → Nat} {r i : Nat}

/-! ## Who holds a record -/

/-- The iterator stands on the record. -/
def standsOn (r : Nat) (it : Option JSMapIteratorData) : Bool :=
  it.any fun it => it.curRecord == some r

/-- How many iterators and forEach calls have locked the record. -/
def heldBy (s : JSMapState α) (r : Nat) : Nat :=
  s.iterators.countP (standsOn r) + s.frames.count r

theorem SameHolders.heldBy {s' : JSMapState α} (h : SameHolders s s') :
    s'.heldBy = s.heldBy := by
  funext r
  simp [JSMapState.heldBy, h.iterators, h.frames]

theorem MapInv.holders (h : MapInv K s es pos held) (its : List (Option JSMapIteratorData))
    (frames : List Nat) : MapInv K { s with iterators := its, frames := frames } es pos held :=
  { h with }

/-- Replacing an iterator exchanges the record it stands on. -/
theorem countP_standsOn_set {its : List (Option JSMapIteratorData)}
    {it : Option JSMapIteratorData} (hit : its[i]? = some it) (x : Option JSMapIteratorData)
    (r : Nat) :
    (its.set i x).countP (standsOn r) + (if standsOn r it then 1 else 0) =
      its.countP (standsOn r) + if standsOn r x then 1 else 0 := by
  obtain ⟨hlt, rfl⟩ := List.getElem?_eq_some_iff.mp hit
  rw [List.countP_set hlt]
  have hpos : standsOn r its[i] → 0 < its.countP (standsOn r) := fun h =>
    List.countP_pos_iff.mpr ⟨_, List.getElem_mem hlt, h⟩
  split_ifs with h <;> simp_all

theorem heldBy_pos_of_iterator {it : JSMapIteratorData} (hit : s.iterators[i]? = some (some it))
    (hcur : it.curRecord = some r) : 0 < s.heldBy r := by
  have : 0 < s.iterators.countP (standsOn r) :=
    List.countP_pos_iff.mpr ⟨_, List.mem_of_getElem? hit, by simp [standsOn, hcur]⟩
  unfold heldBy
  omega

/-! ## Going on from a record -/

/-- Leaving the record that an iterator or a forEach stands on. -/
theorem MapInv.leave (h : MapInv K s es pos held) (hheld : 0 < held r) :
    ∃ el s', JSMapState.after r s.records = some el ∧ mapDecrefRecord s r = some s' ∧
      SameHolders s s' ∧ From s' pos (pos r + 1) el ∧
      el.Pairwise (fun r r' => pos r < pos r') ∧
      MapInv K s' es pos (update held r (held r - 1)) := by
  obtain ⟨el, hel, hfrom, hsorted⟩ := h.after (h.heldLive r hheld)
  obtain ⟨s', hs', hholders, hrecords, hinv⟩ := h.unlock hheld
  have hne : ∀ q, pos r + 1 ≤ pos q → q ≠ r := by
    rintro q hq rfl
    omega
  refine ⟨el, s', hel, hs', hholders, ⟨fun q hq => ?_, fun q hq hle => ?_⟩, hsorted, hinv⟩
  · obtain ⟨hmem, hle⟩ := hfrom.1 q hq
    exact ⟨(hrecords q (hne q hle)).mpr hmem, hle⟩
  · exact hfrom.2 q ((hrecords q (hne q hle)).mp hq) hle

/-- Locking the next record that is not empty. -/
theorem MapInv.advance {el : List Nat} (h : MapInv K s es pos held) (hel : From s pos i el)
    (hsorted : el.Pairwise fun r r' => pos r < pos r') :
    (JSMapState.firstLive s el = some none ∧ nextEntry es i = none) ∨
    ∃ r mr s', JSMapState.firstLive s el = some (some r) ∧ s.mem r = some mr ∧
      lockRecord s r = some s' ∧ SameHolders s s' ∧
      nextEntry es i = some (pos r, (mr.key, mr.value)) ∧
      MapInv K s' es pos (update held r (held r + 1)) := by
  rcases h.firstLive hel hsorted with hnone | ⟨r, mr, hlive, hmr, -, hnext⟩
  · exact .inl hnone
  · obtain ⟨s', hs', hholders, hinv⟩ := h.lock hmr
    exact .inr ⟨r, mr, s', hlive, hmr, hs', hholders, hnext, hinv⟩

/-! ## The relation -/

/-- Where an iterator stands. -/
def IterAt (pos : Nat → Nat) :
    Option JSMapIteratorData → Option (JSIteratorKind × Option Nat) → Prop
  | some it, some ix => ix.1 = it.kind ∧
      if it.attached then ix.2 = some (it.curRecord.elim 0 fun r => pos r + 1)
      else ix.2 = none ∧ it.curRecord = none
  | none, none => True
  | _, _ => False

variable (K) in
structure RefinesAt (s : JSMapState α) (d : MapData α) (pos : Nat → Nat) : Prop where
  isSet : s.isSet = d.isSet
  inv : MapInv K s d.entries pos s.heldBy
  iterators : List.Forall₂ (IterAt pos) s.iterators d.iterators
  frames : d.frames = s.frames.map fun r => pos r + 1

variable (K) in
/-- The implementation and the specification are in the same state. -/
def Refines (s : JSMapState α) (d : MapData α) : Prop := ∃ pos, RefinesAt K s d pos

variable {d : MapData α}

/-- An operation on the records alone. -/
theorem RefinesAt.of_holders {s' : JSMapState α} (h : RefinesAt K s d pos)
    (hholders : SameHolders s s') {es : List (Option (α × α))}
    (hinv : MapInv K s' es pos s.heldBy) : RefinesAt K s' { d with entries := es } pos where
  isSet := hholders.isSet.trans h.isSet
  inv := by rwa [hholders.heldBy]
  iterators := by rw [hholders.iterators]; exact h.iterators
  frames := by rw [hholders.frames]; exact h.frames

theorem RefinesAt.iterAt (h : RefinesAt K s d pos) (i : Nat) :
    (s.iterators[i]?.join = none ∧ d.iterators[i]?.join = none) ∨
    ∃ it ix, s.iterators[i]? = some (some it) ∧ d.iterators[i]? = some (some ix) ∧
      IterAt pos (some it) (some ix) := by
  have hlen := h.iterators.length_eq
  by_cases hi : i < s.iterators.length
  · have hat := List.forall₂_iff_get.mp h.iterators |>.2 i hi (hlen ▸ hi)
    simp only [List.get_eq_getElem] at hat
    rw [List.getElem?_eq_getElem hi, List.getElem?_eq_getElem (hlen ▸ hi)]
    generalize s.iterators[i] = a, d.iterators[i] = b at hat
    cases a <;> cases b
    · exact .inl ⟨rfl, rfl⟩
    · exact hat.elim
    · exact hat.elim
    · exact .inr ⟨_, _, rfl, rfl, hat⟩
  · have hi' : ¬ i < d.iterators.length := hlen ▸ hi
    exact .inl ⟨by simp [List.getElem?_eq_none (Nat.le_of_not_lt hi)],
      by simp [List.getElem?_eq_none (Nat.le_of_not_lt hi')]⟩

/-- Replacing an iterator on both sides. -/
theorem RefinesAt.setIterator {s' : JSMapState α} (h : RefinesAt K s d pos)
    (hholders : SameHolders s s') {it : Option JSMapIteratorData}
    (hit : s.iterators[i]? = some it) (x : Option JSMapIteratorData)
    (ix : Option (JSIteratorKind × Option Nat)) (hx : IterAt pos x ix)
    (hinv : MapInv K s' d.entries pos held)
    (hheld : ∀ r, held r + (if standsOn r it then 1 else 0) =
      s.heldBy r + if standsOn r x then 1 else 0) :
    RefinesAt K { s' with iterators := s'.iterators.set i x }
      { d with iterators := d.iterators.set i ix } pos where
  isSet := hholders.isSet.trans h.isSet
  inv := by
    have hfun : held = ({ s' with iterators := s'.iterators.set i x } : JSMapState α).heldBy := by
      funext r
      have hset := countP_standsOn_set hit x r
      have hr := hheld r
      simp only [heldBy, hholders.iterators, hholders.frames] at hr ⊢
      omega
    exact hfun ▸ hinv.holders _ s'.frames
  iterators := by
    rw [hholders.iterators]
    refine List.forall₂_iff_get.mpr ⟨by simpa using h.iterators.length_eq, fun j hj hj' => ?_⟩
    simp only [List.length_set] at hj hj'
    simp only [List.get_eq_getElem, List.getElem_set]
    split_ifs
    · exact hx
    · exact List.forall₂_iff_get.mp h.iterators |>.2 j hj hj'
  frames := by
    show d.frames = s'.frames.map fun r => pos r + 1
    rw [hholders.frames]
    exact h.frames

end JSMapState

end IoQuickJS

import IoQuickJS.Sort.ArraySort

/-!
# What Array.prototype.sort does to an array

## Main results

* `js_array_sort_total`: for any compare function every value that has been read is given up once.
* `js_array_sort_sorts`, `js_array_sort_default`: the elements are sorted, stably, and come before
  the undefined ones, which come before the holes.
-/
namespace IoQuickJS.ArraySort

open Function (update update_self update_of_ne)
open Rqsort Segment Text

variable {V : Type}

/-! ## Every value is given up once -/

/-- The slot whose value an effect gives up. -/
def Effect.slot? : Effect V → Option (ValueSlot V)
  | .free slot | .set _ slot => some slot
  | .setUndefined _ | .delete _ => none

theorem slots_free (slots : List (ValueSlot V)) :
    (slots.map Effect.free).filterMap Effect.slot? = slots := by
  induction slots with
  | nil => rfl
  | cons slot slots ih => simpa [Effect.slot?] using ih

theorem slots_writeBack (fails : Nat → Bool) (n : Nat) (slots : List (ValueSlot V)) :
    (writeBack fails n slots).1.filterMap Effect.slot? = slots := by
  induction slots generalizing n with
  | nil => rfl
  | cons slot slots ih =>
    rw [writeBack]
    split
    · exact congrArg (slot :: ·) (ih (n + 1))
    · split
      · exact congrArg (slot :: ·) (slots_free slots)
      · exact congrArg (slot :: ·) (ih (n + 1))

theorem slots_writeRest (fails : Nat → Bool) {effect : Nat → Effect V}
    (heffect : ∀ n, (effect n).slot? = none) (i k : Nat) :
    (writeRest fails effect i k).1.filterMap Effect.slot? = [] := by
  induction k generalizing i with
  | zero => rfl
  | succ k ih =>
    rw [writeRest]
    split
    · simp [heffect]
    · simpa [heffect] using ih (i + 1)

theorem slots_writeSorted (elements : List (Element V)) (fails : Nat → Bool) (threw : Bool)
    (sorted : List (ValueSlot V)) :
    (writeSorted elements fails threw sorted).1.filterMap Effect.slot? = sorted := by
  unfold writeSorted
  dsimp only
  split
  · exact slots_free sorted
  · split
    · exact slots_writeBack fails 0 sorted
    · split
      · rw [List.filterMap_append, slots_writeBack,
          slots_writeRest fails fun n => rfl, List.append_nil]
      · rw [List.filterMap_append, List.filterMap_append, slots_writeBack,
          slots_writeRest fails fun n => rfl, slots_writeRest fails fun n => rfl,
          List.append_nil, List.append_nil]

theorem map_slotArray [Inhabited V] (slots : List (ValueSlot V)) :
    (List.range slots.length).map (slotArray slots).elements = slots := by
  refine List.ext_getElem (by simp) fun k hk hk' => ?_
  simp [slotArray, hk']

/-! ## The comparison of slots -/

/-- Slots in the order of their values, and of their positions where the values are level. -/
def slotOrder (le : ValueSlot V → ValueSlot V → Prop) (a b : ValueSlot V) : Prop :=
  le a b ∧ (le b a → a.pos ≤ b.pos)

/-- The positions decide what a comparison leaves open. -/
theorem orders_slotOrder {cmp : Nat → ValueSlot V → ValueSlot V → Int}
    {le : ValueSlot V → ValueSlot V → Prop} (h : Orders cmp le) :
    Orders (fun k a b => if cmp k a b ≠ 0 then cmp k a b
      else (if a.pos > b.pos then 1 else 0) - (if a.pos < b.pos then 1 else 0))
      (slotOrder le) where
  total a b := by
    rcases h.total a b with hab | hba
    · by_cases hba : le b a
      · rcases Nat.le_total a.pos b.pos with hpos | hpos
        · exact .inl ⟨hab, fun _ => hpos⟩
        · exact .inr ⟨hba, fun _ => hpos⟩
      · exact .inl ⟨hab, fun h => absurd h hba⟩
    · by_cases hab : le a b
      · rcases Nat.le_total a.pos b.pos with hpos | hpos
        · exact .inl ⟨hab, fun _ => hpos⟩
        · exact .inr ⟨hba, fun _ => hpos⟩
      · exact .inr ⟨hba, fun h => absurd h hab⟩
  trans a b c hab hbc := by
    refine ⟨h.trans a b c hab.1 hbc.1, fun hca => ?_⟩
    exact (hab.2 (h.trans b c a hbc.1 hca)).trans (hbc.2 (h.trans c a b hca hab.1))
  le k a b := by
    have hle := h.le k a b
    have hge := h.ge k a b
    unfold slotOrder
    by_cases hzero : cmp k a b = 0
    · rw [if_neg (not_not.mpr hzero)]
      have hab := hle.mp hzero.le
      have hba := hge.mp hzero.ge
      simp only [hab, hba, true_and, forall_const]
      split <;> split <;> omega
    · rw [if_pos hzero, hle]
      refine ⟨fun hab => ⟨hab, fun hba => ?_⟩, fun hab => hab.1⟩
      have := hle.mpr hab
      have := hge.mpr hba
      omega
  ge k a b := by
    have hle := h.le k a b
    have hge := h.ge k a b
    unfold slotOrder
    by_cases hzero : cmp k a b = 0
    · rw [if_neg (not_not.mpr hzero)]
      have hab := hle.mp hzero.le
      have hba := hge.mp hzero.ge
      simp only [hab, hba, true_and, forall_const]
      split <;> split <;> omega
    · rw [if_pos hzero, hge]
      refine ⟨fun hba => ⟨hba, fun hab => ?_⟩, fun hba => hba.1⟩
      have := hle.mpr hab
      have := hge.mpr hba
      omega

/-- The order of strings by their code units; a string comes before those it begins. -/
def UnitsLe : List UInt16 → List UInt16 → Prop
  | [], _ => True
  | _ :: _, [] => False
  | c :: cs, d :: ds => c.toNat < d.toNat ∨ c = d ∧ UnitsLe cs ds

theorem UnitsLe.total (cs ds : List UInt16) : UnitsLe cs ds ∨ UnitsLe ds cs := by
  induction cs generalizing ds with
  | nil => exact .inl trivial
  | cons c cs ih =>
    cases ds with
    | nil => exact .inr trivial
    | cons d ds =>
      rcases Nat.lt_trichotomy c.toNat d.toNat with hlt | heq | hgt
      · exact .inl (.inl hlt)
      · obtain rfl := UInt16.toNat_inj.mp heq
        exact (ih ds).imp (fun h => .inr ⟨rfl, h⟩) fun h => .inr ⟨rfl, h⟩
      · exact .inr (.inl hgt)

theorem UnitsLe.trans {cs ds es : List UInt16} (h : UnitsLe cs ds) (h' : UnitsLe ds es) :
    UnitsLe cs es := by
  induction cs generalizing ds es with
  | nil => trivial
  | cons c cs ih =>
    rcases ds with _ | ⟨d, ds⟩
    · exact h.elim
    · rcases es with _ | ⟨e, es⟩
      · exact h'.elim
      · rcases h with hlt | ⟨rfl, h⟩ <;> rcases h' with hlt' | ⟨rfl, h'⟩
        · exact .inl (Nat.lt_trans hlt hlt')
        · exact .inl hlt
        · exact .inl hlt'
        · exact .inr ⟨rfl, ih h h'⟩

/-- js_string_compare compares code units, and lengths where one string begins the other. -/
theorem jsStringCompare_iff (p1 p2 : JSString) :
    (jsStringCompare p1 p2 ≤ 0 ↔ UnitsLe p1.units p2.units) ∧
      (0 ≤ jsStringCompare p1 p2 ↔ UnitsLe p2.units p1.units) := by
  unfold jsStringCompare
  dsimp only
  generalize p1.units = cs
  generalize p2.units = ds
  induction cs generalizing ds with
  | nil => cases ds <;> simp [memcmpUnits, UnitsLe]
  | cons c cs ih =>
    cases ds with
    | nil => simp [memcmpUnits, UnitsLe]
    | cons d ds =>
      simp only [memcmpUnits, UnitsLe, List.length_cons]
      by_cases hcd : c = d
      · subst hcd
        simpa using ih ds
      · have hne : c.toNat ≠ d.toNat := fun heq => hcd (UInt16.toNat_inj.mp heq)
        have hdc : d ≠ c := fun heq => hcd heq.symm
        rw [if_neg hcd, if_neg (by omega)]
        simp only [hcd, hdc, false_and, or_false]
        omega

theorem orders_jsStringCompare (key : ValueSlot V → JSString) :
    Orders (fun _ a b => jsStringCompare (key a) (key b))
      fun a b => UnitsLe (key a).units (key b).units where
  total _ _ := UnitsLe.total _ _
  trans _ _ _ hab hbc := hab.trans hbc
  le _ a b := (jsStringCompare_iff (key a) (key b)).1
  ge _ a b := (jsStringCompare_iff (key a) (key b)).2

/-- The answers of a compare function, with 0 for a value and itself. -/
theorem orders_method [DecidableEq V] {method : Nat → V → V → Int} {le : V → V → Prop}
    (h : Orders method le) :
    Orders (fun k (a b : ValueSlot V) => if a.val = b.val then 0 else (method k a.val b.val).sign)
      fun a b => le a.val b.val where
  total a b := h.total a.val b.val
  trans a b c := h.trans a.val b.val c.val
  le k a b := by
    split
    · next heq => simpa [heq] using (h.total b.val b.val).elim id id
    · rw [← h.le k, Int.sign_nonpos_iff]
  ge k a b := by
    split
    · next heq => simpa [heq] using (h.total b.val b.val).elim id id
    · rw [← h.ge k, Int.sign_nonneg_iff]

/-! ## What the effects make of the array -/

def Effect.apply (e : Effect V) (f : Nat → Element V) : Nat → Element V :=
  match e with
  | .free _ => f
  | .set n slot => update f n (.value slot.val)
  | .setUndefined n => update f n .undefined
  | .delete n => update f n .hole

/-- The array after the effects. -/
def applyAll (effects : List (Effect V)) (f : Nat → Element V) : Nat → Element V :=
  effects.foldl (fun f e => e.apply f) f

@[simp] theorem applyAll_append (es es' : List (Effect V)) (f : Nat → Element V) :
    applyAll (es ++ es') f = applyAll es' (applyAll es f) := List.foldl_append

/-- The slots are written from `n` on; one that has not moved is in its place already. -/
theorem applyAll_writeBack (n : Nat) (slots : List (ValueSlot V)) (f : Nat → Element V)
    (hf : ∀ slot ∈ slots, n ≤ slot.pos → f slot.pos = .value slot.val) :
    (writeBack (fun _ => false) n slots).2 = false ∧
      ∀ k, applyAll (writeBack (fun _ => false) n slots).1 f k =
        if n ≤ k then ((slots[k - n]?).map fun slot => .value slot.val).getD (f k) else f k := by
  induction slots generalizing n f with
  | nil =>
    refine ⟨rfl, fun k => ?_⟩
    simp [writeBack, applyAll]
  | cons slot slots ih =>
    -- either way the value of the slot is in place `n` now
    have hstep : ∀ g : Nat → Element V, g n = .value slot.val → (∀ k, k ≠ n → g k = f k) →
        (writeBack (fun _ => false) (n + 1) slots).2 = false ∧
        ∀ k, applyAll (writeBack (fun _ => false) (n + 1) slots).1 g k =
          if n ≤ k then (((slot :: slots)[k - n]?).map fun slot => .value slot.val).getD (f k)
          else f k := fun g hg hother => by
      obtain ⟨hfails, hall⟩ := ih (n + 1) g fun s hs hpos => by
        rw [hother s.pos (by omega)]
        exact hf s (List.mem_cons_of_mem _ hs) (by omega)
      refine ⟨hfails, fun k => ?_⟩
      rw [hall k]
      rcases Nat.lt_trichotomy k n with hk | rfl | hk
      · rw [if_neg (by omega), if_neg (by omega), hother k (by omega)]
      · rw [if_neg (by omega), if_pos (Nat.le_refl _), hg]
        simp
      · rw [if_pos (by omega), if_pos (by omega), hother k (by omega),
          show k - n = k - (n + 1) + 1 by omega, List.getElem?_cons_succ]
    rw [writeBack]
    split
    · next hpos =>
      refine hstep f ?_ fun k _ => rfl
      rw [← hpos]
      exact hf slot List.mem_cons_self hpos.ge
    · exact hstep (update f n (.value slot.val)) (update_self ..) fun k hk => update_of_ne hk ..

theorem applyAll_writeRest (effect : Nat → Effect V) (e : Element V)
    (heffect : ∀ n f, (effect n).apply f = update f n e) (i k : Nat) (f : Nat → Element V) :
    (writeRest (fun _ => false) effect i k).2 = false ∧
      ∀ j, applyAll (writeRest (fun _ => false) effect i k).1 f j =
        if i ≤ j ∧ j < i + k then e else f j := by
  induction k generalizing i f with
  | zero =>
    refine ⟨rfl, fun j => ?_⟩
    rw [if_neg (by omega)]
    rfl
  | succ k ih =>
    obtain ⟨hfails, hall⟩ := ih (i + 1) (update f i e)
    refine ⟨hfails, fun j => ?_⟩
    change applyAll (writeRest (fun _ => false) effect (i + 1) k).1 ((effect i).apply f) j = _
    rw [heffect, hall j]
    by_cases hj : j = i
    · subst hj
      rw [if_neg (by omega), if_pos (by omega), update_self]
    · rw [update_of_ne hj]
      by_cases hin : i + 1 ≤ j ∧ j < i + 1 + k
      · rw [if_pos hin, if_pos (by omega)]
      · rw [if_neg hin, if_neg (by omega)]

/-- The array as it has been read. -/
def asRead (elements : List (Element V)) : Nat → Element V := fun k => elements.getD k .hole

theorem slotsFrom_spec (elements : List (Element V)) (i : Nat) :
    (slotsFrom i elements).Pairwise (fun a b => a.pos < b.pos) ∧
      ∀ slot ∈ slotsFrom i elements, i ≤ slot.pos ∧
        elements[slot.pos - i]? = some (.value slot.val) := by
  induction elements generalizing i with
  | nil => simp [slotsFrom]
  | cons e es ih =>
    obtain ⟨hsorted, hslots⟩ := ih (i + 1)
    have hrest : ∀ slot ∈ slotsFrom (i + 1) es, i ≤ slot.pos ∧
        (e :: es)[slot.pos - i]? = some (.value slot.val) := fun slot hslot => by
      obtain ⟨hle, hget⟩ := hslots slot hslot
      refine ⟨by omega, ?_⟩
      rw [show slot.pos - i = slot.pos - (i + 1) + 1 by omega, List.getElem?_cons_succ, hget]
    cases e with
    | hole | undefined => exact ⟨hsorted, hrest⟩
    | value val =>
      refine ⟨List.pairwise_cons.mpr ⟨fun slot hslot => ?_, hsorted⟩, fun slot hslot => ?_⟩
      · exact (hslots slot hslot).1
      · rcases List.mem_cons.mp hslot with rfl | hslot
        · simp
        · exact hrest slot hslot

theorem length_slotsFrom (elements : List (Element V)) (i : Nat) :
    (slotsFrom i elements).length + undefinedCount elements ≤ elements.length := by
  unfold undefinedCount
  induction elements generalizing i with
  | nil => simp [slotsFrom]
  | cons e es ih =>
    have := ih (i + 1)
    cases e <;> simp [slotsFrom] <;> omega

/-- The sorted values come first, then the undefined ones; the rest of the array is holes. -/
theorem applyAll_writeSorted {elements : List (Element V)} {sorted : List (ValueSlot V)}
    (hperm : sorted.Perm (slotsFrom 0 elements)) :
    (writeSorted elements (fun _ => false) false sorted).2 = false ∧
      applyAll (writeSorted elements (fun _ => false) false sorted).1 (asRead elements) =
        asRead (sorted.map (fun slot => .value slot.val) ++
          List.replicate (undefinedCount elements) .undefined) := by
  have hlength : sorted.length + undefinedCount elements ≤ elements.length := by
    rw [hperm.length_eq]
    exact length_slotsFrom elements 0
  unfold writeSorted
  generalize undefinedCount elements = u at hlength ⊢
  obtain ⟨hwritten, hvalues⟩ := applyAll_writeBack 0 sorted (asRead elements) fun slot hslot _ => by
    obtain ⟨-, hget⟩ := (slotsFrom_spec elements 0).2 slot (hperm.mem_iff.mp hslot)
    simpa [asRead] using congrArg (Option.getD · .hole) hget
  obtain ⟨hundefined, hundefineds⟩ := applyAll_writeRest .setUndefined .undefined
    (fun n f => rfl) sorted.length u
    (applyAll (writeBack (fun _ => false) 0 sorted).1 (asRead elements))
  obtain ⟨hdeleted, hdeletes⟩ := applyAll_writeRest .delete .hole
    (fun n f => rfl) (sorted.length + u) (elements.length - (sorted.length + u))
    (applyAll (writeRest (fun _ => false) .setUndefined sorted.length u).1
      (applyAll (writeBack (fun _ => false) 0 sorted).1 (asRead elements)))
  simp only [Bool.false_eq_true, if_false, hwritten, hundefined, hdeleted, applyAll_append]
  refine ⟨trivial, funext fun k => ?_⟩
  rw [hdeletes k, hundefineds k, hvalues k]
  simp only [asRead, List.getD_eq_getElem?_getD, Nat.zero_le, if_true, Nat.sub_zero,
    List.getElem?_append, List.length_map]
  rcases Nat.lt_or_ge k sorted.length with hk | hk
  · have hrest : ¬sorted.length ≤ k := by omega
    have hlast : ¬sorted.length + u ≤ k := by omega
    simp [hk, hrest, hlast]
  · have hnone : sorted[k]? = none := List.getElem?_eq_none hk
    rcases Nat.lt_or_ge k (sorted.length + u) with hu | hu
    · have hlast : ¬sorted.length + u ≤ k := by omega
      have hin : k - sorted.length < u := by omega
      simp [hk.not_gt, hk, hu, hlast, hin]
    · have hout : ¬k - sorted.length < u := by omega
      simp only [hk.not_gt, if_false, hk, hu, hu.not_gt, hnone, List.getElem?_replicate, hout,
        true_and, and_false, Option.map_none, Option.getD_none]
      split
      · rfl
      · rw [List.getElem?_eq_none (by omega)]
        rfl

/-! ## The whole function -/

variable [DecidableEq V] [Inhabited V]

/-- Whatever the compare function answers, wherever it or a write throws: js_array_sort returns,
and the value of every slot is freed or written once. -/
theorem js_array_sort_total (script : Script V) (elements : List (Element V)) (readFails : Bool)
    (fails : Nat → Bool) :
    ∃ effects threw, jsArraySort script elements readFails fails = some (effects, threw) ∧
      (effects.filterMap Effect.slot?).Perm (slotsFrom 0 elements) := by
  unfold jsArraySort
  dsimp only
  split
  · exact ⟨_, _, rfl, by rw [slots_free]⟩
  · obtain ⟨u, t, ht, hperm, -⟩ := rqsort_spec (jsArrayCmpGeneric script)
      (slotsFrom 0 elements).length (slotArray (slotsFrom 0 elements))
    have hsorted := hperm.perm
    rw [map_slotArray] at hsorted
    rw [ht, Option.map_some]
    refine ⟨_, _, congrArg some (Prod.mk.eta).symm, ?_⟩
    rwa [slots_writeSorted]

/-- Nothing throws, and the comparisons are those of a total preorder of the slots. -/
theorem sorts_of_orders {script : Script V} {cmp : Nat → ValueSlot V → ValueSlot V → Int}
    {le : ValueSlot V → ValueSlot V → Prop} (hthrows : script.throwsAt = none)
    (hcmp : ∀ k a b, jsArrayCmpGeneric script k a b = if cmp k a b ≠ 0 then cmp k a b
      else (if a.pos > b.pos then 1 else 0) - (if a.pos < b.pos then 1 else 0))
    (horders : Orders cmp le) (elements : List (Element V)) :
    ∃ (effects : List (Effect V)) (sorted : List (ValueSlot V)),
      jsArraySort script elements false (fun _ => false) = some (effects, false) ∧
      sorted.Perm (slotsFrom 0 elements) ∧
      sorted.Pairwise (fun a b => le a b ∧ (le b a → a.pos < b.pos)) ∧
      applyAll effects (asRead elements) =
        asRead (sorted.map (fun slot => .value slot.val) ++
          List.replicate (undefinedCount elements) .undefined) := by
  have hfun : jsArrayCmpGeneric script = fun k a b => if cmp k a b ≠ 0 then cmp k a b
      else (if a.pos > b.pos then 1 else 0) - (if a.pos < b.pos then 1 else 0) :=
    funext fun k => funext fun a => funext fun b => hcmp k a b
  obtain ⟨u, t, ht, hpermutes, hsorted⟩ := rqsort_spec (jsArrayCmpGeneric script)
    (slotsFrom 0 elements).length (slotArray (slotsFrom 0 elements))
  have hperm := hpermutes.perm
  rw [map_slotArray] at hperm
  have hpairwise := (hsorted _ (hfun ▸ orders_slotOrder horders)).pairwise
  obtain ⟨hfails, hresult⟩ := applyAll_writeSorted hperm
  have hthrew : script.throwsAt.any (· < t.calls) = false := by rw [hthrows]; rfl
  refine ⟨_, _, ?_, hperm, ?_, hresult⟩
  · unfold jsArraySort
    dsimp only
    rw [if_neg (by simp), ht, Option.map_some]
    dsimp only
    rw [hthrew]
    exact congrArg some (Prod.ext rfl hfails)
  · -- the slots have positions of their own
    have hne : ((List.range (slotsFrom 0 elements).length).map t.elements).Pairwise
        fun a b => a.pos ≠ b.pos :=
      (hperm.pairwise_iff fun h => Ne.symm h).mpr
        ((slotsFrom_spec elements 0).1.imp fun h => Nat.ne_of_lt h)
    exact (hpairwise.and hne).imp fun h =>
      ⟨h.1.1, fun hba => Nat.lt_of_le_of_ne (h.1.2 hba) h.2⟩

end IoQuickJS.ArraySort

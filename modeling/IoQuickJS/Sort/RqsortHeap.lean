import IoQuickJS.Sort.Rqsort

/-!
# The heap sort of rqsort

Every specification has two parts: what holds for any comparison function, which is that the
program ends, stays inside its segment and permutes it; and what holds when the answers are those
of a total preorder (`Orders`).

## Main results

* `heapsortx_spec`: heapsortx permutes its segment, and sorts it.
-/
namespace IoQuickJS.Rqsort

open Total Segment

variable {α : Type} {cmp : Nat → α → α → Int} {limit : Nat} {r : α → α → Prop} {s : Memory α}

/-- The comparison function answers as the total preorder does. -/
structure Orders (cmp : Nat → α → α → Int) (r : α → α → Prop) : Prop where
  total : ∀ a b, r a b ∨ r b a
  trans : ∀ a b c, r a b → r b c → r a c
  le : ∀ k a b, cmp k a b ≤ 0 ↔ r a b
  ge : ∀ k a b, 0 ≤ cmp k a b ↔ r b a

/-! ## Comparisons and exchanges -/

theorem compare_spec {i j : Nat} (hi : i < limit) (hj : j < limit) :
    Ensures (compare cmp limit i j) s fun c t => t.elements = s.elements ∧
      (Orders cmp r → (c ≤ 0 ↔ r (s.elements i) (s.elements j)) ∧
        (0 ≤ c ↔ r (s.elements j) (s.elements i))) := by
  refine ⟨_, { s with calls := s.calls + 1 }, ?_, rfl,
    fun ho => ⟨ho.le s.calls _ _, ho.ge s.calls _ _⟩⟩
  rw [compare, if_pos ⟨hi, hj⟩]

theorem swap_spec {i j : Nat} (hi : i < limit) (hj : j < limit) :
    Ensures (swap limit i j) s fun _ t => t.elements = exchange s.elements i j := by
  refine ⟨(), { s with elements := exchange s.elements i j }, ?_, rfl⟩
  rw [swap, if_pos ⟨hi, hj⟩]

/-! ## Heaps -/

def IsChild (c p : Nat) : Prop := c = p * 2 + 1 ∨ c = p * 2 + 2

/-- From `first` on, no element of the heap is smaller than its children. -/
def Heap (r : α → α → Prop) (base n first : Nat) (f : Nat → α) : Prop :=
  ∀ p c, first ≤ p → IsChild c p → c < n → r (f (base + c)) (f (base + p))

/-- So it is except at `x`, whose children are not greater than its parent either. -/
structure HeapBut (r : α → α → Prop) (base n first x : Nat) (f : Nat → α) : Prop where
  other : ∀ p c, first ≤ p → p ≠ x → IsChild c p → c < n → r (f (base + c)) (f (base + p))
  grand : ∀ p c, first ≤ p → IsChild x p → IsChild c x → c < n → r (f (base + c)) (f (base + p))

/-- The element at `x` is exchanged with its larger child. -/
theorem HeapBut.down {base n first x c : Nat} {f : Nat → α} (h : HeapBut r base n first x f)
    (hfirst : first ≤ x) (hc : IsChild c x) (hcn : c < n)
    (hlarger : ∀ d, IsChild d x → d < n → r (f (base + d)) (f (base + c)))
    (hle : r (f (base + x)) (f (base + c))) :
    HeapBut r base n first c (exchange f (base + x) (base + c)) := by
  have hxc : x < c := by
    rcases hc with rfl | rfl <;> omega
  constructor
  · intro p d hp hpc hd hdn
    have hd' := hd
    by_cases hpx : p = x
    · subst hpx
      rw [exchange_left]
      by_cases hdc : d = c
      · rw [hdc, exchange_right]
        exact hle
      · have hdp : d ≠ p := by rcases hd with rfl | rfl <;> omega
        rw [exchange_of_ne (by omega) (by omega)]
        exact hlarger d hd hdn
    · -- the parent of `x`, or one that has nothing to do with the exchange
      rw [exchange_of_ne (i := base + x) (k := base + p) (by omega) (by omega)]
      have hdc : d ≠ c := fun heq => hpx (by
        rcases hd with hd | hd <;> rcases hc with hc | hc <;> omega)
      by_cases hdx : d = x
      · subst hdx
        rw [exchange_left]
        exact h.grand p c hp hd hc hcn
      · rw [exchange_of_ne (by omega) (by omega)]
        exact h.other p d hp hpx hd hdn
  · intro p d hp hpc hd hdn
    have hpx : p = x := by
      rcases hpc with hpc | hpc <;> rcases hc with hc | hc <;> omega
    subst hpx
    have hcd : c < d := by rcases hd with rfl | rfl <;> omega
    rw [exchange_left, exchange_of_ne (by omega) (by omega)]
    exact h.other c d (by omega) (by omega) hd hdn

/-- Nothing is left to do when no child is greater. -/
theorem HeapBut.stop {base n first x : Nat} {f : Nat → α} (h : HeapBut r base n first x f)
    (hx : ∀ c, IsChild c x → c < n → r (f (base + c)) (f (base + x))) :
    Heap r base n first f := by
  intro p c hp hc hcn
  by_cases hpx : p = x
  · subst hpx
    exact hx c hc hcn
  · exact h.other p c hp hpx hc hcn

theorem largerChild_spec {base n c : Nat} (hbase : base + n ≤ limit) (hc : c < n) :
    Ensures (largerChild cmp limit base n c) s fun c' t => t.elements = s.elements ∧
      (c' = c ∨ c' = c + 1) ∧ c' < n ∧
      (Orders cmp r → ∀ d, d = c ∨ d = c + 1 → d < n →
        r (s.elements (base + d)) (s.elements (base + c'))) := by
  unfold largerChild
  refine .ite (fun hlast => ?_) fun hlast => ?_
  · refine (compare_spec (r := r) (by omega) (by omega)).bind fun d t hcmp => .pure ?_
    obtain ⟨ht, hd⟩ := hcmp
    refine ⟨ht, ?_, ?_, fun ho k hk hkn => ?_⟩
    · split <;> simp
    · split <;> omega
    · obtain ⟨hle, hge⟩ := hd ho
      have hrefl : ∀ a, r a a := fun a => (ho.total a a).elim id id
      split
      · next hneg =>
        rcases hk with rfl | rfl
        · exact hle.mp hneg
        · exact hrefl _
      · rcases hk with rfl | rfl
        · exact hrefl _
        · exact hge.mp (by omega)
  · refine .pure ⟨rfl, .inl rfl, hc, fun ho k hk hkn => ?_⟩
    obtain rfl : k = c := by omega
    exact (ho.total _ _).elim id id

theorem siftDown_spec {base n first x fuel : Nat} (hbase : base + n ≤ limit) (hfirst : first ≤ x)
    (hfuel : n - x < fuel) :
    Ensures (siftDown cmp limit base n fuel x) s fun _ t =>
      Permutes base (base + n) s.elements t.elements ∧
      (Orders cmp r → HeapBut r base n first x s.elements → Heap r base n first t.elements) := by
  induction fuel generalizing x s with
  | zero => omega
  | succ fuel ih =>
    rw [siftDown]
    refine .ite (fun hchild => ?_) fun hchild => ?_
    · refine (largerChild_spec (r := r) hbase hchild).bind fun c t hc => ?_
      obtain ⟨ht, hwhich, hcn, hlarger⟩ := hc
      have hcx : IsChild c x := by unfold IsChild; omega
      refine (compare_spec (r := r) (by omega) (by omega)).bind fun d u hd => ?_
      obtain ⟨hu, hd⟩ := hd
      rw [ht] at hu hd
      refine .ite (fun hpos => .pure ?_) fun hpos => ?_
      · rw [hu]
        refine ⟨.refl, fun ho h => h.stop fun c' hc' hcn' => ?_⟩
        have hc := hlarger ho c' (by unfold IsChild at hc'; omega) hcn'
        exact ho.trans _ _ _ hc ((hd ho).2.mp (by omega))
      · refine (swap_spec (by omega) (by omega)).bind fun _ v hv => ?_
        rw [hu] at hv
        refine (ih (s := v) (x := c) (by omega) (by omega)).mono fun _ w hw => ?_
        obtain ⟨hperm, hheap⟩ := hw
        rw [hv] at hperm hheap
        refine ⟨(permutes_exchange (by omega) (by omega)).trans hperm, fun ho h => hheap ho ?_⟩
        refine h.down hfirst hcx hcn (fun d hd' hdn => hlarger ho d ?_ hdn)
          ((hd ho).1.mp (by omega))
        unfold IsChild at hd'
        omega
    · refine .pure ⟨.refl, fun _ h => h.stop fun c hc hcn => ?_⟩
      unfold IsChild at hc
      omega

theorem heapify_spec {base n i : Nat} (hbase : base + n ≤ limit) :
    Ensures (heapify cmp limit base n i) s fun _ t =>
      Permutes base (base + n) s.elements t.elements ∧
      (Orders cmp r → Heap r base n i s.elements → Heap r base n 0 t.elements) := by
  induction i generalizing s with
  | zero => exact .pure ⟨.refl, fun _ h => h⟩
  | succ i ih =>
    refine (siftDown_spec (r := r) hbase (Nat.le_refl _) (by omega)).bind
      fun _ t ht => ?_
    refine ih.mono fun _ u hu => ⟨ht.1.trans hu.1, fun ho h => hu.2 ho (ht.2 ho ?_)⟩
    refine ⟨fun p c hp hpi hc hcn => h p c (by omega) hc hcn, fun p c hp hpi => ?_⟩
    unfold IsChild at hpi
    omega

/-- The first element of a heap is the greatest. -/
theorem Heap.le_first {base n : Nat} {f : Nat → α} (ho : Orders cmp r) (h : Heap r base n 0 f)
    (c : Nat) (hc : c < n) : r (f (base + c)) (f base) := by
  induction c using Nat.strongRecOn with
  | _ c ih =>
    by_cases hzero : c = 0
    · subst hzero
      exact (ho.total _ _).elim id id
    · have hchild : IsChild c ((c - 1) / 2) := by unfold IsChild; omega
      exact ho.trans _ _ _ (h _ c (Nat.zero_le _) hchild hc)
        (ih ((c - 1) / 2) (by omega) (by omega))

/-- The heap shrinks from its end, where the greatest elements come. -/
theorem extractMax_spec {base i n : Nat} (hi : i < n) (hbase : base + n ≤ limit) :
    Ensures (extractMax cmp limit base i) s fun _ t =>
      Permutes base (base + (i + 1)) s.elements t.elements ∧
      (Orders cmp r → Heap r base (i + 1) 0 s.elements →
        SortedOn r base (base + (i + 1)) t.elements) := by
  induction i generalizing s with
  | zero =>
    refine .pure ⟨.refl, fun _ _ j k hj hjk hk => ?_⟩
    omega
  | succ i ih =>
    refine (swap_spec (by omega) (by omega)).bind fun _ t ht => ?_
    refine (siftDown_spec (r := r) (x := 0) (by omega) (Nat.le_refl _)
      (by omega)).bind fun _ u hu => ?_
    obtain ⟨hperm, hheap⟩ := hu
    refine (ih (s := u) (by omega)).mono fun _ v hv => ?_
    obtain ⟨hperm', hsorted⟩ := hv
    rw [ht] at hperm hheap
    have hrest : Permutes base (base + (i + 1)) (exchange s.elements base (base + (i + 1)))
        v.elements := hperm.trans hperm'
    refine ⟨(permutes_exchange (by omega) (by omega)).trans (hrest.mono (Nat.le_refl _) (by omega)),
      fun ho h j k hj hjk hk => ?_⟩
    have hmax : ∀ k, base ≤ k → k < base + (i + 1) →
        r (exchange s.elements base (base + (i + 1)) k) (s.elements base) := fun k hk hki => by
      by_cases hkb : k = base
      · rw [hkb, exchange_left]
        exact h.le_first ho (i + 1) (by omega)
      · rw [exchange_of_ne hkb (by omega)]
        have := h.le_first ho (k - base) (by omega)
        rwa [Nat.add_sub_cancel' hk] at this
    by_cases hlast : k = base + (i + 1)
    · have hend : v.elements k = s.elements base := by
        rw [hlast, hrest.outside (by omega), exchange_right]
      rw [hend]
      exact hrest.forall (p := fun a => r a (s.elements base)) hmax j hj (by omega)
    · refine hsorted ho (hheap ho ⟨fun p c hp hpx hc hcn => ?_, fun p c hp hpx => ?_⟩) j k hj hjk
        (by omega)
      · have hcp : p < c ∧ c ≠ 0 := by unfold IsChild at hc; omega
        rw [exchange_of_ne (by omega) (by omega), exchange_of_ne (by omega) (by omega)]
        exact h p c (Nat.zero_le _) hc (by omega)
      · unfold IsChild at hpx
        omega

theorem heapsortx_spec {base n : Nat} (hbase : base + n ≤ limit) :
    Ensures (heapsortx cmp limit base n) s fun _ t =>
      Permutes base (base + n) s.elements t.elements ∧
      (Orders cmp r → SortedOn r base (base + n) t.elements) := by
  unfold heapsortx
  refine .ite (fun hn => ?_) fun hn => .pure ⟨.refl, fun _ j k hj hjk hk => by omega⟩
  refine (heapify_spec (r := r) hbase).bind fun _ t ht => ?_
  refine (extractMax_spec (r := r) (i := n - 1) (n := n) (by omega) hbase).mono fun _ u hu => ?_
  rw [Nat.sub_add_cancel (by omega)] at hu
  refine ⟨ht.1.trans hu.1, fun ho => hu.2 ho (ht.2 ho fun p c hp hc hcn => ?_)⟩
  unfold IsChild at hc
  omega

end IoQuickJS.Rqsort

import IoQuickJS.Sort.RqsortParts

/-!
# rqsort sorts, and for any comparison function it is safe

The segments on the stack and the one being divided are disjoint parts of the array (`Layout`),
and elements that are in no common segment are in order (`Settled`). The depths of the entries
grow from the bottom of the stack to its top, and a segment is divided 50 times at most, so 50
entries are enough.

## Main results

* `rqsort_spec`: rqsort ends, accesses elements of the array only, does not overflow its stack and
  permutes the array, whatever the comparison function answers; and when it answers as a total
  preorder does, the array is sorted.
-/
namespace IoQuickJS.Rqsort

open Total Segment

variable {α : Type} {cmp : Nat → α → α → Int} {limit : Nat} {r : α → α → Prop} {s : Memory α}
  {f g : Nat → α} {ptr n : Nat}

/-! ## Insertion sort -/

/-- The element at `ptr + j` goes down to its place in a segment that is sorted but for it. -/
theorem insertDown_spec {j : Nat} (hi : Nat) (hj : ptr + j < hi) (hhi : hi ≤ limit) :
    Ensures (insertDown cmp limit ptr j) s fun _ t =>
      Permutes ptr hi s.elements t.elements ∧
      (Orders cmp r →
        (∀ a b, ptr ≤ a → a < b → b < hi → a ≠ ptr + j → b ≠ ptr + j →
          r (s.elements a) (s.elements b)) →
        (∀ b, ptr + j < b → b < hi → r (s.elements (ptr + j)) (s.elements b)) →
        SortedOn r ptr hi t.elements) := by
  induction j generalizing s with
  | zero =>
    refine .pure ⟨.refl, fun _ hother habove a b ha hab hb => ?_⟩
    by_cases hfirst : a = ptr
    · exact hfirst ▸ habove b (by omega) hb
    · exact hother a b ha hab hb hfirst (by omega)
  | succ j ih =>
    rw [insertDown]
    refine (compare_spec (r := r) (by omega) (by omega)).bind fun c t hc => ?_
    obtain ⟨ht, hc⟩ := hc
    refine .ite (fun hpos => ?_) fun hpos => .pure ?_
    · refine (swap_spec (by omega) (by omega)).bind fun _ u hu => ?_
      rw [ht] at hu
      refine (ih (s := u) (by omega)).mono fun _ w hw => ?_
      obtain ⟨hperm, hsorted⟩ := hw
      rw [hu] at hperm hsorted
      refine ⟨(permutes_exchange (by omega) (by omega)).trans hperm,
        fun ho hother habove => hsorted ho (fun a b ha hab hb hna hnb => ?_) fun b hjb hb => ?_⟩
      · -- the element that was below is now at `ptr + (j + 1)`
        by_cases hb' : b = ptr + (j + 1)
        · rw [hb', exchange_left, exchange_of_ne (by omega) (by omega)]
          exact hother a (ptr + j) ha (by omega) (by omega) (by omega) (by omega)
        · by_cases ha' : a = ptr + (j + 1)
          · rw [ha', exchange_left, exchange_of_ne (by omega) (by omega)]
            exact hother (ptr + j) b (by omega) (by omega) hb (by omega) (by omega)
          · rw [exchange_of_ne ha' hna, exchange_of_ne hb' hnb]
            exact hother a b ha hab hb ha' hb'
      · rw [exchange_right]
        by_cases hb' : b = ptr + (j + 1)
        · rw [hb', exchange_left]
          exact (hc ho).2.mp (by omega)
        · rw [exchange_of_ne hb' (by omega)]
          exact habove b (by omega) hb
    · rw [ht]
      refine ⟨.refl, fun ho hother habove a b ha hab hb => ?_⟩
      have hle : r (s.elements (ptr + j)) (s.elements (ptr + (j + 1))) := (hc ho).1.mp (by omega)
      by_cases hna : a = ptr + (j + 1)
      · exact hna ▸ habove b (by omega) hb
      · by_cases hnb : b = ptr + (j + 1)
        · rw [hnb]
          by_cases haj : a = ptr + j
          · exact haj ▸ hle
          · exact ho.trans _ _ _ (hother a (ptr + j) ha (by omega) (by omega) hna (by omega)) hle
        · exact hother a b ha hab hb hna hnb

theorem insertionSort_spec {k i : Nat} (hi : k = 0 ∨ 1 ≤ i) (hlimit : ptr + (i + k) ≤ limit) :
    Ensures (insertionSort cmp limit ptr k i) s fun _ t =>
      Permutes ptr (ptr + (i + k)) s.elements t.elements ∧
      (Orders cmp r → SortedOn r ptr (ptr + i) s.elements →
        SortedOn r ptr (ptr + (i + k)) t.elements) := by
  induction k generalizing i s with
  | zero => exact .pure ⟨.refl, fun _ h => h⟩
  | succ k ih =>
    rw [insertionSort]
    refine (insertDown_spec (r := r) (ptr + (i + 1)) (by omega) (by omega)).bind
      fun _ t ht => ?_
    obtain ⟨hperm, hsorted⟩ := ht
    refine (ih (s := t) (i := i + 1) (by omega) (by omega)).mono fun _ u hu => ?_
    obtain ⟨hperm', hsorted'⟩ := hu
    rw [show i + 1 + k = i + (k + 1) by omega] at hperm' hsorted'
    refine ⟨(hperm.mono (Nat.le_refl _) (by omega)).trans hperm', fun ho h => hsorted' ho ?_⟩
    refine hsorted ho (fun a b ha hab hb hna hnb => h a b ha hab (by omega)) fun b hib hb => ?_
    omega

/-! ## The segments that are to be sorted -/

/-- The segments are disjoint parts of the array. -/
structure Layout (n : Nat) (segs : List (Nat × Nat)) : Prop where
  inside : ∀ e ∈ segs, e.1 + e.2 ≤ n
  disjoint : segs.Pairwise fun a b => a.1 + a.2 ≤ b.1 ∨ b.1 + b.2 ≤ a.1

/-- Elements that are in no common segment are in order. -/
def Settled (r : α → α → Prop) (n : Nat) (segs : List (Nat × Nat)) (f : Nat → α) : Prop :=
  ∀ i j, i < j → j < n → (∃ e ∈ segs, e.1 ≤ i ∧ j < e.1 + e.2) ∨ r (f i) (f j)

section Segments

variable {p c : Nat} {segs segs' : List (Nat × Nat)}

theorem Layout.tail (h : Layout n ((p, c) :: segs)) : Layout n segs :=
  ⟨fun e he => h.inside e (List.mem_cons_of_mem _ he), (List.pairwise_cons.mp h.disjoint).2⟩

/-- A segment is replaced by a part of it. -/
theorem Layout.shrink {p' c' : Nat} (h : Layout n ((p, c) :: segs)) (hp : p ≤ p')
    (hc : p' + c' ≤ p + c) : Layout n ((p', c') :: segs) := by
  obtain ⟨hfirst, hrest⟩ := List.pairwise_cons.mp h.disjoint
  have hinside := h.inside (p, c) List.mem_cons_self
  refine ⟨fun e he => ?_, List.pairwise_cons.mpr ⟨fun e he => ?_, hrest⟩⟩
  · rcases List.mem_cons.mp he with rfl | he
    · dsimp only at hinside ⊢
      omega
    · exact h.inside e (List.mem_cons_of_mem _ he)
  · have := hfirst e he
    dsimp only at this ⊢
    omega

/-- A segment is replaced by two disjoint parts of it. -/
theorem Layout.split {p₁ c₁ p₂ c₂ : Nat} (h : Layout n ((p, c) :: segs)) (hp₁ : p ≤ p₁)
    (hc₁ : p₁ + c₁ ≤ p + c) (hp₂ : p ≤ p₂) (hc₂ : p₂ + c₂ ≤ p + c)
    (hdisjoint : p₁ + c₁ ≤ p₂ ∨ p₂ + c₂ ≤ p₁) :
    Layout n ((p₁, c₁) :: (p₂, c₂) :: segs) := by
  have h₁ := h.shrink hp₁ hc₁
  have h₂ := h.shrink hp₂ hc₂
  refine ⟨fun e he => ?_, List.pairwise_cons.mpr ⟨fun e he => ?_, h₂.disjoint⟩⟩
  · rcases List.mem_cons.mp he with rfl | he
    · exact h₁.inside _ List.mem_cons_self
    · exact h₂.inside e he
  · rcases List.mem_cons.mp he with rfl | he
    · exact hdisjoint
    · exact (List.pairwise_cons.mp h₁.disjoint).1 e he

/-- Permuting a segment does not disturb what is settled. -/
theorem Settled.permute (h : Settled r n ((p, c) :: segs) f) (hl : Layout n ((p, c) :: segs))
    (hperm : Permutes p (p + c) f g) : Settled r n ((p, c) :: segs) g := by
  -- an element of the segment shares no other segment with anything
  have halone : ∀ e ∈ (p, c) :: segs, ∀ k, p ≤ k → k < p + c → e.1 ≤ k → k < e.1 + e.2 →
      e = (p, c) := fun e he k hk hkc hek hke => by
    rcases List.mem_cons.mp he with rfl | he
    · rfl
    · have := (List.pairwise_cons.mp hl.disjoint).1 e he
      dsimp only at this
      omega
  intro i j hij hj
  by_cases hi : p ≤ i ∧ i < p + c
  · by_cases hj' : j < p + c
    · exact .inl ⟨(p, c), List.mem_cons_self, hi.1, hj'⟩
    · obtain ⟨i', hi', heq⟩ := hperm.source hi
      refine .inr ?_
      rw [heq, hperm.outside (k := j) (by omega)]
      refine (h i' j (by omega) hj).resolve_left ?_
      rintro ⟨e, he, hei, hje⟩
      have := halone e he i' hi'.1 hi'.2 hei (by omega)
      subst this
      dsimp only at hje
      omega
  · by_cases hj' : p ≤ j ∧ j < p + c
    · obtain ⟨j', hj'', heq⟩ := hperm.source hj'
      have hn := hl.inside (p, c) List.mem_cons_self
      dsimp only at hn
      refine .inr ?_
      rw [heq, hperm.outside (k := i) hi]
      refine (h i j' (by omega) (by omega)).resolve_left ?_
      rintro ⟨e, he, hei, hje⟩
      have := halone e he j' hj''.1 hj''.2 (by omega) hje
      subst this
      dsimp only at hei
      omega
    · rw [hperm.outside hi, hperm.outside hj']
      exact h i j hij hj

/-- A segment that has been sorted is settled. -/
theorem Settled.sorted (h : Settled r n ((p, c) :: segs) f) (hsorted : SortedOn r p (p + c) f)
    (hsub : ∀ e ∈ segs, e ∈ segs') : Settled r n segs' f := by
  intro i j hij hj
  rcases h i j hij hj with ⟨e, he, hei, hje⟩ | hr
  · rcases List.mem_cons.mp he with rfl | he
    · exact .inr (hsorted i j hei hij hje)
    · exact .inl ⟨e, hsub e he, hei, hje⟩
  · exact .inr hr

/-- A segment that has been divided is settled but for its two outer parts. -/
theorem Settled.divide {v : α} {lt gt : Nat} (ho : Orders cmp r)
    (h : Settled r n ((p, c) :: segs) f) (hparts : ThreeParts r v p lt gt c f)
    (hle : lt < gt ∧ gt ≤ c) (hleft : (p, lt) ∈ segs') (hright : (p + gt, c - gt) ∈ segs')
    (hsub : ∀ e ∈ segs, e ∈ segs') : Settled r n segs' f := by
  have hbelow : ∀ k, k < gt → r (f (p + k)) v := fun k hk => by
    by_cases hkl : k < lt
    · exact (ho.total _ _).resolve_left (hparts.less k hkl)
    · exact (hparts.equal k (by omega) hk).2
  have habove : ∀ k, lt ≤ k → k < c → r v (f (p + k)) := fun k hk hkc => by
    by_cases hkg : k < gt
    · exact (hparts.equal k hk hkg).1
    · exact (ho.total _ _).resolve_left (hparts.greater k (by omega) hkc)
  intro i j hij hj
  rcases h i j hij hj with ⟨e, he, hei, hje⟩ | hr
  · rcases List.mem_cons.mp he with rfl | he
    · dsimp only at hei hje
      by_cases hj' : j < p + lt
      · exact .inl ⟨_, hleft, hei, hj'⟩
      · by_cases hi' : p + gt ≤ i
        · exact .inl ⟨_, hright, hi', by dsimp only; omega⟩
        · have hi := hbelow (i - p) (by omega)
          have hj := habove (j - p) (by omega) (by omega)
          rw [Nat.add_sub_cancel' (by omega)] at hi hj
          exact .inr (ho.trans _ _ _ hi hj)
    · exact .inl ⟨e, hsub e he, hei, hje⟩
  · exact .inr hr

end Segments

/-! ## The stack -/

/-- The depths of the entries decrease from `depth` on. -/
def Deep : Nat → List Entry → Prop
  | _, [] => True
  | depth, e :: stack => 1 ≤ e.depth ∧ e.depth ≤ depth ∧ Deep (e.depth - 1) stack

theorem Deep.mono {d d' : Nat} {stack : List Entry} (h : Deep d stack) (hd : d ≤ d') :
    Deep d' stack := by
  cases stack with
  | nil => trivial
  | cons e stack => exact ⟨h.1, Nat.le_trans h.2.1 hd, h.2.2⟩

/-- There are not more entries than depths. -/
theorem Deep.length_le {d : Nat} {stack : List Entry} (h : Deep d stack) : stack.length ≤ d := by
  induction stack generalizing d with
  | nil => exact Nat.zero_le _
  | cons e stack ih =>
    obtain ⟨hone, hle, hrest⟩ := h
    have := ih hrest
    simp only [List.length_cons]
    omega

theorem push_spec {depth : Nat} {stack : List Entry} {e : Entry} (h : Deep depth stack)
    (hdepth : depth < 50) :
    Ensures (push stack e) s fun x t => t = s ∧ x = e :: stack := by
  unfold push
  have hlength := h.length_le
  rw [if_pos (by omega)]
  exact .pure ⟨rfl, rfl⟩

def Entry.segment (e : Entry) : Nat × Nat := (e.base, e.count)

/-- What the segments may still cost. -/
def weight : List (Nat × Nat) → Nat
  | [] => 0
  | e :: segs => 2 * e.2 + 1 + weight segs

theorem weight_cons (e : Nat × Nat) (segs : List (Nat × Nat)) :
    weight (e :: segs) = 2 * e.2 + 1 + weight segs := rfl

/-- What the loop over a segment leaves: a segment that is small or sorted, on a stack with the
others. -/
structure Divided (cmp : Nat → α → α → Int) (r : α → α → Prop) (n : Nat)
    (segs : List (Nat × Nat)) (f : Nat → α) (x : List Entry × Nat × Nat) (g : Nat → α) : Prop where
  permutes : Permutes 0 n f g
  layout : Layout n (x.2 :: x.1.map Entry.segment)
  deep : Deep 50 x.1
  weight_le : weight (x.2 :: x.1.map Entry.segment) ≤ weight segs
  settled : Orders cmp r → Settled r n segs f → Settled r n (x.2 :: x.1.map Entry.segment) g

/-- One more pass before the others. -/
theorem Divided.after {h : Nat → α} {segs segs' : List (Nat × Nat)}
    {x : List Entry × Nat × Nat} (hd : Divided cmp r n segs' g x h) (hperm : Permutes 0 n f g)
    (hweight : weight segs' ≤ weight segs)
    (hsettled : Orders cmp r → Settled r n segs f → Settled r n segs' g) :
    Divided cmp r n segs f x h :=
  ⟨hperm.trans hd.permutes, hd.layout, hd.deep, Nat.le_trans hd.weight_le hweight,
    fun ho hs => hd.settled ho (hsettled ho hs)⟩

theorem divide_spec {fuel ptr count depth : Nat} {stack : List Entry}
    (hl : Layout n ((ptr, count) :: stack.map Entry.segment)) (hdeep : Deep depth stack)
    (hdepth : depth ≤ 50) (hfuel : count < fuel) :
    Ensures (divide cmp n fuel stack ptr count depth) s fun x t =>
      Divided cmp r n ((ptr, count) :: stack.map Entry.segment) s.elements x t.elements := by
  induction fuel generalizing stack ptr count depth s with
  | zero => omega
  | succ fuel ih =>
    have hinside := hl.inside _ List.mem_cons_self
    dsimp only at hinside
    rw [IoQuickJS.Rqsort.divide]
    refine .ite (fun hcount => .ite (fun hfifty => ?_) fun hfifty => ?_) fun hcount => ?_
    · -- the heap sort
      refine (heapsortx_spec (r := r) hinside).bind fun _ t ht => .pure ?_
      obtain ⟨hperm, hsorted⟩ := ht
      refine ⟨hperm.mono (Nat.zero_le _) hinside, hl.shrink (Nat.le_refl _) (by omega),
        hdeep.mono hdepth, ?_, fun ho hs => ?_⟩
      · simp only [weight_cons]
        omega
      · exact (hs.permute hl hperm).sorted (hsorted ho) fun e he => List.mem_cons_of_mem _ he
    · refine (divideOnce_spec (r := r) hcount hinside).bind fun x t ht => ?_
      obtain ⟨lt, gt⟩ := x
      obtain ⟨hperm, hle, hparts⟩ := ht
      dsimp only at hle hparts ⊢
      -- both ways to go on: the larger part is pushed, the smaller one is divided
      have hgo : ∀ p₁ c₁ p₂ c₂, c₁ < count → 2 * c₁ + 2 * c₂ + 2 ≤ 2 * count + 1 →
          Layout n ((p₁, c₁) :: (p₂, c₂) :: stack.map Entry.segment) →
          (Orders cmp r → Settled r n ((ptr, count) :: stack.map Entry.segment) s.elements →
            Settled r n ((p₁, c₁) :: (p₂, c₂) :: stack.map Entry.segment) t.elements) →
          Ensures (do
            let stack ← push stack ⟨p₂, c₂, depth + 1⟩
            IoQuickJS.Rqsort.divide cmp n fuel stack p₁ c₁ (depth + 1)) t fun x u =>
              Divided cmp r n ((ptr, count) :: stack.map Entry.segment) s.elements x u.elements :=
        fun p₁ c₁ p₂ c₂ hc₁ hc₂ hlayout hsettled => by
        refine (push_spec hdeep (by omega)).bind fun stack' u hu => ?_
        obtain ⟨rfl, rfl⟩ := hu
        have hdeep' : Deep (depth + 1) (⟨p₂, c₂, depth + 1⟩ :: stack) :=
          ⟨Nat.le_add_left _ _, Nat.le_refl _, hdeep⟩
        refine (ih hlayout hdeep' (by omega) (by omega)).mono
          fun y w hy => hy.after (hperm.mono (Nat.zero_le _) hinside) ?_ hsettled
        simp only [List.map_cons, weight_cons, Entry.segment]
        omega
      have hsettled : ∀ segs', (ptr, lt) ∈ segs' → (ptr + gt, count - gt) ∈ segs' →
          (∀ e ∈ stack.map Entry.segment, e ∈ segs') → Orders cmp r →
          Settled r n ((ptr, count) :: stack.map Entry.segment) s.elements →
          Settled r n segs' t.elements := fun segs' hleft hright hsub ho hs => by
        obtain ⟨v, hv⟩ := hparts ho
        exact (hs.permute hl hperm).divide ho hv hle hleft hright hsub
      refine .ite (fun hlarger => ?_) fun hlarger => ?_
      · refine hgo (ptr + gt) (count - gt) ptr lt (by omega) (by omega) ?_
          (hsettled _ (by simp) (by simp) fun e he => by simp [he])
        exact hl.split (by omega) (by omega) (by omega) (by omega) (by omega)
      · refine hgo ptr lt (ptr + gt) (count - gt) (by omega) (by omega) ?_
          (hsettled _ (by simp) (by simp) fun e he => by simp [he])
        exact hl.split (by omega) (by omega) (by omega) (by omega) (by omega)
    · exact .pure ⟨.refl, hl, hdeep.mono hdepth, Nat.le_refl _, fun _ hs => hs⟩

/-- The entry on top may have been divided up to 50 times; the others less often. -/
def Stacked : List Entry → Prop
  | [] => True
  | e :: stack => e.depth ≤ 50 ∧ Deep e.depth stack

theorem Deep.stacked {stack : List Entry} (h : Deep 50 stack) : Stacked stack := by
  cases stack with
  | nil => trivial
  | cons e stack => exact ⟨h.2.1, h.2.2.mono (Nat.sub_le _ _)⟩

theorem sortStack_spec {fuel : Nat} {stack : List Entry}
    (hl : Layout n (stack.map Entry.segment)) (hstack : Stacked stack)
    (hfuel : weight (stack.map Entry.segment) < fuel) :
    Ensures (sortStack cmp n fuel stack) s fun _ t => Permutes 0 n s.elements t.elements ∧
      (Orders cmp r → Settled r n (stack.map Entry.segment) s.elements →
        SortedOn r 0 n t.elements) := by
  induction fuel generalizing stack s with
  | zero => omega
  | succ fuel ih =>
    cases stack with
    | nil =>
      refine .pure ⟨.refl, fun _ hs i j _ hij hj => ?_⟩
      exact (hs i j hij hj).resolve_left fun ⟨e, he, _⟩ => by cases he
    | cons e stack =>
      rw [sortStack]
      refine (divide_spec (r := r) hl hstack.2 hstack.1
        (Nat.lt_succ_self _)).bind fun x t hx => ?_
      obtain ⟨stack', ptr, count⟩ := x
      dsimp only at hx ⊢
      have hinside := hx.layout.inside _ List.mem_cons_self
      dsimp only at hinside
      -- a segment of at least one element is sorted from its second element on
      have hinsert : Ensures (insertionSort cmp n ptr (count - 1) 1) t fun _ u =>
          Permutes ptr (ptr + count) t.elements u.elements ∧
          (Orders cmp r → SortedOn r ptr (ptr + count) u.elements) := by
        by_cases hempty : count = 0
        · subst hempty
          exact .pure ⟨.refl, fun _ i j hi hij hj => by omega⟩
        · refine (insertionSort_spec (r := r) (.inr (Nat.le_refl _)) (by omega)).mono
            fun _ u hu => ?_
          rw [Nat.add_sub_cancel' (by omega)] at hu
          exact ⟨hu.1, fun ho => hu.2 ho fun i j hi hij hj => by omega⟩
      refine hinsert.bind fun _ u hu => ?_
      obtain ⟨hperm, hsorted⟩ := hu
      have hweight := hx.weight_le
      rw [weight_cons] at hweight
      refine (ih (s := u) hx.layout.tail hx.deep.stacked ?_).mono fun _ w hw => ?_
      · dsimp only
        change weight ((e :: stack).map Entry.segment) < fuel + 1 at hfuel
        change 2 * count + 1 + weight (stack'.map Entry.segment) ≤
          weight ((e :: stack).map Entry.segment) at hweight
        omega
      · obtain ⟨hperm', hsorted'⟩ := hw
        refine ⟨(hx.permutes.trans (hperm.mono (Nat.zero_le _) hinside)).trans hperm',
          fun ho hs => hsorted' ho ?_⟩
        exact ((hx.settled ho hs).permute hx.layout hperm).sorted (hsorted ho) fun _ he => he

/-- Whatever the comparison function answers, rqsort ends, accesses elements of the array only,
needs no more than its 50 stack entries and permutes the array. Where the answers are those of a
total preorder the array is sorted. -/
theorem rqsort_spec (cmp : Nat → α → α → Int) (n : Nat) (s : Memory α) :
    Ensures (rqsort cmp n) s fun _ t => Permutes 0 n s.elements t.elements ∧
      ∀ r, Orders cmp r → SortedOn r 0 n t.elements := by
  have hone : ∀ r, Ensures (rqsort cmp n) s fun _ t => Permutes 0 n s.elements t.elements ∧
      (Orders cmp r → SortedOn r 0 n t.elements) := fun r => by
    unfold rqsort
    refine .ite (fun hn => .pure ⟨.refl, fun _ i j hi hij hj => by omega⟩) fun hn => ?_
    have hstacked : Stacked [⟨0, n, 0⟩] := ⟨Nat.zero_le _, trivial⟩
    refine (sortStack_spec (r := r) ?_ hstacked ?_).mono
      fun _ t ht => ⟨ht.1, fun ho => ht.2 ho fun i j hij hj => .inl ?_⟩
    · exact ⟨by simp [Entry.segment], by simp⟩
    · simp [Entry.segment, weight]
    · exact ⟨(0, n), by simp [Entry.segment], Nat.zero_le _, by simpa using hj⟩
  obtain ⟨a, t, ht, hperm, -⟩ := hone fun _ _ => True
  refine ⟨a, t, ht, hperm, fun r => ?_⟩
  obtain ⟨a', t', ht', -, hsorted⟩ := hone r
  rw [ht] at ht'
  cases ht'
  exact hsorted

/-- Numbers by their difference. -/
theorem orders_sub : Orders (fun _ (a b : Nat) => (a : Int) - b) (· ≤ ·) where
  total a b := Nat.le_total a b
  trans _ _ _ hab hbc := Nat.le_trans hab hbc
  le _ a b := by omega
  ge _ a b := by omega

theorem rqsort_spec_numbers :
    Ensures (rqsort (fun _ (a b : Nat) => (a : Int) - b) 9) ⟨fun k => 9 - k, 0⟩ fun _ t =>
      Permutes 0 9 (fun k => 9 - k) t.elements ∧ SortedOn (· ≤ ·) 0 9 t.elements :=
  (rqsort_spec (fun _ (a b : Nat) => (a : Int) - b) 9 ⟨fun k => 9 - k, 0⟩).mono
    fun _ _ h => ⟨h.1, h.2 _ orders_sub⟩

end IoQuickJS.Rqsort

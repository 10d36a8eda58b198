import IoQuickJS.Sort.RqsortHeap

/-!
# The partitions of rqsort

A segment is divided into what is smaller than the pivot, equal to it and greater than it. While
the loop runs, the elements found equal are kept at the two ends of the segment (`LowParts`,
`HighParts`); two block exchanges bring them to the middle.

## Main results

* `divideOnce_spec`: one pass permutes its segment, divides it, and takes at least the pivot away.
-/
namespace IoQuickJS.Rqsort

open Total Segment

variable {α : Type} {cmp : Nat → α → α → Int} {limit : Nat} {r : α → α → Prop} {s : Memory α}
  {f : Nat → α} {v : α} {ptr lt i j gt n fuel : Nat}

def Less (r : α → α → Prop) (v x : α) : Prop := ¬ r v x

def Greater (r : α → α → Prop) (v x : α) : Prop := ¬ r x v

def Equal (r : α → α → Prop) (v x : α) : Prop := r v x ∧ r x v

/-- From the left: elements equal to the pivot up to `lt`, smaller ones up to `i`. -/
structure LowParts (r : α → α → Prop) (v : α) (ptr lt i : Nat) (f : Nat → α) : Prop where
  equal : ∀ k, k < lt → Equal r v (f (ptr + k))
  less : ∀ k, lt ≤ k → k < i → Less r v (f (ptr + k))

/-- From the right: elements equal to the pivot down to `gt`, greater ones down to `j`. -/
structure HighParts (r : α → α → Prop) (v : α) (ptr j gt n : Nat) (f : Nat → α) : Prop where
  greater : ∀ k, j ≤ k → k < gt → Greater r v (f (ptr + k))
  equal : ∀ k, gt ≤ k → k < n → Equal r v (f (ptr + k))

/-! ## The two scans -/

/-- An element equal to the pivot goes to the left end. -/
theorem LowParts.swapEqual (h : LowParts r v ptr lt i f) (hlt : lt ≤ i)
    (hi : Equal r v (f (ptr + i))) :
    LowParts r v ptr (lt + 1) (i + 1) (exchange f (ptr + lt) (ptr + i)) := by
  refine ⟨fun k hk => ?_, fun k hk hki => ?_⟩
  · by_cases heq : k = lt
    · rw [heq, exchange_left]
      exact hi
    · rw [exchange_of_ne (by omega) (by omega)]
      exact h.equal k (by omega)
  · by_cases heq : k = i
    · rw [heq, exchange_right]
      exact h.less lt (Nat.le_refl _) (by omega)
    · rw [exchange_of_ne (by omega) (by omega)]
      exact h.less k (by omega) (by omega)

/-- A smaller element stays. -/
theorem LowParts.snoc (h : LowParts r v ptr lt i f) (hi : Less r v (f (ptr + i))) :
    LowParts r v ptr lt (i + 1) f := by
  refine ⟨h.equal, fun k hk hki => ?_⟩
  by_cases heq : k = i
  · exact heq ▸ hi
  · exact h.less k hk (by omega)

theorem LowParts.congr {g : Nat → α} (h : LowParts r v ptr lt i f) (hlt : lt ≤ i)
    (hfg : ∀ k, k < i → g (ptr + k) = f (ptr + k)) : LowParts r v ptr lt i g := by
  refine ⟨fun k hk => ?_, fun k hk hki => ?_⟩
  · rw [hfg k (by omega)]
    exact h.equal k hk
  · rw [hfg k hki]
    exact h.less k hk hki

theorem HighParts.congr {g : Nat → α} (h : HighParts r v ptr j gt n f) (hgt : j ≤ gt)
    (hfg : ∀ k, j ≤ k → k < n → g (ptr + k) = f (ptr + k)) (hn : gt ≤ n) :
    HighParts r v ptr j gt n g := by
  refine ⟨fun k hk hkg => ?_, fun k hk hkn => ?_⟩
  · rw [hfg k hk (by omega)]
    exact h.greater k hk hkg
  · rw [hfg k (by omega) hkn]
    exact h.equal k hk hkn

/-- An element equal to the pivot goes to the right end. -/
theorem HighParts.swapEqual (h : HighParts r v ptr (j + 1) (gt + 1) n f) (hj : j ≤ gt)
    (hi : Equal r v (f (ptr + j))) :
    HighParts r v ptr j gt n (exchange f (ptr + gt) (ptr + j)) := by
  refine ⟨fun k hk hkg => ?_, fun k hk hkn => ?_⟩
  · by_cases heq : k = j
    · rw [heq, exchange_right]
      exact h.greater gt (by omega) (by omega)
    · rw [exchange_of_ne (by omega) (by omega)]
      exact h.greater k (by omega) (by omega)
  · by_cases heq : k = gt
    · rw [heq, exchange_left]
      exact hi
    · rw [exchange_of_ne (by omega) (by omega)]
      exact h.equal k (by omega) hkn

theorem HighParts.cons (h : HighParts r v ptr (j + 1) gt n f) (hj : Greater r v (f (ptr + j))) :
    HighParts r v ptr j gt n f := by
  refine ⟨fun k hk hkg => ?_, h.equal⟩
  by_cases heq : k = j
  · exact heq ▸ hj
  · exact h.greater k (by omega) hkg

theorem scanUp_spec (hlt : 1 ≤ lt ∧ lt ≤ i ∧ i ≤ j) (hj : ptr + j ≤ limit)
    (hfuel : j - i < fuel) :
    Ensures (scanUp cmp limit ptr j fuel lt i) s fun x t =>
      Permutes (ptr + 1) (ptr + j) s.elements t.elements ∧
      (lt ≤ x.1 ∧ x.1 ≤ x.2 ∧ i ≤ x.2 ∧ x.2 ≤ j) ∧
      (Orders cmp r → LowParts r (s.elements ptr) ptr lt i s.elements →
        LowParts r (s.elements ptr) ptr x.1 x.2 t.elements ∧
        (x.2 < j → Greater r (s.elements ptr) (t.elements (ptr + x.2)))) := by
  induction fuel generalizing lt i s with
  | zero => omega
  | succ fuel ih =>
    rw [scanUp]
    refine .ite (fun hij => ?_) fun hij => ?_
    · refine (compare_spec (r := r) (by omega) (by omega)).bind fun c t hc => ?_
      obtain ⟨ht, hc⟩ := hc
      refine .ite (fun hge => .ite (fun hzero => ?_) fun hzero => ?_) fun hge => .pure ?_
      · refine (swap_spec (by omega) (by omega)).bind fun _ u hu => ?_
        rw [ht] at hu
        refine (ih (s := u) (i := i + 1) (by omega) (by omega)).mono
          fun x w hw => ?_
        obtain ⟨hperm, hle, hparts⟩ := hw
        have hpivot : u.elements ptr = s.elements ptr := by
          rw [hu, exchange_of_ne (by omega) (by omega)]
        rw [hpivot] at hparts
        rw [hu] at hperm hparts
        refine ⟨(permutes_exchange (by omega) (by omega)).trans hperm, by omega,
          fun ho h => hparts ho (h.swapEqual (by omega) ?_)⟩
        exact ⟨(hc ho).1.mp (by omega), (hc ho).2.mp (by omega)⟩
      · refine (ih (s := t) (i := i + 1) (by omega) (by omega)).mono fun x w hw => ?_
        rw [ht] at hw
        obtain ⟨hperm, hle, hparts⟩ := hw
        exact ⟨hperm, by omega, fun ho h => hparts ho
          (h.snoc fun hr => absurd ((hc ho).1.mpr hr) (by omega))⟩
      · rw [ht]
        exact ⟨.refl, by omega, fun ho h => ⟨h, fun _ hr => hge ((hc ho).2.mpr hr)⟩⟩
    · exact .pure ⟨.refl, by omega, fun ho h => ⟨h, fun hlt => absurd hlt hij⟩⟩

theorem scanDown_spec (hj : 1 ≤ i ∧ i ≤ j ∧ j ≤ gt ∧ gt ≤ n) (hn : ptr + n ≤ limit)
    (hfuel : j - i < fuel) :
    Ensures (scanDown cmp limit ptr i fuel j gt) s fun x t =>
      Permutes (ptr + (i + 1)) (ptr + n) s.elements t.elements ∧
      (i ≤ x.1 + 1 ∧ x.1 + 1 ≤ x.2 ∧ x.1 < j ∧ x.2 ≤ gt) ∧
      (Orders cmp r → HighParts r (s.elements ptr) ptr j gt n s.elements →
        HighParts r (s.elements ptr) ptr (x.1 + 1) x.2 n t.elements ∧
        (i < x.1 → Less r (s.elements ptr) (t.elements (ptr + x.1)))) := by
  induction fuel generalizing j gt s with
  | zero => omega
  | succ fuel ih =>
    rw [scanDown]
    refine .ite (fun hij => ?_) fun hij => .pure ?_
    · refine (compare_spec (r := r) (by omega) (by omega)).bind fun c t hc => ?_
      obtain ⟨ht, hc⟩ := hc
      have hpred : j - 1 + 1 = j := by omega
      refine .ite (fun hle => .ite (fun hzero => ?_) fun hzero => ?_) fun hle => .pure ?_
      · refine (swap_spec (by omega) (by omega)).bind fun _ u hu => ?_
        rw [ht] at hu
        refine (ih (s := u) (j := j - 1) (by omega) (by omega)).mono
          fun x w hw => ?_
        obtain ⟨hperm, hle, hparts⟩ := hw
        have hpivot : u.elements ptr = s.elements ptr := by
          rw [hu, exchange_of_ne (by omega) (by omega)]
        rw [hpivot] at hparts
        rw [hu] at hperm hparts
        refine ⟨(permutes_exchange (by omega) (by omega)).trans hperm, by omega,
          fun ho h => hparts ho ?_⟩
        refine HighParts.swapEqual ?_ (by omega) ⟨(hc ho).1.mp (by omega), (hc ho).2.mp (by omega)⟩
        rwa [hpred, Nat.sub_add_cancel (by omega)]
      · refine (ih (s := t) (j := j - 1) (by omega) (by omega)).mono fun x w hw => ?_
        rw [ht] at hw
        obtain ⟨hperm, hle, hparts⟩ := hw
        refine ⟨hperm, by omega, fun ho h => hparts ho (HighParts.cons ?_ fun hr => ?_)⟩
        · rwa [hpred]
        · exact absurd ((hc ho).2.mpr hr) (by omega)
      · rw [ht]
        refine ⟨.refl, by omega, fun ho h => ⟨?_, fun _ hr => hle ((hc ho).1.mpr hr)⟩⟩
        rwa [hpred]
    · refine ⟨.refl, by omega, fun ho h => ⟨?_, fun hlt => absurd hlt hij⟩⟩
      rwa [Nat.sub_add_cancel (by omega)]

theorem partition_spec (hle : 1 ≤ lt ∧ lt ≤ i ∧ i ≤ j ∧ j ≤ gt ∧ gt ≤ n) (hn : ptr + n ≤ limit)
    (hfuel : j - i < fuel) :
    Ensures (partition cmp limit ptr fuel lt i j gt) s fun x t =>
      Permutes (ptr + 1) (ptr + n) s.elements t.elements ∧
      (1 ≤ x.1 ∧ x.1 ≤ x.2.1 ∧ x.2.1 ≤ x.2.2 ∧ x.2.2 ≤ n) ∧
      (Orders cmp r → LowParts r (s.elements ptr) ptr lt i s.elements →
        HighParts r (s.elements ptr) ptr j gt n s.elements →
        LowParts r (s.elements ptr) ptr x.1 x.2.1 t.elements ∧
        HighParts r (s.elements ptr) ptr x.2.1 x.2.2 n t.elements) := by
  induction fuel generalizing lt i j gt s with
  | zero => omega
  | succ fuel ih =>
    rw [partition]
    refine (scanUp_spec (r := r) (by omega) (by omega) (by omega)).bind fun up t hup => ?_
    obtain ⟨lt₁, i₁⟩ := up
    obtain ⟨hperm₁, hle₁, hlow⟩ := hup
    have hpivot₁ : t.elements ptr = s.elements ptr := hperm₁.outside (by omega)
    refine (scanDown_spec (r := r) (n := n) (i := i₁) (by omega) hn (by omega)).bind
      fun down u hdown => ?_
    obtain ⟨j₁, gt₁⟩ := down
    obtain ⟨hperm₂, hle₂, hhigh⟩ := hdown
    rw [hpivot₁] at hhigh
    dsimp only at hle₁ hlow hperm₂ hle₂ hhigh ⊢
    have hperm : Permutes (ptr + 1) (ptr + n) s.elements u.elements :=
      (hperm₁.mono (Nat.le_refl _) (by omega)).trans (hperm₂.mono (by omega) (Nat.le_refl _))
    -- what both scans together leave
    have hparts : Orders cmp r → LowParts r (s.elements ptr) ptr lt i s.elements →
        HighParts r (s.elements ptr) ptr j gt n s.elements →
        LowParts r (s.elements ptr) ptr lt₁ i₁ u.elements ∧
        HighParts r (s.elements ptr) ptr (j₁ + 1) gt₁ n u.elements ∧
        (i₁ < j → Greater r (s.elements ptr) (u.elements (ptr + i₁))) ∧
        (i₁ < j₁ → Less r (s.elements ptr) (u.elements (ptr + j₁))) := fun ho hl hh => by
      obtain ⟨hl₁, hgreater⟩ := hlow ho hl
      have hh₁ : HighParts r (s.elements ptr) ptr j gt n t.elements :=
        hh.congr (by omega) (fun k hk hkn => hperm₁.outside (by omega)) (by omega)
      obtain ⟨hh₂, hless⟩ := hhigh ho hh₁
      refine ⟨hl₁.congr (by omega) fun k hk => hperm₂.outside (by omega), hh₂, fun hlt => ?_, hless⟩
      rw [hperm₂.outside (by omega)]
      exact hgreater hlt
    refine .ite (fun hdone => .pure ⟨hperm, by dsimp only; omega, fun ho hl hh => ?_⟩)
      fun hdone => ?_
    · obtain ⟨hl₁, hh₁, hgreater, -⟩ := hparts ho hl hh
      refine ⟨hl₁, fun k hk hkg => ?_, hh₁.equal⟩
      dsimp only at hk hkg
      by_cases heq : k = i₁ ∧ i₁ < j
      · exact heq.1 ▸ hgreater heq.2
      · exact hh₁.greater k (by omega) hkg
    · refine (swap_spec (by omega) (by omega)).bind fun _ v hv => ?_
      refine (ih (s := v) (by omega) (by omega)).mono fun x w hw => ?_
      obtain ⟨hperm₃, hle₃, hrest⟩ := hw
      have hpivot₂ : v.elements ptr = s.elements ptr := by
        rw [hv, exchange_of_ne (by omega) (by omega), hperm.outside (by omega)]
      rw [hpivot₂, hv] at hrest
      rw [hv] at hperm₃
      refine ⟨(hperm.trans (permutes_exchange (by omega) (by omega))).trans hperm₃, hle₃,
        fun ho hl hh => ?_⟩
      obtain ⟨hl₁, hh₁, hgreater, hless⟩ := hparts ho hl hh
      refine hrest ho (LowParts.snoc ?_ ?_) (HighParts.cons ?_ ?_)
      · exact hl₁.congr (by omega) fun k hk => exchange_of_ne (by omega) (by omega)
      · rw [exchange_left]
        exact hless (by omega)
      · exact hh₁.congr (by omega) (fun k hk hkn => exchange_of_ne (by omega) (by omega)) (by omega)
      · rw [exchange_right]
        exact hgreater (by omega)

/-! ## One pass -/

theorem med3_spec {a b c : Nat} (ha : a < limit) (hb : b < limit) (hc : c < limit) :
    Ensures (med3 cmp limit a b c) s fun m t => t.elements = s.elements ∧
      (m = a ∨ m = b ∨ m = c) := by
  unfold med3
  refine (compare_spec (r := fun _ _ => True) ha hb).bind fun ab t ht => ?_
  refine (compare_spec (r := fun _ _ => True) hb hc).bind fun bc u hu => ?_
  have hsame : u.elements = s.elements := hu.1.trans ht.1
  have hlast : ∀ x y, (x = a ∨ x = b ∨ x = c) → (y = a ∨ y = b ∨ y = c) →
      Ensures (do
        let ac ← compare cmp limit a c
        pure (if ac < 0 then x else y)) u fun m t => t.elements = s.elements ∧
          (m = a ∨ m = b ∨ m = c) := fun x y hx hy => by
    refine (compare_spec (r := fun _ _ => True) ha hc).bind fun ac w hw => .pure ?_
    refine ⟨hw.1.trans hsame, ?_⟩
    split
    · exact hx
    · exact hy
  refine .ite (fun _ => .ite (fun _ => .pure ⟨hsame, .inr (.inl rfl)⟩) fun _ => ?_)
    fun _ => .ite (fun _ => .pure ⟨hsame, .inr (.inl rfl)⟩) fun _ => ?_
  · exact hlast c a (.inr (.inr rfl)) (.inl rfl)
  · exact hlast a c (.inl rfl) (.inr (.inr rfl))

/-- Two blocks that do not overlap are exchanged. -/
theorem swapBlock_spec {a b span : Nat} (lo hi : Nat) (hab : a + span ≤ b) (hb : b + span ≤ limit)
    (hlo : lo ≤ a) (hhi : b + span ≤ hi) :
    Ensures (swapBlock limit a b span) s fun _ t =>
      Permutes lo hi s.elements t.elements ∧
      (∀ k, k < span → t.elements (a + k) = s.elements (b + k)) ∧
      (∀ k, k < span → t.elements (b + k) = s.elements (a + k)) ∧
      ∀ k, ¬ (a ≤ k ∧ k < a + span) → ¬ (b ≤ k ∧ k < b + span) →
        t.elements k = s.elements k := by
  induction span generalizing a b s with
  | zero => exact .pure ⟨.refl, by simp, by simp, fun _ _ _ => rfl⟩
  | succ span ih =>
    rw [swapBlock]
    refine (swap_spec (by omega) (by omega)).bind fun _ t ht => ?_
    refine (ih (a := a + 1) (b := b + 1) (s := t) (by omega) (by omega) (by omega)
      (by omega)).mono fun _ u hu => ?_
    obtain ⟨hperm, hfirst, hsecond, hrest⟩ := hu
    rw [ht] at hperm hfirst hsecond hrest
    refine ⟨(permutes_exchange (by omega) (by omega)).trans hperm, fun k hk => ?_, fun k hk => ?_,
      fun k ha hb => ?_⟩
    · cases k with
      | zero => rw [Nat.add_zero, hrest a (by omega) (by omega), exchange_left, Nat.add_zero]
      | succ k =>
        rw [← Nat.add_assoc, Nat.add_right_comm, hfirst k (by omega),
          exchange_of_ne (by omega) (by omega), Nat.add_right_comm, Nat.add_assoc]
    · cases k with
      | zero => rw [Nat.add_zero, hrest b (by omega) (by omega), exchange_right, Nat.add_zero]
      | succ k =>
        rw [← Nat.add_assoc, Nat.add_right_comm, hsecond k (by omega),
          exchange_of_ne (by omega) (by omega), Nat.add_right_comm, Nat.add_assoc]
    · rw [hrest k (by omega) (by omega), exchange_of_ne (by omega) (by omega)]

/-- A segment in three parts: smaller than, equal to and greater than some value. -/
structure ThreeParts (r : α → α → Prop) (v : α) (ptr lt gt n : Nat) (f : Nat → α) : Prop where
  less : ∀ k, k < lt → Less r v (f (ptr + k))
  equal : ∀ k, lt ≤ k → k < gt → Equal r v (f (ptr + k))
  greater : ∀ k, gt ≤ k → k < n → Greater r v (f (ptr + k))

/-- The elements equal to the pivot come to the middle. -/
theorem threeParts_of_swaps {g h : Nat → α} (hle : lt ≤ i ∧ i ≤ gt ∧ gt ≤ n)
    (hlow : LowParts r v ptr lt i f) (hhigh : HighParts r v ptr i gt n f)
    (hfirst : ∀ k, k < min lt (i - lt) → g (ptr + k) = f (ptr + i - min lt (i - lt) + k))
    (hsecond : ∀ k, k < min lt (i - lt) → g (ptr + i - min lt (i - lt) + k) = f (ptr + k))
    (hrest : ∀ k, ¬ (ptr ≤ k ∧ k < ptr + min lt (i - lt)) →
      ¬ (ptr + i - min lt (i - lt) ≤ k ∧ k < ptr + i - min lt (i - lt) + min lt (i - lt)) →
      g k = f k)
    (hfirst' : ∀ k, k < min (n - gt) (gt - i) →
      h (ptr + i + k) = g (ptr + n - min (n - gt) (gt - i) + k))
    (hsecond' : ∀ k, k < min (n - gt) (gt - i) →
      h (ptr + n - min (n - gt) (gt - i) + k) = g (ptr + i + k))
    (hrest' : ∀ k, ¬ (ptr + i ≤ k ∧ k < ptr + i + min (n - gt) (gt - i)) →
      ¬ (ptr + n - min (n - gt) (gt - i) ≤ k ∧
        k < ptr + n - min (n - gt) (gt - i) + min (n - gt) (gt - i)) → h k = g k) :
    ThreeParts r v ptr (i - lt) (n - (gt - i)) n h := by
  have hleft : ∀ k, k < i → h (ptr + k) = g (ptr + k) := fun k hk =>
    hrest' _ (by omega) (by omega)
  have hright : ∀ k, i ≤ k → g (ptr + k) = f (ptr + k) := fun k hk =>
    hrest _ (by omega) (by omega)
  constructor
  · intro k hk
    rw [hleft k (by omega)]
    by_cases hin : k < min lt (i - lt)
    · rw [hfirst k hin, show ptr + i - min lt (i - lt) + k = ptr + (i - min lt (i - lt) + k) by
        omega]
      exact hlow.less _ (by omega) (by omega)
    · rw [hrest _ (by omega) (by omega)]
      exact hlow.less k (by omega) (by omega)
  · intro k hk hkg
    by_cases hki : k < i
    · rw [hleft k hki]
      by_cases hin : i - min lt (i - lt) ≤ k
      · have hsource := hsecond (k - (i - min lt (i - lt))) (by omega)
        rw [show ptr + i - min lt (i - lt) + (k - (i - min lt (i - lt))) = ptr + k by omega]
          at hsource
        rw [hsource]
        exact hlow.equal _ (by omega)
      · rw [hrest _ (by omega) (by omega)]
        exact hlow.equal k (by omega)
    · by_cases hin : k < i + min (n - gt) (gt - i)
      · have hsource := hfirst' (k - i) (by omega)
        rw [show ptr + i + (k - i) = ptr + k by omega] at hsource
        rw [hsource, show ptr + n - min (n - gt) (gt - i) + (k - i) =
          ptr + (n - min (n - gt) (gt - i) + (k - i)) by omega, hright _ (by omega)]
        exact hhigh.equal _ (by omega) (by omega)
      · rw [hrest' _ (by omega) (by omega), hright k (by omega)]
        exact hhigh.equal k (by omega) (by omega)
  · intro k hk hkn
    by_cases hin : n - min (n - gt) (gt - i) ≤ k
    · have hsource := hsecond' (k - (n - min (n - gt) (gt - i))) (by omega)
      rw [show ptr + n - min (n - gt) (gt - i) + (k - (n - min (n - gt) (gt - i))) = ptr + k by
        omega] at hsource
      rw [hsource, show ptr + i + (k - (n - min (n - gt) (gt - i))) =
        ptr + (i + (k - (n - min (n - gt) (gt - i)))) by omega, hright _ (by omega)]
      exact hhigh.greater _ (by omega) (by omega)
    · rw [hrest' _ (by omega) (by omega), hright k (by omega)]
      exact hhigh.greater k (by omega) (by omega)

theorem divideOnce_spec (hn : 6 < n) (hlimit : ptr + n ≤ limit) :
    Ensures (divideOnce cmp limit ptr n) s fun x t =>
      Permutes ptr (ptr + n) s.elements t.elements ∧ (x.1 < x.2 ∧ x.2 ≤ n) ∧
      (Orders cmp r → ∃ v, ThreeParts r v ptr x.1 x.2 n t.elements) := by
  unfold divideOnce
  refine (med3_spec (by omega) (by omega) (by omega)).bind fun m t hm => ?_
  obtain ⟨ht, hm⟩ := hm
  refine (swap_spec (by omega) (by omega)).bind fun _ u hu => ?_
  rw [ht] at hu
  have hperm₁ : Permutes ptr (ptr + n) s.elements u.elements :=
    hu ▸ permutes_exchange (by omega) (by omega)
  refine (partition_spec (r := r) (n := n) (by omega) hlimit (by omega)).bind fun x w hw => ?_
  obtain ⟨lt, i, gt⟩ := x
  obtain ⟨hperm₂, hle, hparts⟩ := hw
  dsimp only at hle hparts ⊢
  refine (swapBlock_spec ptr (ptr + n) (by omega) (by omega) (by omega)
    (by omega)).bind fun _ x hx => ?_
  obtain ⟨hperm₃, hfirst, hsecond, hrest⟩ := hx
  refine (swapBlock_spec ptr (ptr + n) (by omega) (by omega) (by omega)
    (by omega)).bind fun _ y hy => .pure ?_
  obtain ⟨hperm₄, hfirst', hsecond', hrest'⟩ := hy
  refine ⟨((hperm₁.trans (hperm₂.mono (by omega) (Nat.le_refl _))).trans hperm₃).trans hperm₄,
    by dsimp only; omega, fun ho => ⟨u.elements ptr, ?_⟩⟩
  have hrefl : r (u.elements ptr) (u.elements ptr) := (ho.total _ _).elim id id
  obtain ⟨hlow, hhigh⟩ := hparts ho
    ⟨fun k hk => by
      obtain rfl : k = 0 := by omega
      exact ⟨hrefl, hrefl⟩, fun k hk hki => by omega⟩
    ⟨fun k hk hkg => by omega, fun k hk hkn => by omega⟩
  exact threeParts_of_swaps (by omega) hlow hhigh hfirst hsecond hrest hfirst' hsecond' hrest'

end IoQuickJS.Rqsort

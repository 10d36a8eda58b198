import Mathlib.Data.List.Nodup
import Mathlib.Data.List.Dedup
import Mathlib.Order.Interval.Finset.Nat

/-!
# Hash tables with chains of indices

A table has a list of heads, one for each bucket, and its elements are numbers other than `0` that
are chained by a partial function `next`; `0` ends a chain and `next i = none` means that there is
no element `i` to read. `walk` follows a chain to the first element that passes a test, and keeps
the element before it. `Table next heads member key` says that the chain of bucket `b` runs over
the members with key `b`, each once.

## Main results

* `Table.find`: a walk from a head ends, and finds a member that passes the test if there is one.
* `Table.insert`, `Table.remove`: adding an element in front of a chain, taking one out of it.
-/
namespace HashChain

/-- Following `next` from `i` visits `xs` and ends. -/
def Chain (next : ℕ → Option ℕ) : ℕ → List ℕ → Prop
  | i, [] => i = 0
  | i, x :: xs => i = x ∧ x ≠ 0 ∧ ∃ j, next x = some j ∧ Chain next j xs

/-- The first element of a chain that passes the test, after the element that leads to it; an
element `0` is the end of the chain. -/
def walk (next : ℕ → Option ℕ) (test : ℕ → Bool) : (fuel prev i : ℕ) → Option (ℕ × ℕ)
  | 0, _, _ => none
  | fuel + 1, prev, i =>
    if i = 0 then some (prev, 0)
    else if test i then some (prev, i)
    else (next i).bind fun j => walk next test fuel i j

/-- The chains run over the members, each in the bucket of its key. -/
def Table (next : ℕ → Option ℕ) (heads : List ℕ) (member : ℕ → Prop) (key : ℕ → ℕ) : Prop :=
  ∀ b h, heads[b]? = some h →
    ∃ xs, Chain next h xs ∧ xs.Nodup ∧ ∀ x, x ∈ xs ↔ member x ∧ key x = b

variable {next next' : ℕ → Option ℕ} {test : ℕ → Bool} {heads : List ℕ} {member : ℕ → Prop}
  {key : ℕ → ℕ} {b h i j p x : ℕ} {xs : List ℕ}

section Chain

theorem Chain.ne_zero (hc : Chain next i xs) (hx : x ∈ xs) : x ≠ 0 := by
  induction xs generalizing i with
  | nil => cases hx
  | cons y ys ih =>
    obtain ⟨-, hy, j, -, hrest⟩ := hc
    rcases List.mem_cons.mp hx with rfl | hx
    · exact hy
    · exact ih hrest hx

/-- A chain only depends on the successors of its elements. -/
theorem Chain.congr (hc : Chain next i xs) (hnext : ∀ x ∈ xs, next' x = next x) :
    Chain next' i xs := by
  induction xs generalizing i with
  | nil => exact hc
  | cons y ys ih =>
    obtain ⟨rfl, hy, j, hj, hrest⟩ := hc
    exact ⟨rfl, hy, j, (hnext i (by simp)).trans hj, ih hrest fun x hx => hnext x (by simp [hx])⟩

/-- After an element comes what its successor leads to. -/
theorem Chain.split (hc : Chain next i xs) (hx : x ∈ xs) :
    ∃ pre post j, xs = pre ++ x :: post ∧ next x = some j ∧ Chain next j post := by
  induction xs generalizing i with
  | nil => cases hx
  | cons y ys ih =>
    obtain ⟨rfl, hy, j, hj, hrest⟩ := hc
    rcases List.mem_cons.mp hx with rfl | hx
    · exact ⟨[], ys, j, rfl, hj, hrest⟩
    · obtain ⟨pre, post, k, rfl, hk, hpost⟩ := ih hrest hx
      exact ⟨i :: pre, post, k, rfl, hk, hpost⟩

/-- Leaving an element out of a chain: the element before it takes over its successor. -/
theorem Chain.unlink {pre post : List ℕ} (hc : Chain next i (pre ++ p :: x :: post))
    (hnodup : (pre ++ p :: x :: post).Nodup) (hx : next x = some j) (hp : next' p = some j)
    (hnext : ∀ y ∈ pre ++ p :: x :: post, y ≠ p → y ≠ x → next' y = next y) :
    Chain next' i (pre ++ p :: post) := by
  induction pre generalizing i with
  | nil =>
    obtain ⟨rfl, hi, k, hk, rfl, -, j', hj', hpost⟩ := hc
    obtain rfl : j = j' := by simpa [hx] using hj'
    refine ⟨rfl, hi, j, hp, hpost.congr fun y hy => hnext y (by simp [hy]) ?_ ?_⟩
    · rintro rfl
      simp [hy] at hnodup
    · rintro rfl
      simp [hy] at hnodup
  | cons q pre ih =>
    obtain ⟨rfl, hi, k, hk, hrest⟩ := hc
    obtain ⟨hnotin, hnodup⟩ := List.nodup_cons.mp hnodup
    refine ⟨rfl, hi, k, (hnext i (by simp) ?_ ?_).trans hk,
      ih hrest hnodup fun y hy => hnext y (List.mem_cons_of_mem _ hy)⟩
    · rintro rfl
      simp at hnotin
    · rintro rfl
      simp at hnotin

/-- A walk stops at the first element that passes the test. -/
theorem Chain.walk (hc : Chain next i xs) (test : ℕ → Bool) {fuel : ℕ} (hfuel : xs.length < fuel)
    (prev : ℕ) :
    ∃ r, walk next test fuel prev i = some r ∧
      ((r.2 = 0 ∧ ∀ x ∈ xs, test x = false) ∨
        (r.2 ∈ xs ∧ test r.2 = true ∧
          (r.1 = prev ∧ r.2 = i ∨ r.1 ∈ xs ∧ next r.1 = some r.2))) := by
  induction xs generalizing i prev fuel with
  | nil =>
    obtain rfl : i = 0 := hc
    obtain ⟨n, rfl⟩ : ∃ n, fuel = n + 1 := ⟨fuel - 1, by simp at hfuel; omega⟩
    exact ⟨(prev, 0), rfl, .inl ⟨rfl, by simp⟩⟩
  | cons y ys ih =>
    obtain ⟨rfl, hy, j, hj, hrest⟩ := hc
    obtain ⟨n, rfl⟩ : ∃ n, fuel = n + 1 := ⟨fuel - 1, by simp at hfuel; omega⟩
    rw [HashChain.walk, if_neg hy]
    by_cases htest : test i = true
    · exact ⟨(prev, i), by rw [if_pos htest], .inr ⟨by simp, htest, .inl ⟨rfl, rfl⟩⟩⟩
    · obtain ⟨r, hr, hcases⟩ := ih hrest (show ys.length < n by simpa using hfuel) i
      refine ⟨r, by rw [if_neg htest, hj, Option.bind_some, hr], ?_⟩
      rcases hcases with ⟨hzero, hall⟩ | ⟨hmem, hpass, hprev⟩
      · refine .inl ⟨hzero, fun x hx => ?_⟩
        rcases List.mem_cons.mp hx with rfl | hx
        · simpa using htest
        · exact hall x hx
      · refine .inr ⟨by simp [hmem], hpass, .inr ?_⟩
        rcases hprev with ⟨hr1, hr2⟩ | ⟨hr1, hr2⟩
        · exact ⟨by simp [hr1], by rw [hr1, hj, hr2]⟩
        · exact ⟨by simp [hr1], hr2⟩

end Chain

section Table

theorem Table.congr (ht : Table next heads member key) {member' : ℕ → Prop} {key' : ℕ → ℕ}
    (hnext : ∀ x, member x → next' x = next x) (hmember : ∀ x, member' x ↔ member x)
    (hkey : ∀ x, member x → key' x = key x) : Table next' heads member' key' := by
  intro b h hb
  obtain ⟨xs, hc, hnodup, hxs⟩ := ht b h hb
  refine ⟨xs, hc.congr fun x hx => hnext x ((hxs x).mp hx).1, hnodup, fun x => ?_⟩
  rw [hxs x, hmember x]
  exact ⟨fun ⟨hm, hk⟩ => ⟨hm, (hkey x hm).trans hk⟩,
    fun ⟨hm, hk⟩ => ⟨hm, (hkey x hm).symm.trans hk⟩⟩

theorem Table.empty (n : ℕ) (next : ℕ → Option ℕ) (key : ℕ → ℕ) :
    Table next (List.replicate n 0) (fun _ => False) key := by
  intro b h hb
  obtain ⟨-, rfl⟩ : b < n ∧ h = 0 := by simpa [List.getElem?_replicate, eq_comm] using hb
  exact ⟨[], rfl, List.nodup_nil, by simp⟩

/-- A member is never `0`. -/
theorem Table.ne_zero (ht : Table next heads member key) (hx : member x)
    (hkey : key x < heads.length) : x ≠ 0 := by
  obtain ⟨xs, hc, -, hxs⟩ := ht (key x) _ (List.getElem?_eq_getElem hkey)
  exact hc.ne_zero ((hxs x).mpr ⟨hx, rfl⟩)

/-- A chain has no more elements than there are members. -/
theorem length_le_of_bound {n : ℕ} (hnodup : xs.Nodup) (hpos : ∀ x ∈ xs, x ≠ 0)
    (hle : ∀ x ∈ xs, x ≤ n) : xs.length ≤ n := by
  have hsub : xs.toFinset ⊆ Finset.Icc 1 n := fun x hx => by
    have hx' := List.mem_toFinset.mp hx
    exact Finset.mem_Icc.mpr ⟨Nat.one_le_iff_ne_zero.mpr (hpos x hx'), hle x hx'⟩
  have hcard := Finset.card_le_card hsub
  rwa [List.toFinset_card_of_nodup hnodup, Nat.card_Icc, Nat.add_sub_cancel] at hcard

/-- A walk from the head of a bucket finds the first member of the bucket that passes the test. -/
theorem Table.find (ht : Table next heads member key) (test : ℕ → Bool) (hb : heads[b]? = some h)
    {n : ℕ}
    (hle : ∀ x, member x → x ≤ n) :
    ∃ r, walk next test (n + 1) 0 h = some r ∧
      ((r.2 = 0 ∧ ∀ x, member x → key x = b → test x = false) ∨
        (r.2 ≠ 0 ∧ member r.2 ∧ key r.2 = b ∧ test r.2 = true ∧
          (r.1 = 0 ∧ r.2 = h ∨ member r.1 ∧ key r.1 = b ∧ next r.1 = some r.2))) := by
  obtain ⟨xs, hc, hnodup, hxs⟩ := ht b h hb
  have hlen := length_le_of_bound hnodup (fun x hx => hc.ne_zero hx)
    fun x hx => hle x ((hxs x).mp hx).1
  obtain ⟨r, hr, hcases⟩ := hc.walk test (Nat.lt_succ_of_le hlen) 0
  refine ⟨r, hr, ?_⟩
  rcases hcases with ⟨hzero, hall⟩ | ⟨hmem, hpass, hprev⟩
  · exact .inl ⟨hzero, fun x hx hk => hall x ((hxs x).mpr ⟨hx, hk⟩)⟩
  · obtain ⟨hm, hk⟩ := (hxs _).mp hmem
    refine .inr ⟨hc.ne_zero hmem, hm, hk, hpass, ?_⟩
    rcases hprev with hprev | ⟨hr1, hr2⟩
    · exact .inl hprev
    · exact .inr ⟨((hxs _).mp hr1).1, ((hxs _).mp hr1).2, hr2⟩

/-- A new element goes in front of the chain of its bucket. -/
theorem Table.insert (ht : Table next heads member key) (hx : x ≠ 0) (hnew : ¬ member x)
    (hb : heads[key x]? = some h) (hxnext : next' x = some h)
    (hnext : ∀ y, member y → next' y = next y) :
    Table next' (heads.set (key x) x) (fun y => y = x ∨ member y) key := by
  intro c k hc
  obtain ⟨hlt, -⟩ := List.getElem?_eq_some_iff.mp hb
  by_cases hcx : key x = c
  · subst hcx
    obtain rfl : x = k := by simpa [hlt] using hc
    obtain ⟨xs, hchain, hnodup, hxs⟩ := ht (key x) h hb
    refine ⟨x :: xs, ⟨rfl, hx, h, hxnext, ?_⟩, ?_, fun y => ?_⟩
    · exact hchain.congr fun y hy => hnext y ((hxs y).mp hy).1
    · exact List.nodup_cons.mpr ⟨fun hmem => hnew ((hxs x).mp hmem).1, hnodup⟩
    · rw [List.mem_cons, hxs y]
      constructor
      · rintro (rfl | ⟨hm, hk⟩)
        · exact ⟨.inl rfl, rfl⟩
        · exact ⟨.inr hm, hk⟩
      · rintro ⟨rfl | hm, hk⟩
        · exact .inl rfl
        · exact .inr ⟨hm, hk⟩
  · rw [List.getElem?_set_ne hcx] at hc
    obtain ⟨xs, hchain, hnodup, hxs⟩ := ht c k hc
    refine ⟨xs, hchain.congr fun y hy => hnext y ((hxs y).mp hy).1, hnodup, fun y => ?_⟩
    rw [hxs y]
    constructor
    · exact fun ⟨hm, hk⟩ => ⟨.inr hm, hk⟩
    · rintro ⟨rfl | hm, hk⟩
      · exact absurd hk hcx
      · exact ⟨hm, hk⟩

/-- Taking the element out of a bucket that does not hold it changes nothing. -/
theorem Table.remove_other {c k : ℕ} (ht : Table next heads member key)
    (hc : heads[c]? = some k) (hcx : key x ≠ c)
    (hnext : ∀ y, member y → key y = c → next' y = next y) :
    ∃ xs, Chain next' k xs ∧ xs.Nodup ∧ ∀ y, y ∈ xs ↔ (y ≠ x ∧ member y) ∧ key y = c := by
  obtain ⟨xs, hchain, hnodup, hxs⟩ := ht c k hc
  refine ⟨xs, hchain.congr fun y hy => hnext y ((hxs y).mp hy).1 ((hxs y).mp hy).2, hnodup,
    fun y => ?_⟩
  rw [hxs y]
  constructor
  · rintro ⟨hm, hk⟩
    refine ⟨⟨?_, hm⟩, hk⟩
    rintro rfl
    exact hcx hk
  · exact fun ⟨⟨_, hm⟩, hk⟩ => ⟨hm, hk⟩

/-- Taking out the first element of a chain. -/
theorem Table.remove_head (ht : Table next heads member key) (hx : member x)
    (hb : heads[key x]? = some x) (hxnext : next x = some j)
    (hnext : ∀ y, y ≠ x → member y → next' y = next y) :
    Table next' (heads.set (key x) j) (fun y => y ≠ x ∧ member y) key := by
  intro c k hc
  obtain ⟨hlt, -⟩ := List.getElem?_eq_some_iff.mp hb
  by_cases hcx : key x = c
  · subst hcx
    obtain rfl : j = k := by simpa [hlt] using hc
    obtain ⟨xs, hchain, hnodup, hxs⟩ := ht (key x) x hb
    have hmem : x ∈ xs := (hxs x).mpr ⟨hx, rfl⟩
    cases xs with
    | nil => cases hmem
    | cons y ys =>
      obtain ⟨rfl, -, j', hj', hrest⟩ := hchain
      obtain rfl : j = j' := by simpa [hxnext] using hj'
      obtain ⟨hnotin, hnodup⟩ := List.nodup_cons.mp hnodup
      refine ⟨ys, hrest.congr fun y hy => hnext y ?_ ((hxs y).mp (by simp [hy])).1, hnodup,
        fun y => ?_⟩
      · rintro rfl
        exact hnotin hy
      · have hy := hxs y
        rw [List.mem_cons] at hy
        constructor
        · intro hmem
          obtain ⟨hm, hk⟩ := hy.mp (.inr hmem)
          exact ⟨⟨fun heq => hnotin (heq ▸ hmem), hm⟩, hk⟩
        · rintro ⟨⟨hne, hm⟩, hk⟩
          exact (hy.mpr ⟨hm, hk⟩).resolve_left hne
  · rw [List.getElem?_set_ne hcx] at hc
    refine ht.remove_other hc hcx fun y hm hk => hnext y ?_ hm
    rintro rfl
    exact hcx hk

/-- Taking an element out behind the one that leads to it. -/
theorem Table.remove_after (ht : Table next heads member key) (hx : member x) (hp : member p)
    (hkey : key p = key x) (hlt : key x < heads.length) (hpnext : next p = some x)
    (hxnext : next x = some j) (hpnext' : next' p = some j)
    (hnext : ∀ y, y ≠ p → y ≠ x → member y → next' y = next y) :
    Table next' heads (fun y => y ≠ x ∧ member y) key := by
  intro c k hc
  by_cases hcx : key x = c
  · subst hcx
    obtain ⟨xs, hchain, hnodup, hxs⟩ := ht (key x) k hc
    obtain ⟨pre, post, x', rfl, hx', hpost⟩ := hchain.split ((hxs p).mpr ⟨hp, hkey⟩)
    obtain rfl : x = x' := by simpa [hpnext] using hx'
    cases post with
    | nil =>
      have : x = 0 := hpost
      exact absurd this (ht.ne_zero hx hlt)
    | cons y ys =>
      obtain ⟨rfl, -, -⟩ := hpost
      have hunlinked := hchain.unlink hnodup hxnext hpnext' fun y hy hyp hyx =>
        hnext y hyp hyx ((hxs y).mp hy).1
      have hsub : ∀ y, y ∈ pre ++ p :: ys ↔ y ≠ x ∧ y ∈ pre ++ p :: x :: ys := by
        intro y
        have := hnodup
        constructor
        · intro hy
          refine ⟨?_, by simp at hy ⊢; tauto⟩
          rintro rfl
          simp only [List.nodup_append, List.nodup_cons, List.mem_cons, List.mem_append] at this hy
          grind
        · rintro ⟨hne, hy⟩
          simp at hy ⊢
          tauto
      refine ⟨pre ++ p :: ys, hunlinked, ?_, fun y => ?_⟩
      · exact hnodup.sublist (List.Sublist.append_left (.cons_cons p (.cons x (.refl ys))) pre)
      · rw [hsub y, hxs y]
        tauto
  · refine ht.remove_other hc hcx fun y hm hk => hnext y ?_ ?_ hm
    · rintro rfl
      exact hcx (hkey ▸ hk)
    · rintro rfl
      exact hcx hk

end Table

end HashChain

import Mathlib.Data.Finset.Card
import Mathlib.Data.Finset.Range
import IoQuickJS.Bytecode.StackSize

/-!
# compute_stack_size is exact

A call of compute_stack_size_rec that returns has explored everything that follows its position,
so the table it leaves is closed under `successors` and holds one level for each position. While
the levels are smaller than 0xffff an entry of the table is never taken for one of a position that
has not been explored.

## Main results

* `compute_stack_size_exact`: the function returns `n` exactly when the bytecode is consistent and
  `n` is its greatest level.
-/
namespace IoQuickJS

open Function (update update_self update_of_ne)

variable {wordsBigEndian : Bool} {bc : List UInt8} {s s' : StackSizeState} {pos : Int}
  {op stackLen : Nat}

/-! ## One pass of the loop -/

theorem enter_eq_ok (h : s.enter op pos stackLen = .ok s') :
    s' = { s with stackLenMax := max s.stackLenMax stackLen } := by
  unfold StackSizeState.enter at h
  split at h
  · split at h
    · cases h
    · cases h
      rw [Nat.max_eq_right (by omega)]
  · cases h
    rw [Nat.max_eq_left (by omega)]

theorem enter_ok (h : stackLen ≤ jsStackSizeMax) :
    s.enter op pos stackLen = .ok { s with stackLenMax := max s.stackLenMax stackLen } := by
  unfold StackSizeState.enter
  split
  · rw [if_neg (by omega), Nat.max_eq_right (by omega)]
  · rw [Nat.max_eq_left (by omega)]

/-- The position is in the bytecode and has been explored with the level. -/
def Explored (bc : List UInt8) (s : StackSizeState) (c : Int × Nat) : Prop :=
  0 ≤ c.1 ∧ c.1 < bc.length ∧ s.stackLevelTab c.1.toNat = c.2 ∧ c.2 ≠ unexplored

theorem visit_none (h : visit wordsBigEndian bc s pos op stackLen = .ok none) :
    Explored bc s (pos, stackLen) := by
  unfold visit at h
  split at h
  · cases h
  · next hrange =>
    obtain ⟨hlow, hhigh⟩ := Decidable.not_not.mp hrange
    dsimp only at h
    split at h
    · next hlevel =>
      split at h
      · cases h
      · next heq =>
        have hsame := Decidable.not_not.mp heq
        exact ⟨hlow, hhigh, hsame, hsame ▸ hlevel⟩
    · split at h
      · cases h
      · split at h
        · cases h
        · split at h
          · cases h
          · split at h <;> cases h

theorem instruction_eq_some {i : Nat × JSOpCode × Nat}
    (h : instruction wordsBigEndian bc pos = some i) :
    (0 ≤ pos ∧ pos < bc.length) ∧ i.1 = (bc.getD pos.toNat 0).toNat ∧
      (if i.1 = 0 then none else shortOpcodeInfo i.1) = some i.2.1 ∧
      pos.toNat + i.2.1.size ≤ bc.length ∧
      i.2.2 = popCount wordsBigEndian bc pos.toNat i.1 i.2.1 := by
  unfold instruction at h
  split at h
  · next hin =>
    obtain ⟨oi, hoi, hfits⟩ := Option.bind_eq_some_iff.mp h
    split at hfits
    · next hsize =>
      cases hfits
      exact ⟨hin, rfl, hoi, hsize, rfl⟩
    · cases hfits
  · cases h

theorem levelAfter_eq_some {c : Int × Nat} {after : Nat}
    (h : levelAfter wordsBigEndian bc c = some after) :
    ∃ op oi nPop, instruction wordsBigEndian bc c.1 = some (op, oi, nPop) ∧ nPop ≤ c.2 ∧
      after = c.2 - nPop + oi.nPush := by
  obtain ⟨⟨op, oi, nPop⟩, hinstr, hpop⟩ := Option.bind_eq_some_iff.mp h
  split at hpop
  · next hle =>
    cases hpop
    exact ⟨op, oi, nPop, hinstr, hle, rfl⟩
  · cases hpop

theorem visit_some {fl : Flow} {op' after : Nat}
    (h : visit wordsBigEndian bc s pos op stackLen = .ok (some (s', op', fl, after))) :
    ∃ oi nPop, instruction wordsBigEndian bc pos = some (op', oi, nPop) ∧
      s.stackLevelTab pos.toNat = unexplored ∧
      levelAfter wordsBigEndian bc (pos, stackLen) = some after ∧
      fl = flow wordsBigEndian bc pos.toNat oi after ∧
      s'.stackLenMax = max s.stackLenMax after ∧
      s'.stackLevelTab = update s.stackLevelTab pos.toNat (stackLen % 2 ^ 16) := by
  unfold visit at h
  split at h
  · cases h
  · next hrange =>
    have hin := Decidable.not_not.mp hrange
    dsimp only at h
    split at h
    · split at h <;> cases h
    · next hopen =>
      split at h
      · cases h
      · next oi hoi =>
        split at h
        · cases h
        · next hfits =>
          split at h
          · cases h
          · next hpop =>
            split at h
            · cases h
            · next s₁ hs =>
              cases h
              set nPop := popCount wordsBigEndian bc pos.toNat (bc.getD pos.toNat 0).toNat oi
                with hnPop
              have hinstr : instruction wordsBigEndian bc pos = some
                  ((bc.getD pos.toNat 0).toNat, oi, nPop) := by
                unfold instruction
                rw [if_pos hin]
                dsimp only
                rw [hoi, Option.bind_some, if_pos (Nat.le_of_not_lt hfits)]
              have hs' := enter_eq_ok hs
              refine ⟨oi, nPop, hinstr, Decidable.not_not.mp hopen, ?_, rfl, ?_, ?_⟩
              rotate_left
              · rw [hs']
              · rw [hs']
              unfold levelAfter
              rw [hinstr, Option.bind_some, if_pos (Nat.le_of_not_lt hpop)]

/-- A position that has not been explored, and from which the bytecode runs on, is entered. -/
theorem visit_runs {after : Nat} (op : Nat) (hopen : s.stackLevelTab pos.toNat = unexplored)
    (hafter : levelAfter wordsBigEndian bc (pos, stackLen) = some after)
    (hmax : after ≤ jsStackSizeMax) :
    ∃ x, visit wordsBigEndian bc s pos op stackLen = .ok (some x) := by
  obtain ⟨op', oi, nPop, hinstr, hpop, rfl⟩ := levelAfter_eq_some hafter
  obtain ⟨hin, hop, hoi, hfits, hcount⟩ := instruction_eq_some hinstr
  dsimp only at hin hop hoi hfits hcount hpop hmax
  subst hop hcount
  unfold visit
  rw [if_neg (not_not.mpr hin)]
  dsimp only
  rw [if_neg (not_not.mpr hopen), hoi]
  dsimp only
  rw [if_neg (Nat.not_lt.mpr hfits), if_neg (Nat.not_lt.mpr hpop), enter_ok hmax]
  exact ⟨_, rfl⟩

/-- A position that has been explored is left alone. -/
theorem visit_explored (op : Nat) (h : Explored bc s (pos, stackLen)) :
    visit wordsBigEndian bc s pos op stackLen = .ok none := by
  obtain ⟨hlow, hhigh, hlevel, hopen⟩ := h
  unfold visit
  rw [if_neg (not_not.mpr ⟨hlow, hhigh⟩)]
  dsimp only at hlevel ⊢
  rw [if_pos (hlevel ▸ hopen), if_neg (not_not.mpr hlevel)]

/-! ## What a call leaves -/

section Explore

variable {explore : StackSizeState → Int → Nat → Nat →
  Option (Except StackSizeError StackSizeState)} {after : Nat}

theorem exploreBranch_eq_ok {branch : Option (Int × Nat)}
    (h : exploreBranch explore s op branch = some (.ok s')) :
    branch = none ∧ s' = s ∨ ∃ target level, branch = some (target, level) ∧
      explore { s with stackLenMax := max s.stackLenMax level } target op level =
        some (.ok s') := by
  rcases branch with _ | ⟨target, level⟩
  · cases h
    exact .inl ⟨rfl, rfl⟩
  · refine .inr ⟨target, level, rfl, ?_⟩
    rw [exploreBranch] at h
    split at h
    · cases h
    · next henter => exact enter_eq_ok henter ▸ h

theorem exploreNext_eq_ok {result : Option (Except StackSizeError StackSizeState)}
    {next : Option Int} (h : exploreNext explore op after result next = some (.ok s')) :
    ∃ s₁, result = some (.ok s₁) ∧ (next = none ∧ s' = s₁ ∨
      ∃ posNext, next = some posNext ∧ explore s₁ posNext op after = some (.ok s')) := by
  unfold exploreNext at h
  split at h
  · exact ⟨_, rfl, .inr ⟨_, rfl, h⟩⟩
  · next hresult =>
    subst h
    refine ⟨s', rfl, .inl ⟨?_, rfl⟩⟩
    rcases next with _ | posNext
    · rfl
    · exact absurd rfl (hresult s' posNext rfl)

end Explore

/-- How a call that succeeds goes on: with a recursive call for the branch of the instruction, if
it has one, and then with the next position. -/
theorem computeStackSizeRec_cases {fuel : Nat}
    (h : computeStackSizeRec wordsBigEndian bc (fuel + 1) s pos op stackLen = some (.ok s')) :
    (visit wordsBigEndian bc s pos op stackLen = .ok none ∧ s' = s) ∨
    ∃ s₁ op₁ fl after s₂,
      visit wordsBigEndian bc s pos op stackLen = .ok (some (s₁, op₁, fl, after)) ∧
      (fl.branch = none ∧ s₂ = s₁ ∨ ∃ target level, fl.branch = some (target, level) ∧
        computeStackSizeRec wordsBigEndian bc fuel
          { s₁ with stackLenMax := max s₁.stackLenMax level } target op₁ level = some (.ok s₂)) ∧
      (fl.next = none ∧ s' = s₂ ∨ ∃ posNext, fl.next = some posNext ∧
        computeStackSizeRec wordsBigEndian bc fuel s₂ posNext op₁ after = some (.ok s')) := by
  rw [computeStackSizeRec] at h
  split at h
  · cases h
  · next hvisit =>
    cases h
    exact .inl ⟨hvisit, rfl⟩
  · next s₁ op₁ fl after hvisit =>
    obtain ⟨s₂, hbranch, hnext⟩ := exploreNext_eq_ok h
    exact .inr ⟨s₁, op₁, fl, after, s₂, hvisit, exploreBranch_eq_ok hbranch, hnext⟩

theorem mem_successors {c : Int × Nat} {oi : JSOpCode} {op' nPop after : Nat}
    (hinstr : instruction wordsBigEndian bc c.1 = some (op', oi, nPop))
    (hafter : levelAfter wordsBigEndian bc c = some after) (c' : Int × Nat) :
    c' ∈ successors wordsBigEndian bc c ↔
      (flow wordsBigEndian bc c.1.toNat oi after).branch = some c' ∨
      ∃ posNext, (flow wordsBigEndian bc c.1.toNat oi after).next = some posNext ∧
        c' = (posNext, after) := by
  simp only [successors, hinstr, hafter, List.mem_append, Option.mem_toList, List.mem_map]
  exact or_congr Iff.rfl (exists_congr fun posNext => and_congr Iff.rfl eq_comm)

/-- The greatest level only grows. -/
theorem stackLenMax_le {fuel : Nat}
    (h : computeStackSizeRec wordsBigEndian bc fuel s pos op stackLen = some (.ok s')) :
    s.stackLenMax ≤ s'.stackLenMax := by
  induction fuel generalizing s pos op stackLen s' with
  | zero => cases h
  | succ fuel ih =>
    rcases computeStackSizeRec_cases h with ⟨-, rfl⟩ | ⟨s₁, op₁, fl, after, s₂, hvisit, hbranch,
      hnext⟩
    · exact Nat.le_refl _
    · obtain ⟨oi, nPop, -, -, -, -, hmax, -⟩ := visit_some hvisit
      have hmid : s₁.stackLenMax ≤ s₂.stackLenMax := by
        rcases hbranch with ⟨-, rfl⟩ | ⟨target, level, -, hrec⟩
        · exact Nat.le_refl _
        · exact (Nat.le_max_left _ _).trans (ih hrec)
      have hlast : s₂.stackLenMax ≤ s'.stackLenMax := by
        rcases hnext with ⟨-, rfl⟩ | ⟨posNext, -, hrec⟩
        · exact Nat.le_refl _
        · exact ih hrec
      omega

/-- From `s` to `s'` nothing has been forgotten, and every position explored in between has all
that follows it explored. -/
structure Completes (wordsBigEndian : Bool) (bc : List UInt8) (s s' : StackSizeState) : Prop where
  le : s.stackLenMax ≤ s'.stackLenMax
  keeps : ∀ q, s.stackLevelTab q ≠ unexplored → s'.stackLevelTab q = s.stackLevelTab q
  closed : ∀ q : Nat, s.stackLevelTab q = unexplored → s'.stackLevelTab q ≠ unexplored →
    s'.stackLevelTab q ≤ s'.stackLenMax ∧
    ∃ after, levelAfter wordsBigEndian bc (q, s'.stackLevelTab q) = some after ∧
      after ≤ s'.stackLenMax ∧
      ∀ c ∈ successors wordsBigEndian bc (q, s'.stackLevelTab q), Explored bc s' c

theorem Completes.refl : Completes wordsBigEndian bc s s :=
  ⟨Nat.le_refl _, fun _ _ => rfl, fun _ hopen hexplored => absurd hopen hexplored⟩

theorem Explored.mono {c : Int × Nat} (h : Explored bc s c)
    (hc : Completes wordsBigEndian bc s s') : Explored bc s' c := by
  obtain ⟨hlow, hhigh, hlevel, hopen⟩ := h
  exact ⟨hlow, hhigh, (hc.keeps _ (hlevel ▸ hopen)).trans hlevel, hopen⟩

theorem Completes.trans {s₁ s₂ s₃ : StackSizeState} (h : Completes wordsBigEndian bc s₁ s₂)
    (h' : Completes wordsBigEndian bc s₂ s₃) : Completes wordsBigEndian bc s₁ s₃ := by
  refine ⟨h.le.trans h'.le, fun q hq => ?_, fun q hopen hexplored => ?_⟩
  · have hmid := h.keeps q hq
    rw [h'.keeps q (hmid ▸ hq), hmid]
  · by_cases hmid : s₂.stackLevelTab q = unexplored
    · exact h'.closed q hmid hexplored
    · obtain ⟨hle, after, hafter, hmax, hnext⟩ := h.closed q hopen hmid
      rw [h'.keeps q hmid]
      exact ⟨hle.trans h'.le, after, hafter, hmax.trans h'.le, fun c hc => (hnext c hc).mono h'⟩

/-- A larger greatest level does no harm. -/
theorem Completes.raise (n : Nat) :
    Completes wordsBigEndian bc s { s with stackLenMax := max s.stackLenMax n } :=
  ⟨Nat.le_max_left _ _, fun _ _ => rfl, fun _ hopen hexplored => absurd hopen hexplored⟩

/-- A call that succeeds, with levels that the table can hold, has explored its position and all
that follows it. -/
theorem completes_rec {fuel : Nat}
    (h : computeStackSizeRec wordsBigEndian bc fuel s pos op stackLen = some (.ok s'))
    (hlen : stackLen ≤ s.stackLenMax) (hmax : s'.stackLenMax < unexplored) :
    Completes wordsBigEndian bc s s' ∧ Explored bc s' (pos, stackLen) := by
  induction fuel generalizing s pos op stackLen s' with
  | zero => cases h
  | succ fuel ih =>
    rcases computeStackSizeRec_cases h with ⟨hvisit, rfl⟩ | ⟨s₁, op₁, fl, after, s₂, hvisit,
      hbranch, hnext⟩
    · exact ⟨.refl, visit_none hvisit⟩
    · obtain ⟨oi, nPop, hinstr, hopen, hafter, rfl, hs₁, htab⟩ := visit_some hvisit
      obtain ⟨⟨hlow, hhigh⟩, -⟩ := instruction_eq_some hinstr
      have hlast : s₂.stackLenMax ≤ s'.stackLenMax := by
        rcases hnext with ⟨-, rfl⟩ | ⟨posNext, -, hrec⟩
        · exact Nat.le_refl _
        · exact stackLenMax_le hrec
      -- the branch
      have hfirst : Completes wordsBigEndian bc s₁ s₂ ∧
          ∀ c, (flow wordsBigEndian bc pos.toNat oi after).branch = some c → Explored bc s₂ c := by
        rcases hbranch with ⟨hnone, rfl⟩ | ⟨target, level, hsome, hrec⟩
        · exact ⟨.refl, fun c hc => by simp [hnone] at hc⟩
        · obtain ⟨hcompletes, hexplored⟩ := ih hrec (Nat.le_max_right _ _) (by omega)
          refine ⟨(Completes.raise level).trans hcompletes, fun c hc => ?_⟩
          obtain rfl := Option.some.inj (hsome.symm.trans hc)
          exact hexplored
      have hafter_le : after ≤ s₂.stackLenMax := by
        have := hfirst.1.le
        omega
      -- the next position
      have hsecond : Completes wordsBigEndian bc s₂ s' ∧ ∀ posNext,
          (flow wordsBigEndian bc pos.toNat oi after).next = some posNext →
            Explored bc s' (posNext, after) := by
        rcases hnext with ⟨hnone, rfl⟩ | ⟨posNext, hsome, hrec⟩
        · exact ⟨.refl, fun c hc => by simp [hnone] at hc⟩
        · obtain ⟨hcompletes, hexplored⟩ := ih hrec hafter_le hmax
          refine ⟨hcompletes, fun c hc => ?_⟩
          obtain rfl := Option.some.inj (hsome.symm.trans hc)
          exact hexplored
      have hrest := hfirst.1.trans hsecond.1
      have hle : s.stackLenMax ≤ s'.stackLenMax := by
        have := hrest.le
        omega
      have hsmall : stackLen % 2 ^ 16 = stackLen := Nat.mod_eq_of_lt (by
        unfold unexplored at hmax
        omega)
      have hlevel : s'.stackLevelTab pos.toNat = stackLen := by
        have hkept := hrest.keeps pos.toNat (by
          rw [htab, update_self, hsmall]
          omega)
        rw [hkept, htab, update_self, hsmall]
      refine ⟨⟨hle, fun q hq => ?_, fun q hq hexplored => ?_⟩, hlow, hhigh, hlevel, by omega⟩
      · have hne : q ≠ pos.toNat := fun heq => hq (heq ▸ hopen)
        have hkept := hrest.keeps q (by rwa [htab, update_of_ne hne])
        rwa [htab, update_of_ne hne] at hkept
      · by_cases hqp : q = pos.toNat
        · subst hqp
          have hpos : ((pos.toNat : Nat) : Int) = pos := Int.toNat_of_nonneg hlow
          rw [hlevel, hpos]
          refine ⟨hlen.trans hle, after, hafter, hafter_le.trans hlast, fun c hc => ?_⟩
          rcases (mem_successors hinstr hafter c).mp hc with hbranch | ⟨posNext, hnext, rfl⟩
          · exact (hfirst.2 c hbranch).mono hsecond.1
          · exact hsecond.2 posNext hnext
        · exact hrest.closed q (by rwa [htab, update_of_ne hqp]) hexplored

/-! ## Consistent bytecode is explored to the end -/

/-- The positions that have not been explored. -/
def openPositions (bc : List UInt8) (s : StackSizeState) : Finset Nat :=
  (Finset.range bc.length).filter fun q => s.stackLevelTab q = unexplored

theorem openPositions_subset (h : Completes wordsBigEndian bc s s') :
    openPositions bc s' ⊆ openPositions bc s := by
  intro q hq
  obtain ⟨hlt, hopen⟩ := Finset.mem_filter.mp hq
  refine Finset.mem_filter.mpr ⟨hlt, ?_⟩
  by_contra hexplored
  exact hexplored ((h.keeps q hexplored).symm.trans hopen)

/-- The table and the greatest level come from the ways that have been explored. -/
structure Faithful (wordsBigEndian : Bool) (bc : List UInt8) (s : StackSizeState) : Prop where
  reached : ∀ q : Nat, s.stackLevelTab q ≠ unexplored →
    Reached wordsBigEndian bc (q, s.stackLevelTab q)
  attained : s.stackLenMax ∈ levels wordsBigEndian bc

theorem Faithful.raise {n : Nat} (h : Faithful wordsBigEndian bc s)
    (hn : n ∈ levels wordsBigEndian bc) :
    Faithful wordsBigEndian bc { s with stackLenMax := max s.stackLenMax n } := by
  refine ⟨h.reached, ?_⟩
  rcases max_choice s.stackLenMax n with hmax | hmax
  · rw [hmax]
    exact h.attained
  · rw [hmax]
    exact hn

theorem Reached.level {c : Int × Nat} (h : Reached wordsBigEndian bc c) :
    c.2 ∈ levels wordsBigEndian bc := ⟨c, h, .inl rfl⟩

/-- In consistent bytecode whose levels the table can hold no call fails, and fuel for the
positions that have not been explored is enough. -/
theorem rec_succeeds {fuel : Nat} (hc : StackConsistent wordsBigEndian bc)
    (hlevels : ∀ n ∈ levels wordsBigEndian bc, n < unexplored)
    (hs : Faithful wordsBigEndian bc s) (hreached : Reached wordsBigEndian bc (pos, stackLen))
    (hlen : stackLen ≤ s.stackLenMax) (hfuel : (openPositions bc s).card < fuel) (op : Nat) :
    ∃ s', computeStackSizeRec wordsBigEndian bc fuel s pos op stackLen = some (.ok s') ∧
      Faithful wordsBigEndian bc s' := by
  induction fuel generalizing s pos op stackLen with
  | zero => omega
  | succ fuel ih =>
    obtain ⟨after, hafter⟩ := Option.isSome_iff_exists.mp (hc.runs _ hreached)
    have hsmall := hlevels _ hreached.level
    obtain ⟨op', oi, nPop, hinstr, -, -⟩ := levelAfter_eq_some hafter
    obtain ⟨⟨hlow, hhigh⟩, -⟩ := instruction_eq_some hinstr
    have hpos : ((pos.toNat : Nat) : Int) = pos := Int.toNat_of_nonneg hlow
    rw [computeStackSizeRec]
    by_cases hopen : s.stackLevelTab pos.toNat = unexplored
    · have hmem : after ∈ levels wordsBigEndian bc := ⟨_, hreached, .inr hafter⟩
      have hbound : ∀ n ∈ levels wordsBigEndian bc, n ≤ jsStackSizeMax := fun n hn => by
        have := hlevels n hn
        unfold unexplored at this
        unfold jsStackSizeMax
        omega
      obtain ⟨⟨s₁, op₁, fl, after₁⟩, hvisit⟩ := visit_runs op hopen hafter (hbound _ hmem)
      obtain ⟨oi₁, nPop₁, hinstr₁, -, hafter₁, rfl, hs₁, htab⟩ := visit_some hvisit
      obtain rfl : after = after₁ := Option.some.inj (hafter.symm.trans hafter₁)
      rw [hvisit]
      dsimp only
      have hlevel : stackLen % 2 ^ 16 = stackLen := Nat.mod_eq_of_lt (by
        unfold unexplored at hsmall
        omega)
      have hfaithful : Faithful wordsBigEndian bc s₁ := by
        refine ⟨fun q hq => ?_, hs₁ ▸ (hs.raise hmem).attained⟩
        rw [htab, hlevel] at hq ⊢
        by_cases hqp : q = pos.toNat
        · rw [hqp, update_self, hpos]
          exact hreached
        · rw [update_of_ne hqp] at hq ⊢
          exact hs.reached q hq
      have hcard : (openPositions bc s₁).card < fuel := by
        refine Nat.lt_of_lt_of_le (Finset.card_lt_card ?_) (Nat.lt_succ_iff.mp hfuel)
        refine Finset.ssubset_iff_subset_ne.mpr ⟨fun q hq => ?_, fun heq => ?_⟩
        · obtain ⟨hlt, hq⟩ := Finset.mem_filter.mp hq
          refine Finset.mem_filter.mpr ⟨hlt, ?_⟩
          by_cases hqp : q = pos.toNat
          · exact hqp ▸ hopen
          · rwa [htab, update_of_ne hqp] at hq
        · have hmem : pos.toNat ∈ openPositions bc s :=
            Finset.mem_filter.mpr ⟨Finset.mem_range.mpr (by omega), hopen⟩
          rw [← heq] at hmem
          have hmarked := (Finset.mem_filter.mp hmem).2
          rw [htab, update_self, hlevel] at hmarked
          omega
      -- the branch
      have hfirst : ∃ s₂, exploreBranch (computeStackSizeRec wordsBigEndian bc fuel) s₁ op₁
            (flow wordsBigEndian bc pos.toNat oi₁ after).branch = some (.ok s₂) ∧
          Faithful wordsBigEndian bc s₂ ∧ Completes wordsBigEndian bc s₁ s₂ := by
        cases hbranch : (flow wordsBigEndian bc pos.toNat oi₁ after).branch with
        | none => exact ⟨s₁, rfl, hfaithful, .refl⟩
        | some c =>
          have hstep : Reached wordsBigEndian bc c :=
            .step hreached ((mem_successors hinstr₁ hafter c).mpr (.inl hbranch))
          obtain ⟨s₂, hrec, hs₂⟩ := ih (hfaithful.raise hstep.level) hstep
            (Nat.le_max_right _ _) hcard op₁
          refine ⟨s₂, ?_, hs₂, ?_⟩
          · rw [exploreBranch, enter_ok (hbound _ hstep.level)]
            exact hrec
          · exact (Completes.raise c.2).trans
              (completes_rec hrec (Nat.le_max_right _ _) (hlevels _ hs₂.attained)).1
      obtain ⟨s₂, hbranched, hs₂, hcompletes⟩ := hfirst
      rw [hbranched]
      -- the next position
      cases hnext : (flow wordsBigEndian bc pos.toNat oi₁ after).next with
      | none => exact ⟨s₂, rfl, hs₂⟩
      | some posNext =>
        have hstep : Reached wordsBigEndian bc (posNext, after) :=
          .step hreached ((mem_successors hinstr₁ hafter _).mpr (.inr ⟨posNext, hnext, rfl⟩))
        have hle := hcompletes.le
        exact ih hs₂ hstep (by omega)
          (Nat.lt_of_le_of_lt (Finset.card_le_card (openPositions_subset hcompletes)) hcard) op₁
    · have hold := hs.reached _ hopen
      rw [hpos] at hold
      have hsame := hc.unique _ _ _ hold hreached
      rw [visit_explored op ⟨hlow, hhigh, hsame, hsame ▸ hopen⟩]
      exact ⟨s, rfl, hs⟩

/-! ## The whole function -/

/-- The state compute_stack_size starts with. -/
theorem faithful_start : Faithful wordsBigEndian bc ⟨0, fun _ => unexplored⟩ :=
  ⟨fun _ h => absurd rfl h, (0, 0), .root rfl, .inl rfl⟩

/-- A table that is complete from the first instruction holds every position that is reached. -/
theorem explored_of_reached (h : Completes wordsBigEndian bc ⟨0, fun _ => unexplored⟩ s')
    (hroot : Explored bc s' (0, 0)) {c : Int × Nat} (hc : Reached wordsBigEndian bc c) :
    Explored bc s' c ∧ c.2 ≤ s'.stackLenMax ∧
      ∃ after, levelAfter wordsBigEndian bc c = some after ∧ after ≤ s'.stackLenMax := by
  have hclosed : ∀ c, Explored bc s' c → c.2 ≤ s'.stackLenMax ∧
      ∃ after, levelAfter wordsBigEndian bc c = some after ∧ after ≤ s'.stackLenMax ∧
        ∀ c' ∈ successors wordsBigEndian bc c, Explored bc s' c' := by
    rintro ⟨pos, level⟩ ⟨hlow, -, hlevel, hopen⟩
    dsimp only at hlow hlevel hopen
    have hpos : ((pos.toNat : Nat) : Int) = pos := Int.toNat_of_nonneg hlow
    have hnext := h.closed pos.toNat rfl (hlevel ▸ hopen)
    rwa [hlevel, hpos] at hnext
  have hexplored : Explored bc s' c := hc.mem_of_closed (fun c hc => hc ▸ hroot)
    fun c c' hc hnext => by
      obtain ⟨-, -, -, -, hall⟩ := hclosed c hc
      exact hall c' hnext
  obtain ⟨hle, after, hafter, hmax, -⟩ := hclosed c hexplored
  exact ⟨hexplored, hle, after, hafter, hmax⟩

/-- With enough fuel, and for any level that is smaller than the mark of a position that has not
been explored: compute_stack_size returns `n` exactly when every way through the bytecode stays
in it and finds its operands, all ways to a position have the same level, and `n` is the greatest
level of all. -/
theorem compute_stack_size_exact {fuel n : Nat} (hfuel : bc.length < fuel) (hn : n < unexplored) :
    computeStackSize wordsBigEndian bc fuel = some (.ok n) ↔
      StackConsistent wordsBigEndian bc ∧ IsGreatest (levels wordsBigEndian bc) n := by
  have hopen : (openPositions bc ⟨0, fun _ => unexplored⟩).card < fuel :=
    Nat.lt_of_le_of_lt (Finset.card_filter_le _ _) (by simpa using hfuel)
  have hbounds : ∀ {s' : StackSizeState},
      computeStackSizeRec wordsBigEndian bc fuel ⟨0, fun _ => unexplored⟩ 0 0 0 = some (.ok s') →
      s'.stackLenMax < unexplored → StackConsistent wordsBigEndian bc ∧
        s'.stackLenMax ∈ upperBounds (levels wordsBigEndian bc) := fun hrec hmax => by
    obtain ⟨hcompletes, hroot⟩ := completes_rec hrec (Nat.le_refl _) hmax
    refine ⟨⟨fun c hc => ?_, fun pos l l' hl hl' => ?_⟩, fun m hm => ?_⟩
    · obtain ⟨-, -, after, hafter, -⟩ := explored_of_reached hcompletes hroot hc
      exact Option.isSome_iff_exists.mpr ⟨after, hafter⟩
    · obtain ⟨⟨-, -, hlevel, -⟩, -⟩ := explored_of_reached hcompletes hroot hl
      obtain ⟨⟨-, -, hlevel', -⟩, -⟩ := explored_of_reached hcompletes hroot hl'
      exact hlevel.symm.trans hlevel'
    · obtain ⟨c, hc, hm⟩ := hm
      obtain ⟨-, hle, after, hafter, hmax⟩ := explored_of_reached hcompletes hroot hc
      rcases hm with rfl | hm
      · exact hle
      · obtain rfl := Option.some.inj (hm.symm.trans hafter)
        exact hmax
  constructor
  · intro h
    obtain ⟨r, hrec, hr⟩ := Option.map_eq_some_iff.mp h
    rcases r with e | s'
    · cases hr
    · cases hr
      obtain ⟨hc, hupper⟩ := hbounds hrec hn
      obtain ⟨s'', hrec', hs''⟩ := rec_succeeds hc
        (fun m hm => Nat.lt_of_le_of_lt (hupper hm) hn) faithful_start (.root rfl)
        (Nat.le_refl _) hopen 0
      obtain rfl : s' = s'' := by
        rw [hrec] at hrec'
        exact Except.ok.inj (Option.some.inj hrec')
      exact ⟨hc, hs''.attained, hupper⟩
  · rintro ⟨hc, hmem, hupper⟩
    have hlevels : ∀ m ∈ levels wordsBigEndian bc, m < unexplored := fun m hm =>
      Nat.lt_of_le_of_lt (hupper hm) hn
    obtain ⟨s', hrec, hs'⟩ := rec_succeeds hc hlevels faithful_start (.root rfl)
      (Nat.le_refl _) hopen 0
    obtain ⟨-, hupper'⟩ := hbounds hrec (hlevels _ hs'.attained)
    have hmax : s'.stackLenMax = n := Nat.le_antisymm (hupper hs'.attained) (hupper' hmem)
    simp [computeStackSize, hrec, hmax, Except.map]

/-- `c ? undefined : null` with its return: push_true, if_false8, undefined, goto8, null, return. -/
def conditional : List UInt8 := [10, 235, 4, 6, 237, 2, 7, 40]

theorem compute_stack_size_exact_conditional :
    StackConsistent false conditional ∧ IsGreatest (levels false conditional) 1 := by
  have hsize : computeStackSize false conditional 9 = some (.ok 1) := rfl
  exact (compute_stack_size_exact (by decide) (by decide)).mp hsize

-- without the goto both values are on the stack at the return
example : computeStackSize false [10, 235, 2, 6, 7, 40] 7 =
    some (.error (.unconsistent 0 1 4)) := rfl

/-- Why the bound is needed: a loop whose level is the mark itself is explored for ever. -/
theorem rec_diverges {oi : JSOpCode} {op' nPop : Nat}
    (hinstr : instruction wordsBigEndian bc pos = some (op', oi, nPop))
    (hlevel : levelAfter wordsBigEndian bc (pos, unexplored) = some unexplored)
    (hbranch : (flow wordsBigEndian bc pos.toNat oi unexplored).branch = none)
    (hnext : (flow wordsBigEndian bc pos.toNat oi unexplored).next = some pos)
    (hopen : s.stackLevelTab pos.toNat = unexplored) (fuel : Nat) :
    computeStackSizeRec wordsBigEndian bc fuel s pos op unexplored = none := by
  induction fuel generalizing s op with
  | zero => rfl
  | succ fuel ih =>
    obtain ⟨⟨s₁, op₁, fl, after⟩, hvisit⟩ := visit_runs op hopen hlevel (by decide)
    obtain ⟨oi₁, nPop₁, hinstr₁, -, hafter, rfl, -, htab⟩ := visit_some hvisit
    obtain rfl : unexplored = after := Option.some.inj (hlevel.symm.trans hafter)
    rw [hinstr] at hinstr₁
    cases hinstr₁
    rw [computeStackSizeRec, hvisit]
    dsimp only
    rw [hbranch, hnext, exploreBranch, exploreNext]
    exact ih (by rw [htab, update_self]; rfl)

end IoQuickJS

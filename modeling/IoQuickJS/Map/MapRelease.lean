import IoQuickJS.Map.MapRelation

/-!
# Releasing keys and values

A key, a value or the result of a callback may hold the last references to iterators over the map.
Their finalizers leave the records they stand on, and a record whose entry has been deleted is
freed with the last of them. So a record that js_map_clear or js_map_forEach goes to next stays in
the list when no iterator is released that stands on the record of a deleted entry.
-/
namespace IoQuickJS

open Function (update update_self update_of_ne)

namespace JSMapState

variable {α : Type*} {K : KeyOps α} {s s' : JSMapState α} {d d' : MapData α} {pos : Nat → Nat}
  {r i : Nat} {mr : JSMapRecord α} {ns : List Nat}

/-! ## Finalizers -/

/-- Another hash table and other forEach calls. -/
def withTable (s : JSMapState α) (table : List (List Nat)) (frames : List Nat) : JSMapState α :=
  { s with hashTable := table, frames := frames }

theorem mapDecrefRecord_withTable (s : JSMapState α) (table : List (List Nat))
    (frames : List Nat) (r : Nat) :
    mapDecrefRecord (s.withTable table frames) r =
      (mapDecrefRecord s r).map (withTable · table frames) := by
  simp only [mapDecrefRecord, withTable]
  cases s.mem r with
  | none => rfl
  | some mr =>
    simp only [Option.bind_some]
    split_ifs <;> rfl

theorem jsMapIteratorFinalizer_withTable (s : JSMapState α) (table : List (List Nat))
    (frames : List Nat) (n : Nat) :
    jsMapIteratorFinalizer (s.withTable table frames) n =
      (jsMapIteratorFinalizer s n).map (withTable · table frames) := by
  rw [jsMapIteratorFinalizer, jsMapIteratorFinalizer]
  change (s.iterators[n]?.join).bind _ = _
  cases s.iterators[n]?.join with
  | none => rfl
  | some it =>
    simp only [Option.bind_some]
    cases it.curRecord with
    | none => rfl
    | some r =>
      simp only [mapDecrefRecord_withTable]
      cases mapDecrefRecord s r <;> rfl

/-- Finalizers do not look at the hash table and at the forEach calls. -/
theorem freeValues_withTable (s : JSMapState α) (table : List (List Nat)) (frames ns : List Nat) :
    freeValues (s.withTable table frames) ns =
      (freeValues s ns).map (withTable · table frames) := by
  induction ns generalizing s with
  | nil => rfl
  | cons n ns ih =>
    simp only [freeValues, List.foldlM_cons, jsMapIteratorFinalizer_withTable] at ih ⊢
    cases jsMapIteratorFinalizer s n with
    | none => rfl
    | some t => exact ih t

theorem freeValues_same (h : freeValues s ns = some s') :
    s'.hashTable = s.hashTable ∧ s'.frames = s.frames := by
  have hwith := freeValues_withTable s s.hashTable s.frames ns
  rw [show s.withTable s.hashTable s.frames = s from rfl, h, Option.map_some] at hwith
  rw [Option.some.inj hwith]
  exact ⟨rfl, rfl⟩

variable (K) in
/-- What the finalizers of the iterators `ns` leave: a record is freed only when its entry has been
deleted and one of the iterators has stood on it. -/
structure Freed (pos : Nat → Nat) (s : JSMapState α) (d : MapData α) (ns : List Nat)
    (s' : JSMapState α) (d' : MapData α) : Prop where
  refines : RefinesAt K s' d' pos
  finalized : d.Finalized d'
  frames : s'.frames = s.frames
  records : ∀ q ∈ s'.records, q ∈ s.records
  stays : ∀ q ∈ s.records, (∀ n ∈ ns, ¬ d.PastDeleted n (pos q)) → q ∈ s'.records

theorem Freed.trans {s'' : JSMapState α} {d'' : MapData α} {ms : List Nat}
    (h : Freed K pos s d ns s' d') (g : Freed K pos s' d' ms s'' d'') :
    Freed K pos s d (ns ++ ms) s'' d'' where
  refines := g.refines
  finalized := h.finalized.trans g.finalized
  frames := g.frames.trans h.frames
  records q hq := h.records q (g.records q hq)
  stays q hq hpast :=
    g.stays q (h.stays q hq fun n hn => hpast n (List.mem_append_left _ hn)) fun n hn hp =>
      hpast n (List.mem_append_right _ hn) (h.finalized.pastDeleted hp)

/-- A record of an entry that is not empty stays in any case. -/
theorem RefinesAt.mem_of_live (h' : RefinesAt K s' d' pos) (h : RefinesAt K s d pos)
    (hrecords : ∀ q ∈ s'.records, q ∈ s.records) (hr : r ∈ s.records) {kv : α × α}
    (hentry : d'.entries[pos r]? = some (some kv)) : r ∈ s'.records := by
  obtain ⟨q, hq, hpos⟩ := h'.inv.cover _ _ hentry
  exact h.inv.pos_inj (hrecords q hq) hr hpos ▸ hq

/-- A record that stays in the list is empty exactly when it was. -/
theorem Freed.record (g : Freed K pos s d ns s' d') (h : RefinesAt K s d pos)
    (hmr : s.mem r = some mr) (hlive : mr.empty = false) :
    ∃ mr', s'.mem r = some mr' ∧ mr'.empty = false ∧ mr'.key = mr.key ∧ mr'.value = mr.value := by
  have hentry := h.inv.entry_live hmr hlive
  rw [← g.finalized.entries] at hentry
  have hr := g.refines.mem_of_live h g.records (h.inv.mem_of_some hmr) hentry
  obtain ⟨mr', hmr'⟩ := g.refines.inv.exists_mem hr
  have hentry' := g.refines.inv.entry r mr' hmr'
  rw [hentry] at hentry'
  cases hempty : mr'.empty with
  | true => simp [hempty] at hentry'
  | false =>
    obtain ⟨hkey, hvalue⟩ : mr.key = mr'.key ∧ mr.value = mr'.value := by
      simpa [hempty] using hentry'
    exact ⟨mr', hmr', hempty, hkey.symm, hvalue.symm⟩

theorem RefinesAt.finalizer (h : RefinesAt K s d pos) (n : Nat) :
    Option.Rel (Freed K pos s d [n]) (jsMapIteratorFinalizer s n) (d.finalizer n) := by
  have hfinalized : ∀ d', d.finalizer n = some d' → d.Finalized d' := fun d' =>
    MapData.finalizer_finalized
  rw [jsMapIteratorFinalizer]
  rw [MapData.finalizer] at hfinalized ⊢
  rcases h.iterAt n with ⟨hs, hd⟩ | ⟨it, ix, hs, hd, hkind, hat⟩
  · rw [hs, hd]
    exact .none
  · simp only [hs, hd, Option.join_some, Option.bind_some, Option.map_some] at hfinalized ⊢
    cases hcur : it.curRecord with
    | none =>
      refine .some ⟨h.setIterator (.refl s) hs none none trivial h.inv fun r => ?_,
        hfinalized _ rfl, rfl, fun q hq => hq, fun q hq _ => hq⟩
      simp [standsOn, hcur]
    | some r =>
      have hheld := heldBy_pos_of_iterator hs hcur
      obtain ⟨s', hs', hholders, hrecords, hinv⟩ := h.inv.unlock hheld
      have h' := h.setIterator hholders hs none none trivial hinv fun q => by
        by_cases hq : q = r
        · subst hq
          simp [standsOn, hcur]
          omega
        · simp [standsOn, hcur, hq, Ne.symm hq]
      have hsub : ∀ q ∈ s'.records, q ∈ s.records := fun q hq => by
        by_cases hqr : q = r
        · exact hqr ▸ h.inv.heldLive r hheld
        · exact (hrecords q hqr).mp hq
      simp only [hs', Option.map_some]
      refine .some ⟨h', hfinalized _ rfl, hholders.frames, hsub, fun q hq hpast => ?_⟩
      by_cases hqr : q = r
      · -- the iterator stands on `q`, so the entry of `q` has not been deleted
        subst hqr
        obtain ⟨mq, hmq⟩ := h.inv.exists_mem hq
        have hentry := h.inv.entry q mq hmq
        cases hempty : mq.empty with
        | true =>
          simp only [hempty, if_true] at hentry
          refine absurd ⟨⟨ix.1, ?_⟩, hentry⟩ (hpast n (by simp))
          cases hattached : it.attached with
          | true => rw [hd, ← (by simpa [hattached, hcur] using hat : ix.2 = some (pos q + 1))]
          | false => simp [hattached, hcur] at hat
        | false =>
          simp only [hempty, Bool.false_eq_true, if_false] at hentry
          exact h'.mem_of_live h hsub hq hentry
      · exact (hrecords q hqr).mpr hq

theorem RefinesAt.freeValues (h : RefinesAt K s d pos) (ns : List Nat) :
    Option.Rel (Freed K pos s d ns) (freeValues s ns) (d.finalize ns) := by
  induction ns generalizing s d with
  | nil =>
    exact .some ⟨h, ⟨rfl, rfl, rfl, fun _ _ => id⟩, rfl, fun q hq => hq, fun q hq _ => hq⟩
  | cons n ns ih =>
    rw [JSMapState.freeValues, MapData.finalize, List.foldlM_cons, List.foldlM_cons]
    have hrest : ∀ s₁ d₁, Freed K pos s d [n] s₁ d₁ →
        Option.Rel (Freed K pos s d (n :: ns)) (JSMapState.freeValues s₁ ns) (d₁.finalize ns) := by
      intro s₁ d₁ hfirst
      have hns := ih hfirst.refines
      generalize JSMapState.freeValues s₁ ns = x, d₁.finalize ns = y at hns
      cases hns with
      | none => exact .none
      | some hns => exact .some (hfirst.trans hns)
    exact Simulation.rel_bind (h.finalizer n) hrest

/-! ## Deleting a record -/

/-- The record of an entry that is not empty is deleted as if its values were released first. -/
theorem mapDeleteRecord_eq (hmr : s.mem r = some mr) (hlive : mr.empty = false) (ns : List Nat)
    (hfree : ∀ s', JSMapState.freeValues s ns = some s' →
      ∃ mr', s'.mem r = some mr' ∧ mr'.empty = false) :
    mapDeleteRecord K s r ns =
      (JSMapState.freeValues s ns).bind fun s => mapDeleteRecord K s r [] := by
  rw [mapDeleteRecord, hmr, Option.bind_some]
  simp only [hlive, Bool.false_eq_true, if_false]
  change (JSMapState.freeValues
    (s.withTable (s.hashTable.map fun bucket => bucket.erase r) s.frames) ns).bind _ = _
  rw [freeValues_withTable]
  cases hs' : JSMapState.freeValues s ns with
  | none => rfl
  | some s' =>
    obtain ⟨mr', hmr', hlive'⟩ := hfree s' hs'
    obtain ⟨htable, hframes⟩ := freeValues_same hs'
    simp only [Option.map_some, Option.bind_some, mapDeleteRecord, hmr', hlive', withTable,
      JSMapState.freeValues, List.foldlM_nil, Option.pure_def, Bool.false_eq_true, if_false,
      htable, hframes]

variable (K) in
/-- What deleting a record leaves beside what the released iterators do. -/
structure Deleted (pos : Nat → Nat) (s : JSMapState α) (d : MapData α) (r : Nat) (ns : List Nat)
    (s' : JSMapState α) (d' : MapData α) : Prop where
  refines : RefinesAt K s' { d' with entries := d.entries.set (pos r) none } pos
  finalized : d.Finalized d'
  records : ∀ q ∈ s'.records, q ∈ s.records
  stays : ∀ q ∈ s.records, q ≠ r → (∀ n ∈ ns, ¬ d.PastDeleted n (pos q)) → q ∈ s'.records

theorem RefinesAt.deleteRecord (h : RefinesAt K s d pos) (hmr : s.mem r = some mr)
    (hlive : mr.empty = false) (ns : List Nat) :
    Option.Rel (Deleted K pos s d r ns) (mapDeleteRecord K s r ns) (d.finalize ns) := by
  have hfreed := h.freeValues ns
  rw [mapDeleteRecord_eq hmr hlive ns fun s' hs' => ?_, ← Option.bind_fun_some (d.finalize ns)]
  · refine Simulation.rel_bind hfreed fun s₁ d₁ g => ?_
    obtain ⟨mr₁, hmr₁, hlive₁, -⟩ := g.record h hmr hlive
    obtain ⟨s', hs', hholders, hrecords, hstays, hinv⟩ := g.refines.inv.delete hmr₁ hlive₁
    rw [hs']
    refine .some ⟨?_, g.finalized, fun q hq => g.records q (hrecords q hq),
      fun q hq hqr hpast => hstays q (g.stays q hq hpast) hqr⟩
    rw [← g.finalized.entries]
    exact g.refines.of_holders hholders hinv
  · rw [hs'] at hfreed
    generalize d.finalize ns = y at hfreed
    cases hfreed with
    | some hfreed =>
      obtain ⟨mr', hmr', hlive', -⟩ := hfreed.record h hmr hlive
      exact ⟨mr', hmr', hlive'⟩

/-! ## Deleting all records -/

/-- The record after the first one is the first of those that stand for later entries. -/
theorem MapInv.next {es : List (Option (α × α))} {held : Nat → Nat} (h : MapInv K s es pos held)
    (hr : r ∈ s.records) :
    ∃ rest, JSMapState.after r s.records = some rest ∧ FirstFrom s pos (pos r + 1) rest.head? := by
  obtain ⟨rest, hrest, hfrom, hsorted⟩ := h.after hr
  exact ⟨rest, hrest, hfrom.firstFrom hsorted⟩

/-- The rounds that are left get fewer with each record. -/
theorem rounds_lt (hnodup : s'.records.Nodup) (hr : r ∈ s.records) (hle : i ≤ pos r)
    (hrecords : ∀ q ∈ s'.records, q ∈ s.records) :
    (s'.records.filter fun q => pos r + 1 ≤ pos q).length <
      (s.records.filter fun q => i ≤ pos q).length := by
  have hcons : (r :: s'.records.filter fun q => pos r + 1 ≤ pos q).Nodup := by
    refine List.nodup_cons.mpr ⟨fun hmem => ?_, hnodup.filter _⟩
    have hlt := of_decide_eq_true (List.mem_filter.mp hmem).2
    omega
  have hsub : (r :: s'.records.filter fun q => pos r + 1 ≤ pos q) ⊆
      s.records.filter fun q => i ≤ pos q := by
    intro q hq
    rcases List.mem_cons.mp hq with rfl | hmem
    · exact List.mem_filter.mpr ⟨hr, by simpa using hle⟩
    · obtain ⟨hq', hlt⟩ := List.mem_filter.mp hmem
      exact List.mem_filter.mpr ⟨hrecords q hq', by simp at hlt ⊢; omega⟩
  exact Nat.lt_of_succ_le (List.subperm_of_subset hcons hsub).length_le

theorem flatten_take_succ {β : Type*} (ls : List (List β)) (n : Nat) :
    (ls.take (n + 1)).flatten = ls.headD [] ++ (ls.tail.take n).flatten := by
  cases ls <;> simp

theorem mem_flatten_iff {β : Type*} {ls : List (List β)} {x : β} :
    x ∈ ls.flatten ↔ x ∈ ls.headD [] ∨ x ∈ ls.tail.flatten := by
  cases ls <;> simp

/-- At the end of the list all entries are empty. -/
theorem RefinesAt.clearFrom_end (h : RefinesAt K s d pos) (hel : FirstFrom s pos i none)
    (hbefore : ∀ k < i, ∀ kv, d.entries[k]? ≠ some (some kv)) (released : List (List Nat)) :
    RefinesAt K s { d with entries := d.entries.map fun _ => none } pos ∧
      (released.take (d.entries.countP Option.isSome)).flatten = [] := by
  have hnone : ∀ e ∈ d.entries, e = none := by
    intro e he
    obtain ⟨k, hk⟩ := List.mem_iff_getElem?.mp he
    cases e with
    | none => rfl
    | some kv =>
      obtain ⟨r, hr, rfl⟩ := h.inv.cover k kv hk
      exact absurd hk (hbefore _ (hel r hr) kv)
  have hsame : (d.entries.map fun _ => none) = d.entries :=
    (List.map_congr_left fun e he => (hnone e he).symm).trans (List.map_id _)
  have hcount : d.entries.countP Option.isSome = 0 :=
    List.countP_eq_zero.mpr fun e he => by simp [hnone e he]
  rw [hsame, hcount]
  exact ⟨h, by simp⟩

/-- js_map_clear from `el` on empties the entries, while the iterators are finalized that are
released with the records that are not empty. -/
theorem RefinesAt.clearFrom (rounds : Nat) {el : Option Nat} {released : List (List Nat)}
    (h : RefinesAt K s d pos) (hel : FirstFrom s pos i el)
    (hbefore : ∀ k < i, ∀ kv, d.entries[k]? ≠ some (some kv))
    (hrounds : (s.records.filter fun q => i ≤ pos q).length ≤ rounds)
    (hsafe : ∀ n ∈ released.flatten, ∀ j, i ≤ j → ¬ d.PastDeleted n j) :
    Option.Rel (fun s' d' => RefinesAt K s' { d' with entries := d.entries.map fun _ => none } pos)
      (JSMapState.clearFrom K rounds s el released)
      (d.finalize (released.take (d.entries.countP Option.isSome)).flatten) := by
  induction rounds generalizing s d i el released with
  | zero =>
    cases el with
    | none =>
      obtain ⟨hend, hnil⟩ := h.clearFrom_end hel hbefore released
      rw [hnil]
      exact .some hend
    | some r =>
      obtain ⟨hr, hle, -⟩ := hel
      have hmem : r ∈ s.records.filter fun q => i ≤ pos q :=
        List.mem_filter.mpr ⟨hr, decide_eq_true hle⟩
      have := List.length_pos_of_mem hmem
      omega
  | succ rounds ih =>
    cases el with
    | none =>
      obtain ⟨hend, hnil⟩ := h.clearFrom_end hel hbefore released
      rw [hnil]
      exact .some hend
    | some r =>
      obtain ⟨hr, hle, hfirst⟩ := hel
      obtain ⟨rest, hrest, hnext⟩ := h.inv.next hr
      obtain ⟨mr, hmr⟩ := h.inv.exists_mem hr
      rw [JSMapState.clearFrom, hrest, Option.bind_some, hmr, Option.bind_some]
      -- no entry between `i` and that of `r` has a record
      have hbetween : ∀ k < pos r, ∀ kv, d.entries[k]? ≠ some (some kv) := by
        intro k hk kv hkv
        obtain ⟨q, hq, rfl⟩ := h.inv.cover k kv hkv
        by_cases hiq : i ≤ pos q
        · have := hfirst q hq hiq
          omega
        · exact hbefore _ (Nat.lt_of_not_le hiq) kv hkv
      cases hempty : mr.empty with
      | true =>
        have hentry := h.inv.entry r mr hmr
        simp only [hempty, if_true] at hentry
        have hsame : mapDeleteRecord K s r (released.headD []) = some s := by
          simp [mapDeleteRecord, hmr, hempty]
        rw [hsame, Option.bind_some, if_pos rfl]
        refine ih h hnext ?_ ?_ ?_
        · intro k hk kv hkv
          rcases Nat.lt_succ_iff_lt_or_eq.mp hk with hlt | rfl
          · exact hbetween k hlt kv hkv
          · rw [hentry] at hkv
            cases hkv
        · exact Nat.le_of_lt_succ
            (Nat.lt_of_lt_of_le (rounds_lt h.inv.nodup hr hle fun q hq => hq) hrounds)
        · exact fun n hn j hj => hsafe n hn j (by omega)
      | false =>
        obtain ⟨hlt, hget⟩ := List.getElem?_eq_some_iff.mp (h.inv.entry_live hmr hempty)
        have hcount : d.entries.countP Option.isSome =
            (d.entries.set (pos r) none).countP Option.isSome + 1 := by
          have hpos : 0 < d.entries.countP Option.isSome :=
            List.countP_pos_iff.mpr ⟨_, List.getElem_mem hlt, by simp [hget]⟩
          rw [List.countP_set hlt, hget]
          simp
          omega
        rw [hcount, flatten_take_succ, MapData.finalize_append, if_neg (by simp)]
        refine Simulation.rel_bind (h.deleteRecord hmr hempty _) fun s' d' g => ?_
        have hstays : ∀ q ∈ rest.head?, q ∈ s'.records := fun q hq => by
          rw [hq] at hnext
          obtain ⟨hmem, hlater, -⟩ := hnext
          refine g.stays q hmem ?_ fun n hn => hsafe n (mem_flatten_iff.mpr (.inl hn)) _ (by omega)
          rintro rfl
          omega
        have hrec := @ih _ _ _ _ released.tail g.refines (hnext.removed g.records hstays) ?_ ?_ ?_
        · rw [MapData.finalize_entries] at hrec
          have hset : ((d.entries.set (pos r) none).map fun _ => (none : Option (α × α))) =
              d.entries.map fun _ => none := by simp
          rw [hset] at hrec
          generalize JSMapState.clearFrom K rounds s' rest.head? released.tail = x at hrec ⊢
          generalize d'.finalize _ = y at hrec ⊢
          cases y with
          | none =>
            cases hrec
            exact .none
          | some d'' =>
            cases hrec with
            | some hrec => exact .some hrec
        · intro k hk kv hkv
          rcases Nat.lt_succ_iff_lt_or_eq.mp hk with hlt | rfl
          · rw [List.getElem?_set_ne (by omega)] at hkv
            exact hbetween k hlt kv hkv
          · simp [List.getElem?_set] at hkv
        · exact Nat.le_of_lt_succ
            (Nat.lt_of_lt_of_le (rounds_lt g.refines.inv.nodup hr hle g.records) hrounds)
        · rintro n hn j hj ⟨⟨kind, hit⟩, hentry⟩
          refine hsafe n (mem_flatten_iff.mpr (.inr hn)) j (by omega)
            ⟨⟨kind, g.finalized.iterators n _ hit⟩, ?_⟩
          rwa [List.getElem?_set_ne (by omega)] at hentry

end JSMapState

end IoQuickJS

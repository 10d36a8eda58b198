import IoQuickJS.Map.MapData
import Mathlib.Data.List.Nodup
import Mathlib.Data.List.Count

/-!
# The records hold the entries

`MapInv` relates the records of a JSMapState to a list of entries: `pos` is the entry a record
was made for, and `held` how often a record is locked. Each operation on records is shown to keep
it, with the change to the entries that the operation stands for.
-/
namespace IoQuickJS

open Function (update update_self update_of_ne)

namespace JSMapState

variable {α : Type*} (K : KeyOps α)

structure MapInv (s : JSMapState α) (es : List (Option (α × α))) (pos held : Nat → Nat) :
    Prop where
  sorted : s.records.Pairwise fun r r' => pos r < pos r'
  alloc : ∀ r, (s.mem r).isSome ↔ r ∈ s.records
  fresh : ∀ r ∈ s.records, r < s.next
  entry : ∀ r mr, s.mem r = some mr →
    es[pos r]? = some (if mr.empty then none else some (mr.key, mr.value))
  cover : ∀ i kv, es[i]? = some (some kv) → ∃ r ∈ s.records, pos r = i
  refs : ∀ r mr, s.mem r = some mr → mr.refCount = held r + if mr.empty then 0 else 1
  heldLive : ∀ r, 0 < held r → r ∈ s.records
  count : s.recordCount = es.countP Option.isSome
  table : 0 < s.hashTable.length
  bucketNodup : ∀ b ∈ s.hashTable, b.Nodup
  buckets : ∀ h b, s.hashTable[h]? = some b → ∀ r, r ∈ b ↔ ∃ mr, s.mem r = some mr ∧
    mr.empty = false ∧ bucketOf K s.hashTable.length mr.key = h
  plain : ∀ r mr, s.mem r = some mr → mr.empty = false → K.plain mr.key
  distinct : ∀ r r' mr mr', s.mem r = some mr → s.mem r' = some mr' → mr.empty = false →
    mr'.empty = false → K.same mr.key mr'.key → r = r'

/-- Iterators and forEach calls are where they were. -/
structure SameHolders (s s' : JSMapState α) : Prop where
  isSet : s'.isSet = s.isSet
  iterators : s'.iterators = s.iterators
  frames : s'.frames = s.frames

variable {K} {s : JSMapState α} {es : List (Option (α × α))} {pos held : Nat → Nat} {r r' i : Nat}
  {mr : JSMapRecord α} {key value : α}

theorem SameHolders.refl (s : JSMapState α) : SameHolders s s := ⟨rfl, rfl, rfl⟩

theorem SameHolders.trans {a b c : JSMapState α} (h : SameHolders a b) (g : SameHolders b c) :
    SameHolders a c :=
  ⟨g.isSet.trans h.isSet, g.iterators.trans h.iterators, g.frames.trans h.frames⟩

theorem MapInv.mem_of_some (h : MapInv K s es pos held) (hmr : s.mem r = some mr) :
    r ∈ s.records := (h.alloc r).mp (by simp [hmr])

theorem MapInv.exists_mem (h : MapInv K s es pos held) (hr : r ∈ s.records) :
    ∃ mr, s.mem r = some mr := Option.isSome_iff_exists.mp ((h.alloc r).mpr hr)

theorem MapInv.nodup (h : MapInv K s es pos held) : s.records.Nodup :=
  h.sorted.imp fun hlt heq => absurd hlt (by simp [heq])

/-- Different records stand for different entries. -/
theorem MapInv.pos_inj (h : MapInv K s es pos held) (hr : r ∈ s.records) (hr' : r' ∈ s.records)
    (hpos : pos r = pos r') : r = r' := by
  have hnodup : (s.records.map pos).Nodup :=
    List.pairwise_map.mpr (h.sorted.imp fun hlt => Nat.ne_of_lt hlt)
  exact List.inj_on_of_nodup_map hnodup hr hr' hpos

theorem MapInv.entry_live (h : MapInv K s es pos held) (hmr : s.mem r = some mr)
    (hlive : mr.empty = false) : es[pos r]? = some (some (mr.key, mr.value)) := by
  simpa [hlive] using h.entry r mr hmr

/-- An entry that is not empty has a record. -/
theorem MapInv.record_of_entry (h : MapInv K s es pos held) {kv : α × α}
    (hes : es[i]? = some (some kv)) :
    ∃ r mr, s.mem r = some mr ∧ mr.empty = false ∧ pos r = i ∧ kv = (mr.key, mr.value) := by
  obtain ⟨r, hr, rfl⟩ := h.cover i kv hes
  obtain ⟨mr, hmr⟩ := h.exists_mem hr
  have hentry := h.entry r mr hmr
  rw [hes] at hentry
  cases hempty : mr.empty with
  | true => simp [hempty] at hentry
  | false => exact ⟨r, mr, hmr, hempty, rfl, by simpa [hempty] using hentry⟩

theorem MapInv.pos_lt (h : MapInv K s es pos held) (hr : r ∈ s.records) : pos r < es.length := by
  obtain ⟨mr, hmr⟩ := h.exists_mem hr
  exact (List.getElem?_eq_some_iff.mp (h.entry r mr hmr)).1

/-! ## Finding a record -/

theorem bucketOf_lt {size : Nat} (h : 0 < size) (key : α) : bucketOf K size key < size := by
  have := Nat.and_le_right (n := K.hash key) (m := size - 1)
  unfold bucketOf
  omega

theorem findIn_eq {rs : List Nat} (halloc : ∀ r ∈ rs, (s.mem r).isSome) :
    findIn K s key rs = some (rs.find? fun r => (s.mem r).any fun mr => K.same mr.key key) := by
  induction rs with
  | nil => rfl
  | cons r rs ih =>
    obtain ⟨mr, hmr⟩ := Option.isSome_iff_exists.mp (halloc r (by simp))
    rw [findIn, ih fun q hq => halloc q (by simp [hq])]
    by_cases hsame : K.same mr.key key <;> simp [hmr, hsame]

/-- map_find_record finds the record of the entry with the key. -/
theorem MapInv.find (h : MapInv K s es pos held) (hkey : K.plain key) :
    (mapFindRecord K s key = some none ∧ MapData.find K es key = none) ∨
    ∃ r mr, mapFindRecord K s key = some (some r) ∧ s.mem r = some mr ∧ mr.empty = false ∧
      K.same mr.key key ∧ MapData.find K es key = some (pos r) := by
  set b := bucketOf K s.hashTable.length key with hb
  have hlt : b < s.hashTable.length := bucketOf_lt h.table key
  have hbucket := h.buckets b _ (List.getElem?_eq_getElem hlt)
  have hfind : mapFindRecord K s key =
      some ((s.hashTable[b]).find? fun r => (s.mem r).any fun mr => K.same mr.key key) := by
    rw [mapFindRecord, ← hb, List.getElem?_eq_getElem hlt, Option.bind_some, findIn_eq]
    intro r hr
    obtain ⟨mr, hmr, -⟩ := (hbucket r).mp hr
    simp [hmr]
  rw [hfind]
  cases hres : (s.hashTable[b]).find? fun r => (s.mem r).any fun mr => K.same mr.key key with
  | none =>
    refine .inl ⟨rfl, List.findIdx?_eq_none_iff.mpr fun e he => ?_⟩
    by_contra htrue
    obtain ⟨kv, rfl, hsame⟩ : ∃ kv, e = some kv ∧ K.same kv.1 key = true := by
      cases e with
      | none => simp at htrue
      | some kv => exact ⟨kv, rfl, by simpa using htrue⟩
    obtain ⟨i, hi⟩ := List.mem_iff_getElem?.mp he
    obtain ⟨r, mr, hmr, hlive, -, rfl⟩ := h.record_of_entry hi
    have hhash : bucketOf K s.hashTable.length mr.key = b := by
      rw [hb, bucketOf, bucketOf, K.hash_eq (h.plain r mr hmr hlive) hkey hsame]
    have hmem := (hbucket r).mpr ⟨mr, hmr, hlive, hhash⟩
    have := List.find?_eq_none.mp hres r hmem
    simp only [hmr, Option.any_some] at this
    exact this hsame
  | some r =>
    obtain ⟨mr, hmr, hlive, -⟩ := (hbucket r).mp (List.mem_of_find?_eq_some hres)
    have hsame : K.same mr.key key = true := by
      simpa [hmr] using List.find?_some hres
    refine .inr ⟨r, mr, rfl, hmr, hlive, hsame, ?_⟩
    have hentry := h.entry_live hmr hlive
    obtain ⟨hlen, hget⟩ := List.getElem?_eq_some_iff.mp hentry
    rw [MapData.find, List.findIdx?_eq_some_iff_getElem]
    refine ⟨hlen, by simp [hget, hsame], fun j hj => ?_⟩
    by_contra htrue
    have hjlt : j < es.length := by omega
    obtain ⟨kv, hkv, hsame'⟩ : ∃ kv, es[j] = some kv ∧ K.same kv.1 key = true := by
      cases hj : es[j] with
      | none => simp [hj] at htrue
      | some kv => exact ⟨kv, rfl, by simpa [hj] using htrue⟩
    obtain ⟨r', mr', hmr', hlive', rfl, rfl⟩ := h.record_of_entry (i := j)
      (by rw [List.getElem?_eq_getElem (by omega), hkv])
    have hplain := h.plain r mr hmr hlive
    have hplain' := h.plain r' mr' hmr' hlive'
    have hboth := K.same_trans hplain' hkey hplain hsame' (K.same_symm hplain hkey hsame)
    have := h.distinct r' r mr' mr hmr' hmr hlive' hlive hboth
    simp [this] at hj

/-! ## Locking and unlocking -/

/-- Changing the count of a record together with its locks. -/
theorem MapInv.recount (h : MapInv K s es pos held) (hmr : s.mem r = some mr) (n : Nat) :
    MapInv K { s with
        mem := update s.mem r (some { mr with refCount := n + if mr.empty then 0 else 1 }) }
      es pos (update held r n) := by
  have hcases : ∀ q mq, update s.mem r
      (some { mr with refCount := n + if mr.empty then 0 else 1 }) q = some mq →
      ∃ mq', s.mem q = some mq' ∧ mq.empty = mq'.empty ∧ mq.key = mq'.key ∧
        mq.value = mq'.value ∧ mq.refCount = update held r n q + if mq.empty then 0 else 1 := by
    intro q mq hq
    by_cases hqr : q = r
    · subst hqr
      obtain rfl := by simpa using hq
      exact ⟨mr, hmr, rfl, rfl, rfl, by simp⟩
    · rw [update_of_ne hqr] at hq
      exact ⟨mq, hq, rfl, rfl, rfl, by simpa [update_of_ne hqr] using h.refs q mq hq⟩
  have hback : ∀ q mq, s.mem q = some mq → ∃ mq', update s.mem r
      (some { mr with refCount := n + if mr.empty then 0 else 1 }) q = some mq' ∧
      mq'.empty = mq.empty ∧ mq'.key = mq.key := by
    intro q mq hq
    by_cases hqr : q = r
    · subst hqr
      obtain rfl : mr = mq := by simpa [hmr] using hq
      exact ⟨_, update_self .., rfl, rfl⟩
    · exact ⟨mq, by rw [update_of_ne hqr, hq], rfl, rfl⟩
  refine { h with alloc := ?_, entry := ?_, refs := ?_, heldLive := ?_, buckets := ?_, plain := ?_,
                  distinct := ?_ }
  · intro q
    rw [← h.alloc q]
    by_cases hqr : q = r
    · subst hqr
      simp [hmr]
    · simp [update_of_ne hqr]
  · intro q mq hq
    obtain ⟨mq', hq', hempty, hkey, hvalue, -⟩ := hcases q mq hq
    rw [h.entry q mq' hq', hempty, hkey, hvalue]
  · intro q mq hq
    obtain ⟨-, -, -, -, -, hcount⟩ := hcases q mq hq
    exact hcount
  · intro q hq
    by_cases hqr : q = r
    · exact hqr ▸ h.mem_of_some (r := r) hmr
    · exact h.heldLive q (by simpa [update_of_ne hqr] using hq)
  · intro b l hl q
    rw [h.buckets b l hl q]
    constructor
    · rintro ⟨mq, hq, hlive, hhash⟩
      obtain ⟨mq', hq', hempty, hkey⟩ := hback q mq hq
      exact ⟨mq', hq', hempty.trans hlive, by rw [hkey]; exact hhash⟩
    · rintro ⟨mq, hq, hlive, hhash⟩
      obtain ⟨mq', hq', hempty, hkey, -⟩ := hcases q mq hq
      exact ⟨mq', hq', hempty ▸ hlive, by rw [← hkey]; exact hhash⟩
  · intro q mq hq hlive
    obtain ⟨mq', hq', hempty, hkey, -⟩ := hcases q mq hq
    exact hkey ▸ h.plain q mq' hq' (hempty ▸ hlive)
  · intro q q' mq mq' hq hq' hlive hlive' hsame
    obtain ⟨m, hm, hempty, hkey, -⟩ := hcases q mq hq
    obtain ⟨m', hm', hempty', hkey', -⟩ := hcases q' mq' hq'
    exact h.distinct q q' m m' hm hm' (hempty ▸ hlive) (hempty' ▸ hlive')
      (by rw [← hkey, ← hkey']; exact hsame)

/-- Taking an empty record that nobody has locked out of the list. -/
theorem MapInv.free (h : MapInv K s es pos held) (hmr : s.mem r = some mr)
    (hempty : mr.empty = true) (hheld : held r = 0) : MapInv K (freeRecord s r) es pos held := by
  have hmem : ∀ q mq, (freeRecord s r).mem q = some mq → q ≠ r ∧ s.mem q = some mq := by
    intro q mq hq
    by_cases hqr : q = r
    · simp [freeRecord, hqr] at hq
    · exact ⟨hqr, by simpa [freeRecord, update_of_ne hqr] using hq⟩
  have hin : ∀ q, q ∈ (freeRecord s r).records ↔ q ≠ r ∧ q ∈ s.records := fun q =>
    h.nodup.mem_erase_iff
  refine { h with sorted := ?_, alloc := ?_, fresh := ?_, entry := ?_, cover := ?_, refs := ?_,
                  heldLive := ?_, buckets := ?_, plain := ?_, distinct := ?_ }
  · exact h.sorted.sublist List.erase_sublist
  · intro q
    rw [hin q, ← h.alloc q]
    by_cases hqr : q = r <;> simp [freeRecord, hqr]
  · exact fun q hq => h.fresh q ((hin q).mp hq).2
  · exact fun q mq hq => h.entry q mq (hmem q mq hq).2
  · intro i kv hes
    obtain ⟨q, mq, hq, hlive, hpos, -⟩ := h.record_of_entry hes
    refine ⟨q, (hin q).mpr ⟨?_, h.mem_of_some hq⟩, hpos⟩
    rintro rfl
    simp_all
  · exact fun q mq hq => h.refs q mq (hmem q mq hq).2
  · intro q hq
    refine (hin q).mpr ⟨?_, h.heldLive q hq⟩
    rintro rfl
    omega
  · intro b l hl q
    rw [h.buckets b l hl q]
    constructor
    · rintro ⟨mq, hq, hlive, hhash⟩
      have hqr : q ≠ r := by
        rintro rfl
        simp_all
      exact ⟨mq, by simpa [freeRecord, update_of_ne hqr] using hq, hlive, hhash⟩
    · rintro ⟨mq, hq, hlive, hhash⟩
      exact ⟨mq, (hmem q mq hq).2, hlive, hhash⟩
  · exact fun q mq hq => h.plain q mq (hmem q mq hq).2
  · exact fun q q' mq mq' hq hq' => h.distinct q q' mq mq' (hmem q mq hq).2 (hmem q' mq' hq').2

theorem MapInv.lock (h : MapInv K s es pos held) (hmr : s.mem r = some mr) :
    ∃ s', lockRecord s r = some s' ∧ SameHolders s s' ∧
      MapInv K s' es pos (update held r (held r + 1)) := by
  refine ⟨{ s with mem := update s.mem r (some { mr with refCount := mr.refCount + 1 }) },
    by rw [lockRecord, hmr, Option.map_some], ⟨rfl, rfl, rfl⟩, ?_⟩
  have hcount := h.refs r mr hmr
  have := h.recount hmr (held r + 1)
  rwa [show held r + 1 + (if mr.empty then 0 else 1) = mr.refCount + 1 by omega] at this

theorem MapInv.unlock (h : MapInv K s es pos held) (hheld : 0 < held r) :
    ∃ s', mapDecrefRecord s r = some s' ∧ SameHolders s s' ∧
      (∀ q, q ≠ r → (q ∈ s'.records ↔ q ∈ s.records)) ∧
      MapInv K s' es pos (update held r (held r - 1)) := by
  obtain ⟨mr, hmr⟩ := h.exists_mem (h.heldLive r hheld)
  have hcount := h.refs r mr hmr
  have hrecount := h.recount hmr (held r - 1)
  rw [show held r - 1 + (if mr.empty then 0 else 1) = mr.refCount - 1 by omega] at hrecount
  rw [mapDecrefRecord, hmr, Option.bind_some]
  by_cases hzero : mr.refCount - 1 = 0
  · have hempty : mr.empty = true := by
      by_contra hlive
      simp only [hlive] at hcount
      have : mr.refCount = held r + 1 := hcount
      omega
    have hfree := hrecount.free (r := r) (update_self ..) hempty (by
      simp only [hempty, if_true] at hcount
      simp only [update_self]
      omega)
    refine ⟨freeRecord s r, by rw [if_pos hzero, if_pos hempty], ⟨rfl, rfl, rfl⟩,
      fun q hq => List.mem_erase_of_ne hq, ?_⟩
    simpa [freeRecord] using hfree
  · exact ⟨_, if_neg hzero, ⟨rfl, rfl, rfl⟩, fun _ _ => Iff.rfl, hrecount⟩

end JSMapState

end IoQuickJS

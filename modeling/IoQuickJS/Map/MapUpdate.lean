import IoQuickJS.Map.MapInv

/-!
# Adding, changing and deleting records

Each operation that changes the entries, as a change to the list of entries, and the walk over
the list as a search for the next entry that is not empty.
-/
namespace IoQuickJS

open Function (update update_self update_of_ne)

namespace JSMapState

variable {α : Type*} {K : KeyOps α} {s : JSMapState α} {es : List (Option (α × α))}
  {pos held : Nat → Nat} {r i : Nat} {mr : JSMapRecord α} {key value : α}

/-! ## Deleting -/

/-- A deleted record that has not been freed. -/
def emptied (K : KeyOps α) (s : JSMapState α) (r n : Nat) : JSMapState α :=
  { s with
    hashTable := s.hashTable.map fun bucket => bucket.erase r
    recordCount := s.recordCount - 1
    mem := update s.mem r (some ⟨n, true, K.undefined, K.undefined⟩) }

theorem MapInv.emptied (h : MapInv K s es pos held) (hmr : s.mem r = some mr)
    (hlive : mr.empty = false) :
    MapInv K (emptied K s r (held r)) (es.set (pos r) none) pos held := by
  have hr := h.mem_of_some hmr
  have hmem : ∀ q mq, (JSMapState.emptied K s r (held r)).mem q = some mq → mq.empty = false →
      q ≠ r ∧ s.mem q = some mq := by
    intro q mq hq hmq
    by_cases hqr : q = r
    · subst hqr
      obtain rfl := by simpa [JSMapState.emptied] using hq
      cases hmq
    · exact ⟨hqr, by simpa [JSMapState.emptied, update_of_ne hqr] using hq⟩
  refine { sorted := h.sorted, fresh := h.fresh, heldLive := h.heldLive, alloc := ?_, entry := ?_,
           cover := ?_, refs := ?_, count := ?_,
           table := by simpa [JSMapState.emptied] using h.table,
           bucketNodup := ?_, buckets := ?_, plain := ?_, distinct := ?_ }
  · intro q
    refine Iff.trans ?_ (h.alloc q)
    by_cases hqr : q = r
    · subst hqr
      simp [JSMapState.emptied, hmr]
    · simp [JSMapState.emptied, update_of_ne hqr]
  · intro q mq hq
    by_cases hqr : q = r
    · subst hqr
      obtain rfl := by simpa [JSMapState.emptied] using hq
      simp [h.pos_lt hr]
    · have hq' : s.mem q = some mq := by simpa [JSMapState.emptied, update_of_ne hqr] using hq
      have hpos : pos r ≠ pos q := fun heq => hqr (h.pos_inj (h.mem_of_some hq') hr heq.symm)
      rw [List.getElem?_set_ne hpos]
      exact h.entry q mq hq'
  · intro j kv hes
    have hj : pos r ≠ j := by
      rintro rfl
      simp [h.pos_lt hr] at hes
    rw [List.getElem?_set_ne hj] at hes
    exact h.cover j kv hes
  · intro q mq hq
    by_cases hqr : q = r
    · subst hqr
      obtain rfl := by simpa [JSMapState.emptied] using hq
      simp
    · exact h.refs q mq (by simpa [JSMapState.emptied, update_of_ne hqr] using hq)
  · have hentry := h.entry_live hmr hlive
    obtain ⟨hlt, hget⟩ := List.getElem?_eq_some_iff.mp hentry
    rw [List.countP_set hlt, hget]
    simp [JSMapState.emptied, h.count]
  · intro b hb
    obtain ⟨b', hb', rfl⟩ := List.mem_map.mp hb
    exact (h.bucketNodup b' hb').erase r
  · intro c l hl q
    obtain ⟨l', hl', rfl⟩ : ∃ l', s.hashTable[c]? = some l' ∧ l'.erase r = l := by
      simpa [JSMapState.emptied] using hl
    rw [(h.bucketNodup l' (List.mem_of_getElem? hl')).mem_erase_iff, h.buckets c l' hl' q]
    constructor
    · rintro ⟨hqr, mq, hq, hmq, hhash⟩
      refine ⟨mq, ?_, hmq, by simpa [JSMapState.emptied] using hhash⟩
      simpa [JSMapState.emptied, update_of_ne hqr] using hq
    · rintro ⟨mq, hq, hmq, hhash⟩
      obtain ⟨hqr, hq'⟩ := hmem q mq hq hmq
      exact ⟨hqr, mq, hq', hmq, by simpa [JSMapState.emptied] using hhash⟩
  · exact fun q mq hq hmq => h.plain q mq (hmem q mq hq hmq).2 hmq
  · exact fun q q' mq mq' hq hq' hmq hmq' =>
      h.distinct q q' mq mq' (hmem q mq hq hmq).2 (hmem q' mq' hq' hmq').2 hmq hmq'

/-- map_delete_record empties the entry of a record with which no iterator is released. -/
theorem MapInv.delete (h : MapInv K s es pos held) (hmr : s.mem r = some mr)
    (hlive : mr.empty = false) :
    ∃ s', mapDeleteRecord K s r [] = some s' ∧ SameHolders s s' ∧
      (∀ q ∈ s'.records, q ∈ s.records) ∧ (∀ q ∈ s.records, q ≠ r → q ∈ s'.records) ∧
      MapInv K s' (es.set (pos r) none) pos held := by
  have hcount := h.refs r mr hmr
  have hemptied := h.emptied hmr hlive
  have hn : mr.refCount - 1 = held r := by simp [hcount, hlive]
  simp only [mapDeleteRecord, freeValues, hmr, hlive, hn, Option.bind_some, List.foldlM_nil,
    Option.pure_def, Option.map_some, Bool.false_eq_true, if_false]
  by_cases hzero : held r = 0
  · have hfree := hemptied.free (r := r) (update_self ..) rfl hzero
    refine ⟨freeRecord (JSMapState.emptied K s r 0) r, ?_, ⟨rfl, rfl, rfl⟩,
      fun q => List.mem_of_mem_erase, fun q hq hqr => (List.mem_erase_of_ne hqr).mpr hq, ?_⟩
    · simp [hzero, freeRecord, JSMapState.emptied]
    · rwa [hzero] at hfree
  · refine ⟨JSMapState.emptied K s r (held r), ?_, ⟨rfl, rfl, rfl⟩, fun q hq => hq,
      fun q hq _ => hq, hemptied⟩
    simp [hzero, JSMapState.emptied]

/-! ## Changing a value -/

theorem countP_modify {β : Type*} {p : β → Bool} {f : β → β} (h : ∀ b, p (f b) = p b)
    (l : List β) (i : Nat) : (l.modify i f).countP p = l.countP p := by
  induction l generalizing i with
  | nil => simp
  | cons b l ih =>
    cases i with
    | zero => simp [List.countP_cons, h]
    | succ i => simp [List.countP_cons, ih]

theorem MapInv.setValue (h : MapInv K s es pos held) (hmr : s.mem r = some mr)
    (hlive : mr.empty = false) (value : α) :
    MapInv K { s with mem := update s.mem r (some { mr with value := value }) }
      (es.modify (pos r) (Option.map fun kv => (kv.1, value))) pos held := by
  have hr := h.mem_of_some hmr
  have hkey : ∀ q mq, update s.mem r (some { mr with value := value }) q = some mq →
      ∃ mq', s.mem q = some mq' ∧ mq.empty = mq'.empty ∧ mq.key = mq'.key ∧
        mq.refCount = mq'.refCount := by
    intro q mq hq
    by_cases hqr : q = r
    · subst hqr
      obtain rfl := by simpa using hq
      exact ⟨mr, hmr, rfl, rfl, rfl⟩
    · exact ⟨mq, by simpa [update_of_ne hqr] using hq, rfl, rfl, rfl⟩
  refine { h with alloc := ?_, entry := ?_, cover := ?_, refs := ?_, count := ?_, buckets := ?_,
                  plain := ?_, distinct := ?_ }
  · intro q
    refine Iff.trans ?_ (h.alloc q)
    by_cases hqr : q = r
    · subst hqr
      simp [hmr]
    · simp [update_of_ne hqr]
  · intro q mq hq
    by_cases hqr : q = r
    · subst hqr
      obtain rfl := by simpa using hq
      simp [h.entry_live hmr hlive, hlive]
    · have hq' : s.mem q = some mq := by simpa [update_of_ne hqr] using hq
      have hpos : pos r ≠ pos q := fun heq => hqr (h.pos_inj (h.mem_of_some hq') hr heq.symm)
      rw [List.getElem?_modify, h.entry q mq hq']
      simp [hpos]
  · intro j kv hes
    rw [List.getElem?_modify] at hes
    obtain ⟨e, he, heq⟩ := Option.map_eq_some_iff.mp hes
    cases e with
    | none =>
      split_ifs at heq
      cases heq
    | some kv' => exact h.cover j kv' he
  · intro q mq hq
    obtain ⟨mq', hq', hempty, -, hcount⟩ := hkey q mq hq
    rw [hcount, hempty]
    exact h.refs q mq' hq'
  · rw [countP_modify (by simp)]
    exact h.count
  · intro c l hl q
    rw [h.buckets c l hl q]
    constructor
    · rintro ⟨mq, hq, hmq, hhash⟩
      by_cases hqr : q = r
      · subst hqr
        obtain rfl : mr = mq := by simpa [hmr] using hq
        exact ⟨_, update_self .., hmq, hhash⟩
      · exact ⟨mq, (update_of_ne hqr ..).trans hq, hmq, hhash⟩
    · rintro ⟨mq, hq, hmq, hhash⟩
      obtain ⟨mq', hq', hempty, hk, -⟩ := hkey q mq hq
      exact ⟨mq', hq', hempty ▸ hmq, by rw [← hk]; exact hhash⟩
  · intro q mq hq hmq
    obtain ⟨mq', hq', hempty, hk, -⟩ := hkey q mq hq
    exact hk ▸ h.plain q mq' hq' (hempty ▸ hmq)
  · intro q q' mq mq' hq hq' hmq hmq' hsame
    obtain ⟨m, hm, hempty, hk, -⟩ := hkey q mq hq
    obtain ⟨m', hm', hempty', hk', -⟩ := hkey q' mq' hq'
    exact h.distinct q q' m m' hm hm' (hempty ▸ hmq) (hempty' ▸ hmq')
      (by rw [← hk, ← hk']; exact hsame)

/-! ## Adding a record -/

/-- The record of a new entry, before the hash table is looked at again. -/
def added (K : KeyOps α) (s : JSMapState α) (key value : α) : JSMapState α :=
  { s with
    next := s.next + 1
    mem := update s.mem s.next (some ⟨1, false, key, value⟩)
    hashTable := s.hashTable.modify (bucketOf K s.hashTable.length key) (· ++ [s.next])
    records := s.records ++ [s.next]
    recordCount := s.recordCount + 1 }

theorem MapInv.added (h : MapInv K s es pos held) (hkey : K.plain key)
    (hnew : MapData.find K es key = none) (value : α) :
    MapInv K (added K s key value) (es ++ [some (key, value)]) (update pos s.next es.length)
      held := by
  have hnext : s.next ∉ s.records := fun hmem => Nat.lt_irrefl _ (h.fresh _ hmem)
  have hnone : s.mem s.next = none :=
    Option.not_isSome_iff_eq_none.mp fun hsome => hnext ((h.alloc _).mp hsome)
  have hold : ∀ q mq, s.mem q = some mq → q ≠ s.next := by
    rintro q mq hq rfl
    simp [hnone] at hq
  have hpos : ∀ q ∈ s.records, update pos s.next es.length q = pos q := fun q hq =>
    update_of_ne (ne_of_mem_of_not_mem hq hnext) ..
  have hcases : ∀ q mq, (JSMapState.added K s key value).mem q = some mq →
      q = s.next ∧ mq = ⟨1, false, key, value⟩ ∨ q ≠ s.next ∧ s.mem q = some mq := by
    intro q mq hq
    by_cases hqn : q = s.next
    · subst hqn
      exact .inl ⟨rfl, by simpa [JSMapState.added, eq_comm] using hq⟩
    · exact .inr ⟨hqn, by simpa [JSMapState.added, update_of_ne hqn] using hq⟩
  have hdiff : ∀ q mq, s.mem q = some mq → mq.empty = false → ¬ K.same mq.key key := by
    intro q mq hq hmq hsame
    have hentry := h.entry_live hq hmq
    have := List.findIdx?_eq_none_iff.mp hnew _ (List.mem_of_getElem? hentry)
    simp [hsame] at this
  refine { sorted := ?_, alloc := ?_, fresh := ?_, entry := ?_, cover := ?_, refs := ?_,
           heldLive := ?_, count := ?_, table := by simpa [JSMapState.added] using h.table,
           bucketNodup := ?_, buckets := ?_, plain := ?_, distinct := ?_ }
  · refine List.pairwise_append.mpr ⟨?_, List.pairwise_singleton .., ?_⟩
    · exact h.sorted.imp_of_mem fun {a b} ha hb hlt => by rwa [hpos a ha, hpos b hb]
    · intro q hq q' hq'
      obtain rfl : q' = s.next := by simpa using hq'
      rw [hpos q hq, update_self]
      exact h.pos_lt hq
  · intro q
    by_cases hqn : q = s.next
    · subst hqn
      simp [JSMapState.added]
    · simpa [JSMapState.added, update_of_ne hqn, hqn] using h.alloc q
  · intro q hq
    rcases List.mem_append.mp hq with hq | hq
    · exact Nat.lt_succ_of_lt (h.fresh q hq)
    · obtain rfl : q = s.next := by simpa using hq
      exact Nat.lt_succ_self _
  · intro q mq hq
    rcases hcases q mq hq with ⟨rfl, rfl⟩ | ⟨hqn, hq⟩
    · simp
    · rw [update_of_ne hqn, List.getElem?_append_left (h.pos_lt (h.mem_of_some hq))]
      exact h.entry q mq hq
  · intro j kv hes
    by_cases hj : j < es.length
    · rw [List.getElem?_append_left hj] at hes
      obtain ⟨q, hq, rfl⟩ := h.cover j kv hes
      exact ⟨q, List.mem_append_left _ hq, hpos q hq⟩
    · have hjlen := (List.getElem?_eq_some_iff.mp hes).1
      simp only [List.length_append, List.length_singleton] at hjlen
      refine ⟨s.next, List.mem_append_right _ (by simp), ?_⟩
      rw [update_self]
      omega
  · intro q mq hq
    rcases hcases q mq hq with ⟨rfl, rfl⟩ | ⟨-, hq⟩
    · have : held s.next = 0 := by
        by_contra hne
        exact hnext (h.heldLive _ (Nat.pos_of_ne_zero hne))
      simp [this]
    · exact h.refs q mq hq
  · exact fun q hq => List.mem_append_left _ (h.heldLive q hq)
  · simp [JSMapState.added, h.count]
  · intro b hb
    obtain ⟨j, hj⟩ := List.mem_iff_getElem?.mp hb
    simp only [JSMapState.added, List.getElem?_modify] at hj
    obtain ⟨b', hb', rfl⟩ := Option.map_eq_some_iff.mp hj
    have hnodup := h.bucketNodup b' (List.mem_of_getElem? hb')
    split_ifs
    · refine List.nodup_append.mpr ⟨hnodup, by simp, ?_⟩
      intro q hq q' hq'
      obtain rfl : q' = s.next := by simpa using hq'
      obtain ⟨mq, hmq, -⟩ := (h.buckets j b' hb' q).mp hq
      exact hold q mq hmq
    · exact hnodup
  · intro c l hl q
    simp only [JSMapState.added, List.getElem?_modify] at hl
    obtain ⟨b, hb, rfl⟩ := Option.map_eq_some_iff.mp hl
    have hbucket := h.buckets c b hb
    have hlen : (JSMapState.added K s key value).hashTable.length = s.hashTable.length := by
      simp [JSMapState.added]
    rw [hlen]
    constructor
    · intro hq
      have hq' : q ∈ b ∨ bucketOf K s.hashTable.length key = c ∧ q = s.next := by
        split_ifs at hq with hc
        · simpa [hc] using hq
        · exact .inl hq
      rcases hq' with hq | ⟨hc, rfl⟩
      · obtain ⟨mq, hmq, hlive, hhash⟩ := (hbucket q).mp hq
        exact ⟨mq, (update_of_ne (hold q mq hmq) ..).trans hmq, hlive, hhash⟩
      · exact ⟨_, update_self .., rfl, hc⟩
    · rintro ⟨mq, hmq, hlive, hhash⟩
      rcases hcases q mq hmq with ⟨rfl, rfl⟩ | ⟨-, hq⟩
      · simp [show bucketOf K s.hashTable.length key = c from hhash]
      · have hqb := (hbucket q).mpr ⟨mq, hq, hlive, hhash⟩
        split_ifs
        · exact List.mem_append_left _ hqb
        · exact hqb
  · intro q mq hq hmq
    rcases hcases q mq hq with ⟨rfl, rfl⟩ | ⟨-, hq⟩
    · exact hkey
    · exact h.plain q mq hq hmq
  · intro q q' mq mq' hq hq' hmq hmq' hsame
    rcases hcases q mq hq with ⟨rfl, rfl⟩ | ⟨-, hq⟩ <;>
      rcases hcases q' mq' hq' with ⟨rfl, rfl⟩ | ⟨-, hq'⟩
    · rfl
    · exact absurd (K.same_symm hkey (h.plain q' mq' hq' hmq') hsame) (hdiff q' mq' hq' hmq')
    · exact absurd hsame (hdiff q mq hq hmq)
    · exact h.distinct q q' mq mq' hq hq' hmq hmq' hsame

/-- The table of map_hash_resize has the live records in the order of insertion. -/
theorem rehash_eq {rs : List Nat} (halloc : ∀ r ∈ rs, (s.mem r).isSome)
    (table : List (List Nat)) :
    ∃ table', rehash K s rs table = some table' ∧ table'.length = table.length ∧
      ∀ c b, table[c]? = some b → table'[c]? = some (b ++ rs.filter fun r =>
        (s.mem r).any fun mr => !mr.empty && bucketOf K table.length mr.key == c) := by
  induction rs generalizing table with
  | nil => exact ⟨table, rfl, rfl, fun c b hb => by simpa using hb⟩
  | cons r rs ih =>
    obtain ⟨mr, hmr⟩ := Option.isSome_iff_exists.mp (halloc r (by simp))
    have halloc' : ∀ q ∈ rs, (s.mem q).isSome := fun q hq => halloc q (by simp [hq])
    rw [rehash, hmr, Option.bind_some]
    cases hempty : mr.empty with
    | true =>
      obtain ⟨table', heq, hlen, hbucket⟩ := ih halloc' table
      refine ⟨table', heq, hlen, fun c b hb => ?_⟩
      rw [hbucket c b hb, List.filter_cons]
      simp [hmr, hempty]
    | false =>
      obtain ⟨table', heq, hlen, hbucket⟩ :=
        ih halloc' (table.modify (bucketOf K table.length mr.key) (· ++ [r]))
      refine ⟨table', heq, by simpa using hlen, fun c b hb => ?_⟩
      have hc : (table.modify (bucketOf K table.length mr.key) (· ++ [r]))[c]? =
          some (if bucketOf K table.length mr.key = c then b ++ [r] else b) := by
        simp [List.getElem?_modify, hb]
      rw [hbucket c _ hc, List.filter_cons, List.length_modify]
      by_cases hhash : bucketOf K table.length mr.key = c <;> simp [hmr, hempty, hhash]

theorem MapInv.resize (h : MapInv K s es pos held) (slack : Option Nat) :
    ∃ s', mapHashResize K s slack = some s' ∧ SameHolders s s' ∧ MapInv K s' es pos held := by
  cases slack with
  | none => exact ⟨s, rfl, .refl s, h⟩
  | some slack =>
    simp only [mapHashResize]
    set size := (if s.hashTable.length = 1 then 4 else s.hashTable.length * 2) + slack with hsize
    have hpositive : 0 < size := by
      have := h.table
      split_ifs at hsize <;> omega
    have halloc : ∀ r ∈ s.records, (s.mem r).isSome := fun r hr => (h.alloc r).mpr hr
    obtain ⟨table, htable, hlen, hbucket⟩ := rehash_eq (K := K) halloc (List.replicate size [])
    rw [List.length_replicate] at hlen
    have hfilter : ∀ c b, table[c]? = some b → b = s.records.filter fun r =>
        (s.mem r).any fun mr => !mr.empty && bucketOf K size mr.key == c := by
      intro c b hb
      have hc : c < size := by
        rw [← hlen]
        exact (List.getElem?_eq_some_iff.mp hb).1
      have := hbucket c [] (by simp [hc])
      simpa [hb] using this
    refine ⟨{ s with hashTable := table, recordCountThreshold := size * 2 }, by rw [htable]; rfl,
      ⟨rfl, rfl, rfl⟩, { h with table := by simpa [hlen] using hpositive,
                                bucketNodup := ?_, buckets := ?_ }⟩
    · intro b hb
      obtain ⟨c, hc⟩ := List.mem_iff_getElem?.mp hb
      rw [hfilter c b hc]
      exact h.nodup.filter _
    · intro c b hb r
      rw [hfilter c b hb, List.mem_filter]
      simp only [hlen]
      constructor
      · rintro ⟨-, hlive⟩
        obtain ⟨mr, hmr, hboth⟩ := (Option.any_eq_true ..).mp hlive
        exact ⟨mr, hmr, by simpa using hboth⟩
      · rintro ⟨mr, hmr, hlive, hhash⟩
        exact ⟨h.mem_of_some hmr, by simp [hmr, hlive, hhash]⟩

/-- map_add_record appends the entry. -/
theorem MapInv.add (h : MapInv K s es pos held) (hkey : K.plain key)
    (hnew : MapData.find K es key = none) (value : α) (slack : Option Nat) :
    ∃ s', mapAddRecord K s key value slack = some s' ∧ SameHolders s s' ∧
      MapInv K s' (es ++ [some (key, value)]) (update pos s.next es.length) held := by
  have hadded := h.added hkey hnew value
  have hholders : SameHolders s (JSMapState.added K s key value) := ⟨rfl, rfl, rfl⟩
  have heq : mapAddRecord K s key value slack =
      if (JSMapState.added K s key value).recordCount ≥
          (JSMapState.added K s key value).recordCountThreshold
      then mapHashResize K (JSMapState.added K s key value) slack
      else some (JSMapState.added K s key value) := rfl
  rw [heq]
  split_ifs
  · obtain ⟨s', hs', hholders', hinv⟩ := hadded.resize slack
    exact ⟨s', hs', hholders.trans hholders', hinv⟩
  · exact ⟨_, rfl, hholders, hadded⟩

/-! ## Walking -/

/-- The records that stand for the entries from index `i` on. -/
def From (s : JSMapState α) (pos : Nat → Nat) (i : Nat) (el : List Nat) : Prop :=
  (∀ r ∈ el, r ∈ s.records ∧ i ≤ pos r) ∧ ∀ r ∈ s.records, i ≤ pos r → r ∈ el

theorem MapInv.from_start (pos : Nat → Nat) (s : JSMapState α) : From s pos 0 s.records :=
  ⟨fun _ hr => ⟨hr, Nat.zero_le _⟩, fun _ hr _ => hr⟩

theorem after_append {pre rest : List Nat} (h : r ∉ pre) :
    after r (pre ++ r :: rest) = some rest := by
  induction pre with
  | nil => simp [after]
  | cons x pre ih =>
    have hx : x ≠ r := fun heq => h (by simp [heq])
    simp only [List.cons_append, after, if_neg hx]
    exact ih fun hr => h (by simp [hr])

/-- What follows a record in the list stands for the later entries. -/
theorem MapInv.after (h : MapInv K s es pos held) (hr : r ∈ s.records) :
    ∃ el, JSMapState.after r s.records = some el ∧ From s pos (pos r + 1) el ∧
      el.Pairwise fun r r' => pos r < pos r' := by
  obtain ⟨pre, rest, heq⟩ := List.append_of_mem hr
  have hnodup := h.nodup
  have hsorted := h.sorted
  rw [heq] at hnodup hsorted
  have hpre : r ∉ pre := fun hmem =>
    (List.nodup_append.mp hnodup).2.2 r hmem r (by simp) rfl
  obtain ⟨-, hrest, hbefore⟩ := List.pairwise_append.mp hsorted
  obtain ⟨hafter, hrest⟩ := List.pairwise_cons.mp hrest
  refine ⟨rest, by rw [heq, after_append hpre], ⟨fun q hq => ⟨?_, hafter q hq⟩, ?_⟩, hrest⟩
  · rw [heq]
    simp [hq]
  · intro q hq hle
    rw [heq] at hq
    rcases List.mem_append.mp hq with hq | hq
    · have := hbefore q hq r (by simp)
      omega
    · rcases List.mem_cons.mp hq with rfl | hq
      · omega
      · exact hq

/-- `el` is the first record that stands for an entry from index `i` on, if there is one. -/
def FirstFrom (s : JSMapState α) (pos : Nat → Nat) (i : Nat) : Option Nat → Prop
  | none => ∀ r ∈ s.records, pos r < i
  | some r => r ∈ s.records ∧ i ≤ pos r ∧ ∀ q ∈ s.records, i ≤ pos q → pos r ≤ pos q

theorem From.firstFrom {el : List Nat} (h : From s pos i el)
    (hsorted : el.Pairwise fun r r' => pos r < pos r') : FirstFrom s pos i el.head? := by
  cases el with
  | nil => exact fun r hr => Nat.lt_of_not_le fun hle => absurd (h.2 r hr hle) (by simp)
  | cons r rest =>
    obtain ⟨hr, hle⟩ := h.1 r (by simp)
    refine ⟨hr, hle, fun q hq hiq => ?_⟩
    rcases List.mem_cons.mp (h.2 q hq hiq) with rfl | hmem
    · exact Nat.le_refl _
    · exact Nat.le_of_lt ((List.pairwise_cons.mp hsorted).1 q hmem)

/-- Taking other records out of the list does not change which is the first. -/
theorem FirstFrom.removed {s' : JSMapState α} {el : Option Nat} (h : FirstFrom s pos i el)
    (hrecords : ∀ q ∈ s'.records, q ∈ s.records) (hstays : ∀ r ∈ el, r ∈ s'.records) :
    FirstFrom s' pos i el := by
  cases el with
  | none => exact fun r hr => h r (hrecords r hr)
  | some r => exact ⟨hstays r rfl, h.2.1, fun q hq => h.2.2 q (hrecords q hq)⟩

/-- The list from its first record on. -/
theorem MapInv.listFrom {el : Option Nat} (h : MapInv K s es pos held)
    (hel : FirstFrom s pos i el) :
    ∃ rest, JSMapState.listFrom el s.records = some rest ∧ From s pos i rest ∧
      rest.Pairwise fun r r' => pos r < pos r' := by
  cases el with
  | none =>
    refine ⟨[], rfl, ⟨by simp, fun r hr hle => ?_⟩, .nil⟩
    have := hel r hr
    omega
  | some r =>
    obtain ⟨hr, hle, hfirst⟩ := hel
    obtain ⟨rest, hrest, hfrom, hsorted⟩ := h.after hr
    refine ⟨r :: rest, by simp [JSMapState.listFrom, hrest], ⟨fun q hq => ?_, fun q hq hiq => ?_⟩,
      .cons (fun q hq => (hfrom.1 q hq).2) hsorted⟩
    · rcases List.mem_cons.mp hq with rfl | hmem
      · exact ⟨hr, hle⟩
      · obtain ⟨hq', hlt⟩ := hfrom.1 q hmem
        exact ⟨hq', by omega⟩
    · rcases Nat.eq_or_lt_of_le (hfirst q hq hiq) with heq | hlt
      · exact h.pos_inj hr hq heq ▸ List.mem_cons_self
      · exact List.mem_cons_of_mem _ (hfrom.2 q hq hlt)

/-- Walking over empty records finds the next entry. -/
theorem MapInv.firstLive {el : List Nat} (h : MapInv K s es pos held) (hel : From s pos i el)
    (hsorted : el.Pairwise fun r r' => pos r < pos r') :
    (firstLive s el = some none ∧ nextEntry es i = none) ∨
    ∃ r mr, firstLive s el = some (some r) ∧ s.mem r = some mr ∧ mr.empty = false ∧
      nextEntry es i = some (pos r, (mr.key, mr.value)) := by
  -- the empty records walked over stand for empty entries, and so do the indices in between
  suffices hwalk : ∀ el : List Nat, (∀ r ∈ el, r ∈ s.records ∧ i ≤ pos r) →
      el.Pairwise (fun r r' => pos r < pos r') →
      (∀ r mr, s.mem r = some mr → mr.empty = false → i ≤ pos r → r ∈ el) →
      (JSMapState.firstLive s el = some none ∧ nextEntry es i = none) ∨
      ∃ r mr, JSMapState.firstLive s el = some (some r) ∧ s.mem r = some mr ∧ mr.empty = false ∧
        nextEntry es i = some (pos r, (mr.key, mr.value)) from
    hwalk el hel.1 hsorted fun r mr hmr _ hle => hel.2 r (h.mem_of_some hmr) hle
  intro el hin hsorted hall
  induction el with
  | nil =>
    refine .inl ⟨rfl, nextEntry_eq_none.mpr fun k kv hle hes => ?_⟩
    obtain ⟨r, mr, hmr, hlive, rfl, -⟩ := h.record_of_entry hes
    exact absurd (hall r mr hmr hlive hle) (by simp)
  | cons r rest ih =>
    obtain ⟨hr, hle⟩ := hin r (by simp)
    obtain ⟨mr, hmr⟩ := h.exists_mem hr
    obtain ⟨hlater, hrest⟩ := List.pairwise_cons.mp hsorted
    rw [JSMapState.firstLive, hmr, Option.bind_some]
    cases hempty : mr.empty with
    | true =>
      refine ih (fun q hq => hin q (by simp [hq])) hrest fun q mq hmq hlive hq => ?_
      rcases List.mem_cons.mp (hall q mq hmq hlive hq) with rfl | hmem
      · simp_all
      · exact hmem
    | false =>
      refine .inr ⟨r, mr, rfl, hmr, hempty, nextEntry_eq_some.mpr
        ⟨hle, h.entry_live hmr hempty, fun k hik hkr => ?_⟩⟩
      have hlt := h.pos_lt hr
      cases hk : es[k]? with
      | none =>
        have := List.getElem?_eq_none_iff.mp hk
        omega
      | some e =>
        cases e with
        | none => rfl
        | some kv =>
          obtain ⟨q, mq, hmq, hlive, rfl, -⟩ := h.record_of_entry hk
          rcases List.mem_cons.mp (hall q mq hmq hlive hik) with rfl | hmem
          · omega
          · have := hlater q hmem
            omega

end JSMapState

end IoQuickJS

import IoQuickJS.Map.MapState

/-!
# The entries of a Map

What a Map is for, in the terms of the language: a list of entries that only grows, where a
deleted entry stays as an empty one, and iterators that are an index into the list. Neither
hashing nor memory nor reference counts appear.
-/
namespace IoQuickJS

/-- The entries of a list, numbered from `i`, from the first that is not empty on. -/
def firstEntry {β : Type*} : List (Option β) → Nat → Option (Nat × β)
  | [], _ => none
  | some e :: _, i => some (i, e)
  | none :: es, i => firstEntry es (i + 1)

/-- The first entry at index `i` or later that is not empty. -/
def nextEntry {β : Type*} (es : List (Option β)) (i : Nat) : Option (Nat × β) :=
  firstEntry (es.drop i) i

/-- A Map as its entries. An iterator has the index of the next entry to look at, `none` once it
is done; `frames` holds this index for the forEach calls in progress. -/
structure MapData (α : Type*) where
  isSet : Bool
  entries : List (Option (α × α))
  iterators : List (Option (JSIteratorKind × Option Nat))
  frames : List Nat

namespace MapData

variable {α : Type*} (K : KeyOps α)

/-- The entry with the same key. -/
def find (es : List (Option (α × α))) (key : α) : Option Nat :=
  es.findIdx? fun e => e.any fun kv => K.same kv.1 key

/-- A forEach that has come to index `i` calls its function with the next entry, or ends. -/
def walk (d : MapData α) (i : Nat) : MapData α × MapOutput α :=
  match nextEntry d.entries i with
  | none => (d, .undefined)
  | some (j, (key, value)) =>
    ({ d with frames := (j + 1) :: d.frames }, .call (if d.isSet then key else value) key)

/-- An iterator is gone. -/
def finalizer (d : MapData α) (n : Nat) : Option (MapData α) :=
  (d.iterators[n]?.join).map fun _ => { d with iterators := d.iterators.set n none }

def finalize (d : MapData α) (ns : List Nat) : Option (MapData α) := ns.foldlM finalizer d

/-- One call. -/
def step (d : MapData α) : MapLabel α → Option (MapData α × MapOutput α)
  | .set key value memory _ released =>
    let key := K.normalize key
    let value := if d.isSet then K.undefined else value
    match find K d.entries key with
    | some i =>
      (d.finalize released).map fun d =>
        ({ d with entries := d.entries.modify i (Option.map fun kv => (kv.1, value)) }, .this)
    | none =>
      if memory then some ({ d with entries := d.entries ++ [some (key, value)] }, .this)
      else some (d, .exception)
  | .get key =>
    match (find K d.entries (K.normalize key)).bind fun i => d.entries[i]?.join with
    | some kv => some (d, .value kv.2)
    | none => some (d, .undefined)
  | .has key => some (d, .bool (find K d.entries (K.normalize key)).isSome)
  | .delete key released =>
    match find K d.entries (K.normalize key) with
    | some i =>
      (d.finalize released).map fun d' => ({ d' with entries := d.entries.set i none }, .bool true)
    | none => some (d, .bool false)
  | .clear released =>
    (d.finalize (released.take (d.entries.countP Option.isSome)).flatten).map fun d' =>
      ({ d' with entries := d.entries.map fun _ => none }, .undefined)
  | .size => some (d, .uint32 (d.entries.countP Option.isSome))
  | .createIterator kind memory =>
    if memory then
      some ({ d with iterators := d.iterators ++ [some (kind, some 0)] },
        .iterator d.iterators.length)
    else some (d, .exception)
  | .next n memory =>
    (d.iterators[n]?.join).map fun it =>
      match it.2 with
      | none => (d, .done)
      | some i =>
        match nextEntry d.entries i with
        | none => ({ d with iterators := d.iterators.set n (some (it.1, none)) }, .done)
        | some (j, (key, value)) =>
          ({ d with iterators := d.iterators.set n (some (it.1, some (j + 1))) },
            JSMapState.iteratorResult d.isSet it.1 memory key value)
  | .finalizeIterator n => (d.finalizer n).map fun d => (d, .undefined)
  | .forEach => some (walk d 0)
  | .forEachReturn exception args ret =>
    match d.frames with
    | [] => none
    | i :: frames =>
      (d.finalize args).bind fun d =>
        let d := { d with frames := frames }
        if exception then some (d, .exception) else (d.finalize ret).map fun d => walk d i

/-- The iterator has come past the entry at `j`, which has been deleted since. -/
def PastDeleted (d : MapData α) (n j : Nat) : Prop :=
  (∃ kind, d.iterators[n]? = some (some (kind, some (j + 1)))) ∧ d.entries[j]? = some none

/-- The iterator has come past an entry that has been deleted since. -/
def pastDeleted (d : MapData α) (n : Nat) : Bool :=
  match (d.iterators[n]?.join).bind Prod.snd with
  | some (j + 1) => (d.entries[j]?).any Option.isNone
  | _ => false

/-- The values that clear, and forEach after a call, release are not the last to hold an iterator
which has come past an entry that has been deleted since. -/
def releasesSafely (d : MapData α) : MapLabel α → Bool
  | .clear released => released.flatten.all fun n => !d.pastDeleted n
  | .forEachReturn _ _ ret => ret.all fun n => !d.pastDeleted n
  | _ => true

/-- The Map without entries. -/
def new (isSet : Bool) : MapData α where
  isSet := isSet
  entries := []
  iterators := []
  frames := []

/-! ## Iterators that are gone -/

section Finalize

variable {d d' : MapData α} {n j : Nat} {ns : List Nat}

theorem pastDeleted_eq_false (h : d.pastDeleted n = false) (j : Nat) : ¬ d.PastDeleted n j := by
  rintro ⟨⟨kind, hn⟩, hj⟩
  simp [pastDeleted, hn, hj] at h

/-- Finalizing does not look at the entries. -/
theorem finalize_entries (d : MapData α) (es : List (Option (α × α))) (ns : List Nat) :
    finalize { d with entries := es } ns =
      (d.finalize ns).map fun d => { d with entries := es } := by
  induction ns generalizing d with
  | nil => rfl
  | cons n ns ih =>
    simp only [finalize, List.foldlM_cons, finalizer] at ih ⊢
    cases d.iterators[n]?.join with
    | none => rfl
    | some it => exact ih { d with iterators := d.iterators.set n none }

theorem finalize_append (d : MapData α) (ns ms : List Nat) :
    d.finalize (ns ++ ms) = (d.finalize ns).bind fun d => d.finalize ms := List.foldlM_append

/-- Finalizing takes iterators away, and nothing else. -/
structure Finalized (d d' : MapData α) : Prop where
  isSet : d'.isSet = d.isSet
  entries : d'.entries = d.entries
  frames : d'.frames = d.frames
  iterators : ∀ (n : Nat) (x : JSIteratorKind × Option Nat),
    d'.iterators[n]? = some (some x) → d.iterators[n]? = some (some x)

theorem Finalized.pastDeleted (h : Finalized d d') (hpast : d'.PastDeleted n j) :
    d.PastDeleted n j := by
  obtain ⟨⟨kind, hn⟩, hj⟩ := hpast
  exact ⟨⟨kind, h.iterators n _ hn⟩, h.entries ▸ hj⟩

theorem Finalized.trans {d'' : MapData α} (h : Finalized d d') (g : Finalized d' d'') :
    Finalized d d'' :=
  ⟨g.isSet.trans h.isSet, g.entries.trans h.entries, g.frames.trans h.frames,
    fun n x hx => h.iterators n x (g.iterators n x hx)⟩

theorem finalizer_finalized (h : d.finalizer n = some d') : Finalized d d' := by
  obtain ⟨it, -, rfl⟩ := Option.map_eq_some_iff.mp h
  refine ⟨rfl, rfl, rfl, fun m x hx => ?_⟩
  by_cases hmn : n = m
  · subst hmn
    simp [List.getElem?_set] at hx
  · rwa [List.getElem?_set_ne hmn] at hx

end Finalize

end MapData

/-! ## Finding entries -/

section Entries

variable {β : Type*} {es : List (Option β)} {i j : Nat} {e : β}

theorem firstEntry_eq_some : firstEntry es i = some (j, e) ↔
    i ≤ j ∧ es[j - i]? = some (some e) ∧ ∀ k, k < j - i → es[k]? = some none := by
  induction es generalizing i with
  | nil => simp [firstEntry]
  | cons head es ih =>
    cases head with
    | some x =>
      simp only [firstEntry, Option.some.injEq, Prod.mk.injEq]
      constructor
      · rintro ⟨rfl, rfl⟩
        simp
      · rintro ⟨hle, hget, hbefore⟩
        obtain rfl : i = j := by
          by_contra hne
          have := hbefore 0 (by omega)
          simp at this
        simpa using hget
    | none =>
      rw [firstEntry, ih]
      constructor
      · rintro ⟨hle, hget, hbefore⟩
        have hij : j - i = (j - (i + 1)) + 1 := by omega
        refine ⟨by omega, by rw [hij]; simpa using hget, fun k hk => ?_⟩
        cases k with
        | zero => rfl
        | succ k => simpa using hbefore k (by omega)
      · rintro ⟨hle, hget, hbefore⟩
        have hlt : i < j := by
          by_contra hge
          obtain rfl : i = j := by omega
          simp at hget
        have hij : j - i = (j - (i + 1)) + 1 := by omega
        rw [hij] at hget
        refine ⟨by omega, by simpa using hget, fun k hk => ?_⟩
        simpa using hbefore (k + 1) (by omega)

theorem firstEntry_eq_none :
    firstEntry es i = none ↔ ∀ (k : Nat) (x : β), es[k]? ≠ some (some x) := by
  induction es generalizing i with
  | nil => simp [firstEntry]
  | cons head es ih =>
    cases head with
    | some x =>
      rw [firstEntry]
      constructor
      · intro h
        cases h
      · exact fun h => absurd rfl (h 0 x)
    | none =>
      rw [firstEntry, ih]
      constructor
      · intro h k x
        cases k with
        | zero => simp
        | succ k => simpa using h k x
      · exact fun h k x => by simpa using h (k + 1) x

theorem nextEntry_eq_some : nextEntry es i = some (j, e) ↔
    i ≤ j ∧ es[j]? = some (some e) ∧ ∀ k, i ≤ k → k < j → es[k]? = some none := by
  rw [nextEntry, firstEntry_eq_some]
  constructor
  · rintro ⟨hle, hget, hbefore⟩
    refine ⟨hle, by simpa [List.getElem?_drop, Nat.add_sub_cancel' hle] using hget,
      fun k hik hkj => ?_⟩
    simpa [List.getElem?_drop, Nat.add_sub_cancel' hik] using hbefore (k - i) (by omega)
  · rintro ⟨hle, hget, hbefore⟩
    refine ⟨hle, by simpa [List.getElem?_drop, Nat.add_sub_cancel' hle] using hget, fun k hk => ?_⟩
    simpa [List.getElem?_drop] using hbefore (i + k) (by omega) (by omega)

theorem nextEntry_eq_none :
    nextEntry es i = none ↔ ∀ (k : Nat) (x : β), i ≤ k → es[k]? ≠ some (some x) := by
  rw [nextEntry, firstEntry_eq_none]
  constructor
  · intro h k x hik
    simpa [List.getElem?_drop, Nat.add_sub_cancel' hik] using h (k - i) x
  · intro h k x
    simpa [List.getElem?_drop] using h (i + k) x (by omega)

end Entries

end IoQuickJS

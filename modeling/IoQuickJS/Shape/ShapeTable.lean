import Mathlib.Data.List.Nodup
import IoQuickJS.Shape.ShapeInv

/-!
# The runtime's table of shapes

`Filed` says that the table holds the hashed shapes and nothing else, each once and in the bucket
of its hash. Linking, unlinking and resizing keep it.
-/
namespace IoQuickJS

open Function (update)

/-- The hash under which a shape is in the table, if it is. -/
def JSShape.hashKey (sh : JSShape) : Option (BitVec 32) :=
  if sh.isHashed then some sh.hash else none

/-- The table holds the shapes `hashed` gives a hash for, in the bucket of that hash. -/
def Filed (table : List (List Nat)) (bits : Nat) (hashed : Nat → Option (BitVec 32)) : Prop :=
  table.length = 2 ^ bits ∧ ∀ (b : Nat) (ids : List Nat), table[b]? = some ids →
    ids.Nodup ∧ ∀ id, id ∈ ids ↔ ∃ h, hashed id = some h ∧ getShapeHash h bits = b

theorem getShapeHash_lt (h : BitVec 32) (bits : Nat) : getShapeHash h bits < 2 ^ bits := by
  rw [getShapeHash, Nat.shiftRight_eq_div_pow]
  refine Nat.div_lt_of_lt_mul (Nat.lt_of_lt_of_le h.isLt ?_)
  rw [← Nat.pow_add]
  exact Nat.pow_le_pow_right (by omega) (by omega)

variable {table : List (List Nat)} {bits id : Nat} {hashed : Nat → Option (BitVec 32)}
  {h : BitVec 32}

theorem Filed.bucket (hl : Filed table bits hashed) (h : BitVec 32) :
    ∃ ids, table[getShapeHash h bits]? = some ids ∧ ids.Nodup ∧
      ∀ id, id ∈ ids ↔ ∃ h', hashed id = some h' ∧ getShapeHash h' bits = getShapeHash h bits := by
  have hlt := hl.1 ▸ getShapeHash_lt h bits
  exact ⟨_, List.getElem?_eq_getElem hlt, hl.2 _ _ (List.getElem?_eq_getElem hlt)⟩

theorem filed_empty (bits : Nat) : Filed (List.replicate (2 ^ bits) []) bits fun _ => none := by
  refine ⟨List.length_replicate, fun b ids hb => ?_⟩
  obtain rfl : ids = [] := (List.eq_of_mem_replicate (List.mem_of_getElem? hb))
  simp

theorem Filed.link (hl : Filed table bits hashed) (hid : hashed id = none) (h : BitVec 32) :
    Filed (table.modify (getShapeHash h bits) (id :: ·)) bits (update hashed id (some h)) := by
  refine ⟨by rw [List.length_modify, hl.1], fun b ids hb => ?_⟩
  by_cases hbucket : getShapeHash h bits = b
  · subst hbucket
    rw [List.getElem?_modify_eq] at hb
    obtain ⟨ids', hids', rfl⟩ := Option.map_eq_some_iff.mp hb
    obtain ⟨hnodup, hmem⟩ := hl.2 _ _ hids'
    refine ⟨List.nodup_cons.mpr ⟨fun hin => ?_, hnodup⟩, fun x => ?_⟩
    · obtain ⟨h', hh', -⟩ := (hmem id).mp hin
      simp [hid] at hh'
    · by_cases hx : x = id
      · subst hx
        simp
      · simp [hx, hmem x]
  · rw [List.getElem?_modify_ne _ _ hbucket] at hb
    obtain ⟨hnodup, hmem⟩ := hl.2 _ _ hb
    refine ⟨hnodup, fun x => ?_⟩
    by_cases hx : x = id
    · subst hx
      simp [hmem x, hid, hbucket]
    · simp [hx, hmem x]

theorem Filed.unlink (hl : Filed table bits hashed) (hid : hashed id = some h) :
    ∃ chain, table[getShapeHash h bits]? = some chain ∧ id ∈ chain ∧
      Filed (table.set (getShapeHash h bits) (chain.erase id)) bits (update hashed id none) := by
  obtain ⟨chain, hchain, hnodup, hmem⟩ := hl.bucket h
  refine ⟨chain, hchain, (hmem id).mpr ⟨h, hid, rfl⟩, by rw [List.length_set, hl.1], ?_⟩
  intro b ids hb
  by_cases hbucket : getShapeHash h bits = b
  · subst hbucket
    obtain rfl : chain.erase id = ids := by
      simpa [(List.getElem?_eq_some_iff.mp hchain).1] using hb
    refine ⟨hnodup.erase id, fun x => ?_⟩
    rw [hnodup.mem_erase_iff, hmem x]
    by_cases hx : x = id <;> simp [hx]
  · rw [List.getElem?_set_ne hbucket] at hb
    obtain ⟨hnodup, hmem⟩ := hl.2 _ _ hb
    refine ⟨hnodup, fun x => ?_⟩
    by_cases hx : x = id
    · subst hx
      simp [hmem x, hid, hbucket]
    · simp [hx, hmem x]

theorem Filed.flatten (hl : Filed table bits hashed) :
    table.flatten.Nodup ∧ ∀ id, id ∈ table.flatten ↔ ∃ h, hashed id = some h := by
  constructor
  · refine List.nodup_flatten.mpr ⟨fun ids hids => ?_, ?_⟩
    · obtain ⟨b, hb⟩ := List.mem_iff_getElem?.mp hids
      exact (hl.2 b ids hb).1
    · refine List.pairwise_iff_getElem.mpr fun b c hb hc hbc => ?_
      intro x hxb hxc
      obtain ⟨h, hh, rfl⟩ := ((hl.2 b _ (List.getElem?_eq_getElem hb)).2 x).mp hxb
      obtain ⟨h', hh', rfl⟩ := ((hl.2 c _ (List.getElem?_eq_getElem hc)).2 x).mp hxc
      obtain rfl : h = h' := by simpa [hh] using hh'
      omega
  · intro id
    rw [List.mem_flatten]
    constructor
    · rintro ⟨ids, hids, hid⟩
      obtain ⟨b, hb⟩ := List.mem_iff_getElem?.mp hids
      obtain ⟨h, hh, -⟩ := ((hl.2 b ids hb).2 id).mp hid
      exact ⟨h, hh⟩
    · rintro ⟨h, hh⟩
      obtain ⟨ids, hids, -, hmem⟩ := hl.bucket h
      exact ⟨ids, List.mem_of_getElem? hids, (hmem id).mpr ⟨h, hh, rfl⟩⟩

namespace ShapeHeap

variable {α : Type*} {s : ShapeHeap α}

/-- The hash of the shapes that are hashed. -/
def hashedAt (s : ShapeHeap α) (id : Nat) : Option (BitVec 32) := (s.shapes id).bind JSShape.hashKey

theorem hashedAt_eq_some : s.hashedAt id = some h ↔
    ∃ sh, s.shapes id = some sh ∧ sh.isHashed = true ∧ sh.hash = h := by
  simp [hashedAt, JSShape.hashKey, Option.bind_eq_some_iff]

/-- The loops of resize_shape_hash put the shapes into the new table one after the other. -/
theorem relink_foldlM {newBits : Nat} (ids : List Nat) (hids : ids.Nodup)
    (hhashed : ∀ id ∈ ids, ∃ h, s.hashedAt id = some h) {done : Nat → Option (BitVec 32)}
    (hdone : ∀ id ∈ ids, done id = none) (hl : Filed table newBits done) :
    ∃ table', ids.foldlM (relink s newBits) table = some table' ∧
      Filed table' newBits fun id => if id ∈ ids then s.hashedAt id else done id := by
  induction ids generalizing table done with
  | nil => exact ⟨table, rfl, by simpa using hl⟩
  | cons id ids ih =>
    obtain ⟨hnotin, hnodup⟩ := List.nodup_cons.mp hids
    obtain ⟨h, hh⟩ := hhashed id (by simp)
    obtain ⟨sh, hsh, -, rfl⟩ := hashedAt_eq_some.mp hh
    obtain ⟨table', htable', hlinked⟩ := ih hnodup (fun x hx => hhashed x (by simp [hx]))
      (fun x hx => by
        have : x ≠ id := by
          rintro rfl
          exact hnotin hx
        rw [Function.update_of_ne this, hdone x (by simp [hx])])
      (hl.link (hdone id (by simp)) sh.hash)
    refine ⟨table', by simpa [relink, hsh] using htable', ?_⟩
    convert hlinked using 2 with x
    by_cases hx : x = id
    · subst hx
      simp [hnotin, hh]
    · simp [hx]

theorem resizeShapeHash_eq (hl : Filed s.shapeHash s.shapeHashBits s.hashedAt) (newBits : Nat) :
    ∃ table, resizeShapeHash s newBits =
        some { s with shapeHash := table, shapeHashBits := newBits } ∧
      Filed table newBits s.hashedAt := by
  obtain ⟨hnodup, hmem⟩ := hl.flatten
  obtain ⟨table, htable, hlinked⟩ := relink_foldlM (s := s) s.shapeHash.flatten hnodup
    (fun id hid => (hmem id).mp hid) (fun _ _ => rfl) (filed_empty newBits)
  refine ⟨table, by rw [resizeShapeHash, htable, Option.map_some], ?_⟩
  convert hlinked using 2 with id
  split_ifs with hin
  · rfl
  · exact Option.eq_none_iff_forall_ne_some.mpr fun h hh => hin ((hmem id).mpr ⟨h, hh⟩)

theorem jsShapeHashUnlink_eq (hl : Filed s.shapeHash s.shapeHashBits hashed)
    (hid : hashed id = some h) :
    ∃ table count, jsShapeHashUnlink s id h =
        some { s with shapeHash := table, shapeHashCount := count } ∧
      Filed table s.shapeHashBits (update hashed id none) := by
  obtain ⟨chain, hchain, hin, hlinked⟩ := hl.unlink hid
  exact ⟨_, _, by rw [jsShapeHashUnlink, hchain, Option.bind_some, if_pos hin], hlinked⟩

/-- A search in a bucket of live shapes ends, and what it finds passes the test. -/
theorem findHashed_eq (test : JSShape → Bool) (ids : List Nat)
    (hlive : ∀ id ∈ ids, ∃ sh, s.shapes id = some sh) :
    ∃ r, findHashed s test ids = some r ∧
      ∀ id, r = some id → id ∈ ids ∧ ∃ sh, s.shapes id = some sh ∧ test sh = true := by
  induction ids with
  | nil => exact ⟨none, rfl, by simp⟩
  | cons id ids ih =>
    obtain ⟨sh, hsh⟩ := hlive id (by simp)
    rw [findHashed, hsh, Option.bind_some]
    by_cases htest : test sh = true
    · refine ⟨some id, if_pos htest, ?_⟩
      rintro _ ⟨⟩
      exact ⟨by simp, sh, hsh, htest⟩
    · obtain ⟨r, hr, hfound⟩ := ih fun x hx => hlive x (by simp [hx])
      refine ⟨r, by rw [if_neg htest, hr], fun x hx => ?_⟩
      obtain ⟨hin, hpass⟩ := hfound x hx
      exact ⟨by simp [hin], hpass⟩

/-- A search in the table for a hash. -/
theorem findHashed_bucket (hl : Filed s.shapeHash s.shapeHashBits s.hashedAt) (h : BitVec 32)
    (test : JSShape → Bool) :
    ∃ r, (s.shapeHash[getShapeHash h s.shapeHashBits]?.bind fun ids =>
        findHashed s test ids) = some r ∧
      ∀ id, r = some id → ∃ sh, s.shapes id = some sh ∧ sh.isHashed = true ∧ test sh = true := by
  obtain ⟨ids, hids, -, hmem⟩ := hl.bucket h
  obtain ⟨r, hr, hfound⟩ := findHashed_eq (s := s) test ids fun id hid => by
    obtain ⟨h', hh', -⟩ := (hmem id).mp hid
    obtain ⟨sh, hsh, -⟩ := hashedAt_eq_some.mp hh'
    exact ⟨sh, hsh⟩
  refine ⟨r, by rw [hids, Option.bind_some, hr], fun id hid => ?_⟩
  obtain ⟨hin, sh, hsh, htest⟩ := hfound id hid
  obtain ⟨h', hh', -⟩ := (hmem id).mp hin
  obtain ⟨sh', hsh', hhashed, -⟩ := hashedAt_eq_some.mp hh'
  obtain rfl : sh = sh' := by simpa [hsh] using hsh'
  exact ⟨sh, hsh, hhashed, htest⟩

end ShapeHeap

end IoQuickJS

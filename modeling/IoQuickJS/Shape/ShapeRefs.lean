import IoQuickJS.Shape.ShapeTable
import IoQuickJS.Shape.ObjectStore

/-!
# Counting references to shapes

`ShapesInv refs` is the invariant of the shapes of a heap when `refs` counts the references to
them. Each operation that takes or drops a reference is stated for any such count; the heap itself
counts the objects.
-/
namespace IoQuickJS

open Function (update)

/-- What other objects see of a shape. -/
structure JSShape.Same (sh sh' : JSShape) : Prop where
  names : sh'.names = sh.names
  proto : sh'.proto = sh.proto
  propSize : sh'.propSize = sh.propSize

namespace JSShape.Same

theorem rfl' (sh : JSShape) : sh.Same sh := ⟨rfl, rfl, rfl⟩

theorem trans {sh sh' sh'' : JSShape} (h : sh.Same sh') (h' : sh'.Same sh'') : sh.Same sh'' :=
  ⟨h'.names.trans h.names, h'.proto.trans h.proto, h'.propSize.trans h.propSize⟩

end JSShape.Same

namespace ShapeHeap

variable {α : Type*} {s s' : ShapeHeap α} {refs : Nat → Nat} {id p : Nat} {sh sh' : JSShape}

/-- A shape that is referred to `n` times. -/
structure LiveShape (next n id : Nat) (sh : JSShape) : Prop where
  ok : ShapeOk sh
  lt : id < next
  refCount : sh.refCount = n
  pos : 0 < n
  own : sh.isHashed = false → n = 1

structure ShapesInv (refs : Nat → Nat) (s : ShapeHeap α) : Prop where
  live : ∀ id sh, s.shapes id = some sh → LiveShape s.nextShape (refs id) id sh
  dead : ∀ id, s.shapes id = none → refs id = 0
  linked : Filed s.shapeHash s.shapeHashBits s.hashedAt

/-- A shape is still there, with the same properties. -/
def Keeps (s s' : ShapeHeap α) (id : Nat) : Prop :=
  ∀ sh, s.shapes id = some sh → ∃ sh', s'.shapes id = some sh' ∧ sh.Same sh'

theorem Keeps.of_eq (h : s'.shapes id = s.shapes id) : Keeps s s' id :=
  fun sh hsh => ⟨sh, h.trans hsh, .rfl' sh⟩

theorem Keeps.trans {s'' : ShapeHeap α} (h : Keeps s s' id) (h' : Keeps s' s'' id) :
    Keeps s s'' id := fun sh hsh => by
  obtain ⟨sh1, hsh1, hsame⟩ := h sh hsh
  obtain ⟨sh2, hsh2, hsame'⟩ := h' sh1 hsh1
  exact ⟨sh2, hsh2, hsame.trans hsame'⟩

/-- Nothing happens to the objects. -/
structure SameObjects (s s' : ShapeHeap α) : Prop where
  objects : s'.objects = s.objects
  nextObject : s'.nextObject = s.nextObject

/-- Replacing, adding or removing one shape. -/
theorem ShapesInv.update (h : ShapesInv refs s) {e : Option JSShape} {n : Nat}
    (hshapes : s'.shapes = update s.shapes id e)
    (hlinked : Filed s'.shapeHash s'.shapeHashBits
      (update s.hashedAt id (e.bind JSShape.hashKey)))
    (hnext : s.nextShape ≤ s'.nextShape)
    (hsome : ∀ sh, e = some sh → LiveShape s'.nextShape n id sh) (hnone : e = none → n = 0) :
    ShapesInv (Function.update refs id n) s' := by
  refine ⟨fun x sh hx => ?_, fun x hx => ?_, ?_⟩
  · rw [hshapes] at hx
    by_cases hxid : x = id
    · subst hxid
      rw [Function.update_self] at hx ⊢
      exact hsome sh hx
    · rw [Function.update_of_ne hxid] at hx ⊢
      have hlive := h.live x sh hx
      exact { hlive with lt := Nat.lt_of_lt_of_le hlive.lt hnext }
  · rw [hshapes] at hx
    by_cases hxid : x = id
    · subst hxid
      rw [Function.update_self] at hx ⊢
      exact hnone hx
    · rw [Function.update_of_ne hxid] at hx ⊢
      exact h.dead x hx
  · convert hlinked using 2
    funext x
    by_cases hxid : x = id
    · subst hxid
      simp [hashedAt, hshapes]
    · simp [hashedAt, hshapes, hxid]

theorem hashedAt_self (hs : s.shapes id = some sh) : s.hashedAt id = sh.hashKey := by
  simp [hashedAt, hs]

/-- Replacing a shape by one that stands at the same place in the table. -/
theorem ShapesInv.set (h : ShapesInv refs s) (hs : s.shapes id = some sh) {n : Nat}
    (hkey : sh'.hashKey = sh.hashKey) (hlive : LiveShape s.nextShape n id sh') :
    ShapesInv (Function.update refs id n) (setShape s id sh') := by
  refine h.update (e := some sh') rfl ?_ (Nat.le_refl _) ?_ nofun
  · rw [Option.bind_some, hkey, ← hashedAt_self hs, Function.update_eq_self]
    exact h.linked
  · rintro _ ⟨⟩
    exact hlive

theorem ShapesInv.dup (h : ShapesInv refs s) (hs : s.shapes id = some sh)
    (hhashed : sh.isHashed = true) :
    ∃ s', jsDupShape s id = some s' ∧ ShapesInv (Function.update refs id (refs id + 1)) s' ∧
      SameObjects s s' ∧ ∀ x, Keeps s s' x := by
  have hlive := h.live id sh hs
  refine ⟨setShape s id { sh with refCount := sh.refCount + 1 },
    by rw [jsDupShape, hs, Option.map_some], ?_, ⟨rfl, rfl⟩, fun x => ?_⟩
  · exact h.set hs rfl ⟨hlive.ok.congr rfl rfl rfl, hlive.lt, by simp [hlive.refCount], by omega,
      by simp [hhashed]⟩
  · by_cases hx : x = id
    · subst hx
      intro sh' hsh'
      obtain rfl : sh = sh' := by simpa [hs] using hsh'
      exact ⟨_, Function.update_self .., rfl, rfl, rfl⟩
    · exact .of_eq (Function.update_of_ne hx ..)

/-- Taking a shape out of the table if it is there. -/
theorem ShapesInv.unhash (h : ShapesInv refs s) (hs : s.shapes id = some sh) :
    ∃ table count, (if sh.isHashed = true then jsShapeHashUnlink s id sh.hash else some s) =
        some { s with shapeHash := table, shapeHashCount := count } ∧
      Filed table s.shapeHashBits (Function.update s.hashedAt id none) := by
  by_cases hh : sh.isHashed = true
  · obtain ⟨table, count, heq, hlinked⟩ := jsShapeHashUnlink_eq (h := sh.hash) h.linked
      (by rw [hashedAt_self hs, JSShape.hashKey, if_pos hh])
    exact ⟨table, count, by rw [if_pos hh, heq], hlinked⟩
  · refine ⟨s.shapeHash, s.shapeHashCount, if_neg hh, ?_⟩
    rw [show none = s.hashedAt id by rw [hashedAt_self hs, JSShape.hashKey, if_neg hh],
      Function.update_eq_self]
    exact h.linked

/-- Putting a shape back into the table if it is to be there. -/
theorem link_if {hashed : Nat → Option (BitVec 32)} (isHashed : Bool) (hash : BitVec 32)
    (hl : Filed s.shapeHash s.shapeHashBits (Function.update hashed id none)) :
    ∃ table count, (if isHashed = true then jsShapeHashLink s id hash else s) =
        { s with shapeHash := table, shapeHashCount := count } ∧
      Filed table s.shapeHashBits
        (Function.update hashed id (if isHashed = true then some hash else none)) := by
  by_cases hh : isHashed = true
  · have hlinked := hl.link (Function.update_self ..) hash
    rw [Function.update_idem] at hlinked
    exact ⟨_, _, by rw [if_pos hh]; rfl, by rwa [if_pos hh]⟩
  · exact ⟨s.shapeHash, s.shapeHashCount, by rw [if_neg hh], by rwa [if_neg hh]⟩

theorem ShapesInv.free (h : ShapesInv refs s) (hs : s.shapes id = some sh) :
    ∃ s', jsFreeShape s id = some s' ∧ ShapesInv (Function.update refs id (refs id - 1)) s' ∧
      SameObjects s s' ∧ s'.nextShape = s.nextShape ∧
      (∀ x, x ≠ id → s'.shapes x = s.shapes x) ∧ (refs id ≠ 1 → Keeps s s' id) := by
  have hlive := h.live id sh hs
  have hcount := hlive.refCount
  have hpos := hlive.pos
  rw [jsFreeShape, hs, Option.bind_some]
  dsimp only
  by_cases hlast : sh.refCount - 1 = 0
  · obtain ⟨table, count, hs1, hlinked⟩ := h.unhash hs
    rw [if_pos hlast, hs1, Option.map_some]
    refine ⟨_, rfl, ?_, ⟨rfl, rfl⟩, rfl, fun x hx => Function.update_of_ne hx ..,
      fun hne => by omega⟩
    exact h.update (e := none) rfl hlinked (Nat.le_refl _) nofun fun _ => by omega
  · rw [if_neg hlast]
    refine ⟨_, rfl, ?_, ⟨rfl, rfl⟩, rfl, fun x hx => Function.update_of_ne hx .., fun _ => ?_⟩
    · exact h.set hs rfl ⟨hlive.ok.congr rfl rfl rfl, hlive.lt, by simp [hcount], by omega,
        fun hh => by have := hlive.own hh; omega⟩
    · intro sh' hsh'
      obtain rfl : sh = sh' := by simpa [hs] using hsh'
      exact ⟨_, Function.update_self .., rfl, rfl, rfl⟩

/-- A shape with a fresh name. -/
theorem ShapesInv.fresh (h : ShapesInv refs s) : s.shapes s.nextShape = none := by
  cases hs : s.shapes s.nextShape with
  | none => rfl
  | some sh => exact absurd (h.live _ sh hs).lt (Nat.lt_irrefl _)

theorem ShapesInv.hashedAt_fresh (h : ShapesInv refs s) : s.hashedAt s.nextShape = none := by
  simp [hashedAt, h.fresh]

/-- Adding a shape, linked or not. -/
theorem ShapesInv.alloc (h : ShapesInv refs s) (hok : ShapeOk sh) (hcount : sh.refCount = 1)
    (hshapes : s'.shapes = Function.update s.shapes s.nextShape (some sh))
    (hnext : s'.nextShape = s.nextShape + 1)
    (hlinked : Filed s'.shapeHash s'.shapeHashBits
      (Function.update s.hashedAt s.nextShape sh.hashKey)) :
    ShapesInv (Function.update refs s.nextShape 1) s' := by
  refine h.update (e := some sh) hshapes hlinked (by omega) ?_ nofun
  rintro _ ⟨⟩
  exact ⟨hok, by omega, hcount, by omega, fun _ => rfl⟩

theorem shapeOk_new (refCount proto : Nat) (isHashed : Bool) (hash : BitVec 32) :
    ShapeOk ⟨refCount, isHashed, hash, proto, List.replicate 4 0, 2, []⟩ := by
  refine ⟨by simp, ?_, by simp, by simp⟩
  refine (HashChain.Table.empty 4 _ _).congr (fun _ _ => rfl) (fun x => ?_) fun _ _ => rfl
  simp [JSShape.Member]

theorem ShapesInv.newShape (h : ShapesInv refs s) (proto : Nat) (memory : ShapeMemory) :
    ∃ s' r, jsNewShape s proto memory = some (s', r) ∧ SameObjects s s' ∧ (∀ x, Keeps s s' x) ∧
      ((r = none ∧ memory.shape = false ∧ ShapesInv refs s') ∨
        ∃ sh, r = some s.nextShape ∧ ShapesInv (Function.update refs s.nextShape 1) s' ∧
          s'.shapes s.nextShape = some sh ∧ sh.names = [] ∧ sh.proto = proto) := by
  obtain ⟨table, bits, hresized, hlinked⟩ : ∃ table bits,
      (if 2 * (s.shapeHashCount + 1) > s.shapeHash.length ∧ memory.shapeHash = true then
        resizeShapeHash s (s.shapeHashBits + 1) else some s) =
        some { s with shapeHash := table, shapeHashBits := bits } ∧
      Filed table bits s.hashedAt := by
    by_cases hgrow : 2 * (s.shapeHashCount + 1) > s.shapeHash.length ∧ memory.shapeHash = true
    · obtain ⟨table, heq, hlinked⟩ := resizeShapeHash_eq h.linked (s.shapeHashBits + 1)
      exact ⟨table, _, by rw [if_pos hgrow, heq], hlinked⟩
    · exact ⟨_, _, if_neg hgrow, h.linked⟩
  rw [jsNewShape]
  dsimp only
  rw [hresized, Option.map_some]
  by_cases hmemory : memory.shape = true
  · rw [if_pos hmemory]
    refine ⟨_, _, rfl, ⟨rfl, rfl⟩, fun x => ?_, .inr ⟨_, rfl, ?_, Function.update_self .., rfl,
      rfl⟩⟩
    · intro sh hsh
      have hx : x ≠ s.nextShape := Nat.ne_of_lt (h.live x sh hsh).lt
      exact ⟨sh, (Function.update_of_ne hx ..).trans hsh, .rfl' sh⟩
    · exact h.alloc (shapeOk_new _ _ _ _) rfl rfl rfl
        (hlinked.link h.hashedAt_fresh (shapeInitialHash proto))
  · rw [if_neg hmemory]
    exact ⟨_, _, rfl, ⟨rfl, rfl⟩, fun x => .of_eq rfl,
      .inl ⟨rfl, by simpa using hmemory, h.live, h.dead, hlinked⟩⟩

end ShapeHeap

end IoQuickJS

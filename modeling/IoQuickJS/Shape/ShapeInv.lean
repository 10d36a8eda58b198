import IoQuickJS.Shape.ShapeState

/-!
# The hash table of one shape

`ShapeOk` says that the chains of a shape run over its properties that have not been deleted, each
in the bucket of its atom, and that no atom occurs twice. The operations on a shape keep it; what
they change is stated for `names`, the atoms and flags in order.
-/
namespace IoQuickJS

open HashChain (Table)

namespace JSShape

/-- The atoms and flags of the properties in order, those of deleted ones included. -/
def names (sh : JSShape) : List (Nat × Nat) := sh.prop.map fun pr => (pr.atom, pr.flags)

/-- `h` is the index, from one on, of a property that has not been deleted. -/
def Member (sh : JSShape) (h : Nat) : Prop := h ≠ 0 ∧ ∃ pr, sh.prop[h - 1]? = some pr ∧ pr.atom ≠ 0

/-- The bucket of a property. -/
def keyOf (sh : JSShape) (h : Nat) : Nat := (sh.prop[h - 1]?).elim 0 fun pr => sh.bucketOf pr.atom

end JSShape

structure ShapeOk (sh : JSShape) : Prop where
  hashSize : 0 < sh.propHash.length
  table : Table sh.hashNext sh.propHash sh.Member sh.keyOf
  fits : sh.prop.length ≤ sh.propSize
  distinct : ∀ (i j : Nat) (pr pr' : JSShapeProperty), sh.prop[i]? = some pr →
    sh.prop[j]? = some pr' → pr.atom ≠ 0 → pr.atom = pr'.atom → i = j

variable {sh sh' : JSShape} {atom flags : Nat}

theorem JSShape.bucketOf_lt (h : 0 < sh.propHash.length) (atom : Nat) :
    sh.bucketOf atom < sh.propHash.length := by
  have := Nat.and_le_right (n := atom) (m := sh.propHash.length - 1)
  unfold JSShape.bucketOf
  omega

theorem JSShape.Member.le {x : Nat} (h : sh.Member x) : x ≤ sh.prop.length := by
  obtain ⟨hx, pr, hpr, -⟩ := h
  have := (List.getElem?_eq_some_iff.mp hpr).1
  omega

/-- What the loop of find_own_property finds. -/
theorem ShapeOk.find (h : ShapeOk sh) (atom : Nat) :
    (∃ lpr, sh.findOwnProperty atom = some (lpr, 0) ∧
      (atom ≠ 0 → ∀ (i : Nat) (pr : JSShapeProperty), sh.prop[i]? = some pr → pr.atom ≠ atom)) ∨
    ∃ (lpr i : Nat) (pr : JSShapeProperty), sh.findOwnProperty atom = some (lpr, i + 1) ∧
      sh.prop[i]? = some pr ∧ pr.atom = atom ∧ atom ≠ 0 ∧
      (lpr = 0 ∧ sh.propHash[sh.bucketOf atom]? = some (i + 1) ∨
        sh.Member lpr ∧ sh.keyOf lpr = sh.bucketOf atom ∧ sh.hashNext lpr = some (i + 1)) := by
  have hlt := sh.bucketOf_lt h.hashSize atom
  have hb := List.getElem?_eq_getElem hlt
  obtain ⟨⟨lpr, x⟩, hwalk, hcases⟩ := h.table.find (sh.hasAtom atom) hb fun _ hx => hx.le
  rw [JSShape.findOwnProperty, hb, Option.bind_some, hwalk]
  rcases hcases with ⟨rfl, hall⟩ | ⟨hx, hmember, -, htest, hprev⟩
  · refine .inl ⟨lpr, rfl, fun hatom i pr hpr heq => ?_⟩
    have := hall (i + 1) ⟨by omega, pr, hpr, heq ▸ hatom⟩ (by simp [JSShape.keyOf, hpr, heq])
    simp [JSShape.hasAtom, hpr, heq] at this
  · obtain ⟨i, rfl⟩ : ∃ i, x = i + 1 := ⟨x - 1, by simp at hx; omega⟩
    obtain ⟨-, pr, hpr, hne⟩ := hmember
    replace hpr : sh.prop[i]? = some pr := hpr
    have hatom : pr.atom = atom := by simpa [JSShape.hasAtom, hpr] using htest
    refine .inr ⟨lpr, i, pr, rfl, hpr, hatom, hatom ▸ hne, ?_⟩
    rcases hprev with ⟨hlpr, hhead⟩ | hprev
    · exact .inl ⟨hlpr, congrArg some hhead.symm⟩
    · exact .inr hprev

/-- Only the chains and the atoms of a shape matter, and its room. -/
theorem ShapeOk.congr (h : ShapeOk sh)
    (hprop : sh'.prop.map (fun pr => (pr.hashNext, pr.atom)) =
      sh.prop.map fun pr => (pr.hashNext, pr.atom))
    (hhash : sh'.propHash = sh.propHash) (hsize : sh'.propSize = sh.propSize) : ShapeOk sh' := by
  have hget : ∀ k : Nat, sh'.prop[k]?.map (fun pr : JSShapeProperty => (pr.hashNext, pr.atom)) =
      sh.prop[k]?.map fun pr : JSShapeProperty => (pr.hashNext, pr.atom) := fun k => by
    rw [← List.getElem?_map, hprop, List.getElem?_map]
  have hnext : sh'.hashNext = sh.hashNext := funext fun x => by
    simpa [JSShape.hashNext, Function.comp_def] using congrArg (Option.map Prod.fst) (hget (x - 1))
  have hatom : ∀ k : Nat, sh'.prop[k]?.map JSShapeProperty.atom =
      sh.prop[k]?.map JSShapeProperty.atom := fun k => by
    simpa [Function.comp_def] using congrArg (Option.map Prod.snd) (hget k)
  have hold : ∀ (k : Nat) (q : JSShapeProperty), sh'.prop[k]? = some q →
      ∃ q' : JSShapeProperty, sh.prop[k]? = some q' ∧ q'.atom = q.atom := fun k q hq => by
    have := hatom k
    rw [hq, Option.map_some] at this
    exact Option.map_eq_some_iff.mp this.symm
  have hmember : ∀ x, sh'.Member x ↔ sh.Member x := fun x => by
    have hiff : ∀ u : JSShape, u.Member x ↔
        x ≠ 0 ∧ ∃ a, u.prop[x - 1]?.map JSShapeProperty.atom = some a ∧ a ≠ 0 := fun u => by
      simp [JSShape.Member]
    rw [hiff, hiff, hatom]
  have hkey : sh'.keyOf = sh.keyOf := funext fun x => by
    have heq : ∀ u : JSShape, u.keyOf x =
        (u.prop[x - 1]?.map JSShapeProperty.atom).elim 0 u.bucketOf := fun u => by
      rw [JSShape.keyOf]
      cases u.prop[x - 1]? <;> rfl
    have hbucket : sh'.bucketOf = sh.bucketOf := funext fun a => by
      rw [JSShape.bucketOf, JSShape.bucketOf, hhash]
    rw [heq, heq, hatom, hbucket]
  refine ⟨hhash ▸ h.hashSize, ?_, ?_, fun i j pr pr' hi hj hne heq => ?_⟩
  · rw [hnext, hhash, hkey]
    exact h.table.congr (fun _ _ => rfl) hmember fun _ _ => rfl
  · have hlen := congrArg List.length hprop
    rw [List.length_map, List.length_map] at hlen
    rw [hlen, hsize]
    exact h.fits
  · obtain ⟨q, hq, hqa⟩ := hold i pr hi
    obtain ⟨q', hq', hqa'⟩ := hold j pr' hj
    exact h.distinct i j q q' hq hq' (hqa ▸ hne) (hqa.trans (heq.trans hqa'.symm))

/-! ## Adding a property -/

theorem ShapeOk.append (h : ShapeOk sh) (hatom : atom ≠ 0)
    (hnew : ∀ (i : Nat) (pr : JSShapeProperty), sh.prop[i]? = some pr → pr.atom ≠ atom)
    (hfits : sh.prop.length < sh.propSize) (flags : Nat) :
    ∃ sh', sh.append atom flags = some sh' ∧ ShapeOk sh' ∧
      sh'.names = sh.names ++ [(atom, flags)] ∧ sh'.prop.length = sh.prop.length + 1 ∧
      sh'.propSize = sh.propSize ∧ sh'.refCount = sh.refCount ∧ sh'.isHashed = sh.isHashed ∧
      sh'.hash = sh.hash ∧ sh'.proto = sh.proto := by
  have hlt := sh.bucketOf_lt h.hashSize atom
  have hb := List.getElem?_eq_getElem hlt
  set sh' : JSShape := { sh with
    prop := sh.prop ++ [⟨sh.propHash[sh.bucketOf atom], flags, atom⟩]
    propHash := sh.propHash.set (sh.bucketOf atom) (sh.prop.length + 1) } with hsh'
  have hold : ∀ x, sh.Member x → sh'.prop[x - 1]? = sh.prop[x - 1]? := fun x hx => by
    obtain ⟨hx0, pr, hpr, -⟩ := hx
    exact List.getElem?_append_left (List.getElem?_eq_some_iff.mp hpr).1
  have hlast : sh'.prop[sh.prop.length]? =
      some ⟨sh.propHash[sh.bucketOf atom], flags, atom⟩ := by simp [hsh']
  have hbucket : ∀ a, sh'.bucketOf a = sh.bucketOf a := fun a => by
    simp [JSShape.bucketOf, hsh']
  have hkey : sh'.keyOf (sh.prop.length + 1) = sh.bucketOf atom := by
    simp [JSShape.keyOf, hlast, hbucket]
  have hkeys : ∀ x, sh.Member x → sh'.keyOf x = sh.keyOf x := fun x hx => by
    rw [JSShape.keyOf, JSShape.keyOf, hold x hx]
    simp only [hbucket]
  have hnotin : ¬ sh.Member (sh.prop.length + 1) := fun hm => by
    have := hm.le
    omega
  have hkept : Table sh'.hashNext sh.propHash sh.Member sh'.keyOf := h.table.congr
    (fun x hx => by rw [JSShape.hashNext, JSShape.hashNext, hold x hx]) (fun _ => Iff.rfl) hkeys
  have hhead : sh.propHash[sh'.keyOf (sh.prop.length + 1)]? =
      some sh.propHash[sh.bucketOf atom] := by rw [hkey, hb]
  have hinsert := hkept.insert (Nat.succ_ne_zero _) hnotin hhead
    (by simp [JSShape.hashNext, hlast]) fun _ _ => rfl
  refine ⟨sh', by rw [JSShape.append, if_pos hfits, hb, Option.map_some], ⟨?_, ?_, ?_, ?_⟩, ?_, ?_,
    rfl, rfl, rfl, rfl, rfl⟩
  · simpa [hsh'] using h.hashSize
  · rw [hkey] at hinsert
    refine hinsert.congr (fun _ _ => rfl) (fun x => ?_) fun _ _ => rfl
    constructor
    · rintro ⟨hx, pr, hpr, hne⟩
      have hxlt := (List.getElem?_eq_some_iff.mp hpr).1
      simp only [hsh', List.length_append, List.length_singleton] at hxlt
      by_cases hxl : x = sh.prop.length + 1
      · exact .inl hxl
      · have : x - 1 < sh.prop.length := by omega
        rw [hsh', List.getElem?_append_left this] at hpr
        exact .inr ⟨hx, pr, hpr, hne⟩
    · rintro (rfl | hm)
      · exact ⟨by omega, _, hlast, hatom⟩
      · obtain ⟨hx, pr, hpr, hne⟩ := id hm
        exact ⟨hx, pr, (hold x hm).trans hpr, hne⟩
  · simp only [hsh', List.length_append, List.length_singleton]
    omega
  · intro i j pr pr' hi hj hne heq
    have hcases : ∀ (k : Nat) (q : JSShapeProperty), sh'.prop[k]? = some q →
        (k = sh.prop.length ∧ q.atom = atom) ∨ sh.prop[k]? = some q := by
      intro k q hk
      by_cases hkl : k < sh.prop.length
      · exact .inr (by rwa [hsh', List.getElem?_append_left hkl] at hk)
      · have hklt := (List.getElem?_eq_some_iff.mp hk).1
        simp only [hsh', List.length_append, List.length_singleton] at hklt
        obtain rfl : k = sh.prop.length := by omega
        rw [hlast] at hk
        exact .inl ⟨rfl, by rw [← Option.some.inj hk]⟩
    rcases hcases i pr hi with ⟨rfl, ha⟩ | hi' <;> rcases hcases j pr' hj with ⟨rfl, ha'⟩ | hj'
    · rfl
    · exact absurd (heq.symm.trans ha) (hnew j pr' hj')
    · exact absurd (heq.trans ha') (hnew i pr hi')
    · exact h.distinct i j pr pr' hi' hj' hne heq
  · simp [hsh', JSShape.names]
  · simp [hsh']

/-! ## Deleting a property -/

theorem ShapeOk.remove (h : ShapeOk sh) {lpr i : Nat} {pr : JSShapeProperty}
    (hpr : sh.prop[i]? = some pr) (hne : pr.atom ≠ 0)
    (hprev : lpr = 0 ∧ sh.propHash[sh.bucketOf pr.atom]? = some (i + 1) ∨
      sh.Member lpr ∧ sh.keyOf lpr = sh.bucketOf pr.atom ∧ sh.hashNext lpr = some (i + 1)) :
    ∃ sh', sh.remove pr.atom lpr (i + 1) = some sh' ∧ ShapeOk sh' ∧
      sh'.names = sh.names.set i (0, 0) ∧ sh'.prop.length = sh.prop.length ∧
      sh'.propSize = sh.propSize ∧ sh'.refCount = sh.refCount ∧ sh'.isHashed = sh.isHashed ∧
      sh'.hash = sh.hash ∧ sh'.proto = sh.proto := by
  have hilt := (List.getElem?_eq_some_iff.mp hpr).1
  have hmember : sh.Member (i + 1) := ⟨by omega, pr, hpr, hne⟩
  have hkey : sh.keyOf (i + 1) = sh.bucketOf pr.atom := by simp [JSShape.keyOf, hpr]
  have hnext : sh.hashNext (i + 1) = some pr.hashNext := by simp [JSShape.hashNext, hpr]
  have hlt := sh.bucketOf_lt h.hashSize pr.atom
  -- the shape after the entry is unlinked, whichever way it is done
  obtain ⟨unlinked, hunlinked, htable, hagree, hlen, hhash, hfields⟩ :
      ∃ u : JSShape, (if lpr = 0 then
          some { sh with propHash := sh.propHash.set (sh.bucketOf pr.atom) pr.hashNext }
        else sh.prop[lpr - 1]?.map fun q =>
          { sh with prop := sh.prop.set (lpr - 1) { q with hashNext := pr.hashNext } }) =
          some u ∧
        Table u.hashNext u.propHash (fun x => x ≠ i + 1 ∧ sh.Member x) sh.keyOf ∧
        (∀ k : Nat, u.prop[k]?.map (fun q : JSShapeProperty => (q.atom, q.flags)) =
          sh.prop[k]?.map fun q : JSShapeProperty => (q.atom, q.flags)) ∧
        u.prop.length = sh.prop.length ∧ u.propHash.length = sh.propHash.length ∧
        u.propSize = sh.propSize ∧ u.refCount = sh.refCount ∧ u.isHashed = sh.isHashed ∧
        u.hash = sh.hash ∧ u.proto = sh.proto := by
    rcases hprev with ⟨rfl, hhead⟩ | ⟨hm, hk, hn⟩
    · refine ⟨_, if_pos rfl, ?_, fun _ => rfl, rfl, by simp, rfl, rfl, rfl, rfl, rfl⟩
      rw [← hkey] at hhead ⊢
      exact h.table.remove_head hmember hhead hnext fun _ _ _ => rfl
    · obtain ⟨hlpr, q, hq, hqne⟩ := id hm
      have hqlt := (List.getElem?_eq_some_iff.mp hq).1
      refine ⟨{ sh with prop := sh.prop.set (lpr - 1) { q with hashNext := pr.hashNext } },
        by rw [if_neg hlpr, hq, Option.map_some], ?_, fun k => ?_, by simp, rfl, rfl, rfl, rfl, rfl,
        rfl⟩
      · refine h.table.remove_after hmember hm (hk.trans hkey.symm) (hkey ▸ hlt) hn hnext ?_ ?_
        · simp [JSShape.hashNext, hqlt]
        · intro y hyl _ hy
          have : lpr - 1 ≠ y - 1 := by
            have := hy.1
            omega
          simp only [JSShape.hashNext]
          rw [List.getElem?_set_ne this]
      · by_cases hkl : lpr - 1 = k
        · subst hkl
          obtain ⟨-, rfl⟩ := List.getElem?_eq_some_iff.mp hq
          simp [hqlt]
        · rw [List.getElem?_set_ne hkl]
  set sh' : JSShape := { unlinked with
    prop := unlinked.prop.modify i fun pr => { pr with flags := 0, atom := 0 } } with hsh'
  have heq : sh.remove pr.atom lpr (i + 1) = some sh' := by
    rw [JSShape.remove, hnext, Option.bind_some]
    dsimp only
    rw [hunlinked, Option.map_some]
    rfl
  -- only the entry itself is different as far as atoms go
  have hentry : ∀ k : Nat, k ≠ i → sh'.prop[k]? = unlinked.prop[k]? := fun k hk => by
    rw [hsh', List.getElem?_modify_ne _ _ (Ne.symm hk)]
  have hatoms : ∀ (k : Nat) (q' : JSShapeProperty), k ≠ i → sh'.prop[k]? = some q' →
      ∃ q : JSShapeProperty, sh.prop[k]? = some q ∧ q.atom = q'.atom := by
    intro k q' hk hq'
    rw [hentry k hk] at hq'
    have := hagree k
    rw [hq', Option.map_some] at this
    obtain ⟨q, hq, heq⟩ := Option.map_eq_some_iff.mp this.symm
    exact ⟨q, hq, congrArg Prod.fst heq⟩
  have hzero : ∀ q' : JSShapeProperty, sh'.prop[i]? = some q' → q'.atom = 0 := by
    intro q' hq'
    rw [hsh', List.getElem?_modify_eq] at hq'
    obtain ⟨q, -, rfl⟩ := Option.map_eq_some_iff.mp hq'
    rfl
  have hback : ∀ (k : Nat) (q : JSShapeProperty), k ≠ i → sh.prop[k]? = some q →
      ∃ q' : JSShapeProperty, sh'.prop[k]? = some q' ∧ q'.atom = q.atom := by
    intro k q hk hq
    have := hagree k
    rw [hq, Option.map_some] at this
    obtain ⟨q', hq', heq⟩ := Option.map_eq_some_iff.mp this
    exact ⟨q', (hentry k hk).trans hq', congrArg Prod.fst heq⟩
  have hbucket : ∀ a, sh'.bucketOf a = sh.bucketOf a := fun a => by
    simp [JSShape.bucketOf, hsh', hhash]
  refine ⟨sh', heq, ⟨?_, ?_, ?_, ?_⟩, ?_, ?_, hfields.1, hfields.2.1, hfields.2.2.1,
    hfields.2.2.2.1, hfields.2.2.2.2⟩
  · simpa [hsh', hhash] using h.hashSize
  · refine htable.congr (fun x hx => ?_) (fun x => ?_) fun x hx => ?_
    · obtain ⟨hxi, hx0, -⟩ := hx
      simp only [JSShape.hashNext]
      rw [hentry (x - 1) (by omega)]
    · constructor
      · rintro ⟨hx0, q', hq', hq'ne⟩
        have hxi : x - 1 ≠ i := fun heq => hq'ne (hzero q' (heq ▸ hq'))
        obtain ⟨q, hq, hatom⟩ := hatoms (x - 1) q' hxi hq'
        exact ⟨by omega, hx0, q, hq, hatom ▸ hq'ne⟩
      · rintro ⟨hxi, hx0, q, hq, hqne⟩
        obtain ⟨q', hq', hatom⟩ := hback (x - 1) q (by omega) hq
        exact ⟨hx0, q', hq', hatom ▸ hqne⟩
    · obtain ⟨hxi, hx0, q, hq, hqne⟩ := hx
      obtain ⟨q', hq', hatom⟩ := hback (x - 1) q (by omega) hq
      simp [JSShape.keyOf, hq, hq', hatom, hbucket]
  · simpa [hsh', hlen, hfields.1] using h.fits
  · intro k l q q' hk hl hqne hqq
    have hki : k ≠ i := by
      rintro rfl
      exact hqne (hzero q hk)
    have hli : l ≠ i := by
      rintro rfl
      exact hqne (hqq.trans (hzero q' hl))
    obtain ⟨p, hp, hpq⟩ := hatoms k q hki hk
    obtain ⟨p', hp', hpq'⟩ := hatoms l q' hli hl
    exact h.distinct k l p p' hp hp' (hpq ▸ hqne) (hpq.trans (hqq.trans hpq'.symm))
  · refine List.ext_getElem? fun k => ?_
    simp only [JSShape.names, List.getElem?_map, List.getElem?_set]
    by_cases hki : k = i
    · subst hki
      have : k < unlinked.prop.length := hlen ▸ hilt
      simp [hsh', List.getElem?_eq_getElem this, hilt]
    · rw [hentry k hki, hagree k, if_neg (Ne.symm hki)]
  · simp [hsh', hlen]

/-! ## Changing flags -/

theorem names_setFlags (sh : JSShape) {i : Nat} {pr : JSShapeProperty} (hpr : sh.prop[i]? = some pr)
    (flags : Nat) :
    (sh.prop.modify i fun pr => { pr with flags := flags }).map
      (fun pr => (pr.atom, pr.flags)) = sh.names.set i (pr.atom, flags) := by
  refine List.ext_getElem? fun k => ?_
  rw [List.getElem?_map]
  by_cases hk : i = k
  · subst hk
    have hlt : i < sh.names.length := by
      simpa [JSShape.names] using (List.getElem?_eq_some_iff.mp hpr).1
    rw [List.getElem?_modify_eq, hpr, List.getElem?_set_self hlt]
    rfl
  · rw [List.getElem?_modify_ne _ _ hk, List.getElem?_set_ne hk]
    simp [JSShape.names]

theorem ShapeOk.setFlags (h : ShapeOk sh) (i flags : Nat) :
    ShapeOk { sh with
      refCount := 1
      isHashed := false
      prop := sh.prop.modify i fun pr => { pr with flags := flags } } := by
  refine h.congr (List.ext_getElem? fun k => ?_) rfl rfl
  rw [List.getElem?_map, List.getElem?_map]
  by_cases hk : i = k
  · subst hk
    rw [List.getElem?_modify_eq]
    cases sh.prop[i]? <;> rfl
  · rw [List.getElem?_modify_ne _ _ hk]

/-! ## A new hash table -/

/-- The new table after the properties before `n` have been put into it. -/
structure Rehashed (sh u : JSShape) (size n : Nat) : Prop where
  names : u.names = sh.names
  size : u.propHash.length = size
  table : Table u.hashNext u.propHash (fun x => x ≤ n ∧ u.Member x) u.keyOf
  propSize : u.propSize = sh.propSize
  refCount : u.refCount = sh.refCount
  isHashed : u.isHashed = sh.isHashed
  hash : u.hash = sh.hash
  proto : u.proto = sh.proto

theorem names_getElem? (sh : JSShape) (k : Nat) :
    sh.names[k]? = sh.prop[k]?.map fun pr => (pr.atom, pr.flags) := by
  simp [JSShape.names]

theorem atom_of_names (h : sh'.names = sh.names) {k : Nat} {q : JSShapeProperty}
    (hq : sh'.prop[k]? = some q) :
    ∃ q' : JSShapeProperty, sh.prop[k]? = some q' ∧ q'.atom = q.atom := by
  have hk := congrArg (fun l => l[k]?) h
  simp only [names_getElem?, hq, Option.map_some] at hk
  obtain ⟨q', hq', heq⟩ := Option.map_eq_some_iff.mp hk.symm
  exact ⟨q', hq', congrArg Prod.fst heq⟩

theorem Rehashed.step {u : JSShape} {size n : Nat} (h : Rehashed sh u size n) (hsize : 0 < size)
    (hn : n < u.prop.length) : ∃ v, u.rehashStep n = some v ∧ Rehashed sh v size (n + 1) := by
  have hget := List.getElem?_eq_getElem hn
  generalize u.prop[n] = pr at hget
  rw [JSShape.rehashStep, hget, Option.bind_some]
  by_cases hzero : pr.atom = 0
  · refine ⟨u, if_neg (not_not_intro hzero), { h with table := ?_ }⟩
    refine h.table.congr (fun _ _ => rfl) (fun x => ?_) fun _ _ => rfl
    constructor
    · rintro ⟨hx, hm⟩
      refine ⟨?_, hm⟩
      obtain ⟨hx0, q, hq, hqne⟩ := hm
      have : x ≠ n + 1 := by
        rintro rfl
        replace hq : u.prop[n]? = some q := hq
        rw [hget] at hq
        exact hqne (Option.some.inj hq ▸ hzero)
      omega
    · exact fun ⟨hx, hm⟩ => ⟨by omega, hm⟩
  · have hlt := u.bucketOf_lt (h.size ▸ hsize) pr.atom
    have hb := List.getElem?_eq_getElem hlt
    set v : JSShape := { u with
      prop := u.prop.set n { pr with hashNext := u.propHash[u.bucketOf pr.atom] }
      propHash := u.propHash.set (u.bucketOf pr.atom) (n + 1) } with hv
    have hentry : ∀ k : Nat, k ≠ n → v.prop[k]? = u.prop[k]? := fun k hk =>
      List.getElem?_set_ne (Ne.symm hk)
    have hself : v.prop[n]? = some { pr with hashNext := u.propHash[u.bucketOf pr.atom] } := by
      simp [hv, hn]
    have hnames : v.names = u.names := by
      refine List.ext_getElem? fun k => ?_
      rw [names_getElem?, names_getElem?]
      by_cases hk : k = n
      · subst hk
        simp [hself, hget]
      · rw [hentry k hk]
    have hbucket : ∀ a, v.bucketOf a = u.bucketOf a := fun a => by simp [JSShape.bucketOf, hv]
    have hmember : ∀ x, v.Member x ↔ u.Member x := fun x => by
      constructor
      · rintro ⟨hx, q, hq, hqne⟩
        obtain ⟨q', hq', heq⟩ := atom_of_names hnames hq
        exact ⟨hx, q', hq', heq ▸ hqne⟩
      · rintro ⟨hx, q, hq, hqne⟩
        obtain ⟨q', hq', heq⟩ := atom_of_names hnames.symm hq
        exact ⟨hx, q', hq', heq ▸ hqne⟩
    have hkey : ∀ x, v.keyOf x = u.keyOf x := fun x => by
      cases hq : u.prop[x - 1]? with
      | none =>
        have hv' : v.prop[x - 1]? = none := by
          refine Option.eq_none_iff_forall_ne_some.mpr fun q hq' => ?_
          obtain ⟨q', hq'', -⟩ := atom_of_names hnames hq'
          simp [hq] at hq''
        simp [JSShape.keyOf, hq, hv']
      | some q =>
        obtain ⟨q', hq', heq⟩ := atom_of_names hnames.symm hq
        simp [JSShape.keyOf, hq, hq', heq, hbucket]
    have hkn : v.keyOf (n + 1) = u.bucketOf pr.atom := by
      simp [JSShape.keyOf, hself, hbucket]
    refine ⟨v, by rw [if_pos hzero, hb, Option.map_some], ⟨hnames.trans h.names,
      by simp [hv, h.size], ?_, h.propSize, h.refCount, h.isHashed, h.hash, h.proto⟩⟩
    have hold : Table v.hashNext u.propHash (fun x => x ≤ n ∧ u.Member x) v.keyOf :=
      h.table.congr (fun x hx => by
        obtain ⟨hx, hx0, -⟩ := hx
        simp only [JSShape.hashNext]
        rw [hentry (x - 1) (by omega)]) (fun _ => Iff.rfl) fun x _ => hkey x
    have hhead : u.propHash[v.keyOf (n + 1)]? = some u.propHash[u.bucketOf pr.atom] := by
      rw [hkn, hb]
    have hinsert := hold.insert (Nat.succ_ne_zero n) (by omega) hhead
      (by simp [JSShape.hashNext, hself]) fun _ _ => rfl
    rw [hkn] at hinsert
    refine hinsert.congr (fun _ _ => rfl) (fun x => ?_) fun _ _ => rfl
    rw [hmember x]
    constructor
    · rintro ⟨hx, hm⟩
      by_cases hxn : x = n + 1
      · exact .inl hxn
      · exact .inr ⟨by omega, hm⟩
    · rintro (rfl | ⟨hx, hm⟩)
      · exact ⟨Nat.le_refl _, by omega, pr, hget, hzero⟩
      · exact ⟨by omega, hm⟩

/-- resize_properties puts every property into the new table. -/
theorem ShapeOk.rehash (h : ShapeOk sh) {size : Nat} (hsize : 0 < size) :
    ∃ sh', sh.rehash size = some sh' ∧ ShapeOk sh' ∧ Rehashed sh sh' size sh.prop.length := by
  have hrun : ∀ n ≤ sh.prop.length, ∃ u, (List.range n).foldlM JSShape.rehashStep
      { sh with propHash := List.replicate size 0 } = some u ∧ Rehashed sh u size n := by
    intro n
    induction n with
    | zero =>
      intro _
      refine ⟨_, rfl, ⟨rfl, by simp, ?_, rfl, rfl, rfl, rfl, rfl⟩⟩
      refine (Table.empty size _ _).congr (fun _ _ => rfl) (fun x => ?_) fun _ _ => rfl
      simp only [iff_false]
      rintro ⟨hx, hx0, -⟩
      omega
    | succ n ih =>
      intro hn
      obtain ⟨u, hu, hrehashed⟩ := ih (by omega)
      have hlen : u.prop.length = sh.prop.length := by
        simpa [JSShape.names] using congrArg List.length hrehashed.names
      obtain ⟨v, hv, hnext⟩ := hrehashed.step hsize (by omega)
      exact ⟨v, by simpa [List.range_succ, hu] using hv, hnext⟩
  obtain ⟨u, hu, hrehashed⟩ := hrun sh.prop.length (Nat.le_refl _)
  have hlen : u.prop.length = sh.prop.length := by
    simpa [JSShape.names] using congrArg List.length hrehashed.names
  refine ⟨u, hu, ⟨hrehashed.size ▸ hsize, ?_, ?_, ?_⟩, hrehashed⟩
  · refine hrehashed.table.congr (fun _ _ => rfl) (fun x => ?_) fun _ _ => rfl
    exact ⟨fun hm => ⟨hlen ▸ hm.le, hm⟩, And.right⟩
  · rw [hlen, hrehashed.propSize]
    exact h.fits
  · intro i j pr pr' hi hj hne heq
    obtain ⟨q, hq, hqa⟩ := atom_of_names hrehashed.names hi
    obtain ⟨q', hq', hqa'⟩ := atom_of_names hrehashed.names hj
    exact h.distinct i j q q' hq hq' (hqa ▸ hne) (hqa.trans (heq.trans hqa'.symm))

end IoQuickJS

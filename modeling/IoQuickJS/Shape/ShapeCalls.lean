import IoQuickJS.Shape.ShapeOwner

/-!
# Adding and changing properties

What the calls on one object do to it and its shape: adding a property to a shape of its own or
moving to a shape that has it, and making the shape its own before it is changed.
-/
namespace IoQuickJS

open Function (update)

/-- All allocations a call relies on succeed; a table of shapes that does not grow is no failure. -/
def ShapeMemory.enough (m : ShapeMemory) : Bool := m.shape && m.resized && m.object && m.prop

theorem growHashSize_pos {fuel hashSize newSize : Nat} (h : 0 < hashSize) :
    0 < growHashSize fuel hashSize newSize := by
  induction fuel generalizing hashSize with
  | zero => exact h
  | succ fuel ih =>
    rw [growHashSize]
    split
    · exact ih (by omega)
    · exact h

theorem realloc_length {α : Type*} [Inhabited α] (xs : List α) (n : Nat) :
    (realloc xs n).length = n := by
  simp only [realloc, List.length_append, List.length_take, List.length_replicate]
  omega

theorem names_congr {sh sh' : JSShape} (h : sh'.prop = sh.prop) : sh'.names = sh.names := by
  rw [JSShape.names, JSShape.names, h]

/-- A shape with more room. -/
theorem ShapeOk.setSize {sh : JSShape} (h : ShapeOk sh) {n : Nat} (hn : sh.prop.length ≤ n) :
    ShapeOk { sh with propSize := n } := by
  obtain ⟨refCount, isHashed, hash, proto, propHash, propSize, prop⟩ := sh
  exact ⟨h.hashSize, h.table, hn, h.distinct⟩

/-- What a call may change of a shape besides its names and room. -/
structure JSShape.SameHeader (sh sh' : JSShape) : Prop where
  refCount : sh'.refCount = sh.refCount
  isHashed : sh'.isHashed = sh.isHashed
  hash : sh'.hash = sh.hash
  proto : sh'.proto = sh.proto

namespace ShapeHeap

variable {α : Type*} [Inhabited α] {s s' : ShapeHeap α} {p id atom flags : Nat}
  {o : PropObject α} {sh : JSShape}

theorem resizeProperties_eq (hok : ShapeOk sh) {prop : List α} (hsize : sh.propSize ≤ prop.length)
    {count : Nat} (hcount : sh.prop.length ≤ count) (memory : ShapeMemory) :
    ∃ sh' prop' grown, resizeProperties sh prop count memory = some (sh', prop', grown) ∧
      ShapeOk sh' ∧ sh'.names = sh.names ∧ sh.SameHeader sh' ∧ sh'.propSize ≤ prop'.length ∧
      ownView sh.names prop' = ownView sh.names prop ∧ (grown = true → count ≤ sh'.propSize) ∧
      (grown = false → memory.enough = false) := by
  have hfits := hok.fits
  have hview : ownView sh.names (realloc prop (max count (sh.propSize * 3 / 2))) =
      ownView sh.names prop :=
    ownView_realloc (by rw [names_length]; omega) (by rw [names_length]; omega)
  rw [resizeProperties]
  by_cases hprop : memory.prop = true
  · by_cases hresized : memory.resized = true
    · rw [if_pos hprop, if_pos hresized]
      set newSize := max count (sh.propSize * 3 / 2)
      set newHashSize := growHashSize newSize sh.propHash.length newSize
      obtain ⟨sh', hsh', hok', hnames, hheader, hpropSize⟩ : ∃ sh',
          (if newHashSize ≠ sh.propHash.length then sh.rehash newHashSize else some sh) =
            some sh' ∧ ShapeOk sh' ∧ sh'.names = sh.names ∧ sh.SameHeader sh' ∧
          sh'.propSize = sh.propSize := by
        by_cases hgrow : newHashSize ≠ sh.propHash.length
        · obtain ⟨sh', hrehash, hok', hr⟩ := hok.rehash (growHashSize_pos hok.hashSize)
          exact ⟨sh', by rw [if_pos hgrow, hrehash], hok', hr.names,
            ⟨hr.refCount, hr.isHashed, hr.hash, hr.proto⟩, hr.propSize⟩
        · exact ⟨sh, if_neg hgrow, hok, rfl, ⟨rfl, rfl, rfl, rfl⟩, rfl⟩
      have hlen : sh'.prop.length = sh.prop.length := by
        rw [← names_length, ← names_length, hnames]
      refine ⟨{ sh' with propSize := newSize }, realloc prop newSize, true,
        by dsimp only; rw [hsh', Option.map_some], hok'.setSize (by omega), hnames,
        ⟨hheader.refCount, hheader.isHashed, hheader.hash, hheader.proto⟩, ?_, hview,
        fun _ => Nat.le_max_left .., nofun⟩
      exact Nat.le_of_eq (realloc_length ..).symm
    · rw [if_pos hprop, if_neg hresized]
      refine ⟨sh, _, false, rfl, hok, rfl, ⟨rfl, rfl, rfl, rfl⟩, ?_, hview, nofun, fun _ => ?_⟩
      · rw [realloc_length]
        omega
      · simp [ShapeMemory.enough, hresized]
  · rw [if_neg hprop]
    refine ⟨sh, prop, false, rfl, hok, rfl, ⟨rfl, rfl, rfl, rfl⟩, hsize, rfl, nofun, fun _ => ?_⟩
    simp [ShapeMemory.enough, hprop]

theorem Inv.addShapeProperty (h : Inv s) (ho : s.objects p = some o)
    (hs : s.shapes o.shape = some sh) (hcount : sh.refCount = 1) (hatom : atom ≠ 0)
    (hnew : ∀ (i : Nat) (pr : JSShapeProperty), sh.prop[i]? = some pr → pr.atom ≠ atom)
    (flags : Nat) (memory : ShapeMemory) :
    ∃ s' prop sh' added, addShapeProperty s p o atom flags memory = some (s', added) ∧
      Owns s s' p { o with prop := prop } sh' ∧ sh'.proto = sh.proto ∧
      ownView sh.names prop = ownView sh.names o.prop ∧
      (added = true ∧ sh'.names = sh.names ++ [(atom, flags)] ∨
        added = false ∧ memory.enough = false ∧ sh'.names = sh.names) := by
  have hlive := h.live hs
  have hone : s.refs o.shape = 1 := hlive.refCount.symm.trans hcount
  obtain ⟨-, sh1, hsh1, hsize⟩ := h.objects p o ho
  obtain rfl : sh = sh1 := by simpa [hs] using hsh1
  obtain ⟨table, count, hunlinked, hlinked⟩ := h.shapes.unhash hs
  -- the array of properties grows when it is full
  obtain ⟨sh1, prop, grown, hgrow, hok, hnames, hheader, hroom, hview, hfull, hfailed⟩ :
      ∃ sh1 prop grown, (if sh.prop.length ≥ sh.propSize then
          resizeProperties sh o.prop (sh.prop.length + 1) memory
        else some (sh, o.prop, true)) = some (sh1, prop, grown) ∧
        ShapeOk sh1 ∧ sh1.names = sh.names ∧ sh.SameHeader sh1 ∧ sh1.propSize ≤ prop.length ∧
        ownView sh.names prop = ownView sh.names o.prop ∧
        (grown = true → sh.prop.length + 1 ≤ sh1.propSize) ∧
        (grown = false → memory.enough = false) := by
    by_cases hge : sh.prop.length ≥ sh.propSize
    · rw [if_pos hge]
      exact resizeProperties_eq hlive.ok hsize (by omega) memory
    · exact ⟨sh, o.prop, true, if_neg hge, hlive.ok, rfl, ⟨rfl, rfl, rfl, rfl⟩, hsize, rfl,
        fun _ => by omega, nofun⟩
  have hlen : sh1.prop.length = sh.prop.length := by
    rw [← names_length, ← names_length, hnames]
  rw [ShapeHeap.addShapeProperty, hs, Option.bind_some]
  dsimp only
  rw [hunlinked, Option.bind_some, hgrow, Option.bind_some]
  have hheld : o.shape = ({ o with prop := prop } : PropObject α).shape := rfl
  cases grown with
  | true =>
    obtain ⟨sh2, hsh2, hok2, hnames2, hprop2, hsize2, hcount2, hhashed2, hproto2⟩ :
        ∃ sh2, (if sh1.isHashed = true then
            { sh1 with hash := shapeHashProp sh1.hash atom flags } else sh1) = sh2 ∧
          ShapeOk sh2 ∧ sh2.names = sh1.names ∧ sh2.prop = sh1.prop ∧
          sh2.propSize = sh1.propSize ∧ sh2.refCount = sh1.refCount ∧
          sh2.isHashed = sh1.isHashed ∧ sh2.proto = sh1.proto := by
      by_cases hh : sh1.isHashed = true
      · exact ⟨{ sh1 with hash := shapeHashProp sh1.hash atom flags }, if_pos hh,
          hok.congr rfl rfl rfl, names_congr rfl, rfl, rfl, rfl, rfl, rfl⟩
      · exact ⟨sh1, if_neg hh, hok, rfl, rfl, rfl, rfl, rfl, rfl⟩
    obtain ⟨sh3, happend, hok3, hnames3, hlen3, hsize3, hcount3, hhashed3, hhash3, hproto3⟩ :=
      hok2.append hatom (fun i pr hpr => by
        obtain ⟨pr', hpr', heq⟩ := atom_of_names (hnames2.trans hnames) hpr
        exact heq ▸ hnew i pr' hpr') (by have := hfull rfl; rw [hprop2, hsize2]; omega) flags
    obtain ⟨table', count', hlinked', hfinal⟩ := link_if (s := setShape (setObject
      { s with shapeHash := table, shapeHashCount := count } p { o with prop := prop }) o.shape sh3)
      sh2.isHashed sh2.hash hlinked
    rw [if_pos rfl, hsh2, happend, Option.map_some, hlinked']
    refine ⟨_, prop, sh3, true, rfl, ?_, ?_, hview, .inl ⟨rfl, ?_⟩⟩
    · refine h.change ho hone hok3 ?_ ?_ rfl rfl rfl rfl ?_
      · rw [hcount3, hcount2, hheader.refCount, hcount]
      · rw [hsize3, hsize2]
        exact hroom
      · rwa [JSShape.hashKey, hhashed3, hhash3]
    · rw [hproto3, hproto2, hheader.proto]
    · rw [hnames3, hnames2, hnames]
  | false =>
    obtain ⟨table', count', hlinked', hfinal⟩ := link_if (s := setShape (setObject
      { s with shapeHash := table, shapeHashCount := count } p { o with prop := prop }) o.shape sh1)
      sh1.isHashed sh1.hash hlinked
    rw [if_neg (by simp), hlinked']
    refine ⟨_, prop, sh1, false, rfl, ?_, hheader.proto, hview, .inr ⟨rfl, hfailed rfl, hnames⟩⟩
    exact h.change ho hone hok (hheader.refCount.trans hcount) hroom rfl rfl rfl rfl hfinal

omit [Inhabited α] in
/-- The value of a property that has just been added. -/
theorem Owns.storeLast (h : Owns s s' p o sh) {names : List (Nat × Nat)} (hatom : atom ≠ 0)
    (hnames : sh.names = names ++ [(atom, flags)]) (value : α) :
    ∃ s'' o', storeLast s' p value = some (s'', .ok) ∧ Owns s s'' p o' sh ∧
      ownView sh.names o'.prop = ownView names o.prop ++ [⟨atom, flags, value⟩] := by
  have hlen : names.length + 1 = sh.prop.length := by
    rw [← names_length, hnames, List.length_append, List.length_singleton]
  have hfits := h.fits
  refine ⟨_, { o with prop := o.prop.set (sh.prop.length - 1) value }, ?_, h.setValues ?_, ?_⟩
  · rw [ShapeHeap.storeLast, h.self, Option.bind_some, h.shape, Option.bind_some]
    exact if_pos (by omega)
  · rw [List.length_set]
    exact h.room
  · rw [show sh.prop.length - 1 = names.length by omega, hnames]
    exact ownView_add (by omega) hatom flags value

/-- What adding a property leads to. -/
def Added (s : ShapeHeap α) (p atom flags : Nat) (value : α) (memory : ShapeMemory)
    (o : PropObject α) (sh : JSShape) (r : Option (ShapeHeap α × ShapeOutput α)) : Prop :=
  ∃ s' out o' sh', r = some (s', out) ∧ Owns s s' p o' sh' ∧ sh'.proto = sh.proto ∧
    (out = .ok ∧ ownView sh'.names o'.prop = ownView sh.names o.prop ++ [⟨atom, flags, value⟩] ∨
      out = .exception ∧ memory.enough = false ∧
        ownView sh'.names o'.prop = ownView sh.names o.prop)

/-- The property is added to the shape of an object that has it alone. -/
theorem Owns.addAlone {o1 : PropObject α} {sh1 : JSShape} (h : Owns s s' p o1 sh1)
    (hcount : sh1.refCount = 1) (hnames : sh1.names = sh.names) (hproto : sh1.proto = sh.proto)
    (hview : ownView sh.names o1.prop = ownView sh.names o.prop) (hatom : atom ≠ 0)
    (hnew : ∀ (i : Nat) (pr : JSShapeProperty), sh.prop[i]? = some pr → pr.atom ≠ atom)
    (flags : Nat) (value : α) (memory : ShapeMemory) :
    Added s p atom flags value memory o sh
      ((addShapeProperty s' p o1 atom flags memory).bind fun r =>
        if r.2 = true then ShapeHeap.storeLast r.1 p value else some (r.1, .exception)) := by
  obtain ⟨s2, prop, sh2, added, heq, howns, hproto2, hview2, hcases⟩ :=
    h.inv.addShapeProperty h.self h.shape hcount hatom (fun i pr hpr => by
      obtain ⟨pr', hpr', heq⟩ := atom_of_names hnames hpr
      exact heq ▸ hnew i pr' hpr') flags memory
  have howns2 := h.trans howns
  rw [hnames] at hview2 hcases
  rw [heq, Option.bind_some]
  rcases hcases with ⟨rfl, hnames2⟩ | ⟨rfl, hmemory, hnames2⟩
  · obtain ⟨s3, o3, hstore, howns3, hview3⟩ := howns2.storeLast hatom hnames2 value
    refine ⟨s3, .ok, o3, sh2, by rw [if_pos rfl, hstore], howns3, hproto2.trans hproto,
      .inl ⟨rfl, ?_⟩⟩
    rw [hview3, hview2, hview]
  · refine ⟨s2, .exception, _, sh2, if_neg (by simp), howns2, hproto2.trans hproto,
      .inr ⟨rfl, hmemory, ?_⟩⟩
    rw [hnames2, hview2, hview]

theorem Inv.addProperty (h : Inv s) (ho : s.objects p = some o) (hs : s.shapes o.shape = some sh)
    (hatom : atom ≠ 0)
    (hnew : ∀ (i : Nat) (pr : JSShapeProperty), sh.prop[i]? = some pr → pr.atom ≠ atom)
    (flags : Nat) (value : α) (memory : ShapeMemory) :
    Added s p atom flags value memory o sh
      (addProperty s p o sh atom flags value memory) := by
  have hself := Owns.refl h ho hs
  obtain ⟨found, hfound, hshape⟩ : ∃ r, (if sh.isHashed = true then
      ShapeHeap.findHashedShapeProp s sh atom flags else some none) = some r ∧ ∀ id, r = some id →
      ∃ newSh, s.shapes id = some newSh ∧ newSh.isHashed = true ∧ newSh.proto = sh.proto ∧
        newSh.names = sh.names ++ [(atom, flags)] := by
    by_cases hh : sh.isHashed = true
    · rw [if_pos hh]
      exact h.findHashed sh atom flags
    · exact ⟨none, if_neg hh, nofun⟩
  rw [ShapeHeap.addProperty]
  dsimp only
  rw [hfound, Option.bind_some]
  cases found with
  | some id =>
    obtain ⟨newSh, hnewSh, hhashed, hproto, hnames⟩ := hshape id rfl
    have hlive := h.live hs
    have hne : id ≠ o.shape := by
      rintro rfl
      obtain rfl : sh = newSh := by simpa [hs] using hnewSh
      simpa using congrArg List.length hnames
    have hroom := hself.room
    have hnewFits := (h.live hnewSh).ok.fits
    have hlen : newSh.prop.length = sh.prop.length + 1 := by
      rw [← names_length, hnames, List.length_append, names_length, List.length_singleton]
    dsimp only
    rw [hnewSh, Option.bind_some]
    by_cases hfailed : newSh.propSize ≠ sh.propSize ∧ ¬ memory.prop = true
    · rw [if_pos hfailed]
      refine ⟨s, .exception, o, sh, rfl, hself, rfl, .inr ⟨rfl, ?_, rfl⟩⟩
      simp [ShapeMemory.enough, hfailed.2]
    · rw [if_neg hfailed]
      -- the values of the properties the object has are kept when the array is resized
      obtain ⟨prop, hprop, hsize, hview⟩ : ∃ prop,
          (if newSh.propSize ≠ sh.propSize then realloc o.prop newSh.propSize else o.prop) =
            prop ∧ newSh.propSize ≤ prop.length ∧
          ownView sh.names prop = ownView sh.names o.prop := by
        by_cases hmoved : newSh.propSize ≠ sh.propSize
        · refine ⟨_, if_pos hmoved, (realloc_length ..).ge, ownView_realloc ?_ ?_⟩
          · rw [names_length]
            exact hself.fits
          · rw [names_length]
            omega
        · exact ⟨o.prop, if_neg hmoved, by omega, rfl⟩
      rw [hprop]
      have hinv : ShapesInv s.refs (setObject s p ⟨id, prop⟩) :=
        ⟨h.shapes.live, h.shapes.dead, h.shapes.linked⟩
      obtain ⟨s1, hdup, hinv1, hobjects1, hkeeps1⟩ := hinv.dup hnewSh hhashed
      obtain ⟨sh1, hsh1, -⟩ := hkeeps1 o.shape sh hs
      obtain ⟨s2, hfree, hinv2, hobjects2, -, hothers2, hkeeps2⟩ := hinv1.free hsh1
      obtain ⟨newSh1, hnewSh1, hsame⟩ := hkeeps1 id newSh hnewSh
      rw [Function.update_of_ne (Ne.symm hne)] at hinv2 hkeeps2
      have howns : Owns s s2 p ⟨id, prop⟩ newSh1 :=
        h.move ho hne hinv2 (hobjects2.objects.trans hobjects1.objects)
          (hobjects2.nextObject.trans hobjects1.nextObject) ((hothers2 id hne).trans hnewSh1)
          (hsame.propSize ▸ hsize) (fun x hx => (hkeeps1 x).trans (.of_eq (hothers2 x hx)))
          fun hone => (hkeeps1 _).trans (hkeeps2 hone)
      obtain ⟨s3, o3, hstore, howns3, hview3⟩ :=
        howns.storeLast hatom (hsame.names.trans hnames) value
      refine ⟨s3, .ok, o3, newSh1, ?_, howns3, hsame.proto.trans hproto, .inl ⟨rfl, ?_⟩⟩
      · rw [hdup, Option.bind_some, hfree, Option.bind_some, hstore]
      · rw [hview3, hview]
  | none =>
    dsimp only
    by_cases hshared : sh.isHashed = true ∧ sh.refCount ≠ 1
    · rw [if_pos hshared]
      by_cases hmemory : memory.shape = true
      · rw [if_pos hmemory]
        have hshapes : (jsShapeHashLink (setShape (jsCloneShape s sh).1 s.nextShape
            { sh with refCount := 1, isHashed := true }) s.nextShape sh.hash).shapes =
            update s.shapes s.nextShape (some { sh with refCount := 1, isHashed := true }) :=
          Function.update_idem ..
        have hok : ShapeOk { sh with refCount := 1, isHashed := true } :=
          (h.live hs).ok.congr rfl rfl rfl
        have hinv := h.shapes.alloc hok rfl hshapes rfl
          (h.shapes.linked.link h.shapes.hashedAt_fresh sh.hash)
        obtain ⟨s1, hfree, howns⟩ := h.moveToClone ho hs hinv hshapes ⟨rfl, rfl, rfl⟩ ⟨rfl, rfl⟩
        have hadded := howns.addAlone rfl (show _ = sh.names from rfl) rfl
          (show _ = ownView sh.names o.prop from rfl) hatom hnew flags value memory
        rw [show (jsCloneShape s sh).2 = s.nextShape from rfl, hfree, Option.bind_some]
        exact hadded
      · rw [if_neg hmemory]
        refine ⟨s, .exception, o, sh, rfl, hself, rfl, .inr ⟨rfl, ?_, rfl⟩⟩
        simp [ShapeMemory.enough, hmemory]
    · rw [if_neg hshared]
      have hcount : sh.refCount = 1 := by
        have hlive := h.live hs
        by_cases hh : sh.isHashed = true
        · exact of_not_not fun hne => hshared ⟨hh, hne⟩
        · rw [hlive.refCount, hlive.own (by simpa using hh)]
      rw [if_pos hcount]
      exact hself.addAlone hcount rfl rfl rfl hatom hnew flags value memory

omit [Inhabited α] in
/-- js_shape_prepare_update gives the object a shape of its own that is not in the table. -/
theorem Inv.prepareUpdate (h : Inv s) (ho : s.objects p = some o) (hs : s.shapes o.shape = some sh)
    (memory : ShapeMemory) :
    ∃ s' id ready, jsShapePrepareUpdate s p o sh memory = some (s', id, ready) ∧
      (ready = false ∧ s' = s ∧ memory.enough = false ∨ ready = true ∧
        Owns s s' p { o with shape := id } { sh with refCount := 1, isHashed := false }) := by
  have hlive := h.live hs
  have hroom := (Owns.refl h ho hs).room
  rw [jsShapePrepareUpdate]
  by_cases hh : sh.isHashed = true
  · rw [if_pos hh]
    by_cases hshared : sh.refCount ≠ 1
    · rw [if_pos hshared]
      by_cases hmemory : memory.shape = true
      · rw [if_pos hmemory]
        have hlinked := h.shapes.linked
        rw [← Function.update_eq_self s.nextShape s.hashedAt, h.shapes.hashedAt_fresh] at hlinked
        have hok : ShapeOk { sh with refCount := 1, isHashed := false } :=
          hlive.ok.congr rfl rfl rfl
        have hinv : ShapesInv (update s.refs s.nextShape 1) (jsCloneShape s sh).1 :=
          h.shapes.alloc hok rfl rfl rfl hlinked
        obtain ⟨s1, hfree, howns⟩ := h.moveToClone ho hs hinv rfl ⟨rfl, rfl, rfl⟩ ⟨rfl, rfl⟩
        dsimp only
        rw [show (jsCloneShape s sh).2 = s.nextShape from rfl, hfree, Option.map_some]
        exact ⟨_, _, true, rfl, .inr ⟨rfl, howns⟩⟩
      · rw [if_neg hmemory]
        exact ⟨_, _, false, rfl, .inl ⟨rfl, rfl, by simp [ShapeMemory.enough, hmemory]⟩⟩
    · rw [if_neg hshared]
      have hcount : sh.refCount = 1 := of_not_not hshared
      obtain ⟨table, count, heq, hlinked⟩ := h.shapes.unhash hs
      rw [if_pos hh] at heq
      rw [heq, Option.map_some]
      refine ⟨_, _, true, rfl, .inr ⟨rfl, ?_⟩⟩
      rw [← hcount]
      exact h.change ho (hlive.refCount.symm.trans hcount) (hlive.ok.congr rfl rfl rfl) hcount hroom
        rfl (by rw [← ho]; exact (Function.update_eq_self ..).symm) rfl rfl hlinked
  · rw [if_neg hh]
    refine ⟨_, _, true, rfl, .inr ⟨rfl, ?_⟩⟩
    have hhashed : sh.isHashed = false := by simpa using hh
    have hcount : sh.refCount = 1 := hlive.refCount.trans (hlive.own hhashed)
    rw [← hhashed, ← hcount]
    exact Owns.refl h ho hs

omit [Inhabited α] in
/-- Changing the shape of an object, whatever the change. -/
theorem Inv.updateShape (h : Inv s) (ho : s.objects p = some o) (hs : s.shapes o.shape = some sh)
    (memory : ShapeMemory) {f : JSShape → Option JSShape} {sh' : JSShape} (done : ShapeOutput α)
    (hf : f { sh with refCount := 1, isHashed := false } = some sh') (hok : ShapeOk sh')
    (hcount : sh'.refCount = 1) (hhashed : sh'.isHashed = false)
    (hsize : sh'.propSize = sh.propSize) :
    ∃ s' out id, updateShape s p o sh memory f done = some (s', out) ∧
      (out = done ∧ Owns s s' p { o with shape := id } sh' ∨
        out = .exception ∧ memory.enough = false ∧ s' = s) := by
  obtain ⟨s1, id, ready, heq, hcases⟩ := h.prepareUpdate ho hs memory
  rw [ShapeHeap.updateShape, heq, Option.bind_some]
  rcases hcases with ⟨rfl, rfl, hmemory⟩ | ⟨rfl, howns⟩
  · exact ⟨_, .exception, id, if_neg (by simp), .inr ⟨rfl, hmemory, rfl⟩⟩
  · have hshape := howns.shape
    dsimp only at hshape ⊢
    rw [if_pos rfl, hshape, Option.bind_some, hf, Option.map_some]
    have hlive := howns.inv.live howns.shape
    refine ⟨_, done, id, rfl, .inl ⟨rfl, howns.trans ?_⟩⟩
    refine howns.inv.change howns.self hlive.refCount.symm hok hcount (hsize ▸ howns.room) rfl
      ?_ rfl rfl ?_
    · rw [← howns.self]
      exact (Function.update_eq_self ..).symm
    · have hlinked := howns.inv.shapes.linked
      rw [← Function.update_eq_self id s1.hashedAt, hashedAt_self hshape] at hlinked
      rw [show sh'.hashKey = none by simp [JSShape.hashKey, hhashed]]
      exact hlinked

end ShapeHeap

end IoQuickJS

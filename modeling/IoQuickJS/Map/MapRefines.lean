import IoQuickJS.Map.MapRelease

/-!
# Map and Set refine the language's list of entries

Every call keeps the relation of records to entries and returns the same, so that no sequence of
calls tells the two apart, whatever is added or deleted while iterators and forEach calls are under
way. Only what js_map_clear and js_map_forEach release must not free the record they go to next.
-/
namespace IoQuickJS

open Function (update update_self update_of_ne)
open Simulation (Matched states trace trace_eq)

namespace JSMapState

variable {α : Type*} {K : KeyOps α} {s : JSMapState α} {d : MapData α}
  {es : List (Option (α × α))} {pos held : Nat → Nat} {r i : Nat}

/-! ## One call -/

/-- map_find_record and the search through the entries find the same. -/
theorem RefinesAt.find (h : RefinesAt K s d pos) {key : α} (hkey : K.plain key) :
    (mapFindRecord K s key = some none ∧ MapData.find K d.entries key = none) ∨
    ∃ r mr, mapFindRecord K s key = some (some r) ∧ s.mem r = some mr ∧ mr.empty = false ∧
      MapData.find K d.entries key = some (pos r) ∧
      d.entries[pos r]? = some (some (mr.key, mr.value)) := by
  rcases h.inv.find hkey with hnone | ⟨r, mr, hfound, hmr, hlive, -, hfind⟩
  · exact .inl hnone
  · exact .inr ⟨r, mr, hfound, hmr, hlive, hfind, h.inv.entry_live hmr hlive⟩

/-- A record that somebody stands on is older than the one added next. -/
theorem RefinesAt.held_ne_next (h : RefinesAt K s d pos) (hheld : 0 < s.heldBy r) :
    r ≠ s.next := Nat.ne_of_lt (h.inv.fresh r (h.inv.heldLive r hheld))

/-- The entry added last moves nobody. -/
theorem RefinesAt.appended {s' : JSMapState α} (h : RefinesAt K s d pos)
    (hholders : SameHolders s s') {es : List (Option (α × α))} {n : Nat}
    (hinv : MapInv K s' es (update pos s.next n) s.heldBy) :
    RefinesAt K s' { d with entries := es } (update pos s.next n) where
  isSet := hholders.isSet.trans h.isSet
  inv := by rwa [hholders.heldBy]
  iterators := by
    rw [hholders.iterators]
    refine List.forall₂_iff_get.mpr ⟨h.iterators.length_eq, fun j hj hj' => ?_⟩
    have hat := List.forall₂_iff_get.mp h.iterators |>.2 j hj hj'
    have hheld : ∀ it r, s.iterators.get ⟨j, hj⟩ = some it → it.curRecord = some r →
        update pos s.next n r = pos r := fun it r hit hcur => by
      refine update_of_ne (h.held_ne_next (heldBy_pos_of_iterator (i := j) ?_ hcur)) ..
      rw [List.getElem?_eq_getElem hj]
      exact congrArg some hit
    generalize s.iterators.get ⟨j, hj⟩ = a, d.iterators.get ⟨j, hj'⟩ = b at hat hheld
    cases a with
    | none => cases b <;> exact hat
    | some it =>
      cases b with
      | none => exact hat
      | some ix =>
        refine ⟨hat.1, ?_⟩
        have hrest := hat.2
        cases hcur : it.curRecord with
        | none => simpa [hcur] using hrest
        | some r => simpa [hcur, hheld it r rfl hcur] using hrest
  frames := by
    show d.frames = s'.frames.map fun r => update pos s.next n r + 1
    rw [hholders.frames, h.frames]
    refine List.map_congr_left fun r hr => ?_
    have hheld : 0 < s.heldBy r := by
      have := List.count_pos_iff.mpr hr
      unfold heldBy
      omega
    rw [update_of_ne (h.held_ne_next hheld)]

theorem RefinesAt.set (h : RefinesAt K s d pos) {key : α} (hkey : K.plain (K.normalize key))
    (value : α) (memory : Bool) (slack : Option Nat) (released : List Nat) :
    Matched (Refines K) (jsMapSet K s key value memory slack released)
      (d.step K (.set key value memory slack released)) := by
  simp only [jsMapSet, MapData.step]
  generalize hv : (if s.isSet then K.undefined else value) = v
  rw [show (if d.isSet then K.undefined else value) = v from h.isSet ▸ hv]
  rcases h.find hkey with ⟨hfound, hfind⟩ | ⟨r, mr, hfound, hmr, hlive, hfind, -⟩
  · rw [hfound, hfind, Option.bind_some]
    cases memory with
    | false => exact .some _ ⟨pos, h⟩
    | true =>
      obtain ⟨s', hs', hholders, hinv⟩ := h.inv.add hkey hfind v slack
      simp only [if_true, hs', Option.map_some]
      exact .some _ ⟨_, h.appended hholders hinv⟩
  · rw [hfound, hfind, Option.bind_some]
    dsimp only
    rw [Option.map_eq_bind]
    refine .bind (h.freeValues released) fun s₁ d₁ g => ?_
    obtain ⟨mr₁, hmr₁, hlive₁, -⟩ := g.record h hmr hlive
    rw [hmr₁, Option.map_some]
    refine .some _ ⟨pos, g.refines.of_holders ?_ (g.refines.inv.setValue hmr₁ hlive₁ v)⟩
    exact ⟨rfl, rfl, rfl⟩

theorem RefinesAt.get (h : RefinesAt K s d pos) {key : α} (hkey : K.plain (K.normalize key)) :
    Matched (Refines K) (jsMapGet K s key) (d.step K (.get key)) := by
  simp only [jsMapGet, MapData.step]
  rcases h.find hkey with ⟨hfound, hfind⟩ | ⟨r, mr, hfound, hmr, -, hfind, hentry⟩
  · rw [hfound, hfind]
    exact .some _ ⟨pos, h⟩
  · rw [hfound, hfind]
    simp only [Option.bind_some, hmr, hentry, Option.map_some, Option.join_some]
    exact .some _ ⟨pos, h⟩

theorem RefinesAt.has (h : RefinesAt K s d pos) {key : α} (hkey : K.plain (K.normalize key)) :
    Matched (Refines K) (jsMapHas K s key) (d.step K (.has key)) := by
  simp only [jsMapHas, MapData.step]
  rcases h.find hkey with ⟨hfound, hfind⟩ | ⟨r, mr, hfound, -, -, hfind, -⟩
  · rw [hfound, hfind]
    exact .some _ ⟨pos, h⟩
  · rw [hfound, hfind]
    exact .some _ ⟨pos, h⟩

theorem RefinesAt.delete (h : RefinesAt K s d pos) {key : α}
    (hkey : K.plain (K.normalize key)) (released : List Nat) :
    Matched (Refines K) (jsMapDelete K s key released) (d.step K (.delete key released)) := by
  simp only [jsMapDelete, MapData.step]
  rcases h.find hkey with ⟨hfound, hfind⟩ | ⟨r, mr, hfound, hmr, hlive, hfind, -⟩
  · rw [hfound, hfind]
    exact .some _ ⟨pos, h⟩
  · rw [hfound, hfind, Option.bind_some]
    exact .map _ (h.deleteRecord hmr hlive released) fun _ _ g => ⟨pos, g.refines⟩

theorem RefinesAt.clear (h : RefinesAt K s d pos) {released : List (List Nat)}
    (hsafe : d.releasesSafely (.clear released) = true) :
    Matched (Refines K) (jsMapClear K s released) (d.step K (.clear released)) := by
  have hsafe' : ∀ n ∈ released.flatten, ∀ j, 0 ≤ j → ¬ d.PastDeleted n j := fun n hn j _ =>
    MapData.pastDeleted_eq_false (by simpa using List.all_eq_true.mp hsafe n hn) j
  have hcleared := h.clearFrom s.records.length
    ((MapInv.from_start pos s).firstFrom h.inv.sorted) (by simp) (List.length_filter_le ..) hsafe'
  exact .map _ hcleared fun _ _ h' => ⟨pos, h'⟩

theorem RefinesAt.createIterator (h : RefinesAt K s d pos) (kind : JSIteratorKind)
    (memory : Bool) :
    Matched (Refines K) (some (jsCreateMapIterator s kind memory))
      (d.step K (.createIterator kind memory)) := by
  simp only [jsCreateMapIterator, MapData.step]
  cases memory with
  | false => exact .some _ ⟨pos, h⟩
  | true =>
    simp only [if_true, h.iterators.length_eq]
    refine .some _ ⟨pos, h.isSet, ?_, ?_, h.frames⟩
    · have hheld : ({ s with iterators := s.iterators ++ [some ⟨kind, true, none⟩] } :
          JSMapState α).heldBy = s.heldBy := by
        funext r
        simp [heldBy, standsOn]
      exact hheld.symm ▸ h.inv.holders _ s.frames
    · exact List.rel_append h.iterators (.cons ⟨rfl, rfl⟩ .nil)

theorem RefinesAt.finalizeIterator (h : RefinesAt K s d pos) (n : Nat) :
    Matched (Refines K) (step K s (.finalizeIterator n)) (d.step K (.finalizeIterator n)) :=
  .map _ (h.finalizer n) fun _ _ g => ⟨pos, g.refines⟩

/-- An iterator that has left its record goes on to the next entry. -/
theorem RefinesAt.nextFrom (h : RefinesAt K s d pos) {s' : JSMapState α} {memory : Bool}
    (hholders : SameHolders s s') {n : Nat} {it : JSMapIteratorData}
    (hit : s.iterators[n]? = some (some it)) (hattached : it.attached = true) {el : List Nat}
    (hel : From s' pos i el) (hsorted : el.Pairwise fun r r' => pos r < pos r')
    (hinv : MapInv K s' d.entries pos held)
    (hheld : ∀ r, held r + (if standsOn r (some it) then 1 else 0) = s.heldBy r) :
    Matched (Refines K)
      ((firstLive s' el).bind fun found =>
        match found with
        | none =>
          some ({ s' with iterators := s'.iterators.set n (some ⟨it.kind, false, none⟩) }, .done)
        | some r => (s'.mem r).bind fun mr => (lockRecord s' r).map fun s =>
          ({ s with iterators := s.iterators.set n (some { it with curRecord := some r }) },
            iteratorResult s.isSet it.kind memory mr.key mr.value))
      (some (match nextEntry d.entries i with
        | none => ({ d with iterators := d.iterators.set n (some (it.kind, none)) }, .done)
        | some (j, (key, value)) =>
          ({ d with iterators := d.iterators.set n (some (it.kind, some (j + 1))) },
            iteratorResult d.isSet it.kind memory key value))) := by
  rcases hinv.advance hel hsorted with ⟨hlive, hnext⟩ | ⟨r, mr, s'', hlive, hmr, hs'', hlock,
    hnext, hinv'⟩
  · rw [hlive, hnext]
    refine .some _ ⟨pos, h.setIterator hholders hit _ _ ⟨rfl, rfl, rfl⟩ hinv fun r => ?_⟩
    simpa [standsOn] using hheld r
  · rw [hlive, hnext]
    simp only [Option.bind_some, hmr, hs'', Option.map_some]
    rw [show iteratorResult s''.isSet it.kind memory mr.key mr.value =
      iteratorResult d.isSet it.kind memory mr.key mr.value by
        rw [(hholders.trans hlock).isSet.trans h.isSet]]
    refine .some _ ⟨pos, h.setIterator (hholders.trans hlock) hit (some { it with
      curRecord := some r }) (some (it.kind, some (pos r + 1))) ⟨rfl, by simp [hattached]⟩ hinv'
      fun q => ?_⟩
    have hq := hheld q
    by_cases hqr : q = r
    · subst hqr
      simp only [update_self, standsOn, Option.any_some, beq_self_eq_true, if_true] at hq ⊢
      omega
    · simpa [standsOn, update_of_ne hqr, Ne.symm hqr] using hq

theorem RefinesAt.next (h : RefinesAt K s d pos) (n : Nat) (memory : Bool) :
    Matched (Refines K) (jsMapIteratorNext s n memory) (d.step K (.next n memory)) := by
  simp only [jsMapIteratorNext, MapData.step]
  rcases h.iterAt n with ⟨hs, hd⟩ | ⟨it, ix, hs, hd, hkind, hat⟩
  · rw [hs, hd]
    exact .none
  · obtain ⟨kind, index⟩ := ix
    obtain rfl : kind = it.kind := hkind
    simp only [hs, hd, Option.join_some, Option.bind_some, Option.map_some]
    by_cases hattached : it.attached = true
    · obtain rfl : index = some (it.curRecord.elim 0 fun r => pos r + 1) := by
        simpa [hattached] using hat
      rw [if_pos hattached]
      cases hcur : it.curRecord with
      | none =>
        simp only [Option.bind_some, Option.elim_none]
        refine h.nextFrom (.refl s) hs hattached (MapInv.from_start pos s) h.inv.sorted h.inv
          fun r => ?_
        simp [standsOn, hcur]
      | some r =>
        have hheld := heldBy_pos_of_iterator hs hcur
        obtain ⟨el, s', hel, hs', hholders, hfrom, hsorted, hinv⟩ := h.inv.leave hheld
        simp only [hel, hs', Option.bind_some, Option.map_some, Option.elim_some]
        refine h.nextFrom hholders hs hattached hfrom hsorted hinv fun q => ?_
        by_cases hq : q = r
        · subst hq
          simp [standsOn, hcur]
          omega
        · simp [standsOn, hcur, hq, Ne.symm hq]
    · obtain ⟨rfl, -⟩ : index = none ∧ it.curRecord = none := by simpa [hattached] using hat
      rw [if_neg hattached]
      exact .some _ ⟨pos, h⟩

/-- A forEach that has left its record goes on to the next entry. -/
theorem RefinesAt.forEachFrom (h : RefinesAt K s d pos) {el : Option Nat}
    (hel : FirstFrom s pos i el) :
    Matched (Refines K) (JSMapState.forEachFrom s el) (some (d.walk i)) := by
  obtain ⟨rest, hrest, hfrom, hsorted⟩ := h.inv.listFrom hel
  rw [JSMapState.forEachFrom, MapData.walk, hrest, Option.bind_some]
  rcases h.inv.advance hfrom hsorted with ⟨hlive, hnext⟩ | ⟨r, mr, s', hlive, hmr, hs', hholders,
    hnext, hinv⟩
  · rw [hlive, hnext]
    exact .some _ ⟨pos, h⟩
  · rw [hlive, hnext]
    simp only [Option.bind_some, hmr, hs', Option.map_some]
    rw [show (if s'.isSet then mr.key else mr.value) = if d.isSet then mr.key else mr.value by
      rw [hholders.isSet.trans h.isSet]]
    refine .some _ ⟨pos, hholders.isSet.trans h.isSet, ?_, ?_, ?_⟩
    · have hheld : ({ s' with frames := r :: s'.frames } : JSMapState α).heldBy =
          update s.heldBy r (s.heldBy r + 1) := by
        funext q
        have hq := congrFun hholders.heldBy q
        by_cases hqr : q = r
        · subst hqr
          simp only [heldBy, List.count_cons_self, update_self] at hq ⊢
          omega
        · simpa [heldBy, update_of_ne hqr, List.count_cons_of_ne (Ne.symm hqr)] using hq
      exact hheld.symm ▸ hinv.holders s'.iterators _
    · exact hholders.iterators.symm ▸ h.iterators
    · simp [hholders.frames, h.frames]

/-- A forEach leaves the record it has locked. -/
theorem RefinesAt.popped (h : RefinesAt K s d pos) {frames : List Nat}
    (hframes : s.frames = r :: frames) :
    ∃ el s', JSMapState.after r s.records = some el ∧ mapDecrefRecord s r = some s' ∧
      FirstFrom s' pos (pos r + 1) el.head? ∧
      RefinesAt K { s' with frames := frames }
        { d with frames := frames.map fun r => pos r + 1 } pos := by
  have hpos : 0 < s.heldBy r := by
    simp only [heldBy, hframes, List.count_cons_self]
    omega
  obtain ⟨el, s', hel, hs', hholders, hfrom, hsorted, hinv⟩ := h.inv.leave hpos
  refine ⟨el, s', hel, hs', hfrom.firstFrom hsorted, hholders.isSet.trans h.isSet, ?_,
    hholders.iterators.symm ▸ h.iterators, rfl⟩
  have hheld : ({ s' with frames := frames } : JSMapState α).heldBy =
      update s.heldBy r (s.heldBy r - 1) := by
    funext q
    by_cases hqr : q = r
    · subst hqr
      simp [heldBy, hholders.iterators, hframes]
    · simp [heldBy, hholders.iterators, hframes, update_of_ne hqr,
        List.count_cons_of_ne (Ne.symm hqr)]
  exact hheld.symm ▸ hinv.holders s'.iterators _

theorem RefinesAt.forEachReturn (h : RefinesAt K s d pos) {exception : Bool}
    {args ret : List Nat} (hsafe : d.releasesSafely (.forEachReturn exception args ret) = true) :
    Matched (Refines K) (JSMapState.forEachReturn s exception args ret)
      (d.step K (.forEachReturn exception args ret)) := by
  simp only [JSMapState.forEachReturn, MapData.step, h.frames]
  cases hframes : s.frames with
  | nil => exact .none
  | cons r frames =>
    refine .bind (h.freeValues args) fun s₁ d₁ g => ?_
    obtain ⟨el, s₂, hel, hs₂, hfirst, hpopped⟩ := g.refines.popped (g.frames.trans hframes)
    rw [hel, Option.bind_some, hs₂, Option.bind_some]
    cases exception with
    | true => exact .some _ ⟨pos, hpopped⟩
    | false =>
      simp only [Bool.false_eq_true, if_false, Option.map_eq_bind]
      refine .bind (hpopped.freeValues ret) fun s₃ d₃ g₃ => ?_
      refine g₃.refines.forEachFrom (hfirst.removed g₃.records fun q hq => ?_)
      rw [hq] at hfirst
      refine g₃.stays q hfirst.1 fun n hn hpast => ?_
      exact MapData.pastDeleted_eq_false (by simpa using List.all_eq_true.mp hsafe n hn) _
        (g.finalized.pastDeleted hpast)

variable (K) in
/-- The keys a call passes are ones that are hashed as they are compared. -/
def PlainKey : MapLabel α → Prop
  | .set key .. | .get key | .has key | .delete key _ => K.plain (K.normalize key)
  | _ => True

/-- One call of the implementation is one call of the specification. -/
theorem step_matched (s : JSMapState α) (d : MapData α) (l : MapLabel α) (h : Refines K s d)
    (hl : PlainKey K l ∧ d.releasesSafely l = true) :
    Matched (Refines K) (step K s l) (d.step K l) := by
  obtain ⟨pos, h⟩ := h
  obtain ⟨hkey, hsafe⟩ := hl
  cases l with
  | set key value memory slack released => exact h.set hkey value memory slack released
  | get key => exact h.get hkey
  | has key => exact h.has hkey
  | delete key released => exact h.delete hkey released
  | clear released => exact h.clear hsafe
  | size =>
    simp only [step, MapData.step, h.inv.count]
    exact .some _ ⟨pos, h⟩
  | createIterator kind memory => exact h.createIterator kind memory
  | next n memory => exact h.next n memory
  | finalizeIterator n => exact h.finalizeIterator n
  | forEach => exact h.forEachFrom ((MapInv.from_start pos s).firstFrom h.inv.sorted)
  | forEachReturn exception args ret => exact h.forEachReturn hsafe

theorem new_refines (isSet : Bool) : Refines K (new isSet) (MapData.new isSet) := by
  refine ⟨id, rfl, ?_, .nil, rfl⟩
  constructor <;> simp [new, MapData.new, heldBy]
  intro c b hb r hr
  obtain rfl : b = [] := by simpa using List.mem_of_getElem? hb
  simp at hr

/-- No sequence of calls tells the implementation from the list of entries. -/
theorem trace_eq_spec (isSet : Bool) (ls : List (MapLabel α))
    (h : Transition.Meets (states (MapData.step K))
      (fun d l => PlainKey K l ∧ d.releasesSafely l = true) (MapData.new isSet) ls) :
    trace (step K) (new isSet) ls = trace (MapData.step K) (MapData.new isSet) ls :=
  trace_eq step_matched (new_refines isSet) h

end JSMapState

end IoQuickJS

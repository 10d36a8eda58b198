import IoQuickJS.Collector
import IoQuickJS.Library.Reach

/-!
# What gc_decref and gc_scan compute

The two passes change counts, marks and the two lists only. After them every count is what it
was, and gc_obj_list holds exactly the objects reachable from one that something outside the
graph of marked references holds; the others are on tmp_obj_list.

`Decref` and `Scan` are the invariants of the two loops: which part of the graph has been
visited, and which references have been taken out of the counts or put back.
-/
namespace IoQuickJS

open Function (update update_self update_of_ne)
open Reach (mem_iff_reachable)

def JSValue.objectAddr : JSValue → Option Nat
  | .object p => some p
  | _ => none

/-- The objects `mark_children` visits from `p`, in order. -/
def children (rt : JSRuntime) (p : Nat) : List Nat := (markList rt p).filterMap JSValue.objectAddr

theorem count_filterMap_objectAddr (vs : List JSValue) (q : Nat) :
    (vs.filterMap JSValue.objectAddr).count q = vs.count (.object q) := by
  induction vs with
  | nil => rfl
  | cons v vs ih =>
    cases v with
    | object p =>
      simp only [List.filterMap_cons, JSValue.objectAddr, List.count_cons, ih]
      by_cases hpq : p = q <;> simp [hpq]
    | _ => simpa [List.filterMap_cons, JSValue.objectAddr, List.count_cons] using ih

theorem count_children (rt : JSRuntime) (p q : Nat) :
    (children rt p).count q = (markList rt p).count (.object q) :=
  count_filterMap_objectAddr _ _

theorem mem_children {rt : JSRuntime} {p q : Nat} :
    q ∈ children rt p ↔ .object q ∈ markList rt p := by
  rw [← List.count_pos_iff, count_children, List.count_pos_iff]

theorem markChildren_eq (f : JSRuntime → Nat → JSRuntime) (rt : JSRuntime) (p : Nat) :
    markChildren f rt p = (children rt p).foldl f rt := by
  unfold markChildren children
  generalize markList rt p = vs
  induction vs generalizing rt with
  | nil => rfl
  | cons v vs ih =>
    cases v <;> simp [List.filterMap_cons, JSValue.objectAddr, jsMarkValue, ih]

/-! ## The frame of the two passes -/

/-- `rt'` differs from `rt` in object counts, marks and the lists of the collector only. -/
structure MarksOnly (rt rt' : JSRuntime) : Prop where
  next : rt'.next = rt.next
  objects : rt'.objects = rt.objects
  strings : rt'.strings = rt.strings
  timers : rt'.timers = rt.timers
  sockets : rt'.sockets = rt.sockets
  refCount : ∀ v, v.objectAddr = none → rt'.refCount v = rt.refCount v
  zero : rt'.gcZeroRefCountList = rt.gcZeroRefCountList
  jobList : rt'.jobList = rt.jobList
  running : rt'.running = rt.running
  stack : rt'.stack = rt.stack
  events : rt'.events = rt.events
  log : rt'.log = rt.log
  currentException : rt'.currentException = rt.currentException
  panicked : rt'.panicked = rt.panicked

theorem MarksOnly.refl (rt : JSRuntime) : MarksOnly rt rt :=
  ⟨rfl, rfl, rfl, rfl, rfl, fun _ _ => rfl, rfl, rfl, rfl, rfl, rfl, rfl, rfl, rfl⟩

theorem MarksOnly.trans {a b c : JSRuntime} (h : MarksOnly a b) (g : MarksOnly b c) :
    MarksOnly a c :=
  ⟨g.1.trans h.1, g.2.trans h.2, g.3.trans h.3, g.4.trans h.4, g.5.trans h.5,
    fun v hv => (g.6 v hv).trans (h.6 v hv), g.7.trans h.7, g.8.trans h.8, g.9.trans h.9,
    g.10.trans h.10, g.11.trans h.11, g.12.trans h.12, g.13.trans h.13, g.14.trans h.14⟩

theorem MarksOnly.setCount {a b : JSRuntime} (h : MarksOnly a b) (q n : Nat) (m : Nat → Bool)
    (gc tmp : List Nat) :
    MarksOnly a { b with
      refCount := update b.refCount (.object q) n, mark := m, gcObjList := gc,
      tmpObjList := tmp } :=
  h.trans ⟨rfl, rfl, rfl, rfl, rfl, fun v hv => update_of_ne (by rintro rfl; cases hv) .., rfl,
    rfl, rfl, rfl, rfl, rfl, rfl, rfl⟩

theorem MarksOnly.setLists {a b : JSRuntime} (h : MarksOnly a b) (m : Nat → Bool)
    (gc tmp : List Nat) :
    MarksOnly a { b with mark := m, gcObjList := gc, tmpObjList := tmp } :=
  h.trans ⟨rfl, rfl, rfl, rfl, rfl, fun _ _ => rfl, rfl, rfl, rfl, rfl, rfl, rfl, rfl, rfl⟩

theorem MarksOnly.children {a b : JSRuntime} (h : MarksOnly a b) (p : Nat) :
    IoQuickJS.children b p = IoQuickJS.children a p := by
  simp [IoQuickJS.children, markList, gcMark, h.objects, h.timers, h.sockets]

/-! ## gc_decref -/

/-- `gc_decref` has visited `visited` and taken the references `used` out of the counts. -/
structure Decref (start rt : JSRuntime) (visited used : List Nat) : Prop where
  frame : MarksOnly start rt
  count : ∀ q, rt.refCount (.object q) + used.count q = start.refCount (.object q)
  mark : ∀ q ∈ start.gcObjList, (rt.mark q = true ↔ q ∈ visited)
  tmp_nodup : rt.tmpObjList.Nodup
  gc_nodup : rt.gcObjList.Nodup
  mem_tmp : ∀ q, q ∈ rt.tmpObjList ↔
    q ∈ start.gcObjList ∧ q ∈ visited ∧ rt.refCount (.object q) = 0
  mem_gc : ∀ q, q ∈ rt.gcObjList ↔
    q ∈ start.gcObjList ∧ ¬ (q ∈ visited ∧ rt.refCount (.object q) = 0)

section Decref

variable {start rt : JSRuntime} {visited used : List Nat}

theorem Decref.child (h : Decref start rt visited used)
    (hmem : ∀ q, 0 < start.refCount (.object q) → q ∈ start.gcObjList) {q : Nat}
    (hq : used.count q < start.refCount (.object q)) :
    Decref start (gcDecrefChild rt q) visited (used ++ [q]) := by
  have hqgc := hmem q (by omega)
  have hcount := h.count q
  have hother : ∀ (n p : Nat), p ≠ q →
      update rt.refCount (.object q) n (.object p) = rt.refCount (.object p) :=
    fun n p hp => update_of_ne (by simpa using hp) ..
  have hnotTmp : q ∉ rt.tmpObjList := by rw [h.mem_tmp]; omega
  have hused : ∀ p, (used ++ [q]).count p = used.count p + if p = q then 1 else 0 := by
    intro p
    rw [List.count_append, List.count_singleton]
    by_cases hp : p = q <;> simp [hp, Ne.symm]
  unfold gcDecrefChild
  dsimp only
  split_ifs with hmove
  · obtain ⟨hzero, hmark⟩ := hmove
    have hvisited := (h.mark q hqgc).mp hmark
    refine ⟨h.frame.setCount q _ rt.mark _ _, fun p => ?_, h.mark, ?_, h.gc_nodup.erase q,
      fun p => ?_, fun p => ?_⟩
    all_goals simp only [moveToTmp]
    · rw [hused]
      by_cases hp : p = q
      · subst hp; simp; omega
      · simp [hp, h.count p]
    · exact List.nodup_append.mpr ⟨h.tmp_nodup, by simp, by rintro a ha b hb rfl; simp_all⟩
    · rw [List.mem_append, h.mem_tmp, List.mem_singleton]
      by_cases hp : p = q
      · subst hp; simp [hqgc, hvisited, hzero]
      · simp [hp]
    · rw [h.gc_nodup.mem_erase_iff, h.mem_gc]
      by_cases hp : p = q
      · subst hp; simp [hvisited, hzero]
      · simp [hp]
  · have hnot : ¬ (q ∈ visited ∧ rt.refCount (.object q) - 1 = 0) := by
      rintro ⟨hvisited, hzero⟩
      exact hmove ⟨hzero, (h.mark q hqgc).mpr hvisited⟩
    refine ⟨h.frame.setCount q _ rt.mark _ _, fun p => ?_, h.mark, h.tmp_nodup, h.gc_nodup,
      fun p => ?_, fun p => ?_⟩
    · rw [hused]
      by_cases hp : p = q
      · subst hp; simp; omega
      · simp [hp, h.count p]
    · dsimp only
      by_cases hp : p = q
      · subst hp; simp only [hnotTmp, update_self, false_iff, not_and]
        exact fun _ hvis hzero => hnot ⟨hvis, hzero⟩
      · rw [hother _ p hp, h.mem_tmp]
    · dsimp only
      by_cases hp : p = q
      · subst hp; rw [h.mem_gc]
        simp only [hqgc, true_and, update_self, hnot, not_false_eq_true, iff_true]
        omega
      · rw [hother _ p hp, h.mem_gc]

theorem Decref.children_fold (h : Decref start rt visited used)
    (hmem : ∀ q, 0 < start.refCount (.object q) → q ∈ start.gcObjList) {cs : List Nat}
    (hle : ∀ q, (used ++ cs).count q ≤ start.refCount (.object q)) :
    Decref start (cs.foldl gcDecrefChild rt) visited (used ++ cs) := by
  induction cs generalizing rt used with
  | nil => simpa using h
  | cons c cs ih =>
    have hc := hle c
    rw [List.count_append, List.count_cons_self] at hc
    have hchild := h.child hmem (q := c) (by omega)
    have := ih hchild (by simpa using hle)
    simpa using this

theorem Decref.step (h : Decref start rt visited used)
    (hmem : ∀ q, 0 < start.refCount (.object q) → q ∈ start.gcObjList) {p : Nat}
    (hp : p ∈ start.gcObjList) (hnew : p ∉ visited)
    (hle : ∀ q, (used ++ children start p).count q ≤ start.refCount (.object q)) :
    Decref start (gcDecrefStep rt p) (visited ++ [p]) (used ++ children start p) := by
  have hfold := h.children_fold hmem hle
  rw [← h.frame.children p, ← markChildren_eq] at hfold
  rw [h.frame.children p] at hfold
  unfold gcDecrefStep
  generalize markChildren gcDecrefChild rt p = u at hfold ⊢
  have hmark : ∀ q ∈ start.gcObjList,
      (update u.mark p true q = true ↔ q ∈ visited ++ [p]) := by
    intro q hq
    by_cases hqp : q = p
    · simp [hqp]
    · simp [hfold.mark q hq, hqp]
  dsimp only
  split_ifs with hzero
  · refine ⟨hfold.frame.setLists _ _ _, hfold.count, hmark, ?_, hfold.gc_nodup.erase p,
      fun q => ?_, fun q => ?_⟩
    · refine List.nodup_append.mpr ⟨hfold.tmp_nodup, by simp, ?_⟩
      rintro a ha b hb rfl
      obtain rfl : a = p := by simpa using hb
      exact hnew ((hfold.mem_tmp a).mp ha).2.1
    · simp only [moveToTmp, List.mem_append, List.mem_singleton, hfold.mem_tmp]
      by_cases hqp : q = p
      · simp [hqp, hp, hzero]
      · simp [hqp]
    · simp only [moveToTmp, hfold.gc_nodup.mem_erase_iff, hfold.mem_gc, List.mem_append,
        List.mem_singleton]
      by_cases hqp : q = p
      · simp [hqp, hzero]
      · simp [hqp]
  · refine ⟨hfold.frame.setLists _ _ _, hfold.count, hmark, hfold.tmp_nodup, hfold.gc_nodup,
      fun q => ?_, fun q => ?_⟩
    · rw [hfold.mem_tmp]
      by_cases hqp : q = p
      · simp [hqp, hzero, hnew]
      · simp [hqp]
    · rw [hfold.mem_gc]
      by_cases hqp : q = p
      · simp [hqp, hzero, hnew]
      · simp [hqp]

theorem Decref.foldl (hmem : ∀ q, 0 < start.refCount (.object q) → q ∈ start.gcObjList)
    {rest : List Nat} (hnodup : (visited ++ rest).Nodup)
    (hgc : ∀ p ∈ rest, p ∈ start.gcObjList)
    (hle : ∀ q, ((visited ++ rest).flatMap (children start)).count q ≤
      start.refCount (.object q))
    (h : Decref start rt visited (visited.flatMap (children start))) :
    Decref start (rest.foldl gcDecrefStep rt) (visited ++ rest)
      ((visited ++ rest).flatMap (children start)) := by
  induction rest generalizing rt visited with
  | nil => simpa using h
  | cons p rest ih =>
    have hnew : p ∉ visited := fun hp => by
      have := List.disjoint_of_nodup_append hnodup hp
      simp at this
    have hstep := h.step hmem (hgc p (by simp)) hnew fun q => by
      have := hle q
      simp only [List.flatMap_append, List.flatMap_cons, List.count_append] at this ⊢
      omega
    have hused : visited.flatMap (children start) ++ children start p =
        (visited ++ [p]).flatMap (children start) := by simp
    rw [hused] at hstep
    have := ih (by simpa using hnodup) (fun q hq => hgc q (by simp [hq]))
      (by simpa using hle) hstep
    simpa using this

end Decref

/-! ## gc_scan -/

/-- Something outside the marked references of the collected objects holds `p`. -/
def externals (rt : JSRuntime) (p : Nat) : Nat :=
  rt.refCount (.object p) - (rt.gcObjList.flatMap (children rt)).count p

/-- `p` can be reached from an object that is held from outside. -/
def Reachable (rt : JSRuntime) (p : Nat) : Prop :=
  Reach.Reachable (fun q => 0 < externals rt q) (children rt) p

/-- `gc_scan` has put the references `used` back on top of the counts `base`. -/
structure Scan (start rt : JSRuntime) (base : Nat → Nat) (used : List Nat) : Prop where
  frame : MarksOnly start rt
  count : ∀ q, rt.refCount (.object q) = base q + used.count q
  tmp_nodup : rt.tmpObjList.Nodup
  gc_nodup : rt.gcObjList.Nodup
  mem_tmp : ∀ q, q ∈ rt.tmpObjList ↔ q ∈ start.gcObjList ∧ rt.refCount (.object q) = 0
  mem_gc : ∀ q, q ∈ rt.gcObjList ↔ q ∈ start.gcObjList ∧ 0 < rt.refCount (.object q)
  sound : ∀ q ∈ rt.gcObjList, Reachable start q

section Scan

variable {start rt : JSRuntime} {base : Nat → Nat} {used : List Nat}

/-- What one rescued reference does to the lists: the part already visited stays in front. -/
theorem Scan.child (h : Scan start rt base used) {q : Nat} (hq : q ∈ start.gcObjList)
    (hreach : Reachable start q) :
    Scan start (gcScanIncrefChild rt q) base (used ++ [q]) ∧
      rt.gcObjList <+: (gcScanIncrefChild rt q).gcObjList ∧
      ∀ p, rt.mark p = false → (gcScanIncrefChild rt q).mark p = false := by
  have hused : ∀ p, (used ++ [q]).count p = used.count p + if p = q then 1 else 0 := by
    intro p
    rw [List.count_append, List.count_singleton]
    by_cases hp : p = q <;> simp [hp, Ne.symm]
  have hother : ∀ (n p : Nat), p ≠ q →
      update rt.refCount (.object q) n (.object p) = rt.refCount (.object p) :=
    fun n p hp => update_of_ne (by simpa using hp) ..
  have hcount : ∀ p, update rt.refCount (.object q) (rt.refCount (.object q) + 1) (.object p) =
      base p + (used ++ [q]).count p := by
    intro p
    rw [hused]
    by_cases hp : p = q
    · subst hp; simp [h.count p]; omega
    · simp [hp, h.count p]
  unfold gcScanIncrefChild
  dsimp only
  split_ifs with hone
  · have hzero : rt.refCount (.object q) = 0 := by omega
    have hnot : q ∉ rt.gcObjList := by rw [h.mem_gc]; omega
    refine ⟨⟨h.frame.setCount q _ _ _ _, hcount, h.tmp_nodup.erase q, ?_, fun p => ?_,
      fun p => ?_, fun p hp => ?_⟩, List.prefix_append _ _, fun p hp => ?_⟩
    · exact List.nodup_append.mpr ⟨h.gc_nodup, by simp, by rintro a ha b hb rfl; simp_all⟩
    · dsimp only
      rw [h.tmp_nodup.mem_erase_iff, h.mem_tmp]
      by_cases hp : p = q
      · simp [hp]
      · simp [hp]
    · dsimp only
      rw [List.mem_append, h.mem_gc, List.mem_singleton]
      by_cases hp : p = q
      · simp [hp, hq]
      · simp [hp]
    · rcases List.mem_append.mp hp with hp | hp
      · exact h.sound p hp
      · rw [List.mem_singleton.mp hp]; exact hreach
    · dsimp only
      by_cases hpq : p = q
      · simp [hpq]
      · rw [update_of_ne hpq]; exact hp
  · refine ⟨⟨h.frame.setCount q _ rt.mark _ _, hcount, h.tmp_nodup, h.gc_nodup, fun p => ?_,
      fun p => ?_, h.sound⟩, List.prefix_refl _, fun p hp => hp⟩
    · dsimp only
      rw [h.mem_tmp]
      by_cases hp : p = q
      · subst hp; simp; omega
      · rw [hother _ p hp]
    · dsimp only
      rw [h.mem_gc]
      by_cases hp : p = q
      · subst hp; simp; omega
      · rw [hother _ p hp]

theorem Scan.children_fold (h : Scan start rt base used) (cs : List Nat)
    (hcs : ∀ q ∈ cs, q ∈ start.gcObjList ∧ Reachable start q) :
    Scan start (cs.foldl gcScanIncrefChild rt) base (used ++ cs) ∧
      rt.gcObjList <+: (cs.foldl gcScanIncrefChild rt).gcObjList ∧
      ∀ p, rt.mark p = false → (cs.foldl gcScanIncrefChild rt).mark p = false := by
  induction cs generalizing rt used with
  | nil => exact ⟨by simpa using h, List.prefix_refl _, fun _ hp => hp⟩
  | cons c cs ih =>
    obtain ⟨hchild, hprefix, hmark⟩ := h.child (hcs c (by simp)).1 (hcs c (by simp)).2
    obtain ⟨hfold, hprefix', hmark'⟩ := ih hchild fun q hq => hcs q (by simp [hq])
    exact ⟨by simpa using hfold, hprefix.trans hprefix', fun p hp => hmark' p (hmark p hp)⟩

/-- The first loop of gc_scan ends when every kept object has been visited. -/
theorem Scan.from (hmem : ∀ p ∈ start.gcObjList, ∀ q ∈ children start p, q ∈ start.gcObjList)
    (fuel : Nat) {i : Nat} (hfuel : start.gcObjList.length < fuel + i)
    (hi : i ≤ rt.gcObjList.length)
    (hvisited : ∀ q ∈ rt.gcObjList.take i, rt.mark q = false)
    (h : Scan start rt base ((rt.gcObjList.take i).flatMap (children start))) :
    Scan start (gcScanFrom fuel i rt) base
        ((gcScanFrom fuel i rt).gcObjList.flatMap (children start)) ∧
      ∀ q ∈ (gcScanFrom fuel i rt).gcObjList, (gcScanFrom fuel i rt).mark q = false := by
  have hlen : rt.gcObjList.length ≤ start.gcObjList.length :=
    (h.gc_nodup.subperm fun q hq => ((h.mem_gc q).mp hq).1).length_le
  induction fuel generalizing i rt with
  | zero => omega
  | succ fuel ih =>
    unfold gcScanFrom
    split
    · next hnone =>
      have hall : rt.gcObjList.take i = rt.gcObjList :=
        List.take_of_length_le (List.getElem?_eq_none_iff.mp hnone)
      exact ⟨by rwa [hall] at h, by rwa [hall] at hvisited⟩
    · next p hp =>
      obtain ⟨hip, hget⟩ := List.getElem?_eq_some_iff.mp hp
      have hpgc : p ∈ rt.gcObjList := List.mem_of_getElem? hp
      let u : JSRuntime := { rt with mark := update rt.mark p false }
      have hu : Scan start u base ((rt.gcObjList.take i).flatMap (children start)) :=
        ⟨h.frame.setLists _ _ _, h.count, h.tmp_nodup, h.gc_nodup, h.mem_tmp, h.mem_gc, h.sound⟩
      have hchildren : children u p = children start p := hu.frame.children p
      have hpstart := ((h.mem_gc p).mp hpgc).1
      obtain ⟨hfold, hprefix, hmark⟩ := hu.children_fold (children start p) fun q hq =>
        ⟨hmem p hpstart q hq, (h.sound p hpgc).step hq⟩
      rw [← hchildren, ← markChildren_eq] at hfold hprefix hmark
      rw [hchildren] at hfold
      change Scan start (gcScanFrom fuel (i + 1) (markChildren gcScanIncrefChild u p)) base _ ∧ _
      generalize markChildren gcScanIncrefChild u p = w at hfold hprefix hmark ⊢
      have htake : w.gcObjList.take (i + 1) = rt.gcObjList.take i ++ [p] := by
        obtain ⟨tail, htail⟩ := hprefix
        rw [← htail, List.take_append_of_le_length (show i + 1 ≤ u.gcObjList.length from hip)]
        change rt.gcObjList.take (i + 1) = _
        rw [List.take_add_one, hp]
        rfl
      refine ih (by omega) ?_ ?_ ?_ ?_
      · exact (show i + 1 ≤ u.gcObjList.length from hip).trans hprefix.length_le
      · rw [htake]
        intro q hq
        refine hmark q ?_
        by_cases hqp : q = p
        · simp [u, hqp]
        · simp only [u, update_of_ne hqp]
          exact hvisited q (by simpa [hqp] using hq)
      · rw [htake]
        simpa using hfold
      · exact (hfold.gc_nodup.subperm fun q hq => ((hfold.mem_gc q).mp hq).1).length_le

end Scan

theorem foldl_gcScanIncrefChild2 (cs : List Nat) (rt : JSRuntime) :
    MarksOnly rt (cs.foldl gcScanIncrefChild2 rt) ∧
      (cs.foldl gcScanIncrefChild2 rt).mark = rt.mark ∧
      (cs.foldl gcScanIncrefChild2 rt).gcObjList = rt.gcObjList ∧
      (cs.foldl gcScanIncrefChild2 rt).tmpObjList = rt.tmpObjList ∧
      ∀ q, (cs.foldl gcScanIncrefChild2 rt).refCount (.object q) =
        rt.refCount (.object q) + cs.count q := by
  induction cs generalizing rt with
  | nil => exact ⟨MarksOnly.refl rt, rfl, rfl, rfl, fun _ => rfl⟩
  | cons c cs ih =>
    obtain ⟨hframe, hmark, hgc, htmp, hcount⟩ := ih (gcScanIncrefChild2 rt c)
    refine ⟨((MarksOnly.refl rt).setCount c _ rt.mark _ _).trans hframe, hmark, hgc, htmp,
      fun q => ?_⟩
    rw [List.foldl_cons, hcount]
    by_cases hqc : q = c
    · subst hqc; simp [gcScanIncrefChild2]; omega
    · simp [gcScanIncrefChild2, hqc, Ne.symm hqc]

theorem foldl_markChildren2 (ps : List Nat) (rt : JSRuntime) :
    MarksOnly rt (ps.foldl (markChildren gcScanIncrefChild2) rt) ∧
      (ps.foldl (markChildren gcScanIncrefChild2) rt).mark = rt.mark ∧
      (ps.foldl (markChildren gcScanIncrefChild2) rt).gcObjList = rt.gcObjList ∧
      (ps.foldl (markChildren gcScanIncrefChild2) rt).tmpObjList = rt.tmpObjList ∧
      ∀ q, (ps.foldl (markChildren gcScanIncrefChild2) rt).refCount (.object q) =
        rt.refCount (.object q) + (ps.flatMap (children rt)).count q := by
  induction ps generalizing rt with
  | nil => exact ⟨MarksOnly.refl rt, rfl, rfl, rfl, fun _ => rfl⟩
  | cons p ps ih =>
    obtain ⟨hframe, hmark, hgc, htmp, hcount⟩ := foldl_gcScanIncrefChild2 (children rt p) rt
    rw [← markChildren_eq] at hframe hmark hgc htmp hcount
    obtain ⟨hframe', hmark', hgc', htmp', hcount'⟩ := ih (markChildren gcScanIncrefChild2 rt p)
    refine ⟨hframe.trans hframe', hmark'.trans hmark, hgc'.trans hgc, htmp'.trans htmp,
      fun q => ?_⟩
    have hsame : children (markChildren gcScanIncrefChild2 rt p) = children rt :=
      funext fun _ => hframe.children _
    rw [List.foldl_cons, hcount', hcount, List.flatMap_cons, List.count_append, hsame]
    omega

/-! ## Both passes -/

/-- What the collector relies on: the list holds the counted objects, each once and unmarked,
and no object has more marked references than its count. -/
structure Scannable (rt : JSRuntime) : Prop where
  gc_nodup : rt.gcObjList.Nodup
  mem_gc : ∀ q, q ∈ rt.gcObjList ↔ 0 < rt.refCount (.object q)
  unmarked : ∀ q ∈ rt.gcObjList, rt.mark q = false
  marked_le : ∀ q, (rt.gcObjList.flatMap (children rt)).count q ≤ rt.refCount (.object q)

theorem Scannable.closed {rt : JSRuntime} (h : Scannable rt) {p q : Nat} (hp : p ∈ rt.gcObjList)
    (hq : q ∈ children rt p) : q ∈ rt.gcObjList := by
  have hpos : 0 < (rt.gcObjList.flatMap (children rt)).count q :=
    List.count_pos_iff.mpr (List.mem_flatMap.mpr ⟨p, hp, hq⟩)
  exact (h.mem_gc q).mpr (hpos.trans_le (h.marked_le q))

theorem Scannable.decref {rt : JSRuntime} (h : Scannable rt) :
    Decref rt (gcDecref rt) rt.gcObjList (rt.gcObjList.flatMap (children rt)) := by
  have hinit : Decref rt { rt with tmpObjList := [] } [] ([].flatMap (children rt)) :=
    ⟨(MarksOnly.refl rt).setLists _ _ _, by simp, by simpa using h.unmarked, by simp, h.gc_nodup,
      by simp, by simp⟩
  have := hinit.foldl (fun q hq => (h.mem_gc q).mpr hq) (by simpa using h.gc_nodup)
    (fun p hp => hp) (by simpa using h.marked_le)
  simpa [gcDecref] using this

/-- The passes sort the objects into the reachable and the others, and restore every count. -/
theorem Scannable.scan {rt : JSRuntime} (h : Scannable rt) :
    ∃ L T m, gcScan (gcDecref rt) = { rt with gcObjList := L, tmpObjList := T, mark := m } ∧
      L.Nodup ∧ T.Nodup ∧ (∀ q, q ∈ L ↔ q ∈ rt.gcObjList ∧ Reachable rt q) ∧
      (∀ q, q ∈ T ↔ q ∈ rt.gcObjList ∧ ¬ Reachable rt q) ∧ ∀ q ∈ L, m q = false := by
  have hdec := h.decref
  unfold gcScan
  generalize gcDecref rt = u at hdec ⊢
  -- what is left of the counts is what is held from outside
  have hbase : ∀ q, u.refCount (.object q) = externals rt q := by
    intro q
    have := hdec.count q
    unfold externals
    omega
  have hinit : Scan rt u (externals rt) ((u.gcObjList.take 0).flatMap (children rt)) := by
    refine ⟨hdec.frame, by simpa using hbase, hdec.tmp_nodup, hdec.gc_nodup, fun q => ?_,
      fun q => ?_, fun q hq => ?_⟩
    · rw [hdec.mem_tmp]; tauto
    · rw [hdec.mem_gc, Nat.pos_iff_ne_zero]; tauto
    · rw [hdec.mem_gc] at hq
      refine .root ?_
      rw [← hbase]
      exact Nat.pos_of_ne_zero fun hzero => hq.2 ⟨hq.1, hzero⟩
  have hlen : rt.gcObjList.length ≤ u.gcObjList.length + u.tmpObjList.length := by
    rw [← List.length_append]
    refine (h.gc_nodup.subperm fun q hq => ?_).length_le
    rw [List.mem_append, hdec.mem_gc, hdec.mem_tmp]
    tauto
  obtain ⟨hscan, hmark⟩ := hinit.from (fun p hp q hq => h.closed hp hq)
    (u.gcObjList.length + u.tmpObjList.length + 1) (i := 0) (by omega) (Nat.zero_le _) (by simp)
  generalize gcScanFrom (u.gcObjList.length + u.tmpObjList.length + 1) 0 u = w at hscan hmark ⊢
  obtain ⟨hframe, hmark2, hgc2, htmp2, hcount2⟩ := foldl_markChildren2 w.tmpObjList w
  have hall := hscan.frame.trans hframe
  -- the kept objects are closed under references and contain every object held from outside
  have hkept : ∀ q, q ∈ w.gcObjList ↔ Reachable rt q := by
    refine fun q => mem_iff_reachable (S := fun q => q ∈ w.gcObjList) hscan.sound (fun p hp => ?_)
      (fun p q hp hq => ?_) q
    · have hpos : 0 < rt.refCount (.object p) := by unfold externals at hp; omega
      rw [hscan.mem_gc, hscan.count]
      exact ⟨(h.mem_gc p).mpr hpos, by omega⟩
    · have hpstart := ((hscan.mem_gc p).mp hp).1
      have hpos : 0 < (w.gcObjList.flatMap (children rt)).count q :=
        List.count_pos_iff.mpr (List.mem_flatMap.mpr ⟨p, hp, hq⟩)
      rw [hscan.mem_gc, hscan.count]
      exact ⟨h.closed hpstart hq, by omega⟩
  have hsplit : (w.gcObjList ++ w.tmpObjList).Perm rt.gcObjList := by
    refine (List.perm_ext_iff_of_nodup ?_ h.gc_nodup).mpr fun q => ?_
    · refine List.nodup_append.mpr ⟨hscan.gc_nodup, hscan.tmp_nodup, ?_⟩
      rintro a ha b hb rfl
      rw [hscan.mem_gc] at ha
      rw [hscan.mem_tmp] at hb
      omega
    · rw [List.mem_append, hscan.mem_gc, hscan.mem_tmp, Nat.pos_iff_ne_zero]
      tauto
  have hcount : ∀ q, (w.tmpObjList.foldl (markChildren gcScanIncrefChild2) w).refCount
      (.object q) = rt.refCount (.object q) := by
    intro q
    have hsame : children w = children rt := funext fun p => hscan.frame.children p
    have hsum := (hsplit.flatMap_right (children rt)).count_eq q
    have hle := h.marked_le q
    rw [List.flatMap_append, List.count_append] at hsum
    rw [hcount2, hscan.count, hsame]
    unfold externals
    omega
  refine ⟨w.gcObjList, w.tmpObjList, w.mark, ?_, hscan.gc_nodup, hscan.tmp_nodup, fun q => ?_,
    fun q => ?_, hmark⟩
  · refine JSRuntime.ext hall.next hall.objects hall.strings hall.timers hall.sockets
      (funext fun v => ?_) hmark2 hgc2 htmp2 hall.zero hall.jobList hall.running hall.stack
      hall.events hall.log hall.currentException hall.panicked
    cases hv : v.objectAddr with
    | none => exact hall.refCount v hv
    | some q =>
      cases v <;> simp only [JSValue.objectAddr, reduceCtorEq, Option.some.injEq] at hv
      exact hcount _
  · rw [← hkept]
    exact ⟨fun hq => ⟨((hscan.mem_gc q).mp hq).1, hq⟩, fun hq => hq.2⟩
  · rw [hscan.mem_tmp, ← hkept, hscan.mem_gc]
    constructor
    · rintro ⟨hq, hzero⟩; exact ⟨hq, by omega⟩
    · rintro ⟨hq, hnot⟩
      exact ⟨hq, Nat.eq_zero_of_not_pos fun hpos => hnot ⟨hq, hpos⟩⟩

end IoQuickJS

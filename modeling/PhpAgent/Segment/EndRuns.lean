import PhpAgent.Segment.EndSegment

/-! The segment limit over whole runs: the heap, the tree and the counter stay in step, and the
segments that survive are the best of all that were ended. -/
namespace PhpAgent

/-- A segment that has been ended: its address, its data as it was ended, and whether it is still
there. The address of a discarded segment may be used again. -/
structure EndedSegment where
  segment : SegPtr
  data : Segment
  retained : Bool

namespace Txn
open PointerTree MinmaxHeap
variable {t t' : Txn} {p root : SegPtr} {m : ℕ} {js : List EndedSegment}

/-- A segment that is no longer live was discarded. -/
def checkRetained (t : Txn) (e : EndedSegment) : EndedSegment :=
  { e with retained := e.retained && (t.segs e.segment).isSome }

/-- The addresses of the ended segments that are still there. -/
def retained (js : List EndedSegment) : List SegPtr :=
  (js.filter EndedSegment.retained).map EndedSegment.segment

inductive EndOp
  | start (now : ℕ) (parent : Option SegPtr) (asyncContext : Option Bytes)
  | finish (now : ℕ) (segment : SegPtr)

namespace EndOp

/-- The state after the call, and the segments ended so far. -/
def step (t : Txn) (js : List EndedSegment) : EndOp → Option (Txn × List EndedSegment)
  | start now parent asyncContext => (t.start now parent asyncContext).map fun r => (r.2,js)
  | finish now segment => do
    let s ← t.segs segment
    let t' ← t.endSegment now segment
    let ended : EndedSegment := ⟨segment,t.stopped now s,true⟩
    return (t',(js ++ [ended]).map t'.checkRetained)

/-- The segments handed to the call are live, and no segment is ended twice. -/
def Live (t : Txn) (js : List EndedSegment) : EndOp → Prop
  | start _ parent _ => ∀ q, parent = some q → ∃ x, t.segs q = some x
  | finish _ segment => (∃ s, t.segs segment = some s) ∧ segment ∉ retained js

/-- A started segment gets a parent: the one given, or the current segment. -/
def Parented (t : Txn) : EndOp → Prop
  | start _ parent asyncContext => t.effectiveParent parent asyncContext ≠ none
  | finish _ _ => True

/-- A run whose calls all meet the condition `ok`. -/
inductive Run (ok : Txn → EndOp → Prop) :
    Txn → List EndedSegment → List EndOp → Txn → List EndedSegment → Prop
  | nil (t : Txn) (js : List EndedSegment) : Run ok t js [] t js
  | cons {t t₁ t' : Txn} {js js₁ js' : List EndedSegment} {op : EndOp} {ops : List EndOp} :
      op.Live t js → ok t op → op.step t js = some (t₁,js₁) → Run ok t₁ js₁ ops t' js' →
      Run ok t js (op :: ops) t' js'

end EndOp

/-- The ended segments that are still in the tree. -/
def endedInTree (root : SegPtr) (js : List EndedSegment) (t : Txn) : Set SegPtr :=
  {p | p ∈ retained js ∧ t.InTree root p}

/-- What the segment limit `m` promises after a run. -/
structure KeepsEnded (m : ℕ) (root : SegPtr) (js : List EndedSegment) (t : Txn) : Prop where
  count : t.segmentCount = (endedInTree root js t).ncard
  bounded : t.segmentCount ≤ m
  size : t.segmentCount = min js.length m
  same : ∀ e ∈ js, e.retained = true → ∃ s, t.segs e.segment = some s ∧ s.fixed = e.data.fixed
  best : ∀ x ∈ js, ∀ y ∈ js, x.retained = true → y.retained = false →
    spanPriorityComparator y.data x.data ≤ 0
  root : t.segmentRoot = some root ∧ ∃ s, t.segs root = some s

/-! ### The invariant -/

/-- The heap holds the ended segments that are still there, the root is the only segment without a
parent, and it has the highest priority. -/
structure Ending (m : ℕ) (root : SegPtr) (js : List EndedSegment) (t : Txn) : Prop
    extends Inv t where
  recording : t.recording = true
  isRoot : t.segmentRoot = some root
  top : ∃ s, t.segs root = some s ∧ s.parent = none ∧ s.priority = priorityRoot
  below : ∀ p s, p ≠ root → t.segs p = some s → s.parent ≠ none ∧ s.priority = 0
  heap : ∃ heap, t.segmentHeap = some heap ∧ Valid (wrapped spanPriorityComparator t) heap ∧
    heap.bound = m ∧ heap.stored = retained js
  nodup : (retained js).Nodup
  same : ∀ e ∈ js, e.retained = true → ∃ s, t.segs e.segment = some s ∧ s.fixed = e.data.fixed
  count : t.segmentCount = (retained js).length
  full : (∃ e ∈ js, e.retained = false) → (retained js).length = m
  best : ∀ x ∈ js, ∀ y ∈ js, x.retained = true → y.retained = false →
    spanKey y.data ≤ spanKey x.data

lemma mem_retained : p ∈ retained js ↔ ∃ e ∈ js, e.retained = true ∧ e.segment = p := by
  simp [retained,and_assoc]

lemma retained_check (t : Txn) (js : List EndedSegment) :
    retained (js.map t.checkRetained) = (retained js).filter fun q => (t.segs q).isSome := by
  unfold retained
  induction js with
  | nil => rfl
  | cons e js ih =>
    simp only [List.map_cons,List.filter_cons,checkRetained]
    cases hr : e.retained with
    | false => simpa using ih
    | true =>
      cases hs : t.segs e.segment with
      | none => simpa [hs] using ih
      | some s => simpa [hs] using ih

lemma begin_ending {self absStartTime now : ℕ} {options : TxnOptions} {dt : Option DistributedTrace}
    {spanQueue : Bool} {guids : ℕ → Bytes} (hm : 1 < options.maxSegments)
    (hbegin : begin self absStartTime now options dt spanQueue guids = some t) :
    Ending options.maxSegments 1 [] t := by
  obtain ⟨t',h',hinv,hsegs,hroot,hrec,-,hcount,-,hheap⟩ :=
    begin_spec self absStartTime now options dt spanQueue guids
  rw [hbegin,Option.some_inj] at h'
  subst h'
  obtain ⟨heap,hcreate,hv,hb,hu⟩ :=
    create_spec (wrapped spanPriorityComparator t) options.maxSegments (by omega)
  have hone : t.segs 1 = some { Segment.zero with txn := self, priority := priorityRoot } := by
    rw [hsegs]
    exact Function.update_self ..
  refine ⟨hinv,hrec,hroot,⟨_,hone,rfl,rfl⟩,?_,⟨heap,?_,hv,hb,?_⟩,List.nodup_nil,?_,hcount,?_,?_⟩
  · intro p s hp hs
    rw [hsegs,Function.update_of_ne hp] at hs
    cases hs
  · rw [hheap,if_pos hm,hcreate]
  · simp [stored,hu,retained]
  · intro e he
    cases he
  · rintro ⟨e,he,-⟩
    cases he
  · intro x hx
    cases hx

/-- A start leaves the ended segments alone. -/
theorem Ending.start (h : Ending m root js t) {now : ℕ} {parent : Option SegPtr} {asyncContext : Option Bytes}
    (hpar : ∀ q, parent = some q → ∃ x, t.segs q = some x)
    (hsome : t.effectiveParent parent asyncContext ≠ none) :
    ∃ t', (EndOp.start now parent asyncContext).step t js = some (t',js) ∧ Ending m root js t' := by
  obtain ⟨p,t',hstart,hst⟩ := start_spec h.toStore h.recording now parent asyncContext hpar
  refine ⟨t',by simp [EndOp.step,hstart],?_⟩
  have hlive : ∀ q, t.effectiveParent parent asyncContext = some q → ∃ x, t.segs q = some x :=
    fun q hq => h.effectiveParent_live hpar hq
  have hne : ∀ {q x}, t.segs q = some x → q ≠ p := by
    rintro q x hq rfl
    rw [hst.fresh] at hq
    cases hq
  have hkept : ∀ {q y}, t.segs q = some y → ∃ y', t'.segs q = some y' ∧ y.Kept y' := by
    intro q y hy
    by_cases hq : t.effectiveParent parent asyncContext = some q
    · obtain ⟨y',hy',hsame,-⟩ := hst.below q y hq hy
      exact ⟨y',hy',by rw [hsame]; rfl,by rw [hsame]⟩
    · exact ⟨y,(hst.other q (hne hy) hq).trans hy,rfl,rfl⟩
  obtain ⟨ix,hborn⟩ := hst.born
  have hrest := hst.rest
  refine ⟨hst.inv h.toInv hpar,?_,?_,?_,?_,?_,h.nodup,?_,?_,h.full,h.best⟩
  · exact (congrArg Txn.recording hrest).trans h.recording
  · exact (congrArg Txn.segmentRoot hrest).trans h.isRoot
  · obtain ⟨s,hs,hnone,hprio⟩ := h.top
    obtain ⟨s',hs',hfix,hp'⟩ := hkept hs
    exact ⟨s',hs',hp'.trans hnone,
      (Segment.eq_of_fixed Segment.priority (fun _ => rfl) hfix).trans hprio⟩
  · intro q s' hq hs'
    by_cases hqp : q = p
    · subst hqp
      rw [hborn,Option.some_inj] at hs'
      rw [← hs']
      exact ⟨hsome,rfl⟩
    · cases hs : t.segs q with
      | none =>
        have hother := hst.other q hqp (fun heff => by
          obtain ⟨x,hx⟩ := hlive q heff
          rw [hs] at hx
          cases hx)
        rw [hother,hs] at hs'
        cases hs'
      | some s =>
        obtain ⟨s'',hs'',hfix,hp'⟩ := hkept hs
        rw [hs',Option.some_inj] at hs''
        subst hs''
        obtain ⟨hparent,hprio⟩ := h.below q s hq hs
        exact ⟨hp' ▸ hparent,(Segment.eq_of_fixed Segment.priority (fun _ => rfl) hfix).trans hprio⟩
  · obtain ⟨heap,hheap,hv,hb,hstored⟩ := h.heap
    refine ⟨heap,(congrArg Txn.segmentHeap hrest).trans hheap,valid_of_fixed hv ?_,hb,hstored⟩
    intro x hx
    rw [hstored,Multiset.mem_coe,mem_retained] at hx
    obtain ⟨e,he,hret,rfl⟩ := hx
    obtain ⟨s,hs,-⟩ := h.same e he hret
    obtain ⟨s',hs',hfix,-⟩ := hkept hs
    exact ⟨s,s',hs,hs',hfix⟩
  · intro e he hret
    obtain ⟨s,hs,hfix⟩ := h.same e he hret
    obtain ⟨s',hs',hfix',-⟩ := hkept hs
    exact ⟨s',hs',hfix'.trans hfix⟩
  · exact (congrArg Txn.segmentCount hrest).trans h.count

/-! ### Ending a segment -/

section Finish
variable {js : List EndedSegment} {now : ℕ} {s : Segment}

/-- The segments ended so far, with the one that is being ended. -/
def withEnded (t : Txn) (now : ℕ) (p : SegPtr) (s : Segment) (js : List EndedSegment) :
    List EndedSegment :=
  js ++ [⟨p,t.stopped now s,true⟩]

lemma retained_withEnded : retained (t.withEnded now p s js) = retained js ++ [p] := by
  simp [withEnded,retained]

variable (h : Ending m root js t) {t₁ : Txn} (hst : Stopped t now p s t₁)
include h hst

omit h in
lemma Stopped.place (hs : t.segs p = some s) {q : SegPtr} {y : Segment} (hy : t.segs q = some y) :
    ∃ y', t₁.segs q = some y' ∧ y'.parent = y.parent ∧ y'.priority = y.priority := by
  by_cases hq : q = p
  · subst hq
    rw [hs,Option.some_inj] at hy
    subst hy
    obtain ⟨s',hs',hfix,hpar⟩ := hst.ended
    exact ⟨s',hs',hpar,Segment.eq_of_fixed (s := t.stopped now s) Segment.priority (fun _ => rfl) hfix⟩
  · obtain ⟨y',hy',hfix,hpar⟩ := hst.kept q y hq hy
    exact ⟨y',hy',hpar,Segment.eq_of_fixed Segment.priority (fun _ => rfl) hfix⟩

lemma Ending.stopped_same (hp : p ∉ retained js) : ∀ e ∈ t.withEnded now p s js,
    e.retained = true → ∃ y, t₁.segs e.segment = some y ∧ y.fixed = e.data.fixed := by
  intro e he hret
  rcases List.mem_append.mp he with he | he
  · obtain ⟨y,hy,hfix⟩ := h.same e he hret
    have hq : e.segment ≠ p := fun heq => hp (mem_retained.mpr ⟨e,he,hret,heq⟩)
    obtain ⟨y',hy',hfix',-⟩ := hst.kept e.segment y hq hy
    exact ⟨y',hy',hfix'.trans hfix⟩
  · rw [List.mem_singleton] at he
    subst he
    obtain ⟨s',hs',hfix,-⟩ := hst.ended
    exact ⟨s',hs',hfix⟩

lemma Ending.stopped_key (hp : p ∉ retained js) : ∀ e ∈ t.withEnded now p s js,
    e.retained = true → t₁.spanKeyAt e.segment = spanKey e.data := by
  intro e he hret
  obtain ⟨y,hy,hfix⟩ := h.stopped_same hst hp e he hret
  rw [spanKeyAt_eq hy,spanKey_of_fixed hfix]

lemma Ending.stopped_below (hs : t.segs p = some s) {q : SegPtr} {y : Segment} (hq : q ≠ root)
    (hy : t₁.segs q = some y) : y.parent ≠ none ∧ y.priority = 0 := by
  cases hx : t.segs q with
  | none =>
    rw [hst.dead q hx] at hy
    cases hy
  | some x =>
    obtain ⟨x',hx',hpar,hprio⟩ := hst.place hs hx
    rw [hy,Option.some_inj] at hx'
    subst hx'
    obtain ⟨hparent,hzero⟩ := h.below q x hq hx
    exact ⟨hpar ▸ hparent,hprio.trans hzero⟩

lemma Ending.stopped_top (hs : t.segs p = some s) : ∃ y, t₁.segs root = some y ∧
    y.parent = none ∧ y.priority = priorityRoot := by
  obtain ⟨x,hx,hnone,hprio⟩ := h.top
  obtain ⟨x',hx',hpar,hprio'⟩ := hst.place hs hx
  exact ⟨x',hx',hpar.trans hnone,hprio'.trans hprio⟩

/-- A segment without a parent is the root, and the root is above every other segment. -/
theorem Ending.lt_root (hs : t.segs p = some s) {x y : SegPtr} {u v : Segment}
    (hu : t₁.segs x = some u) (hnone : u.parent = none) (hv : t₁.segs y = some v) (hyx : y ≠ x) :
    t₁.spanKeyAt y < t₁.spanKeyAt x := by
  have hx : x = root := by
    by_contra hne
    exact (h.stopped_below hst hs hne hu).1 hnone
  subst hx
  obtain ⟨u',hu',-,hprio⟩ := h.stopped_top hst hs
  rw [hu,Option.some_inj] at hu'
  subst hu'
  have hzero := (h.stopped_below hst hs hyx hv).2
  have hpos : 0 < priorityRoot := by decide
  rw [spanKeyAt_eq hu,spanKeyAt_eq hv,spanKey,spanKey,Prod.Lex.toLex_lt_toLex,hprio,hzero]
  exact .inl hpos

/-- The heap had room for the segment. -/
theorem Ending.enter (hs : t.segs p = some s) (hp : p ∉ retained js) {heap' : MinmaxHeap SegPtr}
    (hfree : (retained js).length < m) (hv : Valid (wrapped spanPriorityComparator t₁) heap')
    (hb : heap'.bound = m) (hstored : heap'.stored = p ::ₘ (retained js : Multiset SegPtr)) :
    Ending m root ((t.withEnded now p s js).map t₁.checkRetained)
      { t₁ with segmentHeap := some heap' } := by
  have hsame := h.stopped_same hst hp
  have hall : ∀ e ∈ js, e.retained = true := by
    intro e he
    by_contra hne
    have := h.full ⟨e,he,by simpa using hne⟩
    omega
  have hwith : ∀ e ∈ t.withEnded now p s js, e.retained = true := by
    intro e he
    rcases List.mem_append.mp he with he | he
    · exact hall e he
    · rw [List.mem_singleton] at he
      rw [he]
  -- nothing was discarded
  have hcheck : (t.withEnded now p s js).map t₁.checkRetained = t.withEnded now p s js := by
    conv_rhs => rw [← List.map_id (t.withEnded now p s js)]
    apply List.map_congr_left
    intro e he
    obtain ⟨y,hy,-⟩ := hsame e he (hwith e he)
    simp [checkRetained,hy]
  have hrest := hst.rest
  have htop := h.stopped_top hst hs
  have hbelow : ∀ q y, q ≠ root → t₁.segs q = some y → y.parent ≠ none ∧ y.priority = 0 :=
    fun q y hq hy => h.stopped_below hst hs hq hy
  rw [hcheck]
  refine ⟨hst.inv.congr (fun _ => rfl) rfl rfl (fun _ => rfl) rfl rfl,?_,?_,htop,hbelow,
    ⟨heap',rfl,hv,hb,?_⟩,?_,hsame,?_,?_,?_⟩
  · exact (congrArg Txn.recording hrest).trans h.recording
  · exact (congrArg Txn.segmentRoot hrest).trans h.isRoot
  · rw [hstored,retained_withEnded,← Multiset.coe_add,Multiset.coe_singleton,add_comm,
      Multiset.singleton_add]
  · rw [retained_withEnded]
    exact List.Nodup.append h.nodup (List.nodup_singleton p) (List.disjoint_singleton.mpr hp)
  · rw [retained_withEnded,List.length_append,List.length_singleton,← h.count]
    exact congrArg Txn.segmentCount hrest
  · rintro ⟨e,he,hlost⟩
    rw [hwith e he] at hlost
    cases hlost
  · intro x _ y hy _ hlost
    rw [hwith y hy] at hlost
    cases hlost

section Evict
variable {x q : SegPtr} {u : Segment} {t₃ : Txn} (hd : Discarded t₁ x q u t₃)
include hd

/-- Of the ended segments only `x` is not live any more. -/
lemma Ending.live_iff (hp : p ∉ retained js) : ∀ e ∈ t.withEnded now p s js, e.retained = true →
    ((t₃.segs e.segment).isSome = true ↔ e.segment ≠ x) := by
  intro e he hret
  obtain ⟨y,hy,-⟩ := h.stopped_same hst hp e he hret
  by_cases hex : e.segment = x
  · simp [hex,hd.gone]
  · obtain ⟨y',hy',-⟩ := hd.kept e.segment y hex hy
    simp [hy',hex]

lemma Ending.retained_evicted (hp : p ∉ retained js) :
    retained ((t.withEnded now p s js).map t₃.checkRetained) =
      (retained (t.withEnded now p s js)).erase x := by
  have hnd : (retained (t.withEnded now p s js)).Nodup := by
    rw [retained_withEnded]
    exact List.Nodup.append h.nodup (List.nodup_singleton p) (List.disjoint_singleton.mpr hp)
  rw [retained_check,hnd.erase_eq_filter]
  apply List.filter_congr
  intro y hy
  obtain ⟨e,he,hret,rfl⟩ := mem_retained.mp hy
  rw [Bool.eq_iff_iff,h.live_iff hst hd hp e he hret,bne_iff_ne]

lemma Ending.evict_top (hs : t.segs p = some s) (hx : x ≠ root) :
    ∃ y, t₃.segs root = some y ∧ y.parent = none ∧ y.priority = priorityRoot := by
  obtain ⟨y,hy,hnone,hprio⟩ := h.stopped_top hst hs
  obtain ⟨y',hy',hfix,hpar,-⟩ := hd.kept root y hx.symm hy
  refine ⟨y',hy',?_,(Segment.eq_of_fixed Segment.priority (fun _ => rfl) hfix).trans hprio⟩
  rw [hpar,hnone,if_neg (by simp)]

lemma Ending.evict_below (hs : t.segs p = some s) {a : SegPtr} {y' : Segment} (ha : a ≠ root)
    (hy' : t₃.segs a = some y') : y'.parent ≠ none ∧ y'.priority = 0 := by
  obtain ⟨hax,y,hy,hfix⟩ := hd.back hy'
  obtain ⟨z,hz,-,hpar,-⟩ := hd.kept a y hax hy
  have hzy : z = y' := Option.some_inj.mp (hz.symm.trans hy')
  subst hzy
  obtain ⟨hparent,hprio⟩ := h.stopped_below hst hs ha hy
  refine ⟨?_,(Segment.eq_of_fixed Segment.priority (fun _ => rfl) hfix).trans hprio⟩
  rw [hpar]
  split_ifs
  · simp
  · exact hparent

lemma Ending.evict_same (hp : p ∉ retained js) :
    ∀ e ∈ (t.withEnded now p s js).map t₃.checkRetained, e.retained = true →
      ∃ y, t₃.segs e.segment = some y ∧ y.fixed = e.data.fixed := by
  intro e' he' hret
  obtain ⟨e,he,rfl⟩ := List.mem_map.mp he'
  obtain ⟨hre,hlive⟩ := Bool.and_eq_true_iff.mp hret
  obtain ⟨y,hy,hfix⟩ := h.stopped_same hst hp e he hre
  obtain ⟨y',hy',hfix',-⟩ := hd.kept e.segment y ((h.live_iff hst hd hp e he hre).mp hlive) hy
  exact ⟨y',hy',hfix'.trans hfix⟩

/-- What is retained is as good as all that is lost, when `x` was the least. -/
lemma Ending.evict_best (hp : p ∉ retained js) (hx : x ∈ retained (t.withEnded now p s js))
    (hmin : ∀ e ∈ t.withEnded now p s js, e.retained = true → t₁.spanKeyAt x ≤ spanKey e.data) :
    ∀ a ∈ (t.withEnded now p s js).map t₃.checkRetained,
      ∀ b ∈ (t.withEnded now p s js).map t₃.checkRetained, a.retained = true → b.retained = false →
        spanKey b.data ≤ spanKey a.data := by
  have hlive := h.live_iff hst hd hp
  have hkey := h.stopped_key hst hp
  intro a' ha' b' hb' hra hlb
  obtain ⟨a,ha,rfl⟩ := List.mem_map.mp ha'
  obtain ⟨b,hb,rfl⟩ := List.mem_map.mp hb'
  have hra' : a.retained = true := (Bool.and_eq_true_iff.mp hra).1
  have hax := (hlive a ha hra').mp (Bool.and_eq_true_iff.mp hra).2
  simp only [checkRetained] at hlb ⊢
  by_cases hrb : b.retained = true
  · -- `b` is the segment that went
    have hbx : b.segment = x := by
      by_contra hne
      rw [hrb,(hlive b hb hrb).mpr hne] at hlb
      cases hlb
    rw [← hkey b hb hrb,hbx]
    exact hmin a ha hra'
  · -- `b` went earlier, when everything retained was already as good
    have hbjs : b ∈ js := by
      rcases List.mem_append.mp hb with hb | hb
      · exact hb
      · rw [List.mem_singleton] at hb
        rw [hb] at hrb
        exact absurd rfl hrb
    rw [Bool.not_eq_true] at hrb
    rcases List.mem_append.mp ha with haj | haj
    · exact h.best a haj b hbjs hra' hrb
    · rw [List.mem_singleton] at haj
      have hap : a.segment = p := by rw [haj]
      have hxjs : x ∈ retained js := by
        rw [retained_withEnded,List.mem_append,List.mem_singleton] at hx
        exact hx.resolve_right fun heq => hax (hap.trans heq.symm)
      obtain ⟨e,he,hre,hex⟩ := mem_retained.mp hxjs
      have hewith : e ∈ t.withEnded now p s js := List.mem_append_left _ he
      calc spanKey b.data ≤ spanKey e.data := h.best e he b hbjs hre hrb
        _ = t₁.spanKeyAt x := by rw [← hkey e hewith hre,hex]
        _ ≤ spanKey a.data := hmin a ha hra'

end Evict

/-- The heap was full, and `x` had to go. -/
theorem Ending.evict (hs : t.segs p = some s) (hp : p ∉ retained js) {x : SegPtr}
    {heap heap' : MinmaxHeap SegPtr} {t₂ : Txn} (hfull : (retained js).length = m)
    (hheap : heap.stored = retained js) (hev : Evicted t₁ p heap x heap' t₂)
    (hv : Valid (wrapped spanPriorityComparator t₂) heap') (hb : heap'.bound = m) :
    Ending m root ((t.withEnded now p s js).map t₂.checkRetained)
      { t₂ with segmentHeap := some heap' } := by
  obtain ⟨⟨u,q,t₃,hu,hpar,hd,rfl⟩,hstored,hleast⟩ := hev
  have hcons : (retained (t.withEnded now p s js) : Multiset SegPtr) = p ::ₘ heap.stored := by
    rw [hheap,retained_withEnded,← Multiset.coe_add,Multiset.coe_singleton,add_comm,
      Multiset.singleton_add]
  have hx : x ∈ retained (t.withEnded now p s js) := by
    rw [← Multiset.mem_coe,hcons,← hstored]
    exact Multiset.mem_cons_self ..
  have hmin : ∀ e ∈ t.withEnded now p s js, e.retained = true →
      t₁.spanKeyAt x ≤ spanKey e.data := by
    intro e he hret
    rw [← h.stopped_key hst hp e he hret]
    apply hleast
    rw [← hcons,Multiset.mem_coe,mem_retained]
    exact ⟨e,he,hret,rfl⟩
  have hret := h.retained_evicted hst hd hp
  have hlen : (retained ((t.withEnded now p s js).map t₃.checkRetained)).length = m := by
    rw [hret,List.length_erase_of_mem hx,retained_withEnded,List.length_append,hfull]
    rfl
  have hrec : t₃.recording = t₁.recording := by rw [hd.rest]
  have hroot : t₃.segmentRoot = t₁.segmentRoot := by rw [hd.rest]
  have hcount : t₃.segmentCount = t₁.segmentCount := by rw [hd.rest]
  have hxroot : x ≠ root := by
    rintro rfl
    obtain ⟨y,hy,hnone,-⟩ := h.stopped_top hst hs
    rw [hu,Option.some_inj] at hy
    rw [hy,hnone] at hpar
    cases hpar
  have htop := h.evict_top hst hd hs hxroot
  have hbelow : ∀ {a y}, a ≠ root → t₃.segs a = some y → y.parent ≠ none ∧ y.priority = 0 :=
    h.evict_below hst hd hs
  have hsame := h.evict_same hst hd hp
  have hbest := h.evict_best hst hd hp hx hmin
  refine ⟨(hd.inv hst.inv hu hpar).congr (fun _ => rfl) rfl rfl (fun _ => rfl) rfl rfl,?_,?_,htop,
    fun a y ha hy => hbelow ha hy,⟨heap',rfl,hv,hb,?_⟩,?_,hsame,?_,fun _ => hlen,hbest⟩
  · exact hrec.trans ((congrArg Txn.recording hst.rest).trans h.recording)
  · exact hroot.trans ((congrArg Txn.segmentRoot hst.rest).trans h.isRoot)
  · have herase : (retained ((t.withEnded now p s js).map t₃.checkRetained) : Multiset SegPtr) =
        heap'.stored := by
      rw [hret,← Multiset.coe_erase,hcons,← hstored,Multiset.erase_cons_head]
    exact herase.symm
  · have hnd : (retained (t.withEnded now p s js)).Nodup := by
      rw [retained_withEnded]
      exact List.Nodup.append h.nodup (List.nodup_singleton p) (List.disjoint_singleton.mpr hp)
    exact hret ▸ hnd.erase x
  · have hcount₁ : t₁.segmentCount = (retained js).length+1 := by
      rw [← h.count]
      exact congrArg Txn.segmentCount hst.rest
    have hlen' : t₃.segmentCount-1 = m := by omega
    exact hlen'.trans hlen.symm

end Finish

/-- Ending a segment returns and keeps the invariant. -/
theorem Ending.finish (hm : 2 ≤ m) (h : Ending m root js t) {now : ℕ}
    {s : Segment} (hs : t.segs p = some s) (hp : p ∉ retained js) :
    ∃ t' js', (EndOp.finish now p).step t js = some (t',js') ∧ Ending m root js' t' := by
  obtain ⟨t₁,hst,hend⟩ := endSegment_stops h.toInv hs now
  obtain ⟨heap,hheap,hv,hb,hstored⟩ := h.heap
  have hheap₁ : t₁.segmentHeap = some heap := (congrArg Txn.segmentHeap hst.rest).trans hheap
  rw [hheap₁] at hend
  have hlive : ∀ x ∈ p ::ₘ heap.stored, ∃ y, t₁.segs x = some y := by
    intro x hx
    rcases Multiset.mem_cons.mp hx with rfl | hx
    · obtain ⟨y,hy,-⟩ := hst.ended
      exact ⟨y,hy⟩
    · rw [hstored,Multiset.mem_coe,mem_retained] at hx
      obtain ⟨e,he,hret,rfl⟩ := hx
      obtain ⟨y,hy,-⟩ := h.stopped_same hst hp e (List.mem_append_left _ he) hret
      exact ⟨y,hy⟩
  have hv₁ : Valid (wrapped spanPriorityComparator t₁) heap := by
    apply valid_of_fixed hv
    intro x hx
    rw [hstored,Multiset.mem_coe,mem_retained] at hx
    obtain ⟨e,he,hret,rfl⟩ := hx
    obtain ⟨y,hy,hfix⟩ := h.same e he hret
    obtain ⟨y',hy',hfix'⟩ := h.stopped_same hst hp e (List.mem_append_left _ he) hret
    exact ⟨y,y',hy,hy',hfix'.trans hfix.symm⟩
  have hnd : (p ::ₘ heap.stored).Nodup := by
    rw [hstored,Multiset.nodup_cons,Multiset.mem_coe,Multiset.coe_nodup]
    exact ⟨hp,h.nodup⟩
  have hused : heap.used = (retained js).length := by
    rw [← card_stored,hstored,Multiset.coe_card]
  obtain ⟨heap',t₂,hins,hv',hb',hcase⟩ := insert_spec hm hst.inv hv₁ hb hlive hnd
    (fun x u hu hnone y hy hyx => by
      obtain ⟨v,hv⟩ := hlive y hy
      exact h.lt_root hst hs hu hnone hv hyx)
  have hstep : (EndOp.finish now p).step t js = some ({ t₂ with segmentHeap := some heap' },
      (t.withEnded now p s js).map t₂.checkRetained) := by
    simp only [EndOp.step,hs,hend,hins,Option.map_some,Option.bind_eq_bind,Option.bind_some]
    rfl
  rcases hcase with ⟨hfree,rfl,hst'⟩ | ⟨hfull,x,hev⟩
  · exact ⟨_,_,hstep,h.enter hst hs hp (hused ▸ hfree) hv' hb' (hstored ▸ hst')⟩
  · exact ⟨_,_,hstep,h.evict hst hs hp (hused ▸ hfull) hstored hev hv' hb'⟩

/-! ### Runs -/

lemma EndOp.step_spec (hm : 2 ≤ m) (h : Ending m root js t) {op : EndOp}
    (hlive : op.Live t js) (hok : op.Parented t) :
    ∃ t' js', op.step t js = some (t',js') ∧ Ending m root js' t' := by
  cases op with
  | start now parent asyncContext =>
    obtain ⟨t',hstep,h'⟩ := h.start hlive hok
    exact ⟨t',js,hstep,h'⟩
  | finish now segment =>
    obtain ⟨⟨s,hs⟩,hp⟩ := hlive
    exact h.finish hm hs hp

lemma EndOp.Run.ending {js js' : List EndedSegment} {ops : List EndOp} (hm : 2 ≤ m)
    (hrun : Run (fun t op => op.Parented t) t js ops t' js') (h : Ending m root js t) :
    Ending m root js' t' := by
  induction hrun with
  | nil t js => exact h
  | cons hlive hok hstep _ ih =>
    obtain ⟨t₁,js₁,hstep',h₁⟩ := step_spec hm h hlive hok
    rw [hstep,Option.some_inj] at hstep'
    cases hstep'
    exact ih h₁

/-- Every live segment hangs below the root. -/
theorem Ending.inTree (h : Ending m root js t) {o : Option SegPtr}
    {l : List SegPtr} (hl : Up t.view o l) : ∀ q, o = some q → t.InTree root q := by
  induction hl with
  | top =>
    intro q hq
    cases hq
  | @step a n l hn _ ih =>
    rintro q ⟨⟩
    obtain ⟨s,hs,rfl⟩ := view_eq_some.mp hn
    by_cases ha : a = root
    · subst ha
      exact .refl
    · cases hpar : s.parent with
      | none => exact absurd hpar (h.below a s ha hs).1
      | some b => exact (ih b hpar).tail ⟨s,hs,hpar⟩

lemma Ending.endedInTree_eq (h : Ending m root js t) : endedInTree root js t = {p | p ∈ retained js} := by
  ext p
  constructor
  · exact fun hp => hp.1
  · intro hp
    refine ⟨hp,?_⟩
    obtain ⟨e,he,hret,rfl⟩ := mem_retained.mp hp
    obtain ⟨s,hs,-⟩ := h.same e he hret
    obtain ⟨l,hl⟩ := h.rooted _ _ (view_of_segs hs)
    exact h.inTree hl _ rfl

lemma Ending.keepsEnded (hm : 2 ≤ m) (h : Ending m root js t) : KeepsEnded m root js t := by
  obtain ⟨heap,-,hv,hb,hstored⟩ := h.heap
  have hused : heap.used = (retained js).length := by
    rw [← card_stored,hstored,Multiset.coe_card]
  have hle : (retained js).length ≤ m := by
    have := (hv.bounded (by omega)).1
    omega
  have hsize : (retained js).length = min js.length m := by
    by_cases hlost : ∃ e ∈ js, e.retained = false
    · have hlen : (retained js).length ≤ js.length := by
        rw [retained,List.length_map]
        exact List.length_filter_le ..
      have := h.full hlost
      omega
    · have hall : js.filter EndedSegment.retained = js := by
        rw [List.filter_eq_self]
        intro e he
        by_contra hne
        exact hlost ⟨e,he,by simpa using hne⟩
      rw [retained,List.length_map,hall] at hle ⊢
      omega
  refine ⟨?_,h.count ▸ hle,h.count.trans hsize,h.same,?_,h.isRoot,?_⟩
  · have hset : {p | p ∈ retained js} = ((retained js).toFinset : Set SegPtr) := by
      ext p
      simp
    rw [h.endedInTree_eq,hset,Set.ncard_coe_finset,List.toFinset_card_of_nodup h.nodup]
    exact h.count
  · intro x hx y hy hrx hry
    exact (spanPriorityComparator_le _ _).mpr (h.best x hx y hy hrx hry)
  · obtain ⟨s,hs,-⟩ := h.top
    exact ⟨s,hs⟩

/-- With a limit of `m > 1` segments, after any run of starts and ends in which every started
segment gets a parent and no segment is ended twice: the count is the number of ended segments
still in the tree, at most `m`; these are the `m` best of all that were ended, up to ties; the root
is still there; and every further call returns. -/
theorem end_run_keeps_best {self absStartTime now : ℕ} {options : TxnOptions}
    {dt : Option DistributedTrace} {spanQueue : Bool} {guids : ℕ → Bytes} {t₀ : Txn}
    (hm : 1 < options.maxSegments)
    (hbegin : begin self absStartTime now options dt spanQueue guids = some t₀)
    {ops : List EndOp} {js : List EndedSegment}
    (hrun : EndOp.Run (fun t op => op.Parented t) t₀ [] ops t js) :
    (∃ root, t₀.segmentRoot = some root ∧ KeepsEnded options.maxSegments root js t) ∧
    ∀ op : EndOp, op.Live t js → op.Parented t → ∃ t' js', op.step t js = some (t',js') := by
  have h₀ := begin_ending hm hbegin
  have h := hrun.ending hm h₀
  refine ⟨⟨1,h₀.isRoot,h.keepsEnded hm⟩,?_⟩
  intro op hlive hok
  obtain ⟨t',js',hstep,-⟩ := EndOp.step_spec hm h hlive hok
  exact ⟨t',js',hstep⟩

theorem end_run_keeps_best_evicts :
    ∃ t₀ t js, begin 1 0 0 ⟨2,false,0,false,false⟩ none false (fun _ => []) = some t₀ ∧
      EndOp.Run (fun t op => op.Parented t) t₀ []
        [.start 1 none none,.finish 5 2,.start 6 none none,.finish 7 3,.finish 9 1] t js ∧
      t.segs 3 = none ∧ ∃ root, t₀.segmentRoot = some root ∧ KeepsEnded 2 root js t := by
  have hrun : ∃ t₀ t js, begin 1 0 0 ⟨2,false,0,false,false⟩ none false (fun _ => []) = some t₀ ∧
      EndOp.Run (fun t op => op.Parented t) t₀ []
        [.start 1 none none,.finish 5 2,.start 6 none none,.finish 7 3,.finish 9 1] t js ∧
      t.segs 3 = none := by
    refine ⟨_,_,_,rfl,.cons ?_ ?_ rfl (.cons ⟨⟨_,rfl⟩,?_⟩ trivial rfl (.cons ?_ ?_ rfl
      (.cons ⟨⟨_,rfl⟩,?_⟩ trivial rfl (.cons ⟨⟨_,rfl⟩,?_⟩ trivial rfl (.nil _ _))))),rfl⟩
    · intro q hq
      cases hq
    · exact Option.some_ne_none 1
    · decide
    · intro q hq
      cases hq
    · exact Option.some_ne_none 1
    · decide
    · decide
  obtain ⟨t₀,t,js,hbegin,hrun,hgone⟩ := hrun
  exact ⟨t₀,t,js,hbegin,hrun,hgone,(end_run_keeps_best (by decide) hbegin hrun).1⟩

/-- A segment started after the root has ended has no parent and is not in the tree, but it is
counted. -/
theorem end_run_counts_orphan :
    ∃ t₀ t js, begin 1 0 0 ⟨2,false,0,false,false⟩ none false (fun _ => []) = some t₀ ∧
      EndOp.Run (fun _ _ => True) t₀ [] [.finish 5 1,.start 6 none none,.finish 7 2] t js ∧
      t₀.segmentRoot = some 1 ∧ t.segmentCount = 2 ∧ (endedInTree 1 js t).ncard ≤ 1 ∧
      ¬ KeepsEnded 2 1 js t := by
  have hrun : ∃ t₀ t js, begin 1 0 0 ⟨2,false,0,false,false⟩ none false (fun _ => []) = some t₀ ∧
      EndOp.Run (fun _ _ => True) t₀ [] [.finish 5 1,.start 6 none none,.finish 7 2] t js ∧
      t₀.segmentRoot = some 1 ∧ t.segmentCount = 2 ∧ retained js = [1,2] ∧
      (t.segs 2).map Segment.parent = some none := by
    refine ⟨_,_,_,rfl,.cons ⟨⟨_,rfl⟩,?_⟩ trivial rfl (.cons ?_ trivial rfl
      (.cons ⟨⟨_,rfl⟩,?_⟩ trivial rfl (.nil _ _))),rfl,rfl,rfl,rfl⟩
    · decide
    · intro q hq
      cases hq
    · decide
  obtain ⟨t₀,t,js,hbegin,hrun,hroot,hcount,hret,hpar⟩ := hrun
  have hsub : endedInTree 1 js t ⊆ {1} := by
    rintro p ⟨hp,htree⟩
    rw [hret,List.mem_cons,List.mem_singleton] at hp
    rcases hp with rfl | rfl
    · rfl
    · rcases Relation.ReflTransGen.cases_tail htree with heq | ⟨b,-,x,hx,hb⟩
      · cases heq
      · rw [hx,Option.map_some,Option.some_inj,hb] at hpar
        cases hpar
  have hcard : (endedInTree 1 js t).ncard ≤ 1 := by
    calc (endedInTree 1 js t).ncard ≤ ({1} : Set SegPtr).ncard :=
        Set.ncard_le_ncard hsub (Set.finite_singleton 1)
      _ = 1 := Set.ncard_singleton 1
  refine ⟨t₀,t,js,hbegin,hrun,hroot,hcount,hcard,fun h => ?_⟩
  have := h.count
  omega

end Txn
end PhpAgent

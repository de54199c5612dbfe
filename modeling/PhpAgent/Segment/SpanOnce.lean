import PhpAgent.Segment.SpanRuns

/-! One span event per segment. -/
namespace PhpAgent
namespace Traced
open Txn MinmaxHeap
variable {g : Traced} {p x : SegPtr} {heap : MinmaxHeap SegPtr} {s : Segment} {g' : Traced}

/-- The heap holds live segments that were ended. -/
structure Holds (g : Traced) (t : Txn) (heap : MinmaxHeap SegPtr) : Prop where
  bound : 2 ≤ heap.bound
  valid : Valid (wrapped spanPriorityComparator t) heap
  nodup : heap.stored.Nodup
  live : ∀ y ∈ heap.stored, ∃ s, t.segs y = some s
  ended : ∀ y ∈ heap.stored, g.HasEnded y

/-- Live segments have numbers of their own, and those not yet ended have no event. -/
structure Tracing (g : Traced) : Prop where
  inv : Inv g.txn
  recording : g.txn.recording = true
  queue : g.txn.spanQueue.isSome = true
  heap : ∀ heap, g.txn.segmentHeap = some heap → g.Holds g.txn heap
  fresh : ∀ p s, g.txn.segs p = some s → g.serial p < g.started
  inj : ∀ p q s u, g.txn.segs p = some s → g.txn.segs q = some u → g.serial p = g.serial q → p = q
  ended : ∀ e ∈ g.ended, e.1 < g.started
  log : ∀ k ∈ g.log, k < g.started
  quiet : ∀ p s, g.txn.segs p = some s → ¬ g.HasEnded p → g.serial p ∉ g.log
  complete : g.Complete

lemma Holds.notMem {t : Txn} (h : g.Holds t heap) (hp : ¬ g.HasEnded p) :
    p ∉ heap.stored := fun hmem => hp (h.ended p hmem)

/-! ### Steps -/

lemma Holds.touched {t t' : Txn} (h : g.Holds t heap)
    (ht : Touched t x t') (hx : x ∉ heap.stored) : g.Holds t' heap := by
  refine ⟨h.bound,ht.valid h.valid hx h.live,h.nodup,?_,h.ended⟩
  intro y hy
  obtain ⟨u,hu⟩ := h.live y hy
  obtain ⟨u',hu',-⟩ := ht.kept y u (fun heq => hx (heq ▸ hy)) hu
  exact ⟨u',hu'⟩

/-- The heap with one more segment. -/
theorem Holds.append {heap heap' : MinmaxHeap SegPtr} {t : Txn} (h : g.Holds t heap)
    (hv : Valid (wrapped spanPriorityComparator t) heap') (hb : heap'.bound = heap.bound)
    (hst : heap'.stored = p ::ₘ heap.stored) (hp : t.segs p = some s)
    (hended : g.HasEnded p) (hnot : p ∉ heap.stored) : g.Holds t heap' := by
  refine ⟨hb ▸ h.bound,hv,?_,?_,?_⟩
  · rw [hst]
    exact Multiset.nodup_cons.mpr ⟨hnot,h.nodup⟩
  · intro y hy
    rw [hst,Multiset.mem_cons] at hy
    rcases hy with rfl | hy
    · exact ⟨s,hp⟩
    · exact h.live y hy
  · intro y hy
    rw [hst,Multiset.mem_cons] at hy
    rcases hy with rfl | hy
    · exact hended
    · exact h.ended y hy

/-- A call that does something to one segment, puts down `n` events to it, and leaves a heap. -/
theorem Tracing.touch (h : Tracing g) {t' : Txn} (ht : Touched g.txn x t')
    (hs : g.txn.segs x = some s) {n : ℕ} (hn : t'.queued = g.txn.queued+n) {ended : List (ℕ × Bool)}
    (hended : ended = g.ended ∨ ∃ b, ended = g.ended ++ [(g.serial x,b)])
    (hquiet : n = 0 ∨ t'.segs x = none ∨ g.serial x ∈ ended.map Prod.fst)
    (heap : Option (MinmaxHeap SegPtr))
    (hheap : ∀ heap', heap = some heap' → g.Holds t' heap') :
    Tracing { g with
      txn := { t' with segmentHeap := heap }
      log := g.log ++ List.replicate n (g.serial x)
      ended := ended } := by
  have hsub : ∀ k, k ∈ g.ended.map Prod.fst → k ∈ ended.map Prod.fst := by
    intro k hk
    rcases hended with rfl | ⟨b,rfl⟩
    · exact hk
    · simp [hk]
  refine ⟨ht.inv.congr (fun _ => rfl) rfl rfl (fun _ => rfl) rfl rfl,ht.recording.trans h.recording,
    ht.queue.trans h.queue,?_,?_,?_,?_,?_,?_,?_⟩
  · intro heap' hheap'
    have hold := hheap heap' hheap'
    exact ⟨hold.bound,hold.valid,hold.nodup,hold.live,fun y hy => hsub _ (hold.ended y hy)⟩
  · intro q y' hy'
    obtain ⟨y,hy⟩ := ht.back q y' hy'
    exact h.fresh q y hy
  · intro q r y' z' hy' hz' heq
    obtain ⟨y,hy⟩ := ht.back q y' hy'
    obtain ⟨z,hz⟩ := ht.back r z' hz'
    exact h.inj q r y z hy hz heq
  · intro e he
    rcases hended with rfl | ⟨b,rfl⟩
    · exact h.ended e he
    · rcases List.mem_append.mp he with he | he
      · exact h.ended e he
      · rw [List.mem_singleton] at he
        rw [he]
        exact h.fresh x s hs
  · intro k hk
    rcases List.mem_append.mp hk with hk | hk
    · exact h.log k hk
    · rw [List.eq_of_mem_replicate hk]
      exact h.fresh x s hs
  · intro q y' hy' hq hmem
    obtain ⟨y,hy⟩ := ht.back q y' hy'
    have hnot : ¬ g.HasEnded q := fun hq' => hq (hsub _ hq')
    rcases List.mem_append.mp hmem with hmem | hmem
    · exact h.quiet q y hy hnot hmem
    · have hsame : q = x := h.inj q x y s hy hs (List.eq_of_mem_replicate hmem)
      subst hsame
      rcases hquiet with rfl | hgone | hin
      · simp at hmem
      · have hy' : t'.segs q = some y' := hy'
        rw [hgone] at hy'
        cases hy'
      · exact hq hin
  · have hlen : g.log.length = g.txn.queued := h.complete
    change (g.log ++ List.replicate n (g.serial x)).length = t'.queued
    rw [List.length_append,List.length_replicate,hlen,hn]

/-- A call on a segment outside the heap. -/
theorem Tracing.touchOutside (h : Tracing g) {t' : Txn} (ht : Touched g.txn x t')
    (hs : g.txn.segs x = some s) (hx : ∀ heap, g.txn.segmentHeap = some heap → x ∉ heap.stored)
    {n : ℕ} (hn : t'.queued = g.txn.queued+n) {ended : List (ℕ × Bool)}
    (hended : ended = g.ended ∨ ∃ b, ended = g.ended ++ [(g.serial x,b)])
    (hquiet : n = 0 ∨ t'.segs x = none ∨ g.serial x ∈ ended.map Prod.fst) :
    Tracing { g with
      txn := t', log := g.log ++ List.replicate n (g.serial x), ended := ended } := by
  refine h.touch ht hs hn hended hquiet t'.segmentHeap ?_
  intro heap hheap
  rw [ht.heap] at hheap
  exact (h.heap heap hheap).touched ht (hx heap hheap)

lemma Tracing.start (h : Tracing g) {now : ℕ} {parent : Option SegPtr}
    {asyncContext : Option Bytes} (hpar : ∀ q, parent = some q → ∃ x, g.txn.segs q = some x) :
    ∃ g', (SpanOp.start now parent asyncContext).step g = some g' ∧ Tracing g' ∧ g'.log = g.log ∧
      g'.ended = g.ended := by
  obtain ⟨p,t',hstart,hst⟩ := start_spec h.inv.toStore h.recording now parent asyncContext hpar
  refine ⟨{ g with
    txn := t'
    serial := Function.update g.serial p g.started
    started := g.started+1 },by simp [SpanOp.step,hstart],?_,rfl,rfl⟩
  have hne : ∀ {q y}, g.txn.segs q = some y → q ≠ p := by
    rintro q y hq rfl
    rw [hst.fresh] at hq
    cases hq
  have hkept : ∀ {q y}, g.txn.segs q = some y → ∃ y', t'.segs q = some y' ∧ y'.fixed = y.fixed := by
    intro q y hy
    by_cases hq : g.txn.effectiveParent parent asyncContext = some q
    · obtain ⟨y',hy',hsame,-⟩ := hst.below q y hq hy
      exact ⟨y',hy',by rw [hsame]; rfl⟩
    · exact ⟨y,(hst.other q (hne hy) hq).trans hy,rfl⟩
  have hback : ∀ {q y'}, q ≠ p → t'.segs q = some y' → ∃ y, g.txn.segs q = some y := by
    intro q y' hqp hy'
    by_cases hq : g.txn.effectiveParent parent asyncContext = some q
    · exact h.inv.effectiveParent_live hpar hq
    · exact ⟨y',(hst.other q hqp hq).symm.trans hy'⟩
  have hold : ∀ {q y}, g.txn.segs q = some y →
      Function.update g.serial p g.started q = g.serial q :=
    fun hy => Function.update_of_ne (hne hy) ..
  have hnew : Function.update g.serial p g.started p = g.started := Function.update_self ..
  have hrest := hst.rest
  refine ⟨hst.inv h.inv hpar,(congrArg Txn.recording hrest).trans h.recording,?_,?_,?_,?_,?_,?_,?_,?_⟩
  · rw [hrest]
    exact h.queue
  · intro heap hheap
    rw [hrest] at hheap
    have hholds := h.heap heap hheap
    refine ⟨hholds.bound,valid_of_fixed hholds.valid ?_,hholds.nodup,?_,?_⟩
    · intro y hy
      obtain ⟨u,hu⟩ := hholds.live y hy
      obtain ⟨u',hu',hfix⟩ := hkept hu
      exact ⟨u,u',hu,hu',hfix⟩
    · intro y hy
      obtain ⟨u,hu⟩ := hholds.live y hy
      obtain ⟨u',hu',-⟩ := hkept hu
      exact ⟨u',hu'⟩
    · intro y hy
      obtain ⟨u,hu⟩ := hholds.live y hy
      have hmem := hholds.ended y hy
      change Function.update g.serial p g.started y ∈ g.ended.map Prod.fst
      rw [hold hu]
      exact hmem
  · intro q y' hy'
    change Function.update g.serial p g.started q < g.started+1
    by_cases hq : q = p
    · rw [hq,hnew]
      exact Nat.lt_succ_self _
    · obtain ⟨y,hy⟩ := hback hq hy'
      rw [hold hy]
      exact Nat.lt_succ_of_lt (h.fresh q y hy)
  · intro q r y' z' hy' hz' heq
    by_cases hq : q = p
    · by_cases hr : r = p
      · rw [hq,hr]
      · obtain ⟨z,hz⟩ := hback hr hz'
        simp only [hq,hnew,hold hz] at heq
        exact absurd (h.fresh r z hz) (by omega)
    · obtain ⟨y,hy⟩ := hback hq hy'
      by_cases hr : r = p
      · simp only [hr,hnew,hold hy] at heq
        exact absurd (h.fresh q y hy) (by omega)
      · obtain ⟨z,hz⟩ := hback hr hz'
        simp only [hold hy,hold hz] at heq
        exact h.inj q r y z hy hz heq
  · intro e he
    exact Nat.lt_succ_of_lt (h.ended e he)
  · intro k hk
    exact Nat.lt_succ_of_lt (h.log k hk)
  · intro q y' hy' hnot hmem
    by_cases hq : q = p
    · simp only [hq,hnew] at hmem
      exact absurd (h.log _ hmem) (lt_irrefl _)
    · obtain ⟨y,hy⟩ := hback hq hy'
      simp only [HasEnded,hold hy] at hnot hmem
      exact h.quiet q y hy hnot hmem
  · have hqueued : t'.queued = g.txn.queued := by rw [hrest]; rfl
    exact (h.complete).trans hqueued.symm

/-- A write to a segment that was not ended. -/
theorem Tracing.write (h : Tracing g) {t' : Txn} (ht : Touched g.txn x t')
    (hs : g.txn.segs x = some s) (hqueue : t'.spanQueue = g.txn.spanQueue) (hnot : ¬ g.HasEnded x) :
    Tracing { g with txn := t' } := by
  have hq : t'.queued = g.txn.queued+0 := by rw [Txn.queued,hqueue]; rfl
  have hout := h.touchOutside ht hs (fun heap hheap => (h.heap heap hheap).notMem hnot) hq
    (.inl rfl) (.inl rfl)
  simpa using hout

/-- The segment enters the heap, which may destroy one. -/
theorem Tracing.enter (h : Tracing g) (hheap : g.txn.segmentHeap = some heap) (hp : g.txn.segs p = some s)
    (hended : g.HasEnded p) (hnot : p ∉ heap.stored) :
    ∃ heap' t' log', heap.insert (fun tl : Txn × List ℕ => wrapped spanPriorityComparator tl.1)
        (discardWrapperLogged g.serial) p (g.txn,g.log) = some (heap',t',log') ∧
      Tracing { g with txn := { t' with segmentHeap := some heap' }, log := log' } ∧
      (log' = g.log ∨ ∃ x u, SpanOp.loser heap g.txn p = some x ∧ g.txn.segs x = some u ∧
        log' = g.log ++ List.replicate (g.txn.discardAdds u) (g.serial x)) := by
  have hold := h.heap heap hheap
  have hc := wrapped_spanPriority_isComparator g.txn
  have hle : heap.used ≤ heap.bound := (hold.valid.bounded (by have := hold.bound; omega)).1
  have hroom := hold.bound
  by_cases hfull : heap.used = heap.bound
  · have hone : heap.vals 1 ∈ heap.stored := mem_stored.mpr ⟨1,le_rfl,by omega,rfl⟩
    by_cases hcmp : 0 < wrapped spanPriorityComparator g.txn (heap.vals 1) p
    · -- the new segment is refused
      obtain ⟨t',hwrap,ht,hq⟩ := discardWrapper_touched h.inv hp
      have hlog := logged_eq (x := p) g.serial hq g.log
      refine ⟨heap,t',g.log ++ List.replicate (g.txn.discardAdds s) (g.serial p),?_,?_,.inr ⟨p,s,?_,hp,rfl⟩⟩
      · rw [insert_refuses (fun tl : Txn × List ℕ => wrapped spanPriorityComparator tl.1) _
          (s := (g.txn,g.log)) hold.valid hroom hfull p hcmp]
        simp [discardWrapperLogged,hwrap,hlog]
      · refine h.touch ht hp hq (.inl rfl) (.inr (.inr hended)) (some heap) ?_
        rintro heap' ⟨⟩
        exact hold.touched ht hnot
      · simp [SpanOp.loser,hfull,hcmp]
    · -- the least segment makes room
      obtain ⟨heap₁,hv₁,hb₁,hst₁,hins⟩ := insert_evicts
        (fun tl : Txn × List ℕ => wrapped spanPriorityComparator tl.1) (discardWrapperLogged g.serial)
        (s := (g.txn,g.log)) hold.valid hroom hfull hc p (not_lt.mp hcmp)
      obtain ⟨u,hu⟩ := hold.live _ hone
      obtain ⟨t',hwrap,ht,hq⟩ := discardWrapper_touched h.inv hu
      have hlog := logged_eq (x := heap.vals 1) g.serial hq g.log
      have hnd₁ : (heap.vals 1 ::ₘ heap₁.stored).Nodup := hst₁ ▸ hold.nodup
      have hsub : ∀ y ∈ heap₁.stored, y ∈ heap.stored := fun y hy =>
        hst₁ ▸ Multiset.mem_cons_of_mem hy
      have hold₁ : g.Holds g.txn heap₁ := ⟨hb₁ ▸ hroom,hv₁,(Multiset.nodup_cons.mp hnd₁).2,
        fun y hy => hold.live y (hsub y hy),fun y hy => hold.ended y (hsub y hy)⟩
      have hold₂ := hold₁.touched ht (Multiset.nodup_cons.mp hnd₁).1
      have hused : heap₁.used+1 = heap.used := by
        rw [← card_stored,← card_stored,← hst₁,Multiset.card_cons]
      obtain ⟨heap',happ,hv',hb',hst'⟩ :=
        append_spec (wrapped_spanPriority_isComparator t') hold₂.valid (fun _ => by omega) p
      obtain ⟨s',hs',-⟩ := ht.kept p s (fun heq => hnot (heq ▸ hone)) hp
      refine ⟨heap',t',g.log ++ List.replicate (g.txn.discardAdds u) (g.serial (heap.vals 1)),?_,?_,
        .inr ⟨heap.vals 1,u,?_,hu,rfl⟩⟩
      · rw [hins]
        simp [discardWrapperLogged,hwrap,hlog,happ]
      · refine h.touch ht hu hq (.inl rfl) (.inr (.inr (hold.ended _ hone))) (some heap') ?_
        rintro heap'' ⟨⟩
        exact hold₂.append hv' hb' hst' hs' hended fun hmem => hnot (hsub p hmem)
      · simp [SpanOp.loser,hfull,hcmp]
  · -- there is room
    have hfree : heap.bound ≠ 0 → heap.used < heap.bound := fun _ => by omega
    obtain ⟨heap',happ,hv',hb',hst'⟩ := append_spec hc hold.valid hfree p
    refine ⟨heap',g.txn,g.log,?_,?_,.inl rfl⟩
    · rw [insert_of_free _ _ p (g.txn,g.log) hfree]
      simp [happ]
    · have := h.touch (touched_refl h.inv p) hp (n := 0) rfl (.inl rfl) (.inl rfl) (some heap') ?_
      · simpa using this
      rintro heap'' ⟨⟩
      exact hold.append hv' hb' hst' hp hended hnot

lemma loser_stopped {t t' : Txn} {now : ℕ}
    (hold : g.Holds t heap) (hs : t.segs p = some s) (hnot : p ∉ heap.stored)
    (h : Stopped t now p s t') :
    SpanOp.loser heap t' p = SpanOp.loser heap (SpanOp.stopAt t now p) p := by
  unfold SpanOp.loser
  by_cases hfull : heap.used = heap.bound
  · have hbound := hold.bound
    have hone : heap.vals 1 ∈ heap.stored := mem_stored.mpr ⟨1,le_rfl,by omega,rfl⟩
    obtain ⟨u,hu⟩ := hold.live _ hone
    have hne : heap.vals 1 ≠ p := fun heq => hnot (heq ▸ hone)
    obtain ⟨u',hu',hfix,-⟩ := h.kept _ u hne hu
    obtain ⟨s',hs',hfix',-⟩ := h.ended
    have hcmp : wrapped spanPriorityComparator t' (heap.vals 1) p =
        wrapped spanPriorityComparator (SpanOp.stopAt t now p) (heap.vals 1) p := by
      simp only [wrapped,SpanOp.stopAt,hu',hs',Function.update_self,Function.update_of_ne hne,hu,hs,
        Option.map_some,Option.getD_some]
      exact wrapped_of_fixed hfix hfix'
    rw [hcmp]
  · rw [if_neg hfull,if_neg hfull]

/-- What ending a segment does: an event for the segment if one can be made, and perhaps one for the
segment that the heap destroys. -/
theorem Tracing.finish (h : Tracing g) (now : ℕ) (hs : g.txn.segs p = some s) (hnot : ¬ g.HasEnded p) :
    ∃ g' extra, (SpanOp.finish now p).step g = some g' ∧ Tracing g' ∧
      g'.ended = g.ended ++ [(g.serial p,decide (s.name ≠ 0))] ∧
      g'.log = g.log ++ List.replicate (g.txn.contributes (g.txn.stopped now s)) (g.serial p) ++
        extra ∧
      (extra = [] ∨ ∃ heap x u, g.txn.segmentHeap = some heap ∧
        SpanOp.loser heap (SpanOp.stopAt g.txn now p) p = some x ∧ g.txn.segs x = some u ∧
        (u.name = 0 ∨ u.parent = none → extra = [])) := by
  obtain ⟨t₁,hret,hstop⟩ := endRetire_stops h.inv hs now
  have hgrew := endRetire_grew h.inv hs hret
  have ht := hstop.touched hgrew.isSome
  have hheap₁ : t₁.segmentHeap = g.txn.segmentHeap := ht.heap
  have hlog := logged_eq (x := p) g.serial hgrew.queued g.log
  set ended := g.ended ++ [(g.serial p,decide (s.name ≠ 0))] with hended
  set log := g.log ++ List.replicate (g.txn.contributes (g.txn.stopped now s)) (g.serial p)
  have h₁ : Tracing { g with txn := t₁, log := log, ended := ended } :=
    h.touchOutside ht hs (fun heap hheap => (h.heap heap hheap).notMem hnot) hgrew.queued
      (.inr ⟨_,rfl⟩) (.inr (.inr (by simp [hended])))
  cases hheap : g.txn.segmentHeap with
  | none =>
    refine ⟨_,[],?_,h₁,rfl,(List.append_nil _).symm,.inl rfl⟩
    simp [SpanOp.step,hs,endSegmentLogged,hret,hheap₁,hheap,hlog,hended]
  | some heap =>
    have hold := h.heap heap hheap
    have hmem := hold.notMem hnot
    obtain ⟨s₁,hs₁,hfix₁,hpar₁⟩ := hstop.ended
    obtain ⟨heap',t',log',hins,htr,hextra⟩ := h₁.enter (hheap₁.trans hheap) hs₁
      (show g.serial p ∈ ended.map Prod.fst by simp [hended]) hmem
    have hstep : (SpanOp.finish now p).step g = some { g with
        txn := { t' with segmentHeap := some heap' }, log := log', ended := ended } := by
      simp only [SpanOp.step,hs,endSegmentLogged,hret,hheap₁,hheap,hlog,Option.bind_eq_bind,
        Option.bind_some]
      rw [hins]
      rfl
    rcases hextra with rfl | ⟨x,u₁,hloser,hu₁,rfl⟩
    · exact ⟨_,[],hstep,htr,rfl,(List.append_nil _).symm,.inl rfl⟩
    · refine ⟨_,_,hstep,htr,rfl,rfl,.inr ⟨heap,x,?_⟩⟩
      rw [loser_stopped hold hs hmem hstop] at hloser
      obtain ⟨u,hu⟩ := ht.back x u₁ hu₁
      refine ⟨u,rfl,hloser,hu,fun hplain => ?_⟩
      have hsame : u₁.name = u.name ∧ u₁.parent = u.parent := by
        by_cases hxp : x = p
        · subst hxp
          have hs₁' : t₁.segs x = some u₁ := hu₁
          rw [hs₁,Option.some_inj] at hs₁'
          rw [hs,Option.some_inj] at hu
          subst hs₁' hu
          have hname : s₁.name = (g.txn.stopped now s).name :=
            Segment.eq_of_fixed Segment.name (fun _ => rfl) hfix₁
          exact ⟨hname,hpar₁⟩
        · obtain ⟨u',hu',hfix,hpar⟩ := hstop.kept x u hxp hu
          have hu₁' : t₁.segs x = some u₁ := hu₁
          rw [hu',Option.some_inj] at hu₁'
          subst hu₁'
          exact ⟨Segment.eq_of_fixed Segment.name (fun _ => rfl) hfix,hpar⟩
      rw [← hsame.1,← hsame.2] at hplain
      rw [discardAdds_zero hplain,List.replicate_zero]

/-! ### Counting -/

lemma count_replicate_append (log : List ℕ) (n k j : ℕ) :
    (log ++ List.replicate n j).count k = log.count k+if k = j then n else 0 := by
  rw [List.count_append,List.count_replicate]
  by_cases hk : k = j
  · simp [hk]
  · simp [hk,Ne.symm hk]

/-- A segment without an event gets one at most. -/
theorem Sound.add_fresh (h : Sound g) {n : ℕ} (hn : n ≤ 1) (hfresh : g.serial p ∉ g.log) (k : ℕ) :
    (g.log ++ List.replicate n (g.serial p)).count k ≤ 1 := by
  rw [count_replicate_append]
  have hk := h.1 k
  split_ifs with heq
  · rw [heq,List.count_eq_zero.mpr hfresh]
    omega
  · exact hk

lemma Sound.finish (h : Sound g) (htr : Tracing g) {now : ℕ}
    (hs : g.txn.segs p = some s) (hnot : ¬ g.HasEnded p)
    (hspan : s.name ≠ 0 → g.txn.Spannable (g.txn.stopped now s))
    (hended : g'.ended = g.ended ++ [(g.serial p,decide (s.name ≠ 0))])
    (hlog : g'.log = g.log ++
      List.replicate (g.txn.contributes (g.txn.stopped now s)) (g.serial p)) : Sound g' := by
  have hfresh := htr.quiet p s hs hnot
  refine ⟨?_,?_⟩
  · intro k
    rw [hlog]
    exact h.add_fresh (g.txn.contributes_le _) hfresh k
  · intro k hk
    rw [hended,List.mem_append,List.mem_singleton] at hk
    rw [hlog,count_replicate_append]
    rcases hk with hk | hk
    · have hne : k ≠ g.serial p := by
        rintro rfl
        exact hnot (List.mem_map_of_mem hk)
      rw [if_neg hne]
      exact h.2 k hk
    · obtain ⟨rfl,hname⟩ := Prod.mk.inj hk
      have hname : s.name ≠ 0 := of_decide_eq_true hname.symm
      have hone : g.txn.contributes (g.txn.stopped now s) = 1 := by
        have hqueue := htr.queue
        have hstop : (g.txn.stopped now s).name ≠ 0 := hname
        simp [contributes,hqueue,hstop,hspan hname]
      rw [if_pos rfl,hone,List.count_eq_zero.mpr hfresh]

lemma Sound.discard (h : Sound g) (htr : Tracing g)
    (hs : g.txn.segs p = some s) (hmeets : g.HasEnded p → s.name = 0 ∨ s.parent = none)
    (hended : g'.ended = g.ended)
    (hlog : g'.log = g.log ++ List.replicate (g.txn.discardAdds s) (g.serial p)) : Sound g' := by
  by_cases hp : g.HasEnded p
  · rw [discardAdds_zero (hmeets hp),List.replicate_zero,List.append_nil] at hlog
    rw [Sound,hlog,hended]
    exact h
  · have hfresh := htr.quiet p s hs hp
    refine ⟨?_,?_⟩
    · intro k
      rw [hlog]
      exact h.add_fresh (g.txn.discardAdds_le s) hfresh k
    · intro k hk
      rw [hended] at hk
      have hne : k ≠ g.serial p := by
        rintro rfl
        exact hp (List.mem_map_of_mem hk)
      rw [hlog,count_replicate_append,if_neg hne]
      exact h.2 k hk

/-! ### Runs -/

/-- One call: it returns, keeps the invariant, and keeps soundness if it meets the condition. -/
theorem Tracing.step_spec (h : Tracing g) {op : SpanOp} (hlive : op.Live g) :
    ∃ g', op.step g = some g' ∧ Tracing g' ∧ (Sound g → op.Meets g → Sound g') := by
  cases op with
  | start now parent asyncContext =>
    obtain ⟨g',hstep,htr,hlog,hended⟩ := h.start hlive
    refine ⟨g',hstep,htr,fun hsound _ => ?_⟩
    rw [Sound,hlog,hended]
    exact hsound
  | setName segment name =>
    obtain ⟨⟨s,hs⟩,hnot⟩ := hlive
    obtain ⟨t',hset,ht,hqueue⟩ := setName_touched h.inv hs name
    refine ⟨{ g with txn := t' },by rw [SpanOp.step,hset]; rfl,h.write ht hs hqueue hnot,?_⟩
    exact fun hsound _ => hsound
  | setTiming segment startTime duration =>
    obtain ⟨⟨s,hs⟩,hnot⟩ := hlive
    obtain ⟨t',hset,ht,hqueue⟩ := setTiming_touched h.inv hs startTime duration
    refine ⟨{ g with txn := t' },by rw [SpanOp.step,hset]; rfl,h.write ht hs hqueue hnot,?_⟩
    exact fun hsound _ => hsound
  | discard segment =>
    obtain ⟨⟨s,hs⟩,hheap⟩ := hlive
    obtain ⟨b,t',hdis,ht,hq,hgone⟩ := discard_touched h.inv hs
    have hlog := logged_eq (x := segment) g.serial hq g.log
    refine ⟨{ g with
      txn := t', log := g.log ++ List.replicate (g.txn.discardAdds s) (g.serial segment) },?_,?_,?_⟩
    · simp [SpanOp.step,hdis,hlog]
    · exact h.touchOutside ht hs hheap hq (.inl rfl) (hgone.symm.imp_right .inl)
    · exact fun hsound hmeets => hsound.discard h hs (hmeets s hs) rfl rfl
  | finish now segment =>
    obtain ⟨⟨s,hs⟩,hnot⟩ := hlive
    obtain ⟨g',extra,hstep,htr,hended,hlog,hextra⟩ := h.finish now hs hnot
    refine ⟨g',hstep,htr,fun hsound hmeets => ?_⟩
    have hnone : extra = [] := by
      rcases hextra with hnil | ⟨heap,x,u,hheap,hloser,hu,himp⟩
      · exact hnil
      · exact himp (hmeets.2 heap x u hheap hloser hu)
    rw [hnone,List.append_nil] at hlog
    exact hsound.finish h hs hnot (hmeets.1 s hs) hended hlog

lemma begin_tracing {self absStartTime now : ℕ} {options : TxnOptions} {dt : Option DistributedTrace}
    {guids : ℕ → Bytes} {t : Txn} (hbegin : begin self absStartTime now options dt true guids = some t) :
    Tracing (initial t) := by
  obtain ⟨t',h',hinv,hsegs,-,hrec,-,-,-,hheap⟩ :=
    begin_spec self absStartTime now options dt true guids
  have hqueue : (begin self absStartTime now options dt true guids).map Txn.spanQueue =
    some (some []) := rfl
  rw [hbegin,Option.map_some,Option.some_inj] at hqueue
  rw [hbegin,Option.some_inj] at h'
  subst h'
  have honly : ∀ p s, t.segs p = some s → p = 1 := by
    intro p s hs
    by_contra hp
    rw [hsegs,Function.update_of_ne hp] at hs
    cases hs
  refine ⟨hinv,hrec,by rw [initial,hqueue]; rfl,?_,fun _ _ _ => Nat.zero_lt_one,?_,?_,?_,?_,?_⟩
  · intro heap hh
    have hh : t.segmentHeap = some heap := hh
    rw [hheap] at hh
    split_ifs at hh with hm
    obtain ⟨heap',hcreate,hv,hb,hu⟩ :=
      create_spec (wrapped spanPriorityComparator t) options.maxSegments (by omega)
    rw [hcreate,Option.some_inj] at hh
    subst hh
    have hempty : heap'.stored = 0 := by simp [stored,hu]
    refine ⟨hb ▸ hm,hv,by simp [hempty],?_,?_⟩
    · intro y hy
      simp [hempty] at hy
    · intro y hy
      simp [hempty] at hy
  · intro p q s u hp hq _
    rw [honly p s hp,honly q u hq]
  · intro e he
    cases he
  · intro k hk
    cases hk
  · intro p s _ _ hmem
    cases hmem
  · simp [Complete,initial,Txn.queued,hqueue]

lemma initial_sound (t : Txn) : Sound (initial t) := by
  constructor
  · intro k
    exact Nat.zero_le _
  · intro k hk
    cases hk

lemma run_sound {ops : List SpanOp} (hrun : SpanOp.Run (fun g op => op.Meets g) g ops g')
    (htr : Tracing g) (hsound : Sound g) : Tracing g' ∧ Sound g' := by
  induction hrun with
  | nil g => exact ⟨htr,hsound⟩
  | cons hlive hmeets hstep _ ih =>
    obtain ⟨g₁,hstep',htr₁,hsound₁⟩ := htr.step_spec hlive
    rw [hstep,Option.some_inj] at hstep'
    subst hstep'
    exact ih htr₁ (hsound₁ hsound hmeets)

/-- In every run of a transaction with a span queue whose calls all meet the condition: each segment
has at most one event, each segment that was ended with a name has exactly one, these are all the
events of the queue, and every further call returns. -/
theorem spans_once {self absStartTime now : ℕ} {options : TxnOptions} {dt : Option DistributedTrace}
    {guids : ℕ → Bytes} {t : Txn} (hbegin : begin self absStartTime now options dt true guids = some t)
    {ops : List SpanOp} (hrun : SpanOp.Run (fun g op => op.Meets g) (initial t) ops g) :
    Sound g ∧ Complete g ∧ ∀ op : SpanOp, op.Live g → ∃ g', op.step g = some g' := by
  obtain ⟨htr,hsound⟩ := run_sound hrun (begin_tracing hbegin) (initial_sound t)
  refine ⟨hsound,htr.complete,fun op hlive => ?_⟩
  obtain ⟨g',hstep,-⟩ := htr.step_spec hlive
  exact ⟨g',hstep⟩

/-- With a limit of two segments the third to be ended makes the heap discard the shortest, which has
no name. -/
theorem spans_once_sample :
    ∃ t g, begin 1 0 0 ⟨2,false,0,true,true⟩ none true (fun _ => [0x61]) = some t ∧
      SpanOp.Run (fun g op => op.Meets g) (initial t)
        [.start 1 none none,.setName 2 [0x61],.finish 5 2,.start 6 none none,.finish 7 3,
          .start 8 none none,.setName 4 [0x63],.finish 13 4] g ∧
      g.log = [1,3] ∧ g.txn.segs 3 = none ∧ Sound g := by
  have hrun : ∃ t g, begin 1 0 0 ⟨2,false,0,true,true⟩ none true (fun _ => [0x61]) = some t ∧
      SpanOp.Run (fun g op => op.Meets g) (initial t)
        [.start 1 none none,.setName 2 [0x61],.finish 5 2,.start 6 none none,.finish 7 3,
          .start 8 none none,.setName 4 [0x63],.finish 13 4] g ∧ g.log = [1,3] ∧ g.txn.segs 3 = none := by
    refine ⟨_,_,rfl,.cons ?_ trivial rfl (.cons ⟨⟨_,rfl⟩,?_⟩ trivial rfl
      (.cons ⟨⟨_,rfl⟩,?_⟩ ⟨?_,?_⟩ rfl (.cons ?_ trivial rfl (.cons ⟨⟨_,rfl⟩,?_⟩ ⟨?_,?_⟩ rfl
      (.cons ?_ trivial rfl (.cons ⟨⟨_,rfl⟩,?_⟩ trivial rfl
      (.cons ⟨⟨_,rfl⟩,?_⟩ ⟨?_,?_⟩ rfl (.nil _)))))))),rfl,rfl⟩
    · intro q hq
      cases hq
    · unfold HasEnded
      decide
    · unfold HasEnded
      decide
    · rintro s ⟨⟩ -
      decide
    · rintro heap x s ⟨⟩ hloser
      cases hloser
    · intro q hq
      cases hq
    · unfold HasEnded
      decide
    · rintro s ⟨⟩ hname
      exact absurd (by decide) hname
    · rintro heap x s ⟨⟩ hloser
      cases hloser
    · intro q hq
      cases hq
    · unfold HasEnded
      decide
    · unfold HasEnded
      decide
    · rintro s ⟨⟩ -
      decide
    · rintro heap x s ⟨⟩ hloser hx
      obtain rfl : 3 = x := Option.some.inj hloser
      cases hx
      exact .inl rfl
  obtain ⟨t,g,hbegin,hrun,hlog,hgone⟩ := hrun
  exact ⟨t,g,hbegin,hrun,hlog,hgone,(spans_once hbegin hrun).1⟩

/-- With a limit of two segments the third to be ended makes the heap discard the shortest, which is
retired a second time. -/
theorem spans_twice :
    ¬ ∀ (self absStartTime now : ℕ) (options : TxnOptions) (dt : Option DistributedTrace)
      (guids : ℕ → Bytes) (t : Txn), begin self absStartTime now options dt true guids = some t →
      ∀ (ops : List SpanOp) (g : Traced), SpanOp.Run (fun _ _ => True) (initial t) ops g → Sound g := by
  intro h
  have hrun : ∃ t g, begin 1 0 0 ⟨2,false,0,true,true⟩ none true (fun _ => [0x61]) = some t ∧
      SpanOp.Run (fun _ _ => True) (initial t)
        [.start 1 none none,.setName 2 [0x61],.finish 5 2,.start 6 none none,.setName 3 [0x62],
          .finish 7 3,.start 8 none none,.setName 4 [0x63],.finish 13 4] g ∧ g.log = [1,2,3,2] := by
    refine ⟨_,_,rfl,.cons ?_ trivial rfl (.cons ⟨⟨_,rfl⟩,?_⟩ trivial rfl (.cons ⟨⟨_,rfl⟩,?_⟩ trivial
      rfl (.cons ?_ trivial rfl (.cons ⟨⟨_,rfl⟩,?_⟩ trivial rfl (.cons ⟨⟨_,rfl⟩,?_⟩ trivial rfl
      (.cons ?_ trivial rfl (.cons ⟨⟨_,rfl⟩,?_⟩ trivial rfl (.cons ⟨⟨_,rfl⟩,?_⟩ trivial rfl
      (.nil _))))))))),rfl⟩
    · intro q hq
      cases hq
    · unfold HasEnded
      decide
    · unfold HasEnded
      decide
    · intro q hq
      cases hq
    · unfold HasEnded
      decide
    · unfold HasEnded
      decide
    · intro q hq
      cases hq
    · unfold HasEnded
      decide
    · unfold HasEnded
      decide
  obtain ⟨t,g,hbegin,hrun,hlog⟩ := hrun
  have hcount := (h _ _ _ _ _ _ t hbegin _ g hrun).1 2
  rw [hlog] at hcount
  exact absurd hcount (by decide)

end Traced
end PhpAgent

import PhpAgent.Segment.BlockedTime
import PhpAgent.Segment.EndSegment

/-! The blocked time over whole runs: starts, reparentings, timings, metrics, ends and discards. -/
namespace PhpAgent

/-- What the first pass reads of a segment besides its place and its start. -/
def Segment.timing (s : Segment) : SegmentColor × ℕ × ℕ × Option ExclusiveTime :=
  (s.color,s.asyncContext,s.stopTime,s.exclusiveTime)

namespace MinmaxHeap

/-- An insertion calls the destructor once at most. -/
theorem insert_state {α σ : Type} [Inhabited α] {cmp : σ → α → α → ℤ} {destructor : α → σ → Option σ}
    {h h' : MinmaxHeap α} {value : α} {s s' : σ} (hins : h.insert cmp destructor value s = some (h',s')) :
    s' = s ∨ ∃ x, destructor x s = some s' := by
  unfold insert at hins
  split_ifs at hins with hfull
  · obtain ⟨o,-,hins⟩ := Option.bind_eq_some_iff.mp hins
    cases o with
    | none => cases hins
    | some least =>
      simp only at hins
      split_ifs at hins with hless
      · obtain ⟨s₁,hs₁,hins⟩ := Option.bind_eq_some_iff.mp hins
        cases hins
        exact .inr ⟨value,hs₁⟩
      · obtain ⟨r,-,hins⟩ := Option.bind_eq_some_iff.mp hins
        obtain ⟨s₁,hs₁,hins⟩ := Option.bind_eq_some_iff.mp hins
        obtain ⟨h₁,-,hins⟩ := Option.bind_eq_some_iff.mp hins
        cases hins
        exact .inr ⟨least,hs₁⟩
  · obtain ⟨h₁,-,hins⟩ := Option.bind_eq_some_iff.mp hins
    cases hins
    exact .inl rfl

end MinmaxHeap

namespace Txn
open PointerTree Forest Intervals
variable {t t' : Txn} {p r : SegPtr} {contexts : Set ℕ}

/-! ### Calls that leave the timing alone -/

def SameTiming (t t' : Txn) : Prop :=
  ∀ q, (t'.segs q).map Segment.timing = (t.segs q).map Segment.timing

lemma SameTiming.refl (t : Txn) : SameTiming t t := fun _ => rfl

lemma SameTiming.trans {t'' : Txn} (h : SameTiming t t') (h' : SameTiming t' t'') :
    SameTiming t t'' := fun q => (h' q).trans (h q)

lemma SameTiming.back (h : SameTiming t t') {q : SegPtr} {y' : Segment} (hy' : t'.segs q = some y') :
    ∃ y, t.segs q = some y ∧ y'.timing = y.timing := by
  have hq := h q
  rw [hy',Option.map_some] at hq
  obtain ⟨y,hy,htime⟩ := Option.map_eq_some_iff.mp hq.symm
  exact ⟨y,hy,htime.symm⟩

lemma update_sameTiming {f : Segment → Segment} (h : t.update p f = some t')
    (hf : ∀ s, (f s).timing = s.timing) : SameTiming t t' := by
  obtain ⟨s,hs,rfl⟩ := update_eq_some h
  intro q
  by_cases hq : q = p
  · subst hq
    simp only [Function.update_self,hs,Option.map_some,hf]
  · simp only [Function.update_of_ne hq]

lemma childrenAdd_sameTiming {c : SegPtr} (h : t.childrenAdd p c = some t') : SameTiming t t' := by
  obtain ⟨s,-,h⟩ := Option.bind_eq_some_iff.mp h
  obtain ⟨t₁,ht₁,h⟩ := Option.bind_eq_some_iff.mp h
  exact (update_sameTiming ht₁ fun _ => rfl).trans (update_sameTiming h fun _ => rfl)

lemma leaveParent_sameTiming {o : Option SegPtr} (h : t.leaveParent p o = some t') :
    SameTiming t t' := by
  cases o with
  | none =>
    cases h
    exact .refl t
  | some parent =>
    obtain ⟨⟨b,t₁⟩,hremove,rfl⟩ := Option.map_eq_some_iff.mp h
    have hrem : t.childrenRemove parent p = some (b,t₁) := hremove
    obtain ⟨s,-,hrem⟩ := Option.bind_eq_some_iff.mp hrem
    obtain ⟨c,-,hrem⟩ := Option.bind_eq_some_iff.mp hrem
    split at hrem
    · cases hrem
      exact .refl t
    · obtain ⟨t₂,ht₂,hrem⟩ := Option.bind_eq_some_iff.mp hrem
      obtain ⟨t₃,ht₃,hrem⟩ := Option.bind_eq_some_iff.mp hrem
      cases hrem
      exact (update_sameTiming ht₂ fun _ => rfl).trans (update_sameTiming ht₃ fun _ => rfl)

lemma setParent_sameTiming {parent : SegPtr} {b : Bool} (h : t.setParent p (some parent) = some (b,t')) :
    SameTiming t t' := by
  obtain ⟨s,-,h⟩ := Option.bind_eq_some_iff.mp h
  obtain ⟨x,-,h⟩ := Option.bind_eq_some_iff.mp h
  split_ifs at h
  · cases h
    exact .refl t
  · cases h
    exact .refl t
  · obtain ⟨ancestor,-,h⟩ := Option.bind_eq_some_iff.mp h
    split_ifs at h
    · cases h
      exact .refl t
    · obtain ⟨t₁,ht₁,h⟩ := Option.bind_eq_some_iff.mp h
      obtain ⟨t₂,ht₂,h⟩ := Option.bind_eq_some_iff.mp h
      obtain ⟨t₃,ht₃,h⟩ := Option.bind_eq_some_iff.mp h
      cases h
      exact ((leaveParent_sameTiming ht₁).trans (childrenAdd_sameTiming ht₂)).trans
        (update_sameTiming ht₃ fun _ => rfl)

lemma Enqueued.sameTiming (h : Enqueued t t') : SameTiming t t' := by
  intro q
  have hq := congrArg (Option.map Segment.timing) (h.segs q)
  rw [Option.map_map,Option.map_map] at hq
  exact hq

/-! ### The calls of a run -/

end Txn

inductive TimeOp
  | start (now : ℕ) (parent : Option SegPtr) (asyncContext : Option Bytes)
  | setTiming (segment : SegPtr) (startTime duration : ℕ)
  | addMetric (segment : SegPtr) (name : Bytes) (isScoped : Bool)
  | setParent (segment parent : SegPtr)
  | discard (segment : SegPtr)
  | finish (now : ℕ) (segment : SegPtr)

namespace TimeOp

/-- The state after the call; its return value is dropped. -/
def step (t : Txn) : TimeOp → Option Txn
  | start now parent asyncContext => (t.start now parent asyncContext).map Prod.snd
  | setTiming segment startTime duration => t.setTiming segment startTime duration
  | addMetric segment name isScoped => t.addMetric segment name isScoped
  | setParent segment parent => (t.setParent segment (some parent)).map Prod.snd
  | discard segment => (t.discard segment).map Prod.snd
  | finish now segment => t.endSegment now segment

/-- Times are unsigned 64-bit numbers, a given parent is live, and the root stays without a parent. -/
def Live (t : Txn) : TimeOp → Prop
  | start now parent _ => now < 2^64 ∧ ∀ q, parent = some q → ∃ x, t.segs q = some x
  | setParent segment _ => t.segmentRoot ≠ some segment
  | finish now _ => now < 2^64
  | _ => True

/-- No segment of the contexts is discarded so that it is recorded in its parent: with metrics, in the
context of its parent and without a segment limit. -/
def LeavesFree (contexts : Set ℕ) (t : Txn) : TimeOp → Prop
  | discard segment => ∀ s p x, t.segs segment = some s → s.parent = some p → t.segs p = some x →
      s.metrics ≠ [] → t.options.maxSegments ≤ 1 → x.asyncContext = s.asyncContext →
      s.asyncContext ∉ contexts
  | _ => True

/-- A run whose calls all meet the condition `ok`. -/
inductive Run (ok : Txn → TimeOp → Prop) : Txn → List TimeOp → Txn → Prop
  | nil (t : Txn) : Run ok t [] t
  | cons {t t₁ t' : Txn} {op : TimeOp} {ops : List TimeOp} : op.Live t → ok t op →
      op.step t = some t₁ → Run ok t₁ ops t' → Run ok t (op :: ops) t'

end TimeOp

namespace Txn
open PointerTree Forest Intervals
variable {t t' : Txn} {p r : SegPtr} {contexts : Set ℕ}

/-- Records are made of discarded children, and in some contexts there is none. -/
def RecordOk (contexts : Set ℕ) (context : ℕ) (et : Option ExclusiveTime) : Prop :=
  (∃ ivs, ExclusiveTime.RecordedBy et ivs) ∧ (context ∈ contexts → et = none)

structure Timed (contexts : Set ℕ) (r : SegPtr) (t : Txn) : Prop extends Inv t where
  white : ∀ q y, t.segs q = some y → y.color = .white
  stops : ∀ q y, t.segs q = some y → y.stopTime < 2^64
  records : ∀ q y, t.segs q = some y → RecordOk contexts y.asyncContext y.exclusiveTime
  isRoot : t.segmentRoot = some r
  top : ∃ x, t.segs r = some x ∧ x.parent = none ∧ x.asyncContext = 0
  limit : t.segmentHeap ≠ none → 1 < t.options.maxSegments
  discounts : t.options.discountMainContextBlocking = true

lemma recordOk_none (contexts : Set ℕ) (context : ℕ) : RecordOk contexts context none :=
  ⟨⟨[],rfl⟩,fun _ => rfl⟩

lemma Timed.of_timing (h : Timed contexts r t) (hinv : Inv t') (hsame : SameTiming t t')
    (hroot : t'.segmentRoot = t.segmentRoot) (hheap : t'.segmentHeap = t.segmentHeap)
    (hopt : t'.options = t.options)
    (htop : ∀ x x', t.segs r = some x → t'.segs r = some x' → x'.parent = x.parent) :
    Timed contexts r t' where
  toInv := hinv
  white q y' hy' := by
    obtain ⟨y,hy,htime⟩ := hsame.back hy'
    exact (congrArg Prod.fst htime).trans (h.white q y hy)
  stops q y' hy' := by
    obtain ⟨y,hy,htime⟩ := hsame.back hy'
    have hstop : y'.stopTime = y.stopTime := congrArg (fun d => d.2.2.1) htime
    rw [hstop]
    exact h.stops q y hy
  records q y' hy' := by
    obtain ⟨y,hy,htime⟩ := hsame.back hy'
    have hctx : y'.asyncContext = y.asyncContext := congrArg (fun d => d.2.1) htime
    have het : y'.exclusiveTime = y.exclusiveTime := congrArg (fun d => d.2.2.2) htime
    rw [hctx,het]
    exact h.records q y hy
  isRoot := hroot.trans h.isRoot
  top := by
    obtain ⟨x,hx,hpar,hctx⟩ := h.top
    have hr := hsame r
    rw [hx,Option.map_some] at hr
    obtain ⟨x',hx',htime⟩ := Option.map_eq_some_iff.mp hr
    refine ⟨x',hx',(htop x x' hx hx').trans hpar,?_⟩
    have hctx' : x'.asyncContext = x.asyncContext := congrArg (fun d => d.2.1) htime
    rw [hctx',hctx]
  limit := by
    rw [hheap,hopt]
    exact h.limit
  discounts := by
    rw [hopt]
    exact h.discounts

/-- Writing to a segment what the first pass reads only of its times. -/
theorem Timed.update {f : Segment → Segment} (h : Timed contexts r t) (hupd : t.update p f = some t')
    (hf : ∀ s, (f s).node = s.node ∧ (f s).txn = s.txn ∧ (f s).asyncContext = s.asyncContext)
    (hrec : ∀ s, (f s).color = s.color ∧ (f s).exclusiveTime = s.exclusiveTime)
    (hstop : ∀ s, s.stopTime < 2^64 → (f s).stopTime < 2^64) : Timed contexts r t' := by
  have hinv := h.toInv.update hupd hf
  obtain ⟨s,hs,rfl⟩ := update_eq_some hupd
  have hback : ∀ q y, (Function.update t.segs p (some (f s))) q = some y →
      (q = p ∧ y = f s) ∨ q ≠ p ∧ t.segs q = some y := by
    intro q y hy
    by_cases hq : q = p
    · subst hq
      rw [Function.update_self,Option.some_inj] at hy
      exact .inl ⟨rfl,hy.symm⟩
    · rw [Function.update_of_ne hq] at hy
      exact .inr ⟨hq,hy⟩
  refine ⟨hinv,?_,?_,?_,h.isRoot,?_,h.limit,h.discounts⟩
  · intro q y hy
    obtain ⟨rfl,rfl⟩ | ⟨-,hy⟩ := hback q y hy
    · rw [(hrec s).1]
      exact h.white q s hs
    · exact h.white q y hy
  · intro q y hy
    obtain ⟨rfl,rfl⟩ | ⟨-,hy⟩ := hback q y hy
    · exact hstop s (h.stops q s hs)
    · exact h.stops q y hy
  · intro q y hy
    obtain ⟨rfl,rfl⟩ | ⟨-,hy⟩ := hback q y hy
    · rw [(hf s).2.2,(hrec s).2]
      exact h.records q s hs
    · exact h.records q y hy
  · obtain ⟨x,hx,hpar,hctx⟩ := h.top
    by_cases hr : r = p
    · subst hr
      rw [hs,Option.some_inj] at hx
      subst hx
      have hpar' : (f s).parent = s.parent := congrArg PointerTree.Node.parent (hf s).1
      exact ⟨f s,Function.update_self ..,hpar'.trans hpar,(hf s).2.2.trans hctx⟩
    · exact ⟨x,(Function.update_of_ne hr ..).trans hx,hpar,hctx⟩

lemma Timed.setParent {parent : SegPtr} {b : Bool} (h : Timed contexts r t)
    (hroot : t.segmentRoot ≠ some p) (hset : t.setParent p (some parent) = some (b,t')) :
    Timed contexts r t' := by
  obtain ⟨x,hx,hset'⟩ := Option.bind_eq_some_iff.mp hset
  obtain ⟨s,hs,-⟩ := Option.bind_eq_some_iff.mp hset'
  have hne : r ≠ p := by
    rintro rfl
    exact hroot h.isRoot
  obtain ⟨t'',hset'',hm⟩ | hset'' := setParent_spec h.toInv hs hx
  · rw [hset,Option.some_inj,Prod.mk.injEq] at hset''
    obtain ⟨-,rfl⟩ := hset''
    refine h.of_timing hm.inv (setParent_sameTiming hset) (by rw [hm.rest]) (by rw [hm.rest])
      (by rw [hm.rest]) ?_
    intro y y' hy hy'
    rw [hm.parent r y y' hy hy',if_neg hne]
  · rw [hset,Option.some_inj,Prod.mk.injEq] at hset''
    obtain ⟨-,rfl⟩ := hset''
    exact h

/-! ### Starting -/

lemma Timed.start {now : ℕ} {parent : Option SegPtr} {asyncContext : Option Bytes}
    (h : Timed contexts r t) (hst : Started t now parent asyncContext p t')
    (hpar : ∀ q, parent = some q → ∃ x, t.segs q = some x) : Timed contexts r t' := by
  have hlive : ∀ q, t.effectiveParent parent asyncContext = some q → ∃ x, t.segs q = some x :=
    fun q hq => h.effectiveParent_live hpar hq
  obtain ⟨ix,hborn⟩ := hst.born
  have hrest := hst.rest
  -- a segment is new, or it was there and has the same times
  have hback : ∀ q y', t'.segs q = some y' → (q = p ∧ y'.timing = (.white,y'.asyncContext,0,none)) ∨
      ∃ y, t.segs q = some y ∧ y'.timing = y.timing ∧ y'.parent = y.parent := by
    intro q y' hy'
    by_cases hqp : q = p
    · subst hqp
      rw [hborn,Option.some_inj] at hy'
      subst hy'
      exact .inl ⟨rfl,rfl⟩
    right
    by_cases heff : t.effectiveParent parent asyncContext = some q
    · obtain ⟨y,hy⟩ := hlive q heff
      obtain ⟨y'',hy'',hsame,-⟩ := hst.below q y heff hy
      rw [hy',Option.some_inj] at hy''
      subst hy''
      exact ⟨y,hy,by rw [hsame]; rfl,by rw [hsame]⟩
    · rw [hst.other q hqp heff] at hy'
      exact ⟨y',hy',rfl,rfl⟩
  refine ⟨hst.inv h.toInv hpar,?_,?_,?_,(congrArg Txn.segmentRoot hrest).trans h.isRoot,?_,?_,?_⟩
  · intro q y' hy'
    obtain ⟨-,htime⟩ | ⟨y,hy,htime,-⟩ := hback q y' hy'
    · exact congrArg Prod.fst htime
    · exact (congrArg Prod.fst htime).trans (h.white q y hy)
  · intro q y' hy'
    have hstop : ∀ {d}, y'.timing = d → y'.stopTime = d.2.2.1 := fun hd => congrArg (fun d => d.2.2.1) hd
    obtain ⟨-,htime⟩ | ⟨y,hy,htime,-⟩ := hback q y' hy'
    · rw [hstop htime]
      exact Nat.two_pow_pos 64
    · rw [hstop htime]
      exact h.stops q y hy
  · intro q y' hy'
    obtain ⟨-,htime⟩ | ⟨y,hy,htime,-⟩ := hback q y' hy'
    · have het : y'.exclusiveTime = none := congrArg (fun d => d.2.2.2) htime
      rw [het]
      exact recordOk_none contexts _
    · have hctx : y'.asyncContext = y.asyncContext := congrArg (fun d => d.2.1) htime
      have het : y'.exclusiveTime = y.exclusiveTime := congrArg (fun d => d.2.2.2) htime
      rw [hctx,het]
      exact h.records q y hy
  · obtain ⟨x,hx,hnone,hctx⟩ := h.top
    have hne : r ≠ p := by
      rintro rfl
      rw [hst.fresh] at hx
      cases hx
    by_cases heff : t.effectiveParent parent asyncContext = some r
    · obtain ⟨x',hx',hsame,-⟩ := hst.below r x heff hx
      exact ⟨x',hx',by rw [hsame]; exact hnone,by rw [hsame]; exact hctx⟩
    · exact ⟨x,(hst.other r hne heff).trans hx,hnone,hctx⟩
  · rw [congrArg Txn.segmentHeap hrest,congrArg Txn.options hrest]
    exact h.limit
  · rw [congrArg Txn.options hrest]
    exact h.discounts

/-! ### Discarding -/

/-- A child that is recorded, or refused, leaves a record. -/
theorem RecordOk.merge {s x : Segment} (h : RecordOk contexts x.asyncContext x.exclusiveTime)
    {maxSegments : ℕ} (hfree : maxSegments ≤ 1 → x.asyncContext = s.asyncContext →
      s.asyncContext ∉ contexts) :
    RecordOk contexts x.asyncContext (mergedTime maxSegments s x) := by
  unfold mergedTime recordedTime
  split_ifs with hskip hctx
  · exact h
  · have hlimit : maxSegments ≤ 1 := by
      by_contra hlt
      exact hskip (.inr (by omega))
    refine ⟨?_,fun hmem => absurd (hctx ▸ hmem) (hfree hlimit hctx)⟩
    obtain ⟨⟨ivs,hivs⟩,-⟩ := h
    have hrec := ExclusiveTime.recorded_ensure hivs x.children.size x.startTime x.stopTime
    have hroom : ((ExclusiveTime.ensure x.exclusiveTime x.children.size x.startTime
        x.stopTime).addChild s.startTime s.stopTime).1 = true ∨
        ((ExclusiveTime.ensure x.exclusiveTime x.children.size x.startTime
        x.stopTime).addChild s.startTime s.stopTime).2 =
          ExclusiveTime.ensure x.exclusiveTime x.children.size x.startTime x.stopTime := by
      unfold ExclusiveTime.addChild
      split_ifs
      · exact .inr rfl
      · exact .inr rfl
      · exact .inl rfl
    obtain haccept | hrefuse := hroom
    · obtain ⟨hfits,hle⟩ := (ExclusiveTime.addChild_accepts_iff s.startTime s.stopTime).mp haccept
      refine ⟨ivs ++ [(s.startTime,s.stopTime)],?_⟩
      rw [ExclusiveTime.addChild_eq hfits,if_pos hle]
      exact ExclusiveTime.recorded_feed hrec (by simpa using hle)
    · rw [hrefuse]
      exact ⟨ivs,hrec⟩
  · exact h

lemma Timed.discarded {c : SegPtr} {s : Segment} (h : Timed contexts r t) (hs : t.segs c = some s)
    (hpar : s.parent = some p) (hd : Discarded t c p s t')
    (hok : (TimeOp.discard c).LeavesFree contexts t) : Timed contexts r t' := by
  have hback : ∀ q y', t'.segs q = some y' → ∃ y, t.segs q = some y ∧ y'.fixed = y.fixed ∧
      y'.exclusiveTime = if q = p ∧ s.metrics ≠ [] then mergedTime t.options.maxSegments s y
        else y.exclusiveTime := by
    intro q y' hy'
    obtain ⟨hqc,y,hy,hfix⟩ := hd.back hy'
    obtain ⟨y'',hy'',-,-,-,het⟩ := hd.kept q y hqc hy
    rw [hy',Option.some_inj] at hy''
    subst hy''
    exact ⟨y,hy,hfix,het⟩
  have hrest := hd.rest
  refine ⟨hd.inv h.toInv hs hpar,?_,?_,?_,(congrArg Txn.segmentRoot hrest).trans h.isRoot,?_,?_,?_⟩
  · intro q y' hy'
    obtain ⟨y,hy,hfix,-⟩ := hback q y' hy'
    exact (Segment.eq_of_fixed Segment.color (fun _ => rfl) hfix).trans (h.white q y hy)
  · intro q y' hy'
    obtain ⟨y,hy,hfix,-⟩ := hback q y' hy'
    rw [Segment.eq_of_fixed Segment.stopTime (fun _ => rfl) hfix]
    exact h.stops q y hy
  · intro q y' hy'
    obtain ⟨y,hy,hfix,het⟩ := hback q y' hy'
    rw [Segment.eq_of_fixed Segment.asyncContext (fun _ => rfl) hfix,het]
    split_ifs with hmerge
    · obtain ⟨rfl,hmet⟩ := hmerge
      exact (h.records q y hy).merge (hok s q y hs hpar hy hmet)
    · exact h.records q y hy
  · obtain ⟨x,hx,hnone,hctx⟩ := h.top
    have hrc : r ≠ c := by
      rintro rfl
      rw [hs,Option.some_inj] at hx
      rw [hx,hnone] at hpar
      cases hpar
    obtain ⟨x',hx',hfix,hpar',-⟩ := hd.kept r x hrc hx
    refine ⟨x',hx',?_,(Segment.eq_of_fixed Segment.asyncContext (fun _ => rfl) hfix).trans hctx⟩
    rw [hpar',hnone,if_neg (by simp)]
  · rw [congrArg Txn.segmentHeap hrest,congrArg Txn.options hrest]
    exact h.limit
  · rw [congrArg Txn.options hrest]
    exact h.discounts

lemma Timed.discard {c : SegPtr} {b : Bool} (h : Timed contexts r t)
    (hok : (TimeOp.discard c).LeavesFree contexts t) (hdis : t.discard c = some (b,t')) :
    Timed contexts r t' ∧ t'.options = t.options := by
  obtain ⟨s,hs,-⟩ := Option.bind_eq_some_iff.mp hdis
  cases hpar : s.parent with
  | none =>
    rw [discard_parentless hs hpar,Option.some_inj,Prod.mk.injEq] at hdis
    obtain ⟨-,rfl⟩ := hdis
    exact ⟨h,rfl⟩
  | some p =>
    obtain ⟨t'',hdis',hd⟩ := discard_spec h.toInv hs hpar
    rw [hdis,Option.some_inj,Prod.mk.injEq] at hdis'
    obtain ⟨-,rfl⟩ := hdis'
    exact ⟨h.discarded hs hpar hd hok,by rw [hd.rest]⟩

/-! ### Ending -/

lemma timeDuration_lt {start stop : ℕ} (h : stop < 2^64) : timeDuration start stop < 2^64 := by
  rw [timeDuration_eq]
  omega

lemma Timed.retired {now : ℕ} (h : Timed contexts r t) (h64 : now < 2^64)
    (hret : t.endRetire now p = some t') : Timed contexts r t' ∧ t'.segmentHeap = t.segmentHeap ∧
      t'.options = t.options := by
  obtain ⟨t₁,hupd,hret⟩ := Option.bind_eq_some_iff.mp hret
  have h₁ : Timed contexts r t₁ := by
    refine h.update hupd (fun _ => ⟨rfl,rfl,rfl⟩) (fun _ => ⟨rfl,rfl⟩) fun s hs => ?_
    simp only [stopped]
    split_ifs
    · exact timeDuration_lt h64
    · exact hs
  have hsame₁ : t₁.segmentHeap = t.segmentHeap ∧ t₁.options = t.options := by
    obtain ⟨s,-,rfl⟩ := update_eq_some hupd
    exact ⟨rfl,rfl⟩
  set t₂ : Txn := { t₁ with segmentCount := t₁.segmentCount+1 } with ht₂
  have h₂ : Timed contexts r t₂ := by
    refine h₁.of_timing (h₁.congr (fun _ => rfl) rfl rfl (fun _ => rfl) rfl rfl) (.refl t₁) rfl rfl rfl ?_
    intro x x' hx hx'
    rw [show t₁.segs r = some x' from hx',Option.some_inj] at hx
    rw [hx]
  obtain ⟨s,hs,-⟩ := Option.bind_eq_some_iff.mp hret
  obtain ⟨t₃,hret',henq⟩ := retireCurrentSegment_spec hs fun q hq => by
    obtain ⟨x,hx,-⟩ := h₂.parent_live hs hq
    exact ⟨x,hx⟩
  have hsegs : (t₂.unstack s.asyncContext p).segs = t₂.segs := segs_unstack ..
  rw [hret,Option.some_inj] at hret'
  subst hret'
  have hheap : t'.segmentHeap = t₂.segmentHeap := by rw [henq.rest,unstack_rest]
  have hopt : t'.options = t₂.options := by rw [henq.rest,unstack_rest]
  refine ⟨?_,hheap.trans hsame₁.1,hopt.trans hsame₁.2⟩
  refine h₂.of_timing (henq.inv (h₂.unstack hs)) (fun q => (henq.sameTiming q).trans (by rw [hsegs]))
    (by rw [henq.rest,unstack_rest]) hheap hopt ?_
  intro x x' hx hx'
  rw [← hsegs] at hx
  obtain ⟨x'',hx'',hid⟩ := henq.some hx
  rw [hx',Option.some_inj] at hx''
  rw [hx'',hid]

lemma Timed.endSegment {now : ℕ} (h : Timed contexts r t) (h64 : now < 2^64)
    (hend : t.endSegment now p = some t') : Timed contexts r t' := by
  rw [endSegment_eq] at hend
  obtain ⟨t₁,hret,hend⟩ := Option.bind_eq_some_iff.mp hend
  obtain ⟨h₁,-⟩ := h.retired h64 hret
  cases hheap : t₁.segmentHeap with
  | none =>
    rw [hheap] at hend
    obtain rfl := Option.some_inj.mp hend
    exact h₁
  | some heap =>
    have hlimit : 1 < t₁.options.maxSegments := h₁.limit (by simp [hheap])
    rw [hheap] at hend
    obtain ⟨⟨heap',t₂⟩,hins,rfl⟩ := Option.map_eq_some_iff.mp hend
    have h₂ : Timed contexts r t₂ ∧ t₂.options = t₁.options := by
      obtain rfl | ⟨x,hx⟩ := MinmaxHeap.insert_state hins
      · exact ⟨h₁,rfl⟩
      -- a heap means a limit, and with a limit nothing is recorded
      · obtain ⟨⟨b,t₃⟩,hdis,hx⟩ := Option.bind_eq_some_iff.mp hx
        obtain ⟨h₃,hopt⟩ := h₁.discard
          (fun _ _ _ _ _ _ _ hle => absurd hle (not_le.mpr hlimit)) hdis
        cases b with
        | false =>
          obtain rfl := Option.some_inj.mp hx
          exact ⟨h₃,hopt⟩
        | true =>
          obtain rfl := Option.some_inj.mp hx
          refine ⟨h₃.of_timing (h₃.congr (fun _ => rfl) rfl rfl (fun _ => rfl) rfl rfl) (.refl t₃) rfl
            rfl rfl ?_,hopt⟩
          intro x x' hx hx'
          rw [show t₃.segs r = some x' from hx',Option.some_inj] at hx
          rw [hx]
    obtain ⟨h₂,hopt⟩ := h₂
    refine ⟨h₂.congr (fun _ => rfl) rfl rfl (fun _ => rfl) rfl rfl,h₂.white,h₂.stops,h₂.records,h₂.isRoot,
      h₂.top,fun _ => ?_,h₂.discounts⟩
    exact hopt ▸ hlimit

/-! ### Runs -/

/-- One call keeps what the first pass asks for. -/
theorem Timed.step {op : TimeOp} (h : Timed contexts r t) (hlive : op.Live t)
    (hok : op.LeavesFree contexts t) (hstep : op.step t = some t') : Timed contexts r t' := by
  cases op with
  | start now parent asyncContext =>
    obtain ⟨⟨o,t₁⟩,hstart,rfl⟩ := Option.map_eq_some_iff.mp hstep
    by_cases hrec : t.recording = true
    · obtain ⟨p,t₂,hstart',hst⟩ := start_spec h.toStore hrec now parent asyncContext hlive.2
      rw [hstart,Option.some_inj,Prod.mk.injEq] at hstart'
      obtain ⟨-,rfl⟩ := hstart'
      exact h.start hst hlive.2
    · have hsame : t.start now parent asyncContext = some (none,t) := by simp [Txn.start,hrec]
      rw [hstart,Option.some_inj,Prod.mk.injEq] at hsame
      obtain ⟨-,rfl⟩ := hsame
      exact h
  | setTiming segment startTime duration =>
    exact h.update hstep (fun _ => ⟨rfl,rfl,rfl⟩) (fun _ => ⟨rfl,rfl⟩)
      fun _ _ => Nat.mod_lt _ (Nat.two_pow_pos 64)
  | addMetric segment name isScoped =>
    exact h.update hstep (fun _ => ⟨rfl,rfl,rfl⟩) (fun _ => ⟨rfl,rfl⟩) fun _ hs => hs
  | setParent segment parent =>
    obtain ⟨⟨b,t₁⟩,hset,rfl⟩ := Option.map_eq_some_iff.mp hstep
    exact h.setParent hlive hset
  | discard segment =>
    obtain ⟨⟨b,t₁⟩,hdis,rfl⟩ := Option.map_eq_some_iff.mp hstep
    exact (h.discard hok hdis).1
  | finish now segment => exact h.endSegment hlive hstep

lemma Timed.run {ops : List TimeOp} (hrun : TimeOp.Run (TimeOp.LeavesFree contexts) t ops t')
    (h : Timed contexts r t) : Timed contexts r t' := by
  induction hrun with
  | nil t => exact h
  | cons hlive hok hstep _ ih => exact ih (h.step hlive hok hstep)

lemma begin_timed {self absStartTime now : ℕ} {options : TxnOptions} {dt : Option DistributedTrace}
    {spanQueue : Bool} {guids : ℕ → Bytes} (hopt : options.discountMainContextBlocking = true)
    (h : begin self absStartTime now options dt spanQueue guids = some t) (contexts : Set ℕ) :
    Timed contexts 1 t := by
  obtain ⟨t',h',hinv,hsegs,hroot,-,hoptions,-,-,hheap⟩ :=
    begin_spec self absStartTime now options dt spanQueue guids
  rw [h,Option.some_inj] at h'
  subst h'
  have hone : ∀ q y, t.segs q = some y → q = 1 ∧ y = { Segment.zero with
      txn := self, priority := priorityRoot } := by
    intro q y hy
    rw [hsegs] at hy
    by_cases hq : q = 1
    · subst hq
      rw [Function.update_self,Option.some_inj] at hy
      exact ⟨rfl,hy.symm⟩
    · rw [Function.update_of_ne hq] at hy
      cases hy
  refine ⟨hinv,?_,?_,?_,hroot,⟨_,by rw [hsegs]; exact Function.update_self ..,rfl,rfl⟩,?_,hoptions ▸ hopt⟩
  · intro q y hy
    rw [(hone q y hy).2]
    rfl
  · intro q y hy
    rw [(hone q y hy).2]
    exact Nat.two_pow_pos 64
  · intro q y hy
    rw [(hone q y hy).2]
    exact recordOk_none contexts 0
  · rw [hheap,hoptions]
    split_ifs with hlt
    · exact fun _ => hlt
    · exact fun h => absurd rfl h

/-- What has been recorded for a segment. -/
theorem Timed.recording (h : Timed contexts r t) : ∃ rec, t.Recording r rec := by
  have hsome : ∀ q, ∃ ivs, ∀ y, t.segs q = some y → y.RecordedAs ivs := by
    intro q
    cases hq : t.segs q with
    | none => exact ⟨[],fun _ hy => by cases hy⟩
    | some y =>
      obtain ⟨ivs,hivs⟩ := (h.records q y hq).1
      refine ⟨ivs,fun y' hy' => ?_⟩
      rw [← Option.some_inj.mp hy']
      exact hivs
  obtain ⟨rec,hrec⟩ := Classical.skolem.mp hsome
  exact ⟨rec,fun q y _ hy => hrec q y hy⟩

lemma Timed.unrecorded (h : Timed contexts r t) {rec : SegPtr → List (ℕ × ℕ)} (hrec : t.Recording r rec)
    {q : SegPtr} {y : Segment} (hq : t.InTree r q) (hy : t.segs q = some y)
    (hctx : y.asyncContext ∈ contexts) : rec q = [] := by
  have hnone := (h.records q y hy).2 hctx
  have hrecq := hrec q y hq hy
  rwa [Segment.RecordedAs,hnone] at hrecq

/-- After any run the subtraction of the blocked time is in range exactly when asynchronous segments
cover no more ticks than segments have to themselves. It is whenever no discarded segment has been recorded
in an asynchronous segment, and whenever none has been in the main context with a root that starts with
the transaction, as long as the total time does not overflow. -/
theorem finalise_blocked_iff {self absStartTime now : ℕ} {options : TxnOptions}
    {dt : Option DistributedTrace} {spanQueue : Bool} {guids : ℕ → Bytes} {t₀ : Txn} {ops : List TimeOp}
    (hopt : options.discountMainContextBlocking = true)
    (hbegin : begin self absStartTime now options dt spanQueue guids = some t₀) (contexts : Set ℕ)
    (hrun : TimeOp.Run (TimeOp.LeavesFree contexts) t₀ ops t) :
    ∃ x f, t.segmentRoot = some 1 ∧ t.segs 1 = some x ∧ Spans t.kids [1] f ∧ (∃ rec, t.Recording 1 rec) ∧
      ∀ rec, t.Recording 1 rec → ∀ traceLimit spanLimit,
        (t.NoUnderflow traceLimit spanLimit ↔
          (t.blockedTicks f.toList (timeDuration x.startTime x.stopTime)).card ≤
            (f.toList.map fun q => (t.ownTicks rec q).card).sum%2^64) ∧
        ((f.toList.map fun q => (t.ownTicks rec q).card).sum < 2^64 →
          {0}ᶜ ⊆ contexts ∨ 0 ∈ contexts ∧ x.startTime = 0 → t.NoUnderflow traceLimit spanLimit) := by
  have h := (begin_timed hopt hbegin contexts).run hrun
  obtain ⟨x,hx,hpar,hctx⟩ := h.top
  have hcol : ∀ q, t.InTree 1 q → t.color q = some x.color := by
    intro q hq
    obtain ⟨y,hy⟩ := hq.live hx
    rw [color,hy,Option.map_some,h.white q y hy,h.white 1 x hx]
  obtain ⟨f,hspan,-,hmem,-⟩ := treeToHeap_spec h.toInv hx hpar hcol
  refine ⟨x,f,h.isRoot,hx,hspan,h.recording,fun rec hrec traceLimit spanLimit => ⟨?_,?_⟩⟩
  · exact noUnderflow_iff h.toInv h.isRoot hx hpar hcol hrec (h.stops 1 x hx) h.discounts hspan _ _
  · intro hsum hfree
    refine noUnderflow_of_free h.toInv h.isRoot hx hpar hcol hrec (h.stops 1 x hx) h.discounts hspan hsum
      ?_ _ _
    obtain hasync | ⟨hmain,hstart⟩ := hfree
    · exact .inl fun q hq y hy hne => h.unrecorded hrec ((hmem q).mp hq) hy (hasync hne)
    · refine .inr ⟨fun q hq y hy hzero => ?_,hctx,hstart⟩
      exact h.unrecorded hrec ((hmem q).mp hq) hy (hzero ▸ hmain)

/-- An asynchronous segment from 4 to 6, and a discarded child of the root from 0 to 4. -/
theorem finalise_blocked_iff_discard :
    ∃ t₀ t, begin 1 0 0 ⟨0,true,0,false,false⟩ none false (fun _ => []) = some t₀ ∧
      TimeOp.Run (TimeOp.LeavesFree {0}ᶜ) t₀
        [.start 0 (some 1) none,.addMetric 2 (ascii "Custom/main") true,.setTiming 2 0 4,
          .start 0 (some 1) (some (ascii "a")),.setTiming 3 4 2,.setTiming 1 0 10,.finish 10 2,
          .finish 10 3,.discard 2] t ∧
      ∃ x f, t.segmentRoot = some 1 ∧ t.segs 1 = some x ∧ Spans t.kids [1] f ∧
        (∃ rec, t.Recording 1 rec) ∧ ∀ rec, t.Recording 1 rec →
          (f.toList.map fun q => (t.ownTicks rec q).card).sum < 2^64 → t.NoUnderflow 2 2 := by
  have hrun : ∃ t₀ t, begin 1 0 0 ⟨0,true,0,false,false⟩ none false (fun _ => []) = some t₀ ∧
      TimeOp.Run (TimeOp.LeavesFree {0}ᶜ) t₀
        [.start 0 (some 1) none,.addMetric 2 (ascii "Custom/main") true,.setTiming 2 0 4,
          .start 0 (some 1) (some (ascii "a")),.setTiming 3 4 2,.setTiming 1 0 10,.finish 10 2,
          .finish 10 3,.discard 2] t := by
    refine ⟨_,_,rfl,.cons ⟨?_,?_⟩ trivial rfl (.cons trivial trivial rfl (.cons trivial trivial rfl
      (.cons ⟨?_,?_⟩ trivial rfl (.cons trivial trivial rfl (.cons trivial trivial rfl
        (.cons ?_ trivial rfl (.cons ?_ trivial rfl (.cons trivial ?_ rfl (.nil _)))))))))⟩
    · decide
    · intro q hq
      cases hq
      exact ⟨_,rfl⟩
    · decide
    · intro q hq
      cases hq
      exact ⟨_,rfl⟩
    · exact (by decide : 10 < 2^64)
    · exact (by decide : 10 < 2^64)
    · intro s p x hs _ _ _ _ _ hmem
      cases hs
      exact hmem rfl
  obtain ⟨t₀,t,hbegin,hrun⟩ := hrun
  obtain ⟨x,f,hroot,hx,hspan,hrec,hall⟩ := finalise_blocked_iff rfl hbegin {0}ᶜ hrun
  exact ⟨t₀,t,hbegin,hrun,x,f,hroot,hx,hspan,hrec,fun rec h hsum => (hall rec h 2 2).2 hsum (.inl le_rfl)⟩

/-- An asynchronous segment loses all its ticks to a discarded child of its own context, and the root
loses them to one in the main context: the blocked time is 10, the total time 0. -/
theorem finalise_underflows :
    ∃ t₀ t, begin 1 0 0 ⟨0,true,0,false,false⟩ none false (fun _ => []) = some t₀ ∧
      TimeOp.Run (TimeOp.LeavesFree ∅) t₀
        [.start 0 (some 1) none,.addMetric 2 (ascii "Custom/main") true,.setTiming 2 0 10,
          .start 0 (some 1) (some (ascii "a")),.setTiming 3 0 10,.start 0 (some 3) (some (ascii "a")),
          .addMetric 4 (ascii "Custom/child") true,.setTiming 4 0 10,.setTiming 1 0 10,.finish 10 2,
          .finish 10 4,.finish 10 3,.discard 2,.discard 4] t ∧ ¬ t.NoUnderflow 2 2 := by
  have hrun : ∃ t₀ t w et, begin 1 0 0 ⟨0,true,0,false,false⟩ none false (fun _ => []) = some t₀ ∧
      TimeOp.Run (TimeOp.LeavesFree ∅) t₀
        [.start 0 (some 1) none,.addMetric 2 (ascii "Custom/main") true,.setTiming 2 0 10,
          .start 0 (some 1) (some (ascii "a")),.setTiming 3 0 10,.start 0 (some 3) (some (ascii "a")),
          .addMetric 4 (ascii "Custom/child") true,.setTiming 4 0 10,.setTiming 1 0 10,.finish 10 2,
          .finish 10 4,.finish 10 3,.discard 2,.discard 4] t ∧
      t.duration? = some 10 ∧ t.firstPass (t.samplingPlan 2 2 10) 2 2 10 = some w ∧
      w.2.mainContext = some et ∧ mainBlocked et 10 = 10 ∧ w.2.totalTime = 0 := by
    refine ⟨_,_,_,_,rfl,.cons ⟨?_,?_⟩ trivial rfl (.cons trivial trivial rfl (.cons trivial trivial rfl
      (.cons ⟨?_,?_⟩ trivial rfl (.cons trivial trivial rfl (.cons ⟨?_,?_⟩ trivial rfl
        (.cons trivial trivial rfl (.cons trivial trivial rfl (.cons trivial trivial rfl
          (.cons ?_ trivial rfl (.cons ?_ trivial rfl (.cons ?_ trivial rfl (.cons trivial ?_ rfl
            (.cons trivial ?_ rfl (.nil _)))))))))))))),rfl,rfl,rfl,rfl,rfl⟩
    · decide
    · intro q hq
      cases hq
      exact ⟨_,rfl⟩
    · decide
    · intro q hq
      cases hq
      exact ⟨_,rfl⟩
    · decide
    · intro q hq
      cases hq
      exact ⟨_,rfl⟩
    · exact (by decide : 10 < 2^64)
    · exact (by decide : 10 < 2^64)
    · exact (by decide : 10 < 2^64)
    · exact fun _ _ _ _ _ _ _ _ _ => Set.notMem_empty _
    · exact fun _ _ _ _ _ _ _ _ _ => Set.notMem_empty _
  obtain ⟨t₀,t,w,et,hbegin,hrun,hdur,hpass,hmain,hblocked,htotal⟩ := hrun
  refine ⟨t₀,t,hbegin,hrun,?_⟩
  rintro ⟨duration,w',et',hdur',hpass',hmain',hle⟩
  rw [hdur] at hdur'
  cases hdur'
  rw [hpass] at hpass'
  cases hpass'
  rw [hmain] at hmain'
  cases hmain'
  omega

end Txn
end PhpAgent

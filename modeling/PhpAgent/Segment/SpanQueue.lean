import PhpAgent.Segment.EndSegment

/-! What retiring, discarding and ending a segment add to the span queue. -/
namespace PhpAgent
namespace Txn
open MinmaxHeap
variable {t t' : Txn} {p : SegPtr} {s : Segment}

/-- The number of span events that were pushed to the queue. -/
def queued (t : Txn) : ℕ := (t.spanQueue.map List.length).getD 0

/-- `nr_segment_to_span_event` makes an event of the segment. -/
def Spannable (t : Txn) (s : Segment) : Prop :=
  s.stopTime ≠ 0 ∧ s.startTime ≤ s.stopTime ∧ (s.id ≠ none ∨ t.shouldCreateSpanEvents = true)

instance (t : Txn) (s : Segment) : Decidable (t.Spannable s) := by
  unfold Spannable
  infer_instance

/-- What a segment adds to the queue when it is retired. -/
def contributes (t : Txn) (s : Segment) : ℕ :=
  if t.spanQueue.isSome = true ∧ s.name ≠ 0 ∧ t.Spannable s then 1 else 0

lemma contributes_le (t : Txn) (s : Segment) : t.contributes s ≤ 1 := by
  unfold contributes
  split_ifs <;> decide

lemma contributes_unnamed (h : s.name = 0) : t.contributes s = 0 := by
  simp [contributes,h]

/-! ### Retiring -/

lemma update_spanQueue {f : Segment → Segment} (h : t.update p f = some t') :
    t'.spanQueue = t.spanQueue := by
  obtain ⟨s,-,rfl⟩ := update_eq_some h
  rfl

lemma ensureId_queue (hs : t.segs p = some s) {id : Option Bytes} (h : t.ensureId p = some (id,t')) :
    t'.spanQueue = t.spanQueue ∧ (id ≠ none ↔ s.id ≠ none ∨ t.shouldCreateSpanEvents = true) := by
  simp only [ensureId,hs,Option.bind_eq_bind,Option.bind_some] at h
  split_ifs at h with hcreate
  · rw [update_eq (t := { t with guidsUsed := t.guidsUsed+1 }) hs] at h
    obtain ⟨rfl,rfl⟩ := Prod.mk.inj (Option.some_inj.mp h)
    simp [hcreate.2]
  · obtain ⟨rfl,rfl⟩ := Prod.mk.inj (Option.some_inj.mp h)
    refine ⟨rfl,?_⟩
    by_cases hid : s.id = none
    · have hno : t.shouldCreateSpanEvents ≠ true := fun hyes => hcreate ⟨hid,hyes⟩
      simp [hid,hno]
    · simp [hid]

lemma toSpanEvent_queue (hs : t.segs p = some s)
    (hpar : ∀ q, s.parent = some q → ∃ x, t.segs q = some x) {e : Option SpanEvent}
    (h : t.toSpanEvent p = some (e,t')) :
    t'.spanQueue = t.spanQueue ∧ (e ≠ none ↔ t.Spannable s) := by
  simp only [toSpanEvent,hs,Option.bind_eq_bind,Option.bind_some] at h
  unfold Spannable
  split_ifs at h with hstop
  · obtain ⟨rfl,rfl⟩ := Prod.mk.inj (Option.some_inj.mp h)
    refine ⟨rfl,?_⟩
    rcases hstop with hstop | hstop
    · simp [hstop]
    · simp [not_le.mpr hstop]
  rw [not_or,not_lt] at hstop
  obtain ⟨id,t₁,hid,he⟩ := ensureId_spec hs
  obtain ⟨hq₁,hsome⟩ := ensureId_queue hs hid
  simp only [hid,Option.bind_some] at h
  split_ifs at h with hnone
  · obtain ⟨rfl,rfl⟩ := Prod.mk.inj (Option.some_inj.mp h)
    have hno := mt hsome.mpr (not_not.mpr hnone)
    exact ⟨hq₁,by simp [hno]⟩
  have hyes := hsome.mp hnone
  cases hp : s.parent with
  | none =>
    simp only [hp] at h
    obtain ⟨rfl,rfl⟩ := Prod.mk.inj (Option.some_inj.mp h)
    exact ⟨hq₁,by simp [hstop,hyes]⟩
  | some q =>
    obtain ⟨x,hx⟩ := hpar q hp
    obtain ⟨x',hx',-⟩ := he.some hx
    obtain ⟨id',t₂,hid',-⟩ := ensureId_spec hx'
    simp only [hp,hid',Option.bind_some] at h
    obtain ⟨rfl,rfl⟩ := Prod.mk.inj (Option.some_inj.mp h)
    exact ⟨(ensureId_queue hx' hid').1.trans hq₁,by simp [hstop,hyes]⟩

/-- The queue grew by `n` events. -/
structure Grew (n : ℕ) (t t' : Txn) : Prop where
  queued : t'.queued = t.queued+n
  isSome : t'.spanQueue.isSome = t.spanQueue.isSome

lemma Grew.of_eq (h : t'.spanQueue = t.spanQueue) : Grew 0 t t' :=
  ⟨by simp [Txn.queued,h],by rw [h]⟩

lemma Grew.trans {m n : ℕ} {t'' : Txn} (h : Grew m t t') (h' : Grew n t' t'') :
    Grew (m+n) t t'' :=
  ⟨by rw [h'.queued,h.queued,Nat.add_assoc],h'.isSome.trans h.isSome⟩

lemma enqueueSpan_grew (hs : t.segs p = some s)
    (hpar : ∀ q, s.parent = some q → ∃ x, t.segs q = some x) (h : t.enqueueSpan p = some t') :
    Grew (t.contributes s) t t' := by
  simp only [enqueueSpan,hs,Option.bind_eq_bind,Option.bind_some] at h
  cases hq : t.spanQueue with
  | none =>
    simp only [hq] at h
    cases h
    have hzero : t.contributes s = 0 := by simp [contributes,hq]
    exact hzero ▸ Grew.of_eq rfl
  | some q =>
    simp only [hq] at h
    split_ifs at h with hname
    · cases h
      exact contributes_unnamed hname ▸ Grew.of_eq rfl
    obtain ⟨e,t₁,he,-⟩ := toSpanEvent_spec hs hpar
    obtain ⟨hq₁,hspan⟩ := toSpanEvent_queue hs hpar he
    simp only [he,Option.bind_some] at h
    cases e with
    | none =>
      cases h
      have hno : ¬ t.Spannable s := fun hyes => hspan.mpr hyes rfl
      have hzero : t.contributes s = 0 := by simp [contributes,hno]
      exact hzero ▸ Grew.of_eq hq₁
    | some e =>
      cases h
      have hyes := hspan.mp (Option.some_ne_none e)
      have hone : t.contributes s = 1 := by simp [contributes,hq,hname,hyes]
      rw [hone]
      exact ⟨by simp [Txn.queued,hq],by simp [hq]⟩

lemma retireCurrentSegment_grew (hs : t.segs p = some s)
    (hpar : ∀ q, s.parent = some q → ∃ x, t.segs q = some x)
    (h : t.retireCurrentSegment p = some t') : Grew (t.contributes s) t t' := by
  simp only [retireCurrentSegment,hs,Option.bind_eq_bind,Option.bind_some] at h
  have hsegs : (t.unstack s.asyncContext p).segs = t.segs := segs_unstack ..
  have hgrew := enqueueSpan_grew (s := s) (by rw [hsegs]; exact hs) (by rw [hsegs]; exact hpar) h
  rw [unstack_rest] at hgrew
  exact ⟨hgrew.queued,hgrew.isSome⟩

/-! ### Discarding -/

lemma addMetrics_spanQueue (t : Txn) (metrics : List SegmentMetric) (d e : ℕ) :
    (t.addMetrics metrics d e).spanQueue = t.spanQueue := by
  rw [addMetrics_rest]

lemma writeExclusiveTime_spanQueue {exclusive : ℕ} (et : Option ExclusiveTime) (h : (match et with
      | none => some (timeDuration s.startTime s.stopTime,t)
      | some et => (t.update p fun s => { s with exclusiveTime := some et.calculate.2 }).bind
          fun t => some (et.calculate.1,t)) = some (exclusive,t')) : t'.spanQueue = t.spanQueue := by
  cases et with
  | none =>
    cases h
    rfl
  | some et =>
    obtain ⟨t₁,hupd,h⟩ := Option.bind_eq_some_iff.mp h
    cases h
    exact update_spanQueue hupd

lemma discardedExclusiveTime_spanQueue {exclusive : ℕ}
    (h : t.discardedExclusiveTime p s = some (exclusive,t')) : t'.spanQueue = t.spanQueue := by
  simp only [discardedExclusiveTime,Option.bind_eq_bind] at h
  split_ifs at h
  · exact writeExclusiveTime_spanQueue _ h
  · obtain ⟨et,-,h⟩ := Option.bind_eq_some_iff.mp h
    exact writeExclusiveTime_spanQueue et h

lemma recordChild_spanQueue (h : t.recordChild p s = some t') : t'.spanQueue = t.spanQueue := by
  simp only [recordChild,Option.bind_eq_bind,Option.bind_eq_some_iff] at h
  obtain ⟨x,-,h⟩ := h
  split_ifs at h
  · exact update_spanQueue h
  · cases h
    rfl

lemma discardMergeMetrics_spanQueue (h : t.discardMergeMetrics p = some t') :
    t'.spanQueue = t.spanQueue := by
  simp only [discardMergeMetrics,Option.bind_eq_bind,Option.bind_eq_some_iff] at h
  obtain ⟨s,-,h⟩ := h
  cases hpar : s.parent with
  | none =>
    simp only [hpar] at h
    cases h
    rfl
  | some q =>
    simp only [hpar] at h
    split_ifs at h
    · cases h
      rfl
    · cases h
      exact addMetrics_spanQueue ..
    · obtain ⟨⟨exclusive,t₁⟩,htime,h⟩ := Option.bind_eq_some_iff.mp h
      obtain ⟨t₂,hrec,h⟩ := Option.bind_eq_some_iff.mp h
      cases h
      rw [addMetrics_spanQueue,recordChild_spanQueue hrec]
      exact discardedExclusiveTime_spanQueue htime

lemma childrenRemove_spanQueue {q : SegPtr} {b : Bool} (h : t.childrenRemove q p = some (b,t')) :
    t'.spanQueue = t.spanQueue := by
  simp only [childrenRemove,Option.bind_eq_bind,Option.bind_eq_some_iff] at h
  obtain ⟨s,-,c,-,h⟩ := h
  cases hrem : s.children.remove c.childIx with
  | none =>
    simp only [hrem] at h
    cases h
    rfl
  | some r =>
    simp only [hrem] at h
    obtain ⟨t₁,h₁,h⟩ := Option.bind_eq_some_iff.mp h
    obtain ⟨t₂,h₂,h⟩ := Option.bind_eq_some_iff.mp h
    cases h
    exact (update_spanQueue h₂).trans (update_spanQueue h₁)

lemma reparentLoop_spanQueue {newParent parentSize i : ℕ} {es : List SegPtr}
    (h : reparentLoop newParent parentSize es i t = some t') : t'.spanQueue = t.spanQueue := by
  induction es generalizing t i with
  | nil =>
    cases h
    rfl
  | cons e es ih =>
    obtain ⟨t₁,h₁,h⟩ := Option.bind_eq_some_iff.mp h
    exact (ih h).trans (update_spanQueue h₁)

lemma childrenReparent_spanQueue {q : SegPtr} (h : t.childrenReparent p q = some t') :
    t'.spanQueue = t.spanQueue := by
  simp only [childrenReparent,Option.bind_eq_bind,Option.bind_eq_some_iff] at h
  obtain ⟨s,-,h⟩ := h
  split_ifs at h
  · cases h
    rfl
  · obtain ⟨n,-,h⟩ := Option.bind_eq_some_iff.mp h
    obtain ⟨t₁,h₁,h⟩ := Option.bind_eq_some_iff.mp h
    obtain ⟨t₂,h₂,h⟩ := Option.bind_eq_some_iff.mp h
    exact (update_spanQueue h).trans ((update_spanQueue h₂).trans (reparentLoop_spanQueue h₁))

/-- A discarded segment is retired, whether or not it was retired before. -/
theorem discard_grew (hinv : Inv t) {q : SegPtr} (hs : t.segs p = some s)
    (hpar : s.parent = some q) {b : Bool} (h : t.discard p = some (b,t')) :
    Grew (t.contributes s) t t' := by
  have hlive : ∀ r, s.parent = some r → ∃ x, t.segs r = some x := by
    intro r hr
    obtain ⟨x,hx,-⟩ := hinv.parent_live hs hr
    exact ⟨x,hx⟩
  rw [discard_eq hs hpar] at h
  obtain ⟨t₂,hretire,h⟩ := Option.bind_eq_some_iff.mp h
  obtain ⟨t₁,hret,hmerge⟩ := Option.bind_eq_some_iff.mp hretire
  have hgrew := retireCurrentSegment_grew hs hlive hret
  have hrest : t'.spanQueue = t₁.spanQueue := by
    obtain ⟨⟨ok,t₃⟩,hrem,h⟩ := Option.bind_eq_some_iff.mp h
    have h₂ : t₂.spanQueue = t₁.spanQueue := by
      split_ifs at hmerge
      · exact discardMergeMetrics_spanQueue hmerge
      · cases hmerge
        rfl
    have h₃ := (childrenRemove_spanQueue hrem).trans h₂
    cases ok with
    | false =>
      cases h
      exact h₃
    | true =>
      obtain ⟨t₄,hrep,h⟩ := Option.bind_eq_some_iff.mp h
      cases h
      exact (childrenReparent_spanQueue hrep).trans h₃
  exact hgrew.trans (Grew.of_eq hrest)

/-! ### Ending -/

lemma endRetire_grew (hinv : Inv t) (hs : t.segs p = some s) {now : ℕ}
    (h : t.endRetire now p = some t') : Grew (t.contributes (t.stopped now s)) t t' := by
  have hupd := update_eq hs (t.stopped now)
  have hinv₁ := hinv.update hupd fun s => ⟨rfl,rfl,rfl⟩
  simp only [endRetire,hupd,Option.bind_eq_bind,Option.bind_some] at h
  have hlive : ∀ r, (t.stopped now s).parent = some r →
      ∃ x, (Function.update t.segs p (some (t.stopped now s))) r = some x := by
    intro r hr
    obtain ⟨x,hx,-⟩ := hinv₁.parent_live (Function.update_self ..) hr
    exact ⟨x,hx⟩
  have hgrew := retireCurrentSegment_grew (Function.update_self ..) hlive h
  exact ⟨hgrew.queued,hgrew.isSome⟩

end Txn
end PhpAgent

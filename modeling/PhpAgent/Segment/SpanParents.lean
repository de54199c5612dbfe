import PhpAgent.Segment.TraceDocument

/-! The span events of the second pass: one for each sampled segment that is not skipped, with the
nearest such segment above it as its parent. -/
namespace PhpAgent
open Json

namespace SpanEvent

def guid (e : SpanEvent) : Option NrObj := e.intrinsics.get? (ascii "guid")
def parentId (e : SpanEvent) : Option NrObj := e.intrinsics.get? (ascii "parentId")

section Intrinsics
variable {k : Bytes} (e : SpanEvent) {key : String}

lemma get?_setIntrinsic (hk : k ≠ ascii key) (value : Option Bytes) :
    (setIntrinsic key e value).intrinsics.get? k = e.intrinsics.get? k := by
  cases value with
  | none => rfl
  | some s => exact NrHash.get?_set_ne hk _ _

lemma get?_setIntrinsic_self (hkey : ascii key ≠ []) (value : Bytes) :
    (setIntrinsic key e (some value)).intrinsics.get? (ascii key) = some (.string value) :=
  NrHash.get?_set_self hkey _ _

lemma get?_setIntrinsicObj (hk : k ≠ ascii key) (value : NrObj) :
    (setIntrinsicObj key e value).intrinsics.get? k = e.intrinsics.get? k :=
  NrHash.get?_set_ne hk _ _

@[simp] lemma intrinsics_setAgentString (key : String) (value : Option Bytes) :
    (setAgentString key e value).intrinsics = e.intrinsics := rfl

lemma intrinsics_foldl_addAgentAttribute (as : NrHash) :
    (as.foldl addAgentAttribute e).intrinsics = e.intrinsics := by
  induction as generalizing e with
  | nil => rfl
  | cons a as ih =>
    rw [List.foldl_cons,ih]
    unfold addAgentAttribute
    split
    · rfl
    · rfl

lemma intrinsics_foldl_addUserAttribute (ec : SpanEvent × ℕ) (as : NrHash) :
    (as.foldl addUserAttribute ec).1.intrinsics = ec.1.intrinsics := by
  induction as generalizing ec with
  | nil => rfl
  | cons a as ih =>
    rw [List.foldl_cons,ih]
    unfold addUserAttribute
    split
    · rfl
    · rfl

lemma get?_setSpankind (hk : k ≠ ascii "span.kind") (kind : SpanKind) :
    (e.setSpankind kind).intrinsics.get? k = e.intrinsics.get? k := by
  cases kind with
  | noSpankind =>
    simp only [setSpankind]
    split
    · exact get?_setIntrinsicObj e hk _
    · rfl
  | _ => exact get?_setIntrinsic e hk _

lemma get?_setCategory (hk : k ≠ ascii "span.kind") (hk' : k ≠ ascii "category")
    (category : SegmentType) :
    (e.setCategory category).intrinsics.get? k = e.intrinsics.get? k := by
  cases category with
  | _ => exact (get?_setSpankind _ hk _).trans (get?_setIntrinsic e hk' _)

end Intrinsics

/-- The populating functions of typed segments leave the guid alone. -/
theorem guid_populate (e : SpanEvent) (s : Segment) :
    (e.populateDatastore s).guid = e.guid ∧ (e.populateHttp s).guid = e.guid ∧
      (e.populateMessage s).guid = e.guid := by
  have hcategory : ∀ category, (e.setCategory category).guid = e.guid :=
    fun category => get?_setCategory e (by decide) (by decide) category
  refine ⟨?_,?_,?_⟩
  · unfold populateDatastore
    simp only
    split
    · exact (get?_setIntrinsic _ (by decide) _).trans (hcategory .datastore)
    · exact hcategory .datastore
  · unfold populateHttp
    simp only
    split
    · exact (get?_setIntrinsic _ (by decide) _).trans (hcategory .external)
    · exact hcategory .external
  · unfold populateMessage
    simp only
    split
    · split
      · exact (get?_setSpankind _ (by decide) _).trans (hcategory .message)
      · exact (get?_setSpankind _ (by decide) _).trans (hcategory .message)
    · exact hcategory .message

end SpanEvent

namespace Txn
open PointerTree Forest SpanEvent
variable {t t' : Txn} {p : SegPtr} {w : Txn × SegmentUserdata}
  {sample : Option (Finset SegPtr)}

lemma guid_populateRootSpan (t : Txn) (e : SpanEvent) : (t.populateRootSpan e).guid = e.guid := by
  have hset : ∀ {key : String} {value : Option Bytes} {e : SpanEvent}, ascii "guid" ≠ ascii key →
      (setIntrinsic key e value).guid = e.guid := fun hk => get?_setIntrinsic _ hk _
  have hobj : ∀ {key : String} {value : NrObj} {e : SpanEvent}, ascii "guid" ≠ ascii key →
      (setIntrinsicObj key e value).guid = e.guid := fun hk => get?_setIntrinsicObj _ hk _
  -- what is set before the agent attributes, which are kept apart
  have hbase : (((((e.setEntryPoint true).setTracingVendors
      (t.distributedTrace.bind (·.tracingVendors))).setTrustedParentId
      (t.distributedTrace.bind (·.trustedParentId))).setParentId
      (t.distributedTrace.bind (·.inboundGuid))).setTransactionName t.name).guid = e.guid :=
    calc _ = _ := hset (by decide)
      _ = _ := hset (by decide)
      _ = _ := hset (by decide)
      _ = _ := hset (by decide)
      _ = e.guid := hobj (by decide)
  unfold populateRootSpan SpanEvent.guid
  rw [intrinsics_foldl_addAgentAttribute]
  simp only
  split
  · split
    · split
      · exact hbase
      · exact hbase
    · exact hbase
  · exact hbase

/-- What a type adds keeps the guid. -/
theorem guid_typed {i : Bytes} (type : SegmentType) (e : SpanEvent) (he : e.guid = some (.string i))
    (x : Segment) : (match type with
      | .datastore => e.populateDatastore x
      | .external => e.populateHttp x
      | .message => e.populateMessage x
      | .custom => e.setCategory .custom).guid = some (.string i) := by
  cases type with
  | datastore => exact (guid_populate e x).1.trans he
  | external => exact (guid_populate e x).2.1.trans he
  | message => exact (guid_populate e x).2.2.trans he
  | custom => exact (get?_setCategory e (by decide) (by decide) .custom).trans he

/-- The guid of an event is the id of its segment. -/
theorem guid_spanOfSegment (t : Txn) (s : Segment) (i : Bytes) (parentId : Option (Option Bytes)) :
    (t.spanOfSegment { s with id := some i } parentId).guid = some (.string i) := by
  have hset : ∀ {key : String} {value : Option Bytes} {e : SpanEvent}, ascii "guid" ≠ ascii key →
      (setIntrinsic key e value).guid = e.guid := fun hk => get?_setIntrinsic _ hk _
  have hobj : ∀ {key : String} {value : NrObj} {e : SpanEvent}, ascii "guid" ≠ ascii key →
      (setIntrinsicObj key e value).guid = e.guid := fun hk => get?_setIntrinsicObj _ hk _
  unfold spanOfSegment
  simp only
  generalize hbase : (((((((SpanEvent.create.setGuid (some i)).setTraceId
    (if t.options.distributedTracingEnabled then t.distributedTrace.bind (·.traceId) else none)
    ).setTransactionId (t.distributedTrace.bind (·.txnId))).setName (t.traceStrings.get s.name)
    ).setTimestamp (t.absStartTime+s.startTime)).setDuration (timeDuration s.startTime s.stopTime)
    ).setPriority ((t.distributedTrace.map (·.priority)).getD (.ofRat (-1)))).setSampled
    ((t.distributedTrace.map (·.sampled)).getD false) = base
  have hguid : base.guid = some (.string i) := by
    rw [← hbase]
    calc _ = _ := hobj (by decide)
      _ = _ := hobj (by decide)
      _ = _ := hobj (by decide)
      _ = _ := hobj (by decide)
      _ = _ := hset (by decide)
      _ = _ := hset (by decide)
      _ = _ := hset (by decide)
      _ = some (.string i) := get?_setIntrinsic_self _ (by decide) i
  unfold SpanEvent.guid
  rw [intrinsics_foldl_addUserAttribute,intrinsics_foldl_addAgentAttribute,
    intrinsics_foldl_addUserAttribute]
  have hroot : (t.populateRootSpan base).guid = some (.string i) :=
    (guid_populateRootSpan t base).trans hguid
  have hbelow : ∀ id, ((base.setParentId id).setEntryPoint false).guid = some (.string i) :=
    fun id => (hset (by decide)).trans hguid
  cases parentId with
  | none =>
    cases s.error with
    | none => exact guid_typed _ _ hroot _
    | some err =>
      exact guid_typed _ ((t.populateRootSpan base).setErrorMessage err.errorMessage |>.setErrorClass
        err.errorClass) hroot _
  | some id =>
    cases s.error with
    | none => exact guid_typed _ _ (hbelow id) _
    | some err =>
      exact guid_typed _ (((base.setParentId id).setEntryPoint false).setErrorMessage err.errorMessage
        |>.setErrorClass err.errorClass) (hbelow id) _

lemma guid_passedSpan (t : Txn) (p : SegPtr) (name : Bytes) (top : Option Bytes) (e : SpanEvent) :
    (t.passedSpan p name top e).guid = e.guid := by
  have hset : ∀ {key : String} {value : Option Bytes} {e : SpanEvent}, ascii "guid" ≠ ascii key →
      (setIntrinsic key e value).guid = e.guid := fun hk => get?_setIntrinsic _ hk _
  unfold passedSpan
  simp only
  split
  · calc _ = _ := hset (by decide)
      _ = _ := hset (by decide)
      _ = _ := hset (by decide)
      _ = _ := get?_setIntrinsicObj _ (by decide) _
      _ = e.guid := hset (by decide)
  · exact (hset (by decide)).trans (hset (by decide))

lemma parentId_passedSpan (ht : t.segmentRoot ≠ some p) (name top : Bytes) (e : SpanEvent) :
    (t.passedSpan p name (some top) e).parentId = some (.string top) := by
  unfold passedSpan
  rw [if_neg ht]
  exact get?_setIntrinsic_self _ (by decide) top

/-! ### The walk -/

def idOf (t : Txn) (q : SegPtr) : Option Bytes := (t.segs q).bind Segment.id

lemma Labelled.idOf_eq (h : Labelled t t') {q : SegPtr} {i : Bytes} (hi : t.idOf q = some i) :
    t'.idOf q = some i := by
  obtain ⟨s,hs,hsi⟩ := Option.bind_eq_some_iff.mp hi
  obtain ⟨s',hs',hsi'⟩ := h.ids q s i hs hsi
  simp [idOf,hs',hsi']

/-- The event of a segment, given its parent among the sampled ones. -/
structure SpanOf (t : Txn) (e : SegPtr × Option SegPtr) (span : SpanEvent) : Prop where
  guid : ∃ i, t.idOf e.1 = some i ∧ span.guid = some (.string i)
  parentId : ∀ a, e.2 = some a → t.segmentRoot ≠ some e.1 →
    ∃ i, t.idOf a = some i ∧ span.parentId = some (.string i)

lemma SpanOf.mono {e : SegPtr × Option SegPtr} {span : SpanEvent} (h : SpanOf t e span)
    (hl : Labelled t t') : SpanOf t' e span where
  guid := by
    obtain ⟨i,hi,hspan⟩ := h.guid
    exact ⟨i,hl.idOf_eq hi,hspan⟩
  parentId a ha hroot := by
    rw [hl.rest] at hroot
    obtain ⟨i,hi,hspan⟩ := h.parentId a ha hroot
    exact ⟨i,hl.idOf_eq hi,hspan⟩

/-- The id of `o` is on top of the stack. -/
def TopOf (t : Txn) (o : Option SegPtr) (stack : List (Option Bytes)) : Prop :=
  ∀ a, o = some a → ∃ i, t.idOf a = some i ∧ stack.getLast? = some (some i)

lemma TopOf.mono {o : Option SegPtr} {stack : List (Option Bytes)} (h : TopOf t o stack)
    (hl : Labelled t t') : TopOf t' o stack := by
  intro a ha
  obtain ⟨i,hi,hlast⟩ := h a ha
  exact ⟨i,hl.idOf_eq hi,hlast⟩

/-- What the pass has collected so far, and where it is. -/
structure SpansAt (t : Txn) (sample : Option (Finset SegPtr)) (events : List SpanEvent)
    (stack : List (Option Bytes)) (w : Txn × SegmentUserdata) : Prop where
  labelled : Labelled t w.1
  events : w.2.spans.events = some events
  sampled : w.2.spans.sample = sample
  stack : w.2.spans.parentIds.elements = stack

section Steps
variable {events : List SpanEvent} {stack : List (Option Bytes)}

@[simp] lemma tracedUserdata_spans (t : Txn) (u : SegmentUserdata) (p : SegPtr) (s : Segment) :
    (t.tracedUserdata u p s).spans = u.spans := by
  unfold tracedUserdata passTrace
  split
  · rfl
  · split
    · rfl
    · rfl

lemma SpansAt.stot_skip (h : SpansAt t sample events stack w) (hl : t.ParentsLive)
    {s : Segment} (hs : t.segs p = some s) (hskip : t.emitted sample p = false) :
    ∃ post w', stot p w = some (post,w') ∧ SpansAt t sample events stack w' ∧ Labelled w.1 w'.1 ∧
      (post = none ∨ post = some stotPost ∧ isSampled p sample = false) := by
  obtain ⟨s',hs',hbare⟩ := h.labelled.live hs
  have hshown : (s'.startTime < s'.stopTime ∧ isSampled p sample = true) ↔ False := by
    have hshow := h.labelled.shown p
    rw [← emitted_iff hs',emitted,hshow,← emitted,hskip]
    simp
  rcases stot_spec (h.labelled.parentsLive hl) hs' with ⟨-,heq⟩ | ⟨hlt,t',spans,heq,hlab,-,hspan⟩
  · exact ⟨none,_,heq,⟨h.labelled,h.events,h.sampled,h.stack⟩,.refl _,.inl rfl⟩
  · have hunsampled : isSampled p sample = false := by
      cases hp : isSampled p sample with
      | false => rfl
      | true => exact (hshown.mp ⟨hlt,hp⟩).elim
    simp only [h.events] at hspan
    obtain ⟨t'',spans',heq',-,-,hno,-⟩ := passSpan_labelled (h.labelled.parentsLive hl) hs' w.2 events
      (nameOr w.1.traceStrings s'.name)
    rw [hspan,Option.some_inj,Prod.mk.injEq] at heq'
    obtain ⟨rfl,hspans⟩ := heq'
    obtain ⟨rfl,rfl⟩ := hno (by rw [h.sampled]; exact hunsampled)
    have hsame : spans = w.2.spans := congrArg SegmentUserdata.spans hspans
    refine ⟨_,_,heq,⟨h.labelled,?_,?_,?_⟩,.refl _,.inr ⟨rfl,hunsampled⟩⟩
    · rw [tracedUserdata_spans,hsame,h.events]
    · rw [tracedUserdata_spans,hsame,h.sampled]
    · rw [tracedUserdata_spans,hsame,h.stack]

lemma SpansAt.stot_emit (h : SpansAt t sample events stack w) (hl : t.ParentsLive)
    (hwant : t.shouldCreateSpanEvents = true) {s : Segment} (hs : t.segs p = some s)
    (hemit : t.emitted sample p = true) {o : Option SegPtr} (htop : TopOf w.1 o stack) :
    ∃ w' span i, stot p w = some (some stotPost,w') ∧
      SpansAt t sample (events ++ [span]) (stack ++ [some i]) w' ∧ Labelled w.1 w'.1 ∧
      SpanOf w'.1 (p,o) span ∧ w'.1.idOf p = some i := by
  obtain ⟨s',hs',hbare⟩ := h.labelled.live hs
  have hshown : s'.startTime < s'.stopTime ∧ isSampled p sample = true := by
    rw [← emitted_iff hs',emitted,h.labelled.shown p,← emitted]
    exact hemit
  rcases stot_spec (h.labelled.parentsLive hl) hs' with ⟨hlt,-⟩ | ⟨-,t',spans,heq,hlab,-,hspan⟩
  · exact absurd hshown.1 hlt
  · simp only [h.events] at hspan
    obtain ⟨t'',spans',heq',-,-,-,hyes⟩ := passSpan_labelled (h.labelled.parentsLive hl) hs' w.2
      events (nameOr w.1.traceStrings s'.name)
    rw [hspan,Option.some_inj,Prod.mk.injEq] at heq'
    obtain ⟨rfl,hspans⟩ := heq'
    have hsame : spans = spans' := congrArg SegmentUserdata.spans hspans
    obtain ⟨i,s'',parentId,hs'',hid,hspans'⟩ := hyes (by rw [h.sampled]; exact hshown.2)
      (h.labelled.shouldCreateSpanEvents.trans hwant) hshown.1
    have hidOf : t'.idOf p = some i := by simp [idOf,hs'',hid]
    refine ⟨_,t'.passedSpan p (nameOr w.1.traceStrings s'.name)
      (NrStack.getTop w.2.spans.parentIds).join (t'.spanOfSegment { s' with id := some i } parentId),
      i,heq,⟨h.labelled.trans hlab,?_,?_,?_⟩,hlab,⟨?_,?_⟩,hidOf⟩
    · rw [tracedUserdata_spans,hsame,hspans']
    · rw [tracedUserdata_spans,hsame,hspans']
      exact h.sampled
    · rw [tracedUserdata_spans,hsame,hspans',NrStack.elements_push,h.stack]
    · exact ⟨i,hidOf,by rw [guid_passedSpan,guid_spanOfSegment]⟩
    · intro a ha hroot
      obtain ⟨j,hj,hlast⟩ := htop a ha
      refine ⟨j,hlab.idOf_eq hj,?_⟩
      rw [NrStack.getTop,h.stack,hlast]
      exact parentId_passedSpan hroot _ _ _

lemma SpansAt.post_emit {i : Option Bytes} (h : SpansAt t sample events (stack ++ [i]) w)
    (hsampled : isSampled p sample = true) :
    ∃ w', stotPost p w = some w' ∧ SpansAt t sample events stack w' ∧ w'.1 = w.1 := by
  refine ⟨_,rfl,⟨h.labelled,?_,?_,?_⟩,rfl⟩
  · simp only [h.sampled,hsampled,if_true]
    exact h.events
  · simp only [h.sampled,hsampled,if_true]
  · simp only [h.sampled,hsampled,if_true]
    rw [NrStack.elements_pop,h.stack,List.dropLast_concat]

lemma SpansAt.post_skip (h : SpansAt t sample events stack w)
    {post : Option (PostIter SegmentUserdata)}
    (hpost : post = none ∨ post = some stotPost ∧ isSampled p sample = false) :
    ∃ w', runPost post p w = some w' ∧ SpansAt t sample events stack w' ∧ w'.1 = w.1 := by
  rcases hpost with rfl | ⟨rfl,hsampled⟩
  · exact ⟨w,rfl,h,rfl⟩
  · refine ⟨_,rfl,⟨h.labelled,?_,?_,?_⟩,rfl⟩
    · simp only [h.sampled,hsampled,Bool.false_eq_true,if_false]
      exact h.events
    · simp only [h.sampled,hsampled,Bool.false_eq_true,if_false]
    · simp only [h.sampled,hsampled,Bool.false_eq_true,if_false]
      exact h.stack

end Steps

/-- A walk over a forest appends one event for each emitted segment, below its parent among them. -/
theorem walk_spans (mark : SegmentColor) (hl : t.ParentsLive)
    (hwant : t.shouldCreateSpanEvents = true) {f : Forest SegPtr} {events : List SpanEvent}
    {stack : List (Option Bytes)} {o : Option SegPtr} (h : SpansAt t sample events stack w)
    (hlive : ∀ q ∈ f.toList, ∃ s, t.segs q = some s) (htop : TopOf w.1 o stack) :
    ∃ w' spans, walk stot mark f w = some w' ∧ SpansAt t sample (events ++ spans) stack w' ∧
      Labelled w.1 w'.1 ∧
      List.Forall₂ (SpanOf w'.1) ((f.prune (t.emitted sample)).parents o) spans := by
  induction f generalizing w events stack o with
  | nil => exact ⟨w,[],rfl,by rwa [List.append_nil],.refl _,.nil⟩
  | node p kids rest ihk ihr =>
    obtain ⟨s,hs⟩ := hlive p List.mem_cons_self
    have hlivek : ∀ q ∈ kids.toList, ∃ s, t.segs q = some s :=
      fun q hq => hlive q (mem_kids hq)
    have hliver : ∀ q ∈ rest.toList, ∃ s, t.segs q = some s :=
      fun q hq => hlive q (mem_rest hq)
    obtain ⟨s₀,hs₀,-⟩ := h.labelled.live hs
    obtain ⟨t₁,hupd,-,hl₁⟩ := update_labelled hs₀ (f := fun s => { s with color := mark }) rfl
      (fun _ hid => hid)
    have h₁ : SpansAt t sample events stack (t₁,w.2) :=
      ⟨h.labelled.trans hl₁,h.events,h.sampled,h.stack⟩
    have htop₁ : TopOf t₁ o stack := htop.mono hl₁
    cases hemit : t.emitted sample p with
    | true =>
      have hsampled : isSampled p sample = true := ((emitted_iff hs).mp hemit).2
      obtain ⟨w₂,span,i,hw₂,h₂,hl₂,hspan,hid⟩ := h₁.stot_emit hl hwant hs hemit htop₁
      have htop₂ : TopOf w₂.1 (some p) (stack ++ [some i]) := by
        intro a ha
        cases ha
        exact ⟨i,hid,List.getLast?_concat⟩
      obtain ⟨w₃,spansk,hw₃,h₃,hl₃,hkids⟩ := ihk h₂ hlivek htop₂
      obtain ⟨w₄,hw₄,h₄,ht₄⟩ := h₃.post_emit hsampled
      have hl₄ : Labelled t₁ w₄.1 := ht₄ ▸ hl₂.trans hl₃
      obtain ⟨w₅,spansr,hw₅,h₅,hl₅,hrest⟩ := ihr h₄ hliver (htop₁.mono hl₄)
      refine ⟨w₅,span :: (spansk ++ spansr),?_,?_,(hl₁.trans hl₄).trans hl₅,?_⟩
      · simp only [walk,hupd,hw₂,hw₃,hw₅,runPost,hw₄,Option.bind_eq_bind,Option.bind_some]
      · simpa only [List.append_assoc,List.cons_append,List.nil_append] using h₅
      · simp only [prune,hemit,if_true,parents]
        have hl₃₅ : Labelled w₃.1 w₅.1 := ht₄ ▸ hl₅
        refine .cons (hspan.mono (hl₃.trans hl₃₅)) (List.rel_append ?_ hrest)
        exact hkids.imp fun _ _ h => h.mono hl₃₅
    | false =>
      obtain ⟨post,w₂,hw₂,h₂,hl₂,hpost⟩ := h₁.stot_skip hl hs hemit
      obtain ⟨w₃,spansk,hw₃,h₃,hl₃,hkids⟩ := ihk h₂ hlivek (htop₁.mono hl₂)
      obtain ⟨w₄,hw₄,h₄,ht₄⟩ := h₃.post_skip hpost
      have hl₄ : Labelled t₁ w₄.1 := ht₄ ▸ hl₂.trans hl₃
      obtain ⟨w₅,spansr,hw₅,h₅,hl₅,hrest⟩ := ihr h₄ hliver (htop₁.mono hl₄)
      refine ⟨w₅,spansk ++ spansr,?_,?_,(hl₁.trans hl₄).trans hl₅,?_⟩
      · simp only [walk,hupd,hw₂,hw₃,hw₄,hw₅,Option.bind_eq_bind,Option.bind_some]
      · simpa only [List.append_assoc] using h₅
      · simp only [prune,hemit,Bool.false_eq_true,if_false,parents_append]
        have hl₃₅ : Labelled w₃.1 w₅.1 := ht₄ ▸ hl₅
        exact List.rel_append (hkids.imp fun _ _ h => h.mono hl₃₅) hrest

/-- Below a root that is kept every other segment has a kept ancestor. -/
theorem NearestUp.eq_root {r q : SegPtr} {x : Segment} {keep : SegPtr → Bool}
    (hr : t.segs r = some x) (hpar : x.parent = none) (hkeep : keep r = true)
    (h : NearestUp t keep q none) (hq : t.InTree r q) : q = r := by
  generalize ho : (none : Option SegPtr) = o at h
  induction h with
  | @top q s hs hsp =>
    rcases Relation.ReflTransGen.cases_tail hq with rfl | ⟨b,-,y,hy,hyb⟩
    · rfl
    · rw [hs,Option.some_inj] at hy
      rw [hy,hyb] at hsp
      cases hsp
  | here => cases ho
  | @up q a s o hs hsp hnot _ ih =>
    have ha : t.InTree r a := (inTree_parent_iff hr hpar hs hsp).mp hq
    rw [ih ha ho,hkeep] at hnot
    cases hnot

/-- With span events wanted, the pass creates exactly one for each sampled segment that takes time,
and the parent of each but the root's is the nearest such segment above it. -/
theorem createData_spans {r : SegPtr} (h : OneColour t r)
    (hwant : t.shouldCreateSpanEvents = true) (duration : ℕ) (metadata : SamplingMetadata)
    (agentAttributes userAttributes : Option NrHash) (intrinsics : NrHash) (createTrace : Bool)
    (out : TxnFinal) (hwritten : t.Written r metadata.traceSet duration) :
    ∃ t' out' spans order, t.createData duration metadata agentAttributes userAttributes intrinsics
        createTrace true out = some (t',out') ∧ out'.spanEvents = some spans ∧
      (order.map Prod.fst).Nodup ∧
      (∀ q, q ∈ order.map Prod.fst ↔ t.InTree r q ∧ t.emitted metadata.spanSet q = true) ∧
      (∀ e ∈ order, t.NearestUp (t.emitted metadata.spanSet) e.1 e.2) ∧
      (t.emitted metadata.spanSet r = true → ∀ e ∈ order, e.1 ≠ r → e.2 ≠ none) ∧
      List.Forall₂ (SpanOf t') order spans := by
  obtain ⟨f,mark,hf,hwalk⟩ := h.exists_forest
  obtain ⟨w',hw',-,hyes,-⟩ := createData_walk h hf hwalk duration metadata agentAttributes
    userAttributes intrinsics createTrace true (.inr rfl) out
  have hat : SpansAt t metadata.spanSet [] [] (t,passUserdata metadata duration createTrace true) :=
    ⟨.refl t,rfl,rfl,rfl⟩
  have htop : TopOf t none [] := fun a ha => by (cases ha)
  obtain ⟨w₁,spans,hw₁,h₁,-,hspans⟩ := walk_spans mark h.inv.parentsLive hwant hat hf.live htop
  rw [hw',Option.some_inj] at hw₁
  subst hw₁
  refine ⟨_,_,spans,_,hyes hwritten,h₁.events,?_,?_,hf.nearestUp h,?_,hspans⟩
  · rw [map_fst_parents]
    exact hf.prune_nodup
  · intro q
    rw [map_fst_parents]
    exact hf.mem_prune q
  · intro hroot e he hne hnone
    obtain ⟨x,hx,hpar,-⟩ := h.tree
    have hup := hf.nearestUp h e he
    rw [hnone] at hup
    have hmem : e.1 ∈ (f.prune (t.emitted metadata.spanSet)).toList := by
      rw [← map_fst_parents none]
      exact List.mem_map_of_mem he
    exact hne (hup.eq_root hx hpar hroot ((hf.mem_prune e.1).mp hmem).1)

/-- A sampled distributed trace. -/
def sampledTrace : DistributedTrace :=
  ⟨none,none,.ofRat 0,true,none,none,none,none,none,none,none,0⟩

/-- A root from 0 to 5000 microseconds, with a child that starts at 0. -/
def pairTxn (stop : ℕ) : Option Txn := do
  let t ← begin 1 0 0 ⟨10,false,0,true,true⟩ (some sampledTrace) false (fun n => decimal n)
  let (_,t) ← t.start 0 (some 1) none
  let t ← t.endSegment stop 2
  t.endSegment 5000 1

/-- What is used of it. -/
structure PairOf (t : Txn) : Prop where
  oneColour : OneColour t 1
  count : t.segmentCount = 2
  spans : t.shouldCreateSpanEvents = true
  child : t.InTree 1 2
  rootTimes : ∀ s, t.segs 1 = some s → s.startTime = 0 ∧ s.stopTime = 5000
  times : ∀ q s, t.segs q = some s → s.startTime = 0

lemma pairOf_run {stop : ℕ} (h : ∃ t₀ t js x y,
    begin 1 0 0 ⟨10,false,0,true,true⟩ (some sampledTrace) false (fun n => decimal n) = some t₀ ∧
      EndOp.Run (fun t op => op.Parented t) t₀ [] [.start 0 (some 1) none,.finish stop 2,
        .finish 5000 1] t js ∧ pairTxn stop = some t ∧ t.segmentCount = 2 ∧
      t.shouldCreateSpanEvents = true ∧ t.slab.next = 3 ∧ t.segs 0 = none ∧ t.segs 1 = some x ∧
      t.segs 2 = some y ∧ x.parent = none ∧ x.color = .white ∧ y.parent = some 1 ∧
      y.color = .white ∧ x.startTime = 0 ∧ x.stopTime = 5000 ∧ y.startTime = 0) :
    ∃ t, pairTxn stop = some t ∧ PairOf t := by
  obtain ⟨t₀,t,js,x,y,hbegin,hrun,ht,hcount,hspans,hnext,h0,h1,h2,hxp,hxc,hyp,hyc,hxs,hxe,hys⟩ := h
  have hend := hrun.ending (by decide) (begin_ending (by decide) hbegin)
  have hall : ∀ q s, t.segs q = some s → s.color = .white ∧ s.startTime = 0 := by
    intro q s hq
    have hlt := hend.live_lt hq
    rw [hnext] at hlt
    interval_cases q
    · rw [h0] at hq
      cases hq
    · rw [h1,Option.some_inj] at hq
      exact hq ▸ ⟨hxc,hxs⟩
    · rw [h2,Option.some_inj] at hq
      exact hq ▸ ⟨hyc,hys⟩
  refine ⟨t,ht,⟨hend.toInv,hend.isRoot,x,h1,hxp,?_⟩,hcount,hspans,.single ⟨y,h2,hyp⟩,?_,?_⟩
  · intro q hq
    obtain ⟨s,hs⟩ := hq.live h1
    rw [color,hs,Option.map_some,(hall q s hs).1,hxc]
  · intro s hs
    rw [h1,Option.some_inj] at hs
    exact hs ▸ ⟨hxs,hxe⟩
  · exact fun q s hs => (hall q s hs).2

lemma exists_pairTxn (stop : ℕ) : ∃ t, pairTxn stop = some t ∧ PairOf t := by
  apply pairOf_run
  refine ⟨_,_,_,_,_,rfl,.cons ?_ ?_ rfl (.cons ⟨⟨_,rfl⟩,?_⟩ trivial rfl (.cons ⟨⟨_,rfl⟩,?_⟩ trivial
    rfl (.nil _ _))),rfl,rfl,rfl,rfl,rfl,rfl,rfl,rfl,rfl,rfl,rfl,rfl,rfl,rfl⟩
  · intro q hq
    cases hq
    exact ⟨_,rfl⟩
  · exact Option.some_ne_none 1
  · decide
  · intro hmem
    obtain ⟨j,hj,hone⟩ := List.mem_map.mp hmem
    rw [List.mem_singleton.mp (List.mem_filter.mp hj).1] at hone
    cases hone

/-- Both segments take time, and both get an event. -/
theorem createData_spans_pair : ∃ t t' out spans, pairTxn 4000 = some t ∧
    t.createData 5000 ⟨none,none⟩ none none [] false true ⟨none,none,0⟩ = some (t',out) ∧
    out.spanEvents = some spans ∧ ∃ order, (∀ e ∈ order, e.1 ≠ 1 → e.2 ≠ none) ∧
      List.Forall₂ (SpanOf t') order spans := by
  obtain ⟨t,ht,hpair⟩ := exists_pairTxn 4000
  have hwritten : t.Written 1 none 5000 := by
    refine ⟨by rw [hpair.count]; decide,by decide,by decide,fun q s _ hs => ?_⟩
    rw [hpair.times q s hs]
    exact Nat.zero_le _
  obtain ⟨t',out,spans,order,heq,hspans,-,-,-,hparents,hall⟩ :=
    createData_spans hpair.oneColour hpair.spans 5000 ⟨none,none⟩ none none [] false ⟨none,none,0⟩
      hwritten
  obtain ⟨x,hx,-⟩ := hpair.oneColour.tree
  obtain ⟨hstart,hend⟩ := hpair.rootTimes x hx
  have hemit : t.emitted none 1 = true := (emitted_iff hx).mpr ⟨by omega,rfl⟩
  exact ⟨t,t',out,spans,ht,heq,hspans,order,hparents hemit,hall⟩

/-- A sampled segment of no duration gets no event. -/
theorem zero_duration_no_span : ∃ t t' out spans, pairTxn 0 = some t ∧ OneColour t 1 ∧
    t.shouldCreateSpanEvents = true ∧ t.InTree 1 1 ∧ t.InTree 1 2 ∧
    t.createData 5000 ⟨none,none⟩ none none [] false true ⟨none,none,0⟩ = some (t',out) ∧
    out.spanEvents = some spans ∧ spans.length = 1 := by
  obtain ⟨t,ht,hpair⟩ := exists_pairTxn 0
  have hone : (((pairTxn 0).bind fun t => t.createData 5000 ⟨none,none⟩ none none [] false true
      ⟨none,none,0⟩).bind fun r => r.2.spanEvents.map List.length) = some 1 := by decide
  rw [ht,Option.bind_some,Option.bind_eq_some_iff] at hone
  obtain ⟨⟨t',out⟩,heq,hone⟩ := hone
  obtain ⟨spans,hspans,hlen⟩ := Option.map_eq_some_iff.mp hone
  exact ⟨t,t',out,spans,ht,hpair.oneColour,hpair.spans,.refl,hpair.child,heq,hspans,hlen⟩

end Txn
end PhpAgent

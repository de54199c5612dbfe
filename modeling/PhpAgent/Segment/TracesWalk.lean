import PhpAgent.Segment.Traces

/-! What the second pass does on a forest of segments: the text it writes is the layout of the
segments it emits, and the events are those of the sampled segments. -/
namespace PhpAgent
open Json

namespace Segment

/-- All of a segment but its id and its colour, the two fields the pass writes. -/
def bare (s : Segment) : Segment := { s with id := none, color := .white }

/-- Any other field of two segments with the same bare part agrees. -/
theorem eq_of_bare {β : Type} (f : Segment → β) (hf : ∀ s, f s.bare = f s) {s s' : Segment}
    (h : s'.bare = s.bare) : f s' = f s := by
  rw [← hf s',h,hf]

end Segment

/-! ### The buffer is read at its end only -/

/-- The operation appends to the buffer, and looks at its last byte at most. -/
def Appends (op : Bytes → Bytes) : Prop := ∀ a x, x ≠ [] → op (a ++ x) = a ++ op x ∧ x <+: op x

lemma Appends.comp {f g : Bytes → Bytes} (hg : Appends g) (hf : Appends f) :
    Appends fun b => g (f b) := by
  intro a x hx
  obtain ⟨hfa,hfx⟩ := hf a x hx
  obtain ⟨hga,hgx⟩ := hg a (f x) (hfx.ne_nil hx)
  refine ⟨?_,hfx.trans hgx⟩
  simp only [hfa,hga]

lemma Appends.id : Appends fun b => b := fun _ _ _ => ⟨rfl,List.prefix_rfl⟩

lemma appends_separator (text : Bytes) : Appends fun b => b ++ separator b ++ text := by
  intro a x hx
  have hsep : separator (a ++ x) = separator x := by
    rw [separator,separator,List.getLast?_append_of_ne_nil a hx]
  exact ⟨by simp only [hsep,List.append_assoc],separator x ++ text,(List.append_assoc ..).symm⟩

lemma appends_keyValue (key : String) (value : Option Bytes) (rawJson : Bool) :
    Appends fun b => addHashKeyValueToBuffer b key value rawJson := by
  cases value with
  | none => exact .id
  | some value => exact appends_separator _

lemma appends_attributeHash (attributes : Option NrHash) :
    Appends fun b => addAttributeHashToBuffer b attributes := by
  cases attributes with
  | none => exact .id
  | some attributes =>
    by_cases hlong : 2 < (NrObj.hash attributes).toJson.length
    · simp only [addAttributeHashToBuffer,if_pos hlong]
      exact appends_separator _
    · simp only [addAttributeHashToBuffer,if_neg hlong]
      exact .id

lemma appends_typedAttributes (s : Segment) : Appends fun b => addTypedAttributesToBuffer b s := by
  unfold addTypedAttributesToBuffer
  split
  · rename_i data _ _
    exact (appends_keyValue "input_query" data.inputQueryJson true).comp
      ((appends_keyValue "sql_obfuscated" data.sqlObfuscated false).comp
      ((appends_keyValue "sql" data.sql false).comp
      ((appends_keyValue "explain_plan" data.explainPlanJson true).comp
      ((appends_keyValue "backtrace" data.backtraceJson true).comp
      ((appends_keyValue "port_path_or_id" data.inst.portPathOrId false).comp
      ((appends_keyValue "database_name" data.inst.databaseName false).comp
      (appends_keyValue "host" data.inst.host false)))))))
  · rename_i ext _ _
    exact (appends_separator _).comp
      ((appends_keyValue "transaction_guid" ext.transactionGuid false).comp
      ((appends_keyValue "procedure" ext.procedure false).comp
      ((appends_keyValue "library" ext.library false).comp
      (appends_keyValue "uri" ext.uri false))))
  · rename_i message _ _
    have hrest : Appends fun b => addHashKeyValueToBuffer (addHashKeyValueToBuffer
        (addHashKeyValueToBuffer (addHashKeyValueToBuffer (addHashKeyValueToBuffer b
          "destination_name" message.destinationName false)
          "messaging_system" message.messagingSystem false)
          "server_address" message.serverAddress false)
          "messaging_destination_publish_name" message.messagingDestinationPublishName false)
          "messaging_destination_routing_key" message.messagingDestinationRoutingKey false :=
      (appends_keyValue "messaging_destination_routing_key"
        message.messagingDestinationRoutingKey false).comp
      ((appends_keyValue "messaging_destination_publish_name"
        message.messagingDestinationPublishName false).comp
      ((appends_keyValue "server_address" message.serverAddress false).comp
      ((appends_keyValue "messaging_system" message.messagingSystem false).comp
      (appends_keyValue "destination_name" message.destinationName false))))
    by_cases hport : message.serverPort ≠ 0
    · simp only [if_pos hport]
      exact (appends_separator _).comp hrest
    · simp only [if_neg hport]
      exact hrest
  · exact .id

/-- The names the parameters of a segment add. -/
def paramNames (s : Segment) (traceStrings segmentNames : StringPool) : StringPool :=
  if s.asyncContext ≠ 0 then (segmentNames.add (nameOr traceStrings s.asyncContext)).2
  else segmentNames

lemma addSegmentParams_snd (buf : Bytes) (s : Segment) (traceStrings segmentNames : StringPool) :
    (addSegmentParams buf s traceStrings segmentNames).2 = paramNames s traceStrings segmentNames := by
  unfold addSegmentParams paramNames
  by_cases hctx : s.asyncContext ≠ 0
  · simp only [if_pos hctx]
    rfl
  · simp only [if_neg hctx]

lemma appends_attributes (attributes : Option Attributes) : Appends fun b => match attributes with
    | none => b
    | some attributes => addAttributeHashToBuffer (addAttributeHashToBuffer b
        (attributes.userToObj Attributes.destinationTxnTrace))
        (attributes.agentToObj Attributes.destinationTxnTrace) := by
  cases attributes with
  | none => exact .id
  | some attributes => exact (appends_attributeHash _).comp (appends_attributeHash _)

lemma appends_segmentParams (s : Segment) (traceStrings segmentNames : StringPool) :
    Appends fun b => (addSegmentParams b s traceStrings segmentNames).1 := by
  have hattr := appends_attributes s.attributes
  unfold addSegmentParams
  by_cases hctx : s.asyncContext ≠ 0
  · simp only [if_pos hctx]
    have hasync : Appends fun b =>
        (addAsyncAttributeToBuffer b s traceStrings segmentNames).1 := by
      simp only [addAsyncAttributeToBuffer]
      exact appends_keyValue "async_context" _ false
    exact hattr.comp (hasync.comp (appends_typedAttributes s))
  · simp only [if_neg hctx]
    exact hattr.comp (appends_typedAttributes s)

namespace Txn
open PointerTree Forest
variable {t t' : Txn} {p : SegPtr} {s : Segment}

/-- Only colours and ids have changed, and no id has been lost or replaced. -/
structure Labelled (t t' : Txn) : Prop where
  rest : t' = { t with segs := t'.segs, guidsUsed := t'.guidsUsed }
  segs : ∀ q, (t'.segs q).map Segment.bare = (t.segs q).map Segment.bare
  ids : ∀ q s id, t.segs q = some s → s.id = some id →
    ∃ s', t'.segs q = some s' ∧ s'.id = some id

lemma Labelled.refl (t : Txn) : Labelled t t := ⟨rfl,fun _ => rfl,fun _ s _ hs hid => ⟨s,hs,hid⟩⟩

lemma Labelled.trans {t'' : Txn} (h : Labelled t t') (h' : Labelled t' t'') : Labelled t t'' where
  rest := by rw [h'.rest,h.rest]
  segs q := (h'.segs q).trans (h.segs q)
  ids q s id hs hid := by
    obtain ⟨s',hs',hid'⟩ := h.ids q s id hs hid
    exact h'.ids q s' id hs' hid'

lemma Labelled.live (h : Labelled t t') (hs : t.segs p = some s) :
    ∃ s', t'.segs p = some s' ∧ s'.bare = s.bare := by
  have := h.segs p
  rw [hs,Option.map_some,Option.map_eq_some_iff] at this
  exact this

lemma update_labelled (hs : t.segs p = some s) {f : Segment → Segment}
    (hbare : (f s).bare = s.bare) (hid : ∀ id, s.id = some id → (f s).id = some id) :
    ∃ t', t.update p f = some t' ∧ t'.segs p = some (f s) ∧ Labelled t t' := by
  refine ⟨_,update_eq hs f,Function.update_self ..,rfl,?_,?_⟩
  · intro q
    by_cases hq : q = p
    · subst hq
      simp [hs,hbare]
    · simp [Function.update_of_ne hq]
  · intro q y id hy hy'
    by_cases hq : q = p
    · subst hq
      rw [hs,Option.some_inj] at hy
      subst hy
      exact ⟨f s,Function.update_self ..,hid id hy'⟩
    · exact ⟨y,(Function.update_of_ne hq ..).trans hy,hy'⟩

lemma Labelled.shouldCreateSpanEvents (h : Labelled t t') :
    t'.shouldCreateSpanEvents = t.shouldCreateSpanEvents := by
  unfold Txn.shouldCreateSpanEvents
  rw [h.rest]

/-- Parents are live. -/
def ParentsLive (t : Txn) : Prop :=
  ∀ {c p : SegPtr} {x : Segment}, t.segs c = some x → x.parent = some p → ∃ y, t.segs p = some y

lemma Inv.parentsLive (h : Inv t) : t.ParentsLive := by
  intro c p x hx hpar
  obtain ⟨y,hy,-⟩ := h.parent_live hx hpar
  exact ⟨y,hy⟩

lemma Labelled.back (h : Labelled t t') {s' : Segment} (hs : t'.segs p = some s') :
    ∃ s, t.segs p = some s ∧ s'.bare = s.bare := by
  have := (h.segs p).symm
  rw [hs,Option.map_some,Option.map_eq_some_iff] at this
  obtain ⟨s,hs,hbare⟩ := this
  exact ⟨s,hs,hbare.symm⟩

lemma Labelled.parentsLive (h : Labelled t t') (hl : t.ParentsLive) : t'.ParentsLive := by
  intro c p x hx hpar
  obtain ⟨s,hs,hbare⟩ := h.back hx
  have hsp : s.parent = some p :=
    (Segment.eq_of_bare Segment.parent (fun _ => rfl) hbare).symm.trans hpar
  obtain ⟨y,hy⟩ := hl hs hsp
  obtain ⟨y',hy',-⟩ := h.live hy
  exact ⟨y',hy'⟩

/-! ### Events -/

/-- With spans wanted every segment gets an id. -/
theorem ensureId_labelled (hs : t.segs p = some s) :
    ∃ id t', t.ensureId p = some (id,t') ∧ Labelled t t' ∧ t'.shape = t.shape ∧
      (t.shouldCreateSpanEvents = true → ∃ i s', id = some i ∧ t'.segs p = some s' ∧
        s'.id = some i) := by
  unfold ensureId
  simp only [hs,Option.bind_eq_bind,Option.bind_some]
  by_cases hneed : s.id = none ∧ t.shouldCreateSpanEvents = true
  · rw [if_pos hneed]
    have hs' : ({ t with guidsUsed := t.guidsUsed+1 } : Txn).segs p = some s := hs
    obtain ⟨t',hupd,hp,hl⟩ := update_labelled hs'
      (f := fun s => { s with id := some (t.guids t.guidsUsed) }) rfl
      (fun id h => by rw [hneed.1] at h; cases h)
    refine ⟨some (t.guids t.guidsUsed),t',by simp [hupd],⟨?_,hl.segs,hl.ids⟩,?_,
      fun _ => ⟨_,_,rfl,hp,rfl⟩⟩
    · rw [hl.rest]
    · obtain ⟨y,hy,rfl⟩ := update_eq_some hupd
      obtain rfl : s = y := Option.some_inj.mp (hs'.symm.trans hy)
      funext q
      by_cases hq : q = p
      · subst hq
        simp [shape,hs]
      · simp [shape,Function.update_of_ne hq]
  · rw [if_neg hneed]
    refine ⟨s.id,t,rfl,.refl t,rfl,fun hspans => ?_⟩
    cases hid : s.id with
    | none => exact absurd ⟨hid,hspans⟩ hneed
    | some i => exact ⟨i,s,rfl,hs,hid⟩

lemma toSpanEvent_labelled (hl : t.ParentsLive) (hs : t.segs p = some s) :
    ∃ e t', t.toSpanEvent p = some (e,t') ∧ Labelled t t' ∧ t'.shape = t.shape ∧
      (t.shouldCreateSpanEvents = true → s.startTime < s.stopTime →
        ∃ i s' parentId, t'.segs p = some s' ∧ s'.id = some i ∧
          e = some (t'.spanOfSegment { s with id := some i } parentId)) := by
  unfold toSpanEvent
  simp only [hs,Option.bind_eq_bind,Option.bind_some]
  by_cases hbad : s.stopTime = 0 ∨ s.stopTime < s.startTime
  · rw [if_pos hbad]
    exact ⟨none,t,rfl,.refl t,rfl,fun _ hlt => by omega⟩
  · rw [if_neg hbad]
    obtain ⟨id,t₁,hid,hl₁,hshape₁,hspans₁⟩ := ensureId_labelled hs
    simp only [hid,Option.bind_some]
    by_cases hnone : id = none
    · rw [if_pos hnone]
      refine ⟨none,t₁,rfl,hl₁,hshape₁,fun hspans => ?_⟩
      obtain ⟨i,-,hi,-⟩ := hspans₁ hspans
      rw [hnone] at hi
      cases hi
    · rw [if_neg hnone]
      cases hpar : s.parent with
      | none =>
        refine ⟨_,t₁,rfl,hl₁,hshape₁,fun hspans _ => ?_⟩
        obtain ⟨i,s',rfl,hs',hsi⟩ := hspans₁ hspans
        exact ⟨i,s',none,hs',hsi,rfl⟩
      | some parent =>
        obtain ⟨y,hy⟩ := hl hs hpar
        obtain ⟨y',hy',-⟩ := hl₁.live hy
        obtain ⟨parentId,t₂,hid₂,hl₂,hshape₂,-⟩ := ensureId_labelled hy'
        simp only [hid₂,Option.bind_some]
        refine ⟨_,t₂,rfl,hl₁.trans hl₂,hshape₂.trans hshape₁,fun hspans _ => ?_⟩
        obtain ⟨i,s',rfl,hs',hsi⟩ := hspans₁ hspans
        obtain ⟨s'',hs'',hsi'⟩ := hl₂.ids p s' i hs' hsi
        exact ⟨i,s'',some parentId,hs'',hsi',rfl⟩

/-- The event of the pass, from the event of the segment. -/
def passedSpan (t : Txn) (segment : SegPtr) (name : Bytes) (top : Option Bytes) (span : SpanEvent) :
    SpanEvent :=
  let span := span.setName (some name)
  if t.segmentRoot = some segment then
    let dt := t.distributedTrace
    let span := span.setEntryPoint true
    let span := span.setParentId (dt.bind (·.inboundGuid))
    let span := span.setTracingVendors (dt.bind (·.tracingVendors))
    span.setTrustedParentId (dt.bind (·.trustedParentId))
  else span.setParentId top

lemma passSpan_labelled (hl : t.ParentsLive) (hs : t.segs p = some s)
    (u : SegmentUserdata) (events : List SpanEvent) (name : Bytes) :
    ∃ t' spans, t.passSpan u events p name = some (t',{ u with spans := spans }) ∧ Labelled t t' ∧
      t'.shape = t.shape ∧
      (isSampled p u.spans.sample = false → t' = t ∧ spans = u.spans) ∧
      (isSampled p u.spans.sample = true → t.shouldCreateSpanEvents = true →
        s.startTime < s.stopTime → ∃ i s' parentId, t'.segs p = some s' ∧ s'.id = some i ∧
          spans = { u.spans with
            events := some (events ++ [t'.passedSpan p name (NrStack.getTop u.spans.parentIds).join
              (t'.spanOfSegment { s with id := some i } parentId)])
            parentIds := NrStack.push u.spans.parentIds (some i) }) := by
  unfold passSpan
  cases hsample : isSampled p u.spans.sample with
  | false => exact ⟨t,u.spans,by simp,.refl t,rfl,fun _ => ⟨rfl,rfl⟩,fun h => by cases h⟩
  | true =>
    obtain ⟨e,t',heq,hlab,hshape,hspans⟩ := toSpanEvent_labelled hl hs
    obtain ⟨s',hs',-⟩ := hlab.live hs
    simp only [heq,hs',Option.bind_eq_bind,Option.bind_some,if_true]
    refine ⟨t',_,rfl,hlab,hshape,fun h => by (cases h),fun _ hwant hlt => ?_⟩
    obtain ⟨i,s'',parentId,hs'',hsi,rfl⟩ := hspans hwant hlt
    rw [hs',Option.some_inj] at hs''
    subst hs''
    refine ⟨i,s',parentId,hs',hsi,?_⟩
    simp only [passedSpan,hsi]

/-! ### The text of a forest -/

/-- The text of a segment up to its children, with the names it leaves. -/
def segmentOpening (t : Txn) (p : SegPtr) (segmentNames : StringPool) : Bytes × StringPool :=
  t.addSegmentToBuffer [] ((t.segs p).getD .zero) segmentNames

lemma addSegmentToBuffer_eq (hs : t.segs p = some s) (buf : Bytes)
    (segmentNames : StringPool) : t.addSegmentToBuffer buf s segmentNames =
      (buf ++ (t.segmentOpening p segmentNames).1,(t.segmentOpening p segmentNames).2) := by
  have hparams : ∀ (a x : Bytes) names, x ≠ [] → addSegmentParams (a ++ x) s t.traceStrings names =
      (a ++ (addSegmentParams x s t.traceStrings names).1,
        (addSegmentParams x s t.traceStrings names).2) := by
    intro a x names hx
    have hfst := (appends_segmentParams s t.traceStrings names a x hx).1
    ext1
    · exact hfst
    · simp only [addSegmentParams_snd]
  simp only [segmentOpening,addSegmentToBuffer,hs,Option.getD_some,List.nil_append]
  simp only [List.append_assoc]
  rw [hparams _ _ _ (by simp)]
  simp only [List.append_assoc]

/-! ### The callback -/

/-- The segments the pass does not skip. -/
def shown (t : Txn) (q : SegPtr) : Bool := (t.segs q).any fun s => s.startTime < s.stopTime

/-- The segments a set selects, without the skipped ones. -/
def emitted (t : Txn) (sample : Option (Finset SegPtr)) (q : SegPtr) : Bool :=
  t.shown q && isSampled q sample

/-- What the callback does to the trace, given the userdata the spans have left. -/
def tracedUserdata (t : Txn) (u : SegmentUserdata) (p : SegPtr) (s : Segment) : SegmentUserdata :=
  match u.trace.buf with
  | none => u
  | some buf => t.passTrace u buf p s

/-- The callback skips a segment, or passes it on to the spans and then to the trace. -/
theorem stot_spec {w : Txn × SegmentUserdata} (hl : w.1.ParentsLive) (hs : w.1.segs p = some s) :
    (¬ s.startTime < s.stopTime ∧ stot p w = some (none,w.1,
      { w.2 with success := w.2.success && decide (s.startTime ≤ s.stopTime) })) ∨
    s.startTime < s.stopTime ∧ ∃ t' spans, stot p w =
        some (some stotPost,t',t'.tracedUserdata { w.2 with spans := spans } p s) ∧
      Labelled w.1 t' ∧ t'.shape = w.1.shape ∧
      match w.2.spans.events with
      | none => t' = w.1 ∧ spans = w.2.spans
      | some events => w.1.passSpan w.2 events p (nameOr w.1.traceStrings s.name) =
          some (t',{ w.2 with spans := spans }) := by
  obtain ⟨t,u⟩ := w
  simp only at hl hs
  by_cases hlt : s.startTime < s.stopTime
  · refine .inr ⟨hlt,?_⟩
    have hne : s.startTime ≠ s.stopTime := hlt.ne
    have hnlt : ¬ s.stopTime < s.startTime := hlt.asymm
    cases hev : u.spans.events with
    | none =>
      refine ⟨t,u.spans,?_,.refl t,rfl,rfl,rfl⟩
      simp only [stot,hs,Option.bind_eq_bind,Option.bind_some,if_neg hne,if_neg hnlt,hev]
      rfl
    | some events =>
      obtain ⟨t',spans,heq,hlab,hshape,-⟩ :=
        passSpan_labelled hl hs u events (nameOr t.traceStrings s.name)
      refine ⟨t',spans,?_,hlab,hshape,heq⟩
      simp only [stot,hs,Option.bind_eq_bind,Option.bind_some,if_neg hne,if_neg hnlt,hev,heq]
      rfl
  · refine .inl ⟨hlt,?_⟩
    by_cases heq : s.startTime = s.stopTime
    · simp [stot,hs,heq]
    · have hgt : s.stopTime < s.startTime := by omega
      simp [stot,hs,heq,hgt]

/-! ### The callback leaves the tree alone -/

lemma ensureId_shape {id : Option Bytes} (h : t.ensureId p = some (id,t')) : t'.shape = t.shape := by
  obtain ⟨s,hs,-⟩ := Option.bind_eq_some_iff.mp h
  obtain ⟨id',t₁,heq,-,hshape,-⟩ := ensureId_labelled hs
  rw [h] at heq
  cases heq
  exact hshape

lemma toSpanEvent_shape {e : Option SpanEvent} (h : t.toSpanEvent p = some (e,t')) :
    t'.shape = t.shape := by
  obtain ⟨s,hs,h⟩ := Option.bind_eq_some_iff.mp h
  split at h
  · cases h
    rfl
  obtain ⟨⟨id,t₁⟩,hid,h⟩ := Option.bind_eq_some_iff.mp h
  have hshape := ensureId_shape hid
  simp only at h
  split at h
  · cases h
    exact hshape
  split at h
  · obtain ⟨⟨parentId,t₂⟩,hid₂,h⟩ := Option.bind_eq_some_iff.mp h
    cases h
    exact (ensureId_shape hid₂).trans hshape
  · cases h
    exact hshape

lemma passSpan_shape {u u' : SegmentUserdata} {events : List SpanEvent} {name : Bytes}
    (h : t.passSpan u events p name = some (t',u')) : t'.shape = t.shape := by
  unfold passSpan at h
  split at h
  · obtain ⟨⟨e,t₁⟩,he,h⟩ := Option.bind_eq_some_iff.mp h
    obtain ⟨s,-,h⟩ := Option.bind_eq_some_iff.mp h
    cases h
    exact toSpanEvent_shape he
  · cases h
    rfl

lemma stot_frame : stot.Frame := by
  intro p w post w' h
  have hpost : ∀ q x x', runPost (some stotPost) q x = some x' → x'.1.shape = x.1.shape := by
    intro q x x' hx
    cases hx
    rfl
  obtain ⟨t,u⟩ := w
  obtain ⟨s,hs,h⟩ := Option.bind_eq_some_iff.mp h
  split at h
  · cases h
    refine ⟨rfl,fun q x x' hx => ?_⟩
    cases hx
    rfl
  split at h
  · cases h
    refine ⟨rfl,fun q x x' hx => ?_⟩
    cases hx
    rfl
  simp only at h
  split at h
  · cases h
    exact ⟨rfl,hpost⟩
  · obtain ⟨⟨t₁,u₁⟩,hspan,h⟩ := Option.bind_eq_some_iff.mp h
    cases h
    exact ⟨passSpan_shape hspan,hpost⟩

/-! ### Labels are not read -/

lemma Labelled.shown (h : Labelled t t') (q : SegPtr) : t'.shown q = t.shown q := by
  have hq := congrArg (Option.map fun s => decide (s.startTime < s.stopTime)) (h.segs q)
  simp only [Option.map_map,Function.comp_def,Segment.bare] at hq
  simp only [Txn.shown]
  cases hs : t.segs q with
  | none =>
    rw [hs,Option.map_none,Option.map_eq_none_iff] at hq
    rw [hq]
  | some s =>
    rw [hs,Option.map_some] at hq
    obtain ⟨s',hs',heq⟩ := Option.map_eq_some_iff.mp hq
    rw [hs']
    exact heq

/-- The text of a segment does not depend on ids and colours. -/
theorem Labelled.segmentOpening (h : Labelled t t') (q : SegPtr) (names : StringPool) :
    t'.segmentOpening q names = t.segmentOpening q names := by
  have hstrings : t'.traceStrings = t.traceStrings := by rw [h.rest]
  have hseg : ((t'.segs q).getD .zero).bare = ((t.segs q).getD .zero).bare := by
    have hq := h.segs q
    cases hs : t.segs q with
    | none =>
      rw [hs,Option.map_none,Option.map_eq_none_iff] at hq
      rw [hq]
    | some s =>
      rw [hs,Option.map_some] at hq
      obtain ⟨s',hs',heq⟩ := Option.map_eq_some_iff.mp hq
      rw [hs']
      exact heq
  have htext : ∀ s, t'.addSegmentToBuffer [] s names = t.addSegmentToBuffer [] s names := by
    intro s
    simp only [addSegmentToBuffer,hstrings]
  unfold Txn.segmentOpening
  rw [htext]
  exact Segment.eq_of_bare (fun s => t.addSegmentToBuffer [] s names) (fun _ => rfl) hseg

end Txn
end PhpAgent

import PhpAgent.Agent.Txndata

/-! What the encoder of a transaction message leaves in its buffer, part by part and as a whole. -/
namespace PhpAgent.Txndata
open Flat FlatBuilder FlatBuilder.Builder BuiltTables AgentMessage

/-! ### Bounds -/

def eventCost (json : Bytes) : ℕ := textCost (some json) + 25

def eventsCost (jsons : List Bytes) : ℕ := (jsons.map eventCost).sum + (4 * jsons.length + 11)

def traceCost (trace : Trace) : ℕ := textCost (some trace.json) + (textCost trace.guid + 75)

def errorCost (e : Bytes × ℤ) : ℕ := textCost (some e.1) + 35

def slowsqlCost (slow : NrSlowsql) : ℕ :=
  textCost (some slow.paramsJson) + (textCost (some slow.sql) + (textCost (some slow.metricName) + 119))

section Parts
variable {malloc : ℕ → ℕ} {stops : FlatBuilder.Fault → Prop} {total : ℕ} {pre : Bytes → Prop}
  (hmalloc : EvenAddresses malloc) (htotal : 2 ^ 30 ≤ total → stops .tooLarge) (hpre : Lasting pre)
include hmalloc htotal hpre

lemma leaves_event (json : Bytes) :
    Leaves buffered stops total (eventCost json) pre (fun o used => o ≠ 0 ∧ o ≤ used.length ∧ EventAt json o used)
      (prependEvent malloc json) :=
  leaves_textTable hmalloc htotal ((leaves_text hmalloc htotal (some json)).weaken le_rfl (fun _ h => h)
    fun _ _ h => ⟨h.1,h.2.1⟩) hpre

lemma leaves_events (jsons : List Bytes) :
    Leaves buffered stops total (eventsCost jsons) pre (fun o used => o ≤ used.length ∧ ListAt EventAt used o jsons.reverse)
      (prependEach malloc (prependEvent malloc) jsons) :=
  leaves_each hmalloc htotal hpre lasting_eventAt fun json _ => leaves_event hmalloc htotal hpre json

lemma leaves_trace (trace : Trace) :
    Leaves buffered stops total (traceCost trace) pre (fun o used => o ≠ 0 ∧ o ≤ used.length ∧ TraceAt trace o used)
      (prependTrace malloc trace) := by
  have hjson : Leaves buffered stops total _ pre _ _ := leaves_text hmalloc htotal (some trace.json)
  refine hjson.step hpre (fun x => (lasting_le_length x).and ((lasting_textAt x _).and (lasting_const _))) fun data h₁ => ?_
  refine (leaves_text hmalloc htotal trace.guid).step h₁
    (fun x => (lasting_le_length x).and ((lasting_textAt x _).and (lasting_const _))) fun guid h₂ => ?_
  have htable : Leaves buffered stops total 75
      (fun used => (data ≤ used.length ∧ TextAt used data (some trace.json)) ∧ guid ≤ used.length ∧
        TextAt used guid trace.guid) (fun o used => o ≠ 0 ∧ o ≤ used.length ∧ TraceAt trace o used) _ :=
    leaves_table_with hmalloc htotal 5 50 [4,2,3,1,0] (traceFields malloc trace data guid) rfl rfl (by decide) ?_
      (((lasting_le_length data).and (lasting_textAt data _)).and ((lasting_le_length guid).and (lasting_textAt guid _)))
      fun o used hbefore htable => ⟨⟨data,htable.leads 0 rfl,hbefore.1.2⟩,⟨guid,htable.leads 1 rfl,hbefore.2.2⟩,
        htable.field 2 rfl,htable.field 3 rfl,htable.field 4 rfl⟩
  · exact htable.weaken le_rfl (fun _ h => ⟨⟨h.1.2.1,h.1.2.2.1⟩,h.2.1,h.2.2.1⟩) fun _ _ h => h
  · simp only [traceFields,List.forall_mem_cons,List.not_mem_nil,false_imp_iff,implies_true,and_true]
    exact ⟨sound_uoffset hmalloc htotal _ fun _ h => h.1.1,sound_uoffset hmalloc htotal _ fun _ h => h.2.1,
      sound_bool hmalloc htotal _ _,sound_number hmalloc htotal _ _ _,sound_number hmalloc htotal _ _ _⟩

lemma leaves_errors (error : Option (Bytes × ℤ)) :
    Leaves buffered stops total ((error.toList.map errorCost).sum + (4 * error.toList.length + 11)) pre
      (fun o used => o ≤ used.length ∧ ListAt ErrorAt used o error.toList.reverse) (prependErrors malloc error) := by
  refine leaves_each hmalloc htotal hpre lasting_errorAt fun e _ => ?_
  have hjson : Leaves buffered stops total _ pre _ _ := leaves_text hmalloc htotal (some e.1)
  refine hjson.step hpre (fun x => (lasting_le_length x).and ((lasting_textAt x _).and (lasting_const _))) fun data h₁ => ?_
  have htable : Leaves buffered stops total 35 (fun used => data ≤ used.length ∧ TextAt used data (some e.1))
      (fun o used => o ≠ 0 ∧ o ≤ used.length ∧ ErrorAt e o used) _ :=
    leaves_table_with hmalloc htotal 2 16 [1,0] (errorFields malloc e.2 data) rfl rfl (by decide)
      (List.forall_mem_cons.mpr ⟨sound_uoffset hmalloc htotal 1 fun _ h => h.1,
        List.forall_mem_singleton.mpr (sound_number hmalloc htotal _ _ _)⟩)
      ((lasting_le_length data).and (lasting_textAt data _))
      fun o used hbefore htable => ⟨⟨data,htable.leads 0 rfl,hbefore.2⟩,htable.field 1 rfl⟩
  exact htable.weaken le_rfl (fun _ h => ⟨h.2.1,h.2.2.1⟩) fun _ _ h => h

lemma leaves_slowsql (slow : NrSlowsql) :
    Leaves buffered stops total (slowsqlCost slow) pre (fun o used => o ≠ 0 ∧ o ≤ used.length ∧ SlowsqlAt slow o used)
      (prependSlowsql malloc slow) := by
  have hlasting : ∀ (s : Bytes) (x : ℕ), Lasting fun used =>
      x ≤ used.length ∧ TextAt used x (some s) ∧ (some s ≠ none → 5 ≤ x) := fun s x =>
    (lasting_le_length x).and ((lasting_textAt x _).and (lasting_const _))
  have hparams : Leaves buffered stops total _ pre _ _ := leaves_text hmalloc htotal (some slow.paramsJson)
  refine hparams.step hpre (hlasting _) fun params h₁ => ?_
  refine (leaves_text hmalloc htotal (some slow.sql)).step h₁ (hlasting _) fun query h₂ => ?_
  refine (leaves_text hmalloc htotal (some slow.metricName)).step h₂ (hlasting _) fun metric h₃ => ?_
  have htable : Leaves buffered stops total 119
      (fun used => (params ≤ used.length ∧ TextAt used params (some slow.paramsJson)) ∧
        (query ≤ used.length ∧ TextAt used query (some slow.sql)) ∧
        metric ≤ used.length ∧ TextAt used metric (some slow.metricName))
      (fun o used => o ≠ 0 ∧ o ≤ used.length ∧ SlowsqlAt slow o used) _ :=
    leaves_table_with hmalloc htotal 8 88 [7,6,5,4,3,2,1,0] (slowsqlFields malloc slow params query metric) rfl rfl
      (by decide) ?_
      (((lasting_le_length _).and (lasting_textAt _ _)).and
        (((lasting_le_length _).and (lasting_textAt _ _)).and ((lasting_le_length _).and (lasting_textAt _ _))))
      fun o used hbefore htable => ⟨⟨params,htable.leads 0 rfl,hbefore.1.2⟩,⟨query,htable.leads 1 rfl,hbefore.2.1.2⟩,
        ⟨metric,htable.leads 2 rfl,hbefore.2.2.2⟩,htable.field 3 rfl,htable.field 4 rfl,htable.field 5 rfl,
        htable.field 6 rfl,htable.field 7 rfl⟩
  · exact htable.weaken le_rfl (fun _ h => ⟨⟨h.1.1.2.1,h.1.1.2.2.1⟩,⟨h.1.2.1,h.1.2.2.1⟩,h.2.1,h.2.2.1⟩) fun _ _ h => h
  · simp only [slowsqlFields,List.forall_mem_cons,List.not_mem_nil,false_imp_iff,implies_true,and_true]
    exact ⟨sound_uoffset hmalloc htotal _ fun _ h => h.1.1,sound_uoffset hmalloc htotal _ fun _ h => h.2.1.1,
      sound_uoffset hmalloc htotal _ fun _ h => h.2.2.1,sound_number hmalloc htotal _ _ _,
      sound_number hmalloc htotal _ _ _,sound_number hmalloc htotal _ _ _,sound_number hmalloc htotal _ _ _,
      sound_number hmalloc htotal _ _ _⟩

/-- The statements arrive from the last one on. -/
theorem leaves_slowsqls (slowsqls : NrSlowsqls) :
    Leaves buffered stops total ((slowsqls.slowsqls.map slowsqlCost).sum + (4 * slowsqls.slowsqls.length + 11)) pre
      (fun o used => o ≤ used.length ∧ ListAt SlowsqlAt used o slowsqls.slowsqls.reverse)
      (prependSlowsqls malloc slowsqls) := by
  by_cases hnone : slowsqls.slowsqls.length = 0
  · have hnil := List.length_eq_zero_iff.mp hnone
    intro fb hok _ _
    rw [prependSlowsqls,if_pos hnone,hnil]
    exact ⟨hok,List.suffix_rfl,Nat.le_add_right _ _,Nat.zero_le _,.inl ⟨rfl,rfl⟩⟩
  · have hprogram : prependSlowsqls malloc slowsqls = fun fb =>
        forEach (prependSlowsql malloc) slowsqls.slowsqls.reverse fb >>= fun r => prependVector malloc r.1.reverse r.2 := by
      funext fb
      rw [prependSlowsqls,if_neg hnone]
    have hloop : Leaves buffered stops total _ pre _ _ := Leaves.forEach hpre
      (fun a o => (lasting_le_length o).and (lasting_slowsqlAt a o))
      fun (slow : NrSlowsql) (_ : slow ∈ slowsqls.slowsqls.reverse) =>
        (leaves_slowsql hmalloc htotal hpre slow).weaken le_rfl (fun _ h => h) fun o used h => h.2
    rw [List.map_reverse,List.sum_reverse] at hloop
    rw [hprogram]
    refine hloop.bind hpre fun offsets => ?_
    refine (leaves_vectorOf hmalloc htotal lasting_slowsqlAt slowsqls.slowsqls offsets.reverse).weaken le_rfl
      (fun used h => ?_) fun _ _ h => h
    have hall := List.rel_reverse h.2
    rwa [List.reverse_reverse] at hall

/-- The events of the pool, the last one first, when all of its heap can be encoded. -/
theorem leaves_logEvents {β : Type} [Inhabited β] {encode : LogEvent β → Option Bytes} {logEvents : Option (LogEvents β)}
    {limit : ℕ} {eventsVec : NrVector (LogEvent β)}
    (hvec : LogEvents.toVector logEvents ⟨logEventCount logEvents limit,[],Nat.zero_le _⟩ = some eventsVec)
    (hsaved : eventsVec.elements.length = LogEvents.numberSaved logEvents)
    (hall : ∀ e ∈ eventsVec.elements, ∃ json, encode e = some json) {jsons : List Bytes}
    (hjsons : (eventsVec.elements.take (logEventCount logEvents limit)).filterMap encode = jsons) :
    Leaves buffered stops total (TxndataSpans.bound jsons) pre
      (fun o used => o ≤ used.length ∧ ListAt EventAt used o jsons.reverse)
      (prependLogEvents malloc encode logEvents limit) := by
  obtain ⟨all,hlen,hget,htake⟩ := TxndataSpans.exists_jsons hall
  rw [htake] at hjsons
  subst hjsons
  have hle : logEventCount logEvents limit ≤ all.length := by
    unfold logEventCount
    split_ifs <;> omega
  by_cases hnone : LogEvents.numberSaved logEvents = 0
  · have hnil : all = [] := List.length_eq_zero_iff.mp (by omega)
    intro fb hok _ _
    rw [prependLogEvents,if_pos hnone,hnil]
    exact ⟨hok,List.suffix_rfl,Nat.le_add_right _ _,Nat.zero_le _,.inl ⟨rfl,by rw [List.take_nil]; rfl⟩⟩
  · have hprogram : prependLogEvents malloc encode logEvents limit = fun fb =>
        (List.range (logEventCount logEvents limit)).foldlM (TxndataSpans.encodeRound malloc encode eventsVec.elements)
          (List.replicate (logEventCount logEvents limit) 0,fb) >>= fun r => prependVector malloc r.1 r.2 := by
      funext fb
      simp only [prependLogEvents,if_neg hnone,hvec]
    rw [hprogram,TxndataSpans.bound_take hle]
    refine (TxndataSpans.leaves_encoded hmalloc htotal hget hle).bind hpre fun offsets => ?_
    have hvector : Leaves buffered stops total _ _ _ (prependVector malloc offsets) := leaves_vectorOf hmalloc htotal
      lasting_eventAt (all.take (logEventCount logEvents limit)) offsets
    rw [List.length_take_of_le hle] at hvector
    exact hvector.weaken le_rfl (fun _ h => h.2.imp fun json o hat => ⟨hat.1,eventAt_of_encoded hat.2⟩) fun _ _ h => h

end Parts

/-! ### The message -/

section
variable {E β : Type} {mkhash : Bytes → UInt32}

/-- The fields of a transaction, with the JSON of its span and log events. -/
structure TransactionAt (d : Doubles) (txn : Txn E β mkhash) (pid : ℤ) (spans logs : List Bytes) (o : ℕ)
    (used : Bytes) : Prop where
  samplingPriority : HasNumber used o 11 .f64 txn.samplingPriority
  errorEvents : HasList EventAt used o 10 txn.errorEvent.toList
  trace : HasTable TraceAt used o 9 txn.trace
  customEvents : HasList EventAt used o 8 txn.customEvents
  slowsqls : HasList SlowsqlAt used o 7 txn.slowsqls.slowsqls.reverse
  errors : HasList ErrorAt used o 6 txn.error.toList
  metrics : HasList (MetricAt d) used o 5 (allMetrics txn.scopedMetrics txn.unscopedMetrics).reverse
  txnEvent : HasTable EventAt used o 4 txn.txnEvent
  pid : HasNumber used o 3 .i32 pid
  resourceId : HasText used o 2 txn.syntheticsResourceId
  requestUri : HasText used o 1 (some (requestUriText txn))
  name : HasText used o 0 txn.name
  spanEvents : HasList EventAt used o 12 spans
  logEvents : HasList EventAt used o 13 logs
  phpPackages : HasTable EventAt used o 14 (packagesJson txn.phpPackages)
  logLabels : HasTable EventAt used o 15 (some (Labels.connectorFormat txn.logForwardingLabels).toJson)

lemma lasting_transactionAt (d : Doubles) (txn : Txn E β mkhash) (pid : ℤ) (spans logs : List Bytes) (o : ℕ) :
    Lasting (TransactionAt d txn pid spans logs o) := by
  intro used used' h hused
  exact ⟨lasting_hasNumber o _ _ _ h.samplingPriority hused,lasting_hasList lasting_eventAt o _ _ h.errorEvents hused,
    lasting_hasTable lasting_traceAt o _ _ h.trace hused,lasting_hasList lasting_eventAt o _ _ h.customEvents hused,
    lasting_hasList lasting_slowsqlAt o _ _ h.slowsqls hused,lasting_hasList lasting_errorAt o _ _ h.errors hused,
    lasting_hasList (lasting_metricAt d) o _ _ h.metrics hused,lasting_hasTable lasting_eventAt o _ _ h.txnEvent hused,
    lasting_hasNumber o _ _ _ h.pid hused,lasting_hasText o _ _ h.resourceId hused,
    lasting_hasText o _ _ h.requestUri hused,lasting_hasText o _ _ h.name hused,
    lasting_hasList lasting_eventAt o _ _ h.spanEvents hused,lasting_hasList lasting_eventAt o _ _ h.logEvents hused,
    lasting_hasTable lasting_eventAt o _ _ h.phpPackages hused,lasting_hasTable lasting_eventAt o _ _ h.logLabels hused⟩

/-- A bound on the bytes of a transaction. -/
def transactionCost (txn : Txn E β mkhash) (spans logs : List Bytes) : ℕ :=
  txn.trace.elim 0 traceCost + (TxndataSpans.bound spans + (TxndataSpans.bound logs +
    (eventCost (Labels.connectorFormat txn.logForwardingLabels).toJson + (eventsCost txn.errorEvent.toList +
      (eventsCost txn.customEvents.reverse +
        (((txn.slowsqls.slowsqls.map slowsqlCost).sum + (4 * txn.slowsqls.slowsqls.length + 11)) +
          (((txn.error.toList.map errorCost).sum + (4 * txn.error.toList.length + 11)) +
            (metricsCost (allMetrics txn.scopedMetrics txn.unscopedMetrics) +
              ((packagesJson txn.phpPackages).elim 0 eventCost + (txn.txnEvent.elim 0 eventCost +
                (textCost txn.syntheticsResourceId + (textCost (some (requestUriText txn)) +
                  (textCost txn.name + 183)))))))))))))

/-- What is known before the table. -/
structure Before (d : Doubles) (txn : Txn E β mkhash) (spans logs : List Bytes) (x : Offsets) (used : Bytes) : Prop where
  txnTrace : x.txnTrace ≤ used.length ∧ MaybeAt TraceAt used x.txnTrace txn.trace
  spanEvents : x.spanEvents ≤ used.length ∧ ListAt EventAt used x.spanEvents spans
  logEvents : x.logEvents ≤ used.length ∧ ListAt EventAt used x.logEvents logs
  logLabels : x.logLabels ≤ used.length ∧
    MaybeAt EventAt used x.logLabels (some (Labels.connectorFormat txn.logForwardingLabels).toJson)
  errorEvents : x.errorEvents ≤ used.length ∧ ListAt EventAt used x.errorEvents txn.errorEvent.toList
  customEvents : x.customEvents ≤ used.length ∧ ListAt EventAt used x.customEvents txn.customEvents
  slowsqls : x.slowsqls ≤ used.length ∧ ListAt SlowsqlAt used x.slowsqls txn.slowsqls.slowsqls.reverse
  errors : x.errors ≤ used.length ∧ ListAt ErrorAt used x.errors txn.error.toList
  metrics : x.metrics ≤ used.length ∧
    ListAt (MetricAt d) used x.metrics (allMetrics txn.scopedMetrics txn.unscopedMetrics).reverse
  phpPackages : x.phpPackages ≤ used.length ∧ MaybeAt EventAt used x.phpPackages (packagesJson txn.phpPackages)
  txnEvent : x.txnEvent ≤ used.length ∧ MaybeAt EventAt used x.txnEvent txn.txnEvent
  resourceId : x.resourceId ≤ used.length ∧ TextAt used x.resourceId txn.syntheticsResourceId
  requestUri : x.requestUri ≤ used.length ∧ TextAt used x.requestUri (some (requestUriText txn))
  name : x.name ≤ used.length ∧ TextAt used x.name txn.name
  long : 5 ≤ x.requestUri

lemma lasting_before (d : Doubles) (txn : Txn E β mkhash) (spans logs : List Bytes) (x : Offsets) :
    Lasting (Before d txn spans logs x) := by
  intro used used' h hused
  have hle := hused.length_le
  exact ⟨⟨h.txnTrace.1.trans hle,lasting_maybeAt lasting_traceAt _ _ h.txnTrace.2 hused⟩,
    ⟨h.spanEvents.1.trans hle,lasting_listAt lasting_eventAt _ _ h.spanEvents.2 hused⟩,
    ⟨h.logEvents.1.trans hle,lasting_listAt lasting_eventAt _ _ h.logEvents.2 hused⟩,
    ⟨h.logLabels.1.trans hle,lasting_maybeAt lasting_eventAt _ _ h.logLabels.2 hused⟩,
    ⟨h.errorEvents.1.trans hle,lasting_listAt lasting_eventAt _ _ h.errorEvents.2 hused⟩,
    ⟨h.customEvents.1.trans hle,lasting_listAt lasting_eventAt _ _ h.customEvents.2 hused⟩,
    ⟨h.slowsqls.1.trans hle,lasting_listAt lasting_slowsqlAt _ _ h.slowsqls.2 hused⟩,
    ⟨h.errors.1.trans hle,lasting_listAt lasting_errorAt _ _ h.errors.2 hused⟩,
    ⟨h.metrics.1.trans hle,lasting_listAt (lasting_metricAt d) _ _ h.metrics.2 hused⟩,
    ⟨h.phpPackages.1.trans hle,lasting_maybeAt lasting_eventAt _ _ h.phpPackages.2 hused⟩,
    ⟨h.txnEvent.1.trans hle,lasting_maybeAt lasting_eventAt _ _ h.txnEvent.2 hused⟩,
    ⟨h.resourceId.1.trans hle,lasting_textAt _ _ h.resourceId.2 hused⟩,
    ⟨h.requestUri.1.trans hle,lasting_textAt _ _ h.requestUri.2 hused⟩,
    ⟨h.name.1.trans hle,lasting_textAt _ _ h.name.2 hused⟩,h.long⟩

section Build
variable {malloc : ℕ → ℕ} {stops : FlatBuilder.Fault → Prop} {total : ℕ} (hmalloc : EvenAddresses malloc)
  (htotal : 2 ^ 30 ≤ total → stops .tooLarge)
include hmalloc htotal

lemma leaves_transactionTable (d : Doubles) (txn : Txn E β mkhash) (pid : ℤ) (spans logs : List Bytes) (x : Offsets) :
    Leaves buffered stops total 183 (Before d txn spans logs x)
      (fun o used => o ≠ 0 ∧ o ≤ used.length ∧ 13 ≤ o ∧ TransactionAt d txn pid spans logs o used)
      (prependObject malloc 16 ((transactionFields malloc txn.samplingPriority pid x).map FieldWrite.write)) := by
  have hbytes : inlineBytes (transactionFields malloc txn.samplingPriority pid x) = 136 := by
    simp only [inlineBytes,transactionFields,FieldWrite.number,FieldWrite.uoffset,Kind.size,List.map_cons,List.map_nil,
      List.sum_cons,List.sum_nil,Nat.reduceMul,Nat.reduceAdd]
  refine leaves_table_with hmalloc htotal 16 136 [11,10,9,8,7,6,5,4,3,2,1,0,12,13,14,15]
    (transactionFields malloc txn.samplingPriority pid x) rfl hbytes (by decide) ?_ (lasting_before d txn spans logs x)
    fun o used hbefore htable => ?_
  · simp only [transactionFields,List.forall_mem_cons,List.not_mem_nil,false_imp_iff,implies_true,and_true]
    exact ⟨sound_number hmalloc htotal _ _ _,sound_uoffset hmalloc htotal _ fun _ h => h.errorEvents.1,
      sound_uoffset hmalloc htotal _ fun _ h => h.txnTrace.1,sound_uoffset hmalloc htotal _ fun _ h => h.customEvents.1,
      sound_uoffset hmalloc htotal _ fun _ h => h.slowsqls.1,sound_uoffset hmalloc htotal _ fun _ h => h.errors.1,
      sound_uoffset hmalloc htotal _ fun _ h => h.metrics.1,sound_uoffset hmalloc htotal _ fun _ h => h.txnEvent.1,
      sound_number hmalloc htotal _ _ _,sound_uoffset hmalloc htotal _ fun _ h => h.resourceId.1,
      sound_uoffset hmalloc htotal _ fun _ h => h.requestUri.1,sound_uoffset hmalloc htotal _ fun _ h => h.name.1,
      sound_uoffset hmalloc htotal _ fun _ h => h.spanEvents.1,sound_uoffset hmalloc htotal _ fun _ h => h.logEvents.1,
      sound_uoffset hmalloc htotal _ fun _ h => h.phpPackages.1,sound_uoffset hmalloc htotal _ fun _ h => h.logLabels.1⟩
  · have hlong := hbefore.long
    have hbeyond : x.requestUri + 8 ≤ o := htable.beyond 10 rfl (by omega)
    exact ⟨by omega,htable.field 0 rfl,⟨_,htable.leads 1 rfl,hbefore.errorEvents.2⟩,
      ⟨_,htable.leads 2 rfl,hbefore.txnTrace.2⟩,⟨_,htable.leads 3 rfl,hbefore.customEvents.2⟩,
      ⟨_,htable.leads 4 rfl,hbefore.slowsqls.2⟩,⟨_,htable.leads 5 rfl,hbefore.errors.2⟩,
      ⟨_,htable.leads 6 rfl,hbefore.metrics.2⟩,⟨_,htable.leads 7 rfl,hbefore.txnEvent.2⟩,htable.field 8 rfl,
      ⟨_,htable.leads 9 rfl,hbefore.resourceId.2⟩,⟨_,htable.leads 10 rfl,hbefore.requestUri.2⟩,
      ⟨_,htable.leads 11 rfl,hbefore.name.2⟩,⟨_,htable.leads 12 rfl,hbefore.spanEvents.2⟩,
      ⟨_,htable.leads 13 rfl,hbefore.logEvents.2⟩,⟨_,htable.leads 14 rfl,hbefore.phpPackages.2⟩,
      ⟨_,htable.leads 15 rfl,hbefore.logLabels.2⟩⟩

variable [Inhabited β]

/-- What of a transaction can be sent: its events have encodings, the limit for spans lets one through, and
the pool of log events has as many as it counts. -/
structure Sendable (enc : Encoders E β) (txn : Txn E β mkhash) (eventsVec : NrVector (LogEvent β)) : Prop where
  spans : ∀ e ∈ txn.spanEvents, ∃ json, enc.span e = some json
  spanEventLimit : txn.spanEvents = [] ∨ txn.spanEventLimit ≠ 0
  vector : LogEvents.toVector txn.logEvents ⟨logEventCount txn.logEvents txn.logEventLimit,[],Nat.zero_le _⟩ =
    some eventsVec
  saved : eventsVec.elements.length = LogEvents.numberSaved txn.logEvents
  logs : ∀ e ∈ eventsVec.elements, ∃ json, enc.log e = some json

/-- The span events that are sent. -/
def sentSpans (enc : Encoders E β) (txn : Txn E β mkhash) : List Bytes :=
  (txn.spanEvents.take (min txn.spanEvents.length txn.spanEventLimit)).filterMap enc.span

/-- The log events that are sent, in the order of the vector. -/
def sentLogs (enc : Encoders E β) (txn : Txn E β mkhash) (eventsVec : NrVector (LogEvent β)) : List Bytes :=
  (eventsVec.elements.take (logEventCount txn.logEvents txn.logEventLimit)).filterMap enc.log

lemma leaves_transaction {enc : Encoders E β} {txn : Txn E β mkhash} {eventsVec : NrVector (LogEvent β)}
    (h : Sendable enc txn eventsVec) (pid : ℤ) :
    Leaves buffered stops total (transactionCost txn (sentSpans enc txn) (sentLogs enc txn eventsVec)) (fun _ => True)
      (fun o used => o ≤ used.length ∧ 13 ≤ o ∧ TransactionAt enc.doubles txn pid (sentSpans enc txn)
        (sentLogs enc txn eventsVec).reverse o used) (prependTransaction malloc enc txn pid) := by
  have htext : ∀ (s : Option Bytes) (x : ℕ), Lasting fun used => x ≤ used.length ∧ TextAt used x s ∧ (s ≠ none → 5 ≤ x) :=
    fun s x => (lasting_le_length x).and ((lasting_textAt x _).and (lasting_const _))
  have hevents : ∀ (jsons : List Bytes) (x : ℕ), Lasting fun used => x ≤ used.length ∧ ListAt EventAt used x jsons :=
    fun jsons x => (lasting_le_length x).and (lasting_listAt lasting_eventAt x jsons)
  have hmaybe : ∀ (json : Option Bytes) (x : ℕ), Lasting fun used => x ≤ used.length ∧ MaybeAt EventAt used x json :=
    fun json x => (lasting_le_length x).and (lasting_maybeAt lasting_eventAt x json)
  unfold transactionCost
  have h₀ : Lasting fun _ : Bytes => True := lasting_const _
  refine (leaves_maybe (fun trace => leaves_trace hmalloc htotal h₀ trace) txn.trace).step h₀
    (fun x => (lasting_le_length x).and (lasting_maybeAt lasting_traceAt x _)) fun txnTrace h₁ => ?_
  refine (TxndataSpans.leaves_spanEvents hmalloc h₁ htotal h.spans h.spanEventLimit rfl).step h₁
    (fun x => (lasting_le_length x).and (lasting_listAt TxndataSpans.lasting_eventAt x _)) fun spanEvents h₂ => ?_
  refine (leaves_logEvents hmalloc htotal h₂ h.vector h.saved h.logs rfl).step h₂ (hevents _) fun logEvents h₃ => ?_
  refine (leaves_event hmalloc htotal h₃ _).step h₃
    (fun x => (lasting_const _).and ((lasting_le_length x).and (lasting_eventAt _ x))) fun logLabels h₄ => ?_
  refine (leaves_events hmalloc htotal h₄ txn.errorEvent.toList).step h₄ (hevents _) fun errorEvents h₅ => ?_
  refine (leaves_events hmalloc htotal h₅ txn.customEvents.reverse).step h₅ (hevents _) fun customEvents h₆ => ?_
  refine (leaves_slowsqls hmalloc htotal h₆ txn.slowsqls).step h₆
    (fun x => (lasting_le_length x).and (lasting_listAt lasting_slowsqlAt x _)) fun slowsqls h₇ => ?_
  refine (leaves_errors hmalloc htotal h₇ txn.error).step h₇
    (fun x => (lasting_le_length x).and (lasting_listAt lasting_errorAt x _)) fun errors h₈ => ?_
  refine (leaves_metrics hmalloc htotal h₈ enc.doubles txn.scopedMetrics txn.unscopedMetrics).step h₈
    (fun x => (lasting_le_length x).and (lasting_listAt (lasting_metricAt _) x _)) fun metrics h₉ => ?_
  refine (leaves_maybe (fun json => leaves_event hmalloc htotal h₉ json) (packagesJson txn.phpPackages)).step h₉ (hmaybe _)
    fun phpPackages h₁₀ => ?_
  refine (leaves_maybe (fun json => leaves_event hmalloc htotal h₁₀ json) txn.txnEvent).step h₁₀ (hmaybe _)
    fun txnEvent h₁₁ => ?_
  refine (leaves_text hmalloc htotal txn.syntheticsResourceId).step h₁₁ (htext _) fun resourceId h₁₂ => ?_
  refine (leaves_text hmalloc htotal (some (requestUriText txn))).step h₁₂ (htext _) fun requestUri h₁₃ => ?_
  refine (leaves_text hmalloc htotal txn.name).step h₁₃ (htext _) fun name h₁₄ => ?_
  refine (leaves_transactionTable hmalloc htotal enc.doubles txn pid (sentSpans enc txn)
    (sentLogs enc txn eventsVec).reverse ⟨txnTrace,spanEvents,logEvents,logLabels,errorEvents,customEvents,slowsqls,
      errors,metrics,phpPackages,txnEvent,resourceId,requestUri,name⟩).weaken le_rfl (fun used hall => ?_)
      fun _ _ h => h.2
  obtain ⟨⟨⟨⟨⟨⟨⟨⟨⟨⟨⟨⟨⟨⟨-,htrace⟩,hspans⟩,hlogs⟩,hlabels⟩,herrorEvents⟩,hcustoms⟩,hslows⟩,herrors⟩,hmetrics⟩,hpackages⟩,
    htxnEvent⟩,hresource⟩,huri⟩,hname⟩ := hall
  rw [List.reverse_reverse] at hcustoms
  have honce : ∀ {α : Type} (a : Option α), a.toList.reverse = a.toList := fun a => by cases a <;> rfl
  rw [honce] at herrorEvents herrors
  exact ⟨htrace,⟨hspans.1,hspans.2.imp fun json o => eventAt_of_encoded⟩,hlogs,⟨hlabels.2.1,hlabels.1,hlabels.2.2⟩,
    herrorEvents,hcustoms,hslows,herrors,hmetrics,hpackages,htxnEvent,⟨hresource.1,hresource.2.1⟩,⟨huri.1,huri.2.1⟩,
    ⟨hname.1,hname.2.1⟩,huri.2.2 (Option.some_ne_none _)⟩

end Build
end

end PhpAgent.Txndata

import PhpAgent.Agent.TxndataTransmit
import PhpAgent.Daemon.Listener

/-! What the agent sends of a transaction is what the daemon aggregates. -/
namespace PhpAgent.Txndata
open Flat FlatBuilder FlatBuilder.Builder BuiltTables AgentMessage

/-! ### The calls for a transaction -/

section Calls
variable {E β : Type} {mkhash : Bytes → UInt32}

def eventCalls (add : Option Bytes → HarvestCall) (jsons : List Bytes) : List HarvestCall :=
  jsons.map fun json => add (some json)

/-- A metric that is in a scope is added with the name of the transaction too. -/
def metricCalls (d : Doubles) (txnName : Bytes) (m : NrMetric × ℤ) : List HarvestCall :=
  let data := (metricNumbers d m.1).map (Kind.bits .f64)
  if m.2 ≠ 0 then [.addRaw (some m.1.name) [] data m.1.forced,.addRaw (some m.1.name) txnName data m.1.forced]
  else [.addRaw (some m.1.name) [] data m.1.forced]

def slowsqlCall (txnName requestURI : Bytes) (slow : NrSlowsql) : HarvestCall :=
  .observe ⟨slow.sqlId,Int32.ofInt slow.count,slow.total,slow.minTime,slow.maxTime,slow.metricName,slow.sql,txnName,
    requestURI,slow.paramsJson⟩

def traceCalls (resourceId txnName requestURI : Bytes) (trace : Trace) : List HarvestCall :=
  [.addValue "Supportability/TxnData/TraceSize" trace.json.length,
    .addTxnTrace ⟨wire .f64 trace.timestampMs,wire .f64 trace.durationMs,stringOf trace.guid,resourceId,
      trace.forcePersist ≠ 0,txnName,requestURI⟩ (some trace.json)]

/-- What is to be asked of the harvest for a transaction. -/
def harvestCalls (d : Doubles) (txn : Txn E β mkhash) (pid : ℤ) (spans logs : List Bytes) (size : ℕ) :
    List HarvestCall :=
  let txnName := stringOf txn.name
  let requestURI := requestUriText txn
  let resourceId := stringOf txn.syntheticsResourceId
  let priority := wire .f64 txn.samplingPriority
  let addEvent := fun data : Option Bytes =>
    if resourceId = [] then HarvestCall.addTxnEvent data priority else .addSyntheticsEvent data priority
  let metrics := allMetrics txn.scopedMetrics txn.unscopedMetrics
  [.addValue "Supportability/TxnData/Size" size,
      .addValue "Supportability/TxnData/CustomEvents" txn.customEvents.length,
      .addValue "Supportability/TxnData/Metrics" metrics.length,
      .addValue "Supportability/TxnData/SlowSQL" txn.slowsqls.slowsqls.length,.pid pid] ++
    eventCalls addEvent txn.txnEvent.toList ++ metrics.reverse.flatMap (metricCalls d txnName) ++
    txn.error.toList.map (fun e => HarvestCall.addError e.2 (some e.1)) ++
    txn.slowsqls.slowsqls.reverse.map (slowsqlCall txnName requestURI) ++
    eventCalls (fun data => .addCustomEvent data priority) txn.customEvents ++
    eventCalls (fun data => .addSpanEvent data priority) spans ++
    eventCalls (fun data => .addLogEvent data priority) logs ++
    eventCalls .setLogForwardingLabels [(Labels.connectorFormat txn.logForwardingLabels).toJson] ++
    eventCalls .addPhpPackages (packagesJson txn.phpPackages).toList ++
    (txn.trace.toList.map (traceCalls resourceId txnName requestURI)).flatten ++
    eventCalls (fun data => .addErrorEvent data priority) txn.errorEvent.toList

/-- The numbers of a transaction are of the types that the source has for them. -/
structure InRange (txn : Txn E β mkhash) (pid : ℤ) : Prop where
  pid : -2 ^ 31 ≤ pid ∧ pid < 2 ^ 31
  errorPriority : ∀ e ∈ txn.error.toList, -2 ^ 31 ≤ e.2 ∧ e.2 < 2 ^ 31
  slowsqlCount : ∀ slow ∈ txn.slowsqls.slowsqls, -2 ^ 31 ≤ slow.count ∧ slow.count < 2 ^ 31

end Calls

/-! ### Reading the parts -/

section Read
variable {fb : Flatbuf.Runtime} (hfb : fb.Documented) {msg : Bytes} (hsmall : msg.length < 2 ^ 31)
  {o : ℕ} {d : Doubles}
include hfb hsmall

lemma aggregateEvent_of_at (add : Option Bytes → HarvestCall) {json : Bytes} (h : EventAt json o msg) :
    aggregateEvent fb add (tableAt msg o) = some (add (some json)) := by
  have hdata : Protocol.Event.data fb (tableAt msg o) = some (some json) := readBytes_of_has hfb hsmall h
  rw [aggregateEvent,hdata]
  rfl

lemma aggregateError_of_at {e : Bytes × ℤ} (h : ErrorAt e o msg) (hrange : -2 ^ 31 ≤ e.2 ∧ e.2 < 2 ^ 31) :
    aggregateError fb (tableAt msg o) = some (.addError e.2 (some e.1)) := by
  have hpriority : Protocol.Error.priority fb (tableAt msg o) = some (wire .i32 e.2) :=
    readNumber_of_has hfb hsmall h.priority
  have hdata : Protocol.Error.data fb (tableAt msg o) = some (some e.1) := readBytes_of_has hfb hsmall h.data
  rw [aggregateError,hpriority,hdata]
  change some (HarvestCall.addError (int32OfBits (wire .i32 e.2)) (some e.1)) = _
  rw [int32OfBits_wire hrange]

lemma aggregateSlowSQL_of_at (txnName requestURI : Bytes) {slow : NrSlowsql} (h : SlowsqlAt slow o msg)
    (hrange : -2 ^ 31 ≤ slow.count ∧ slow.count < 2 ^ 31) :
    aggregateSlowSQL fb txnName requestURI (tableAt msg o) = some (slowsqlCall txnName requestURI slow) := by
  have u64 : ∀ {i : ℕ} {n : UInt64}, HasNumber msg o i .u64 n.toNat →
      Flatbuf.readNumber fb 8 (tableAt msg o) (4 + 2 * i) = some n.toNat := by
    intro i n hn
    have hread := readNumber_of_has hfb hsmall hn
    rwa [wire_nat (by decide) n.toNat_lt] at hread
  have hid : Protocol.SlowSQL.id fb (tableAt msg o) = some slow.sqlId.toNat := by
    have hread := readNumber_of_has hfb hsmall h.id
    rwa [wire_nat (by decide) slow.sqlId.toNat_lt] at hread
  have hcount : Protocol.SlowSQL.count fb (tableAt msg o) = some (wire .i32 slow.count) :=
    readNumber_of_has hfb hsmall h.count
  have htotal : Protocol.SlowSQL.totalMicros fb (tableAt msg o) = some slow.total.toNat := u64 h.total
  have hmin : Protocol.SlowSQL.minMicros fb (tableAt msg o) = some slow.minTime.toNat := u64 h.min
  have hmax : Protocol.SlowSQL.maxMicros fb (tableAt msg o) = some slow.maxTime.toNat := u64 h.max
  have hmetric : Protocol.SlowSQL.metric fb (tableAt msg o) = some (some slow.metricName) :=
    readBytes_of_has hfb hsmall h.metric
  have hquery : Protocol.SlowSQL.query fb (tableAt msg o) = some (some slow.sql) := readBytes_of_has hfb hsmall h.query
  have hparams : Protocol.SlowSQL.params fb (tableAt msg o) = some (some slow.paramsJson) :=
    readBytes_of_has hfb hsmall h.params
  rw [aggregateSlowSQL,hid,hcount,htotal,hmin,hmax,hmetric,hquery,hparams]
  simp only [Option.bind_eq_bind,Option.bind_some,int32OfBits_wire hrange,UInt32.ofNat_toNat,UInt64.ofNat_toNat]
  rfl

lemma aggregateTrace_of_at (resourceId txnName requestURI : Bytes) {trace : Trace} (h : TraceAt trace o msg) :
    aggregateTrace fb resourceId txnName requestURI (tableAt msg o) =
      some (traceCalls resourceId txnName requestURI trace) := by
  have hdata : Protocol.Trace.data fb (tableAt msg o) = some (some trace.json) := readBytes_of_has hfb hsmall h.data
  have htimestamp : Protocol.Trace.timestamp fb (tableAt msg o) = some (wire .f64 trace.timestampMs) :=
    readNumber_of_has hfb hsmall h.timestamp
  have hduration : Protocol.Trace.duration fb (tableAt msg o) = some (wire .f64 trace.durationMs) :=
    readNumber_of_has hfb hsmall h.duration
  have hguid : Protocol.Trace.guid fb (tableAt msg o) = some trace.guid := readBytes_of_has hfb hsmall h.guid
  have hforce : Protocol.Trace.forcePersist fb (tableAt msg o) = some (wire .u8 (truth trace.forcePersist)) :=
    readNumber_of_has hfb hsmall h.forcePersist
  rw [aggregateTrace,hdata,htimestamp,hduration,hguid,hforce]
  simp only [Option.bind_eq_bind,Option.bind_some,boolOfByte_wire]
  rfl

/-! ### Reading the metrics -/

/-- A number inside of a struct. -/
theorem get_of_lies (k : Kind) {n place : ℕ} (hn : n = k.size) {y : ℤ} {front rest : Bytes}
    (hlies : Lies msg place (front ++ (lowBytes n (k.bits y) ++ rest))) :
    fb.get n (tableAt msg place) (Flatbuf.wrap ((tableAt msg place).pos + front.length)) = some (k.bits y) := by
  have hin := hlies.1
  have hle := hlies.length_le
  rw [List.length_append] at hle
  obtain ⟨hinside,hnumber⟩ := numberAt_lowBytes hlies.rest
  have hpos : Flatbuf.wrap ((tableAt msg place).pos + front.length) = msg.length - (place - front.length) := by
    change Flatbuf.wrap (msg.length - place + front.length) = _
    rw [wrap_of_lt (by omega)]
    omega
  rw [hfb.get,hpos]
  change Flatbuf.load msg _ n = _
  rw [(Flatbuf.load_yields msg _ n).some hinside,hnumber,hn,Nat.mod_eq_of_lt (k.bits_lt y)]

lemma get_metricNumber {place : ℕ} {metric : NrMetric} {inScope : ℤ}
    (hlies : Lies msg place (metricBytes d metric inScope)) {j : ℕ} {x : ℤ} (hj : (metricNumbers d metric)[j]? = some x) :
    fb.get 8 (tableAt msg place) (Flatbuf.wrap ((tableAt msg place).pos + 8 * j)) = some (Kind.bits .f64 x) := by
  obtain ⟨front,rest,hsplit,hfront⟩ := flatMap_split
    (fun x : ℤ => length_lowBytes 8 (Kind.bits .f64 x)) (metricNumbers d metric) hj
  rw [metricBytes,hsplit,List.append_assoc,List.append_assoc] at hlies
  have hget := get_of_lies hfb hsmall .f64 rfl hlies
  rwa [hfront] at hget

/-- What one metric adds, whatever the data of the metric before it are. -/
theorem aggregateMetric_of_at {txn : Flatbuf.Table} (txnName : Bytes) {m : NrMetric × ℤ} {i : ℕ}
    (hmetric : Protocol.Transaction.metrics fb txn i = some (some (tableAt msg o))) (h : MetricAt d m o msg)
    (data : Flatbuf.Table) :
    ∃ data', aggregateMetric fb txn txnName i data = some (data',metricCalls d txnName m) := by
  obtain ⟨place,hplaced,hne,hlies⟩ := placed_of_field hsmall h.data
  have hdata : Protocol.Metric.data fb (tableAt msg o) = some (some (tableAt msg place)) :=
    hplaced.readStruct hfb rfl hne
  have hname : Protocol.Metric.name fb (tableAt msg o) = some (some m.1.name) := readBytes_of_has hfb hsmall h.name
  obtain ⟨n₀,n₁,n₂,n₃,n₄,n₅,hnumbers⟩ : ∃ n₀ n₁ n₂ n₃ n₄ n₅, metricNumbers d m.1 = [n₀,n₁,n₂,n₃,n₄,n₅] := by
    unfold metricNumbers
    split_ifs
    · exact ⟨_,_,_,_,_,_,rfl⟩
    · exact ⟨_,_,_,_,_,_,rfl⟩
  have hget : ∀ (j : ℕ) x, [n₀,n₁,n₂,n₃,n₄,n₅][j]? = some x → fb.get 8 (tableAt msg place)
      (Flatbuf.wrap ((tableAt msg place).pos + 8 * j)) = some (Kind.bits .f64 x) := fun j x hj =>
    get_metricNumber hfb hsmall hlies (hnumbers ▸ hj)
  have hcount : Protocol.MetricData.count fb (tableAt msg place) = _ := hget 0 n₀ rfl
  have htotal : Protocol.MetricData.total fb (tableAt msg place) = _ := hget 1 n₁ rfl
  have hexclusive : Protocol.MetricData.exclusive fb (tableAt msg place) = _ := hget 2 n₂ rfl
  have hmin : Protocol.MetricData.min fb (tableAt msg place) = _ := hget 3 n₃ rfl
  have hmax : Protocol.MetricData.max fb (tableAt msg place) = _ := hget 4 n₄ rfl
  have hsquares : Protocol.MetricData.sumSquares fb (tableAt msg place) = _ := hget 5 n₅ rfl
  have hlength : ((metricNumbers d m.1).flatMap fun x => lowBytes 8 (Kind.bits .f64 x)).length = 48 := by
    rw [length_flatMap_lowBytes,length_metricNumbers]
  have hscoped : Protocol.MetricData.«scoped» fb (tableAt msg place) = some (Kind.bits .u8 (truth m.2)) := by
    have hbyte := get_of_lies hfb hsmall .u8 rfl hlies
    rw [hlength] at hbyte
    exact hbyte
  have hforced : Protocol.MetricData.forced fb (tableAt msg place) =
      some (Kind.bits .u8 (if m.1.forced then 1 else 0)) := by
    rw [metricBytes,← List.append_assoc] at hlies
    have hbyte := get_of_lies hfb hsmall .u8 rfl hlies
    rw [List.length_append,hlength,length_lowBytes] at hbyte
    exact hbyte
  have hforcedBool : boolOfByte (Kind.bits .u8 (if m.1.forced then 1 else 0)) = m.1.forced := by
    cases m.1.forced <;> rfl
  have hscopedBool : boolOfByte (Kind.bits .u8 (truth m.2)) = decide (m.2 ≠ 0) := by
    unfold truth
    by_cases hzero : m.2 = 0
    · simp [hzero,boolOfByte,Kind.bits]
    · simp [hzero,boolOfByte,Kind.bits,Kind.size]
  refine ⟨tableAt msg place,?_⟩
  rw [aggregateMetric]
  refine Option.bind_eq_some_iff.mpr ⟨_,hmetric,?_⟩
  refine Option.bind_eq_some_iff.mpr ⟨_,hdata,?_⟩
  refine Option.bind_eq_some_iff.mpr ⟨_,hcount,?_⟩
  refine Option.bind_eq_some_iff.mpr ⟨_,htotal,?_⟩
  refine Option.bind_eq_some_iff.mpr ⟨_,hexclusive,?_⟩
  refine Option.bind_eq_some_iff.mpr ⟨_,hmin,?_⟩
  refine Option.bind_eq_some_iff.mpr ⟨_,hmax,?_⟩
  refine Option.bind_eq_some_iff.mpr ⟨_,hsquares,?_⟩
  refine Option.bind_eq_some_iff.mpr ⟨_,hforced,?_⟩
  refine Option.bind_eq_some_iff.mpr ⟨_,hname,?_⟩
  refine Option.bind_eq_some_iff.mpr ⟨_,hscoped,?_⟩
  dsimp only
  rw [hforcedBool,hscopedBool,metricCalls,hnumbers]
  simp only [decide_eq_true_eq]
  rfl

omit hfb hsmall

/-- The metrics one after the other. -/
theorem aggregateMetricsFrom_of_forall {txn : Flatbuf.Table} {txnName : Bytes} {calls : ℕ → List HarvestCall} {is : List ℕ}
    (h : ∀ i ∈ is, ∀ data, ∃ data', aggregateMetric fb txn txnName i data = some (data',calls i)) (data : Flatbuf.Table) :
    aggregateMetricsFrom fb txn txnName is data = some (is.flatMap calls) := by
  induction is generalizing data with
  | nil => rfl
  | cons i is ih =>
    rw [List.forall_mem_cons] at h
    obtain ⟨data',hmetric⟩ := h.1 data
    rw [aggregateMetricsFrom,hmetric]
    simp only [Option.bind_eq_bind,Option.bind_some,ih h.2 data']
    rfl

lemma flatMap_range_getElem? {α γ : Type} (l : List α) (f : α → List γ) :
    (List.range l.length).flatMap (fun i => l[i]?.elim [] f) = l.flatMap f := by
  induction l with
  | nil => rfl
  | cons a l ih =>
    rw [List.length_cons,List.range_succ_eq_map,List.flatMap_cons,List.flatMap_map,List.flatMap_cons,← ih]
    rfl

variable {E β : Type} {mkhash : Bytes → UInt32}
include hfb hsmall

lemma aggregateMetrics_of_at (txnName : Bytes) {ms : List (NrMetric × ℤ)}
    (h : HasList (MetricAt d) msg o 5 ms) :
    aggregateMetrics fb (tableAt msg o) txnName = some (ms.flatMap (metricCalls d txnName)) := by
  have hlength : Protocol.Transaction.metricsLength fb (tableAt msg o) = some ms.length :=
    readLength_of_has hfb hsmall h
  rw [aggregateMetrics,hlength,← flatMap_range_getElem?]
  refine aggregateMetricsFrom_of_forall (fun i hi data => ?_) _
  have hlt := List.mem_range.mp hi
  have hget : ms[i]? = some ms[i] := List.getElem?_eq_getElem hlt
  obtain ⟨x,hat,hmetric⟩ := readElement_of_has hfb hsmall h hget
  rw [hget]
  exact aggregateMetric_of_at hfb hsmall txnName hmetric hat data

/-- The daemon asks of the harvest what the transaction is made of. -/
theorem aggregateTransaction_of_at {txn : Txn E β mkhash} {pid : ℤ} {spans logs : List Bytes}
    (h : TransactionAt d txn pid spans logs o msg) (hrange : InRange txn pid) (size : ℕ) :
    aggregateTransaction fb size (tableAt msg o) = some (harvestCalls d txn pid spans logs size) := by
  set txnTable := tableAt msg o with htable
  set txnName := stringOf txn.name
  set requestURI := requestUriText txn
  set resourceId := stringOf txn.syntheticsResourceId
  have hcustomsLength : Protocol.Transaction.customEventsLength fb txnTable = some txn.customEvents.length :=
    readLength_of_has hfb hsmall h.customEvents
  have hmetricsLength : Protocol.Transaction.metricsLength fb txnTable =
      some (allMetrics txn.scopedMetrics txn.unscopedMetrics).reverse.length := readLength_of_has hfb hsmall h.metrics
  have hslowsLength : Protocol.Transaction.slowSqlsLength fb txnTable = some txn.slowsqls.slowsqls.reverse.length :=
    readLength_of_has hfb hsmall h.slowsqls
  have hname : Protocol.Transaction.name fb txnTable = some txn.name := readBytes_of_has hfb hsmall h.name
  have huri : Protocol.Transaction.uri fb txnTable = some (some requestURI) := readBytes_of_has hfb hsmall h.requestUri
  have hpriority : Protocol.Transaction.samplingPriority fb txnTable = some (wire .f64 txn.samplingPriority) :=
    readNumber_of_has hfb hsmall h.samplingPriority
  have hsynthetics : Protocol.Transaction.syntheticsResourceId fb txnTable = some txn.syntheticsResourceId :=
    readBytes_of_has hfb hsmall h.resourceId
  have hpid : Protocol.Transaction.pid fb txnTable = some (wire .i32 pid) := readNumber_of_has hfb hsmall h.pid
  have event : ∀ (add : Option Bytes → HarvestCall) (json : Bytes) x, EventAt json x msg →
      aggregateEvent fb add (tableAt msg x) = some (add (some json)) := fun add json x hat =>
    aggregateEvent_of_at hfb hsmall add hat
  have hevent : ∀ add, ifPresent (Protocol.Transaction.txnEvent fb txnTable) (aggregateEvent fb add) =
      some (eventCalls add txn.txnEvent.toList) := fun add => ifPresent_of_has hfb hsmall h.txnEvent (event add)
  have hmetrics : aggregateMetrics fb txnTable txnName =
      some ((allMetrics txn.scopedMetrics txn.unscopedMetrics).reverse.flatMap (metricCalls d txnName)) :=
    aggregateMetrics_of_at hfb hsmall txnName h.metrics
  have herrors : forElements (Protocol.Transaction.errorsLength fb txnTable) (Protocol.Transaction.errors fb txnTable)
      (aggregateError fb) = some (txn.error.toList.map fun e => HarvestCall.addError e.2 (some e.1)) :=
    forElements_of_has hfb hsmall h.errors fun e he x hat =>
      aggregateError_of_at hfb hsmall hat (hrange.errorPriority e he)
  have hslows : forElements (Protocol.Transaction.slowSqlsLength fb txnTable)
      (Protocol.Transaction.slowSqls fb txnTable) (aggregateSlowSQL fb txnName requestURI) =
      some (txn.slowsqls.slowsqls.reverse.map (slowsqlCall txnName requestURI)) :=
    forElements_of_has hfb hsmall h.slowsqls fun slow hslow x hat =>
      aggregateSlowSQL_of_at hfb hsmall txnName requestURI hat (hrange.slowsqlCount slow (List.mem_reverse.mp hslow))
  have hcustoms : ∀ add, forElements (Protocol.Transaction.customEventsLength fb txnTable)
      (Protocol.Transaction.customEvents fb txnTable) (aggregateEvent fb add) =
      some (eventCalls add txn.customEvents) := fun add =>
    forElements_of_has hfb hsmall h.customEvents fun json _ => event add json
  have hspans : ∀ add, forElements (Protocol.Transaction.spanEventsLength fb txnTable)
      (Protocol.Transaction.spanEvents fb txnTable) (aggregateEvent fb add) = some (eventCalls add spans) := fun add =>
    forElements_of_has hfb hsmall h.spanEvents fun json _ => event add json
  have hlogs : ∀ add, forElements (Protocol.Transaction.logEventsLength fb txnTable)
      (Protocol.Transaction.logEvents fb txnTable) (aggregateEvent fb add) = some (eventCalls add logs) := fun add =>
    forElements_of_has hfb hsmall h.logEvents fun json _ => event add json
  have hlabels : ∀ add, ifPresent (Protocol.Transaction.logForwardingLabels fb txnTable) (aggregateEvent fb add) =
      some (eventCalls add [(Labels.connectorFormat txn.logForwardingLabels).toJson]) := fun add =>
    ifPresent_of_has hfb hsmall h.logLabels (event add)
  have hpackages : ∀ add, ifPresent (Protocol.Transaction.phpPackages fb txnTable) (aggregateEvent fb add) =
      some (eventCalls add (packagesJson txn.phpPackages).toList) := fun add =>
    ifPresent_of_has hfb hsmall h.phpPackages (event add)
  have htrace : ifPresent (Protocol.Transaction.trace fb txnTable) (aggregateTrace fb resourceId txnName requestURI) =
      some (txn.trace.toList.map (traceCalls resourceId txnName requestURI)) :=
    ifPresent_of_has hfb hsmall h.trace fun trace x hat =>
      aggregateTrace_of_at hfb hsmall resourceId txnName requestURI hat
  have herrorEvents : ∀ add, forElements (Protocol.Transaction.errorEventsLength fb txnTable)
      (Protocol.Transaction.errorEvents fb txnTable) (aggregateEvent fb add) =
      some (eventCalls add txn.errorEvent.toList) := fun add =>
    forElements_of_has hfb hsmall h.errorEvents fun json _ => event add json
  rw [aggregateTransaction]
  refine Option.bind_eq_some_iff.mpr ⟨_,hcustomsLength,?_⟩
  refine Option.bind_eq_some_iff.mpr ⟨_,hmetricsLength,?_⟩
  refine Option.bind_eq_some_iff.mpr ⟨_,hslowsLength,?_⟩
  refine Option.bind_eq_some_iff.mpr ⟨_,hname,?_⟩
  refine Option.bind_eq_some_iff.mpr ⟨_,huri,?_⟩
  refine Option.bind_eq_some_iff.mpr ⟨_,hpriority,?_⟩
  refine Option.bind_eq_some_iff.mpr ⟨_,hsynthetics,?_⟩
  refine Option.bind_eq_some_iff.mpr ⟨_,hpid,?_⟩
  refine Option.bind_eq_some_iff.mpr ⟨_,hevent _,?_⟩
  refine Option.bind_eq_some_iff.mpr ⟨_,hmetrics,?_⟩
  refine Option.bind_eq_some_iff.mpr ⟨_,herrors,?_⟩
  refine Option.bind_eq_some_iff.mpr ⟨_,hslows,?_⟩
  refine Option.bind_eq_some_iff.mpr ⟨_,hcustoms _,?_⟩
  refine Option.bind_eq_some_iff.mpr ⟨_,hspans _,?_⟩
  refine Option.bind_eq_some_iff.mpr ⟨_,hlogs _,?_⟩
  refine Option.bind_eq_some_iff.mpr ⟨_,hlabels _,?_⟩
  refine Option.bind_eq_some_iff.mpr ⟨_,hpackages _,?_⟩
  refine Option.bind_eq_some_iff.mpr ⟨_,htrace,?_⟩
  refine Option.bind_eq_some_iff.mpr ⟨_,herrorEvents _,?_⟩
  rw [int32OfBits_wire hrange.pid,List.length_reverse,List.length_reverse]
  rfl

end Read

/-! ### The round trip -/

section Delivery
variable {E β : Type} {mkhash : Bytes → UInt32} [Inhabited β]

/-- What the daemon makes of the message of a transaction. -/
structure Delivered (fb : Flatbuf.Runtime) (enc : Encoders E β) (txn : Txn E β mkhash)
    (eventsVec : NrVector (LogEvent β)) (pid : ℤ) (msg : Bytes) : Prop where
  processed : ∀ answer, processBinary fb msg answer = if stringOf txn.agentRunId = [] then
      failed "missing agent run id for txn data command"
    else some ⟨some (.incomingTxnData (stringOf txn.agentRunId) msg),.ok none⟩
  aggregated : aggregateInto fb msg = some (harvestCalls enc.doubles txn pid (sentSpans enc txn)
    (sentLogs enc txn eventsVec).reverse msg.length)

lemma transmit_delivered {fb : Flatbuf.Runtime} (hfb : fb.Documented) {malloc : ℕ → ℕ}
    (hmalloc : EvenAddresses malloc) {enc : Encoders E β} {txn : Txn E β mkhash}
    {eventsVec : NrVector (LogEvent β)} (h : Sendable enc txn eventsVec) {pid : ℤ} (hrange : InRange txn pid) :
    Ends (TooLarge (transactionCost txn (sentSpans enc txn) (sentLogs enc txn eventsVec) + frameCost txn.agentRunId))
      (fun outcome => ∃ msg, outcome = .written msg ∧ Delivered fb enc txn eventsVec pid msg)
      (transmit malloc enc txn pid) := by
  set spans := sentSpans enc txn
  set logs := sentLogs enc txn eventsVec
  have hmessage : Ends (TooLarge (transactionCost txn spans logs + frameCost txn.agentRunId))
      (fun msg => ∃ root, Finished (fun _ : Unit => TransactionAt enc.doubles txn pid spans logs.reverse) () .txn
        txn.agentRunId root msg) (encode malloc enc txn pid) :=
    encodeMessage_spec hmalloc (transactionCost txn spans logs) (fun _ o => lasting_transactionAt _ txn pid _ _ o)
      tooLarge_of_le (leaves_transaction hmalloc tooLarge_of_le h pid)
  refine hmessage.bind fun msg hroot => ?_
  obtain ⟨root,hmsg⟩ := hroot
  refine ⟨msg,hmsg.checked,fun answer => ?_,?_⟩
  · obtain ⟨x,-,hdata⟩ := hmsg.readData hfb
    have htype : Protocol.Message.dataType fb (tableAt msg root) = some Protocol.messageBodyTransaction :=
      hmsg.readDataType hfb
    rw [hmsg.processBinary hfb,processMessage,htype]
    change processTransaction fb msg (tableAt msg root) = _
    rw [processTransaction,hdata,hmsg.readAgentRunId hfb]
    change (if (stringOf txn.agentRunId).length > 0 then _ else _) = _
    simp only [gt_iff_lt,List.length_pos_iff,ne_eq,ite_not]
  · obtain ⟨x,hat,hdata⟩ := hmsg.readData hfb
    have htransaction : transactionOf fb msg = some (tableAt msg x) := by
      rw [transactionOf,hmsg.getRoot hfb]
      change (Protocol.Message.data fb (tableAt msg root) >>= fun tbl => some (tbl.getD _)) = _
      rw [hdata]
      rfl
    rw [aggregateInto,htransaction]
    exact aggregateTransaction_of_at hfb hmsg.small hat hrange msg.length

end Delivery

/-- What the agent writes of a transaction is what the daemon aggregates for its run. -/
theorem transmit_txndata_read {E β : Type} {mkhash : Bytes → UInt32} [Inhabited β] {fb : Flatbuf.Runtime} (hfb : fb.Documented)
    {malloc : ℕ → ℕ} (hmalloc : EvenAddresses malloc) {enc : Encoders E β} {txn : Txn E β mkhash}
    {eventsVec : NrVector (LogEvent β)} (h : Sendable enc txn eventsVec) {pid : ℤ} (hrange : InRange txn pid)
    (answer : AppInfoReply) :
    Ends (TooLarge (transactionCost txn (sentSpans enc txn) (sentLogs enc txn eventsVec) + frameCost txn.agentRunId))
      (fun outcome => ∃ msg, outcome = .written msg ∧
        processBinary fb msg answer = (if stringOf txn.agentRunId = [] then
          failed "missing agent run id for txn data command"
          else some ⟨some (.incomingTxnData (stringOf txn.agentRunId) msg),.ok none⟩) ∧
        aggregateInto fb msg = some (harvestCalls enc.doubles txn pid (sentSpans enc txn)
          (sentLogs enc txn eventsVec).reverse msg.length))
      (transmit malloc enc txn pid) := by
  refine (transmit_delivered hfb hmalloc h hrange).mono fun outcome hwritten => ?_
  obtain ⟨msg,hmsg,hdelivered⟩ := hwritten
  exact ⟨msg,hmsg,hdelivered.processed answer,hdelivered.aggregated⟩

/-- A transaction with a span, a metric, a statement and an error. -/
def small : Txn Unit Unit (fun _ => 0) where
  trace := some ⟨ascii "[]",none,0,0,1⟩
  spanEvents := [(),()]
  spanEventLimit := 1
  logEvents := none
  logEventLimit := 10
  logForwardingLabels := none
  errorEvent := some (ascii "[\x7b\x7d]")
  customEvents := [ascii "a",ascii "b"]
  slowsqls := ⟨10,[⟨ascii "Datastore/all",7,2,5,1,4,ascii "\x7b\x7d",ascii "SELECT ?"⟩]⟩
  error := some (ascii "\x7b\x7d",-1)
  scopedMetrics := (NrmTable.tableCreate 0).add (fun _ => 0) (ascii "m") 3
  unscopedMetrics := (NrmTable.tableCreate 0).forceAdd (fun _ => 0) (ascii "n") 4
  phpPackages := none
  txnEvent := some (ascii "[\x7b\x7d,\x7b\x7d]")
  syntheticsResourceId := none
  requestUri := none
  name := some (ascii "WebTransaction/Uri/x")
  samplingPriority := 0
  agentRunId := some [114]

/-- The JSON of an event, and doubles that keep the bits of times. -/
def plain : Encoders Unit Unit := ⟨fun _ => some (ascii "\x7b\x7d"),fun _ => none,⟨fun t => t.toNat,fun t => t.toNat,fun t => t.toNat⟩⟩

lemma sendable_small : Sendable plain small ⟨0,[],Nat.zero_le _⟩ :=
  ⟨fun _ _ => ⟨_,rfl⟩,.inr (by decide),rfl,rfl,List.forall_mem_nil _⟩

lemma inRange_small : InRange small 42 :=
  ⟨by decide,List.forall_mem_singleton.mpr (by decide),List.forall_mem_singleton.mpr (by decide)⟩

theorem transmit_txndata_read_small : Ends (TooLarge (transactionCost small (sentSpans plain small)
      (sentLogs plain small ⟨0,[],Nat.zero_le _⟩) + frameCost small.agentRunId))
    (fun outcome => ∃ msg, outcome = .written msg ∧
      processBinary Flatbuf.Runtime.reference msg ⟨false,.unknown,[],[],0,0,0⟩ =
        (if stringOf small.agentRunId = [] then failed "missing agent run id for txn data command"
        else some ⟨some (.incomingTxnData (stringOf small.agentRunId) msg),.ok none⟩) ∧
      aggregateInto Flatbuf.Runtime.reference msg = some (harvestCalls plain.doubles small 42 (sentSpans plain small)
        (sentLogs plain small ⟨0,[],Nat.zero_le _⟩).reverse msg.length))
    (transmit sixteens plain small 42) :=
  transmit_txndata_read Flatbuf.Runtime.reference_documented evenAddresses_sixteens sendable_small inRange_small _

/-! ### Over a connection -/

/-- A transaction to send, with its message and the deadline for it. -/
structure Job (E β : Type) (mkhash : Bytes → UInt32) where
  txn : Txn E β mkhash
  logs : NrVector (LogEvent β)
  pid : ℤ
  msg : Bytes
  deadline : ℕ

/-- The message is the one that the agent writes. -/
structure Job.Encoded {E β : Type} {mkhash : Bytes → UInt32} [Inhabited β] (malloc : ℕ → ℕ) (enc : Encoders E β)
    (job : Job E β mkhash) : Prop where
  sendable : Sendable enc job.txn job.logs
  inRange : InRange job.txn job.pid
  transmitted : transmit malloc enc job.txn job.pid = .ok (.written job.msg)

/-- Over one connection, whatever the kernels make of it, the daemon handles whole transactions in the order
in which they were sent, and each of them asks the harvest for exactly its contents; when nothing fails
it handles them all. -/
theorem connection_delivers {E β σ : Type} {mkhash : Bytes → UInt32} [Inhabited β] {fb : Flatbuf.Runtime}
    (hfb : fb.Documented) {malloc : ℕ → ℕ} (hmalloc : EvenAddresses malloc) {enc : Encoders E β}
    {jobs : List (Job E β mkhash)} (hjobs : ∀ job ∈ jobs, job.Encoded malloc enc)
    (handle : σ → Listener.RawMessage → Option (σ × Option Bytes)) (s : σ) (fd : ℤ) (script : List Network.Call)
    (w : Network.Waits) (calls : List Listener.Call) (writes : List Listener.WriteAnswer) :
    ∃ done, done <+: jobs ∧
      (Listener.serve handle s
        (Network.sendAll fd (jobs.map fun job => (job.msg,job.deadline)) script w).1 calls writes).handled =
          done.map (fun job => ⟨Listener.MessageTypeBinary,job.msg⟩) ∧
      (∀ job ∈ done, Delivered fb enc job.txn job.logs job.pid job.msg) ∧
      ((Network.sendAll fd (jobs.map fun job => (job.msg,job.deadline)) script w).2 = jobs.map Job.msg →
        (∀ job ∈ jobs, job.msg.length ≤ Listener.maxMessageSize) → Pieces.Moving calls →
        (Network.sendAll fd (jobs.map fun job => (job.msg,job.deadline)) script w).1.length ≤ calls.length →
        (∀ s msg, handle s msg ≠ none) → (∀ a ∈ writes, a = .written) → 2*jobs.length ≤ writes.length →
        done = jobs) := by
  obtain ⟨hhandled,hsent,hall⟩ := Listener.serve_sendAll handle s fd
    (jobs.map fun job => (job.msg,job.deadline)) script w calls writes
  have hmsgs : (jobs.map fun job => (job.msg,job.deadline)).map Prod.fst = jobs.map Job.msg := by
    rw [List.map_map]
    rfl
  rw [hmsgs] at hsent
  generalize Listener.serve handle s (Network.sendAll fd (jobs.map fun job => (job.msg,job.deadline)) script w).1
    calls writes = served at hhandled hall ⊢
  generalize Network.sendAll fd (jobs.map fun job => (job.msg,job.deadline)) script w = sent at hhandled hsent hall ⊢
  have hfront : served.handled <+: jobs.map fun job => ⟨Listener.MessageTypeBinary,job.msg⟩ := by
    have hall := hhandled.trans ((Listener.taken_initial sent.2).trans (hsent.map _))
    rwa [List.map_map] at hall
  refine ⟨jobs.take served.handled.length,List.take_prefix _ _,?_,fun job hjob => ?_,?_⟩
  · rw [List.map_take]
    exact List.prefix_iff_eq_take.mp hfront
  · obtain ⟨hsendable,hrange,htransmitted⟩ := hjobs job (List.mem_of_mem_take hjob)
    have hends := transmit_delivered hfb hmalloc hsendable hrange
    rw [htransmitted] at hends
    obtain ⟨msg,hmsg,hdelivered⟩ := hends
    cases hmsg
    exact hdelivered
  · intro hsentAll hsizes hmoving hcalls hnever hwritten hwrites
    have hfits : ∀ msg ∈ jobs.map Job.msg, (msg.length ≤ Listener.maxMessageSize) := by simpa using hsizes
    have htaken : Listener.taken (jobs.map Job.msg) = (jobs.map Job.msg).map (⟨Listener.MessageTypeBinary,·⟩) := by
      rw [Listener.taken,List.takeWhile_eq_self_iff.mpr (by simpa using hfits)]
    rw [hsentAll,htaken] at hall
    rw [hall hmoving hcalls hnever hwritten (by simpa using hwrites),List.length_map,List.length_map,
      List.take_length]

lemma small_fits : ¬ 2 ^ 30 ≤ transactionCost small (sentSpans plain small)
    (sentLogs plain small ⟨0,[],Nat.zero_le _⟩) + frameCost small.agentRunId := by
  decide

/-- The message of the transaction. -/
def smallMessage : Bytes :=
  match transmit sixteens plain small 42 with
  | .ok (.written msg) => msg
  | _ => []

lemma small_written : transmit sixteens plain small 42 = .ok (.written smallMessage) := by
  have hends := transmit_delivered Flatbuf.Runtime.reference_documented evenAddresses_sixteens sendable_small
    inRange_small
  unfold smallMessage
  cases hsent : transmit sixteens plain small 42 with
  | error fault =>
    rw [hsent] at hends
    exact absurd hends.2 small_fits
  | ok outcome =>
    rw [hsent] at hends
    obtain ⟨msg,rfl,-⟩ := hends
    rfl

def smallJob : Job Unit Unit (fun _ => 0) := ⟨small,⟨0,[],Nat.zero_le _⟩,42,smallMessage,0⟩

/-- What the kernel makes of writing the transaction twice. -/
def smallCalls : List Network.Call :=
  [.moved 5,.failed .EINTR,.moved 3,.moved 300,.moved 372,.moved 8,.moved 671,.failed .EAGAIN,.moved 1]

/-- One transaction twice, written in pieces and read two bytes at a time, is delivered twice. -/
theorem connection_delivers_small :
    (Listener.serve Listener.echo ()
      (Network.sendAll 3 [(smallMessage,0),(smallMessage,0)] smallCalls ⟨[.ready],[]⟩).1
      (List.replicate 1360 (.moved 2)) (List.replicate 4 .written)).handled =
        [⟨Listener.MessageTypeBinary,smallMessage⟩,⟨Listener.MessageTypeBinary,smallMessage⟩] ∧
      Delivered Flatbuf.Runtime.reference plain small ⟨0,[],Nat.zero_le _⟩ 42 smallMessage := by
  have hencoded : smallJob.Encoded sixteens plain := ⟨sendable_small,inRange_small,small_written⟩
  have hjobs : ∀ job ∈ [smallJob,smallJob], job.Encoded sixteens plain := by
    intro job hjob
    rw [List.eq_of_mem_replicate (n := 2) hjob]
    exact hencoded
  obtain ⟨done,-,hhandled,hdelivered,hall⟩ := connection_delivers Flatbuf.Runtime.reference_documented
    evenAddresses_sixteens hjobs Listener.echo () 3 smallCalls ⟨[.ready],[]⟩
    (List.replicate 1360 (.moved 2)) (List.replicate 4 .written)
  obtain rfl := hall (by decide +kernel) (by decide +kernel)
    (fun a ha => ⟨2,List.eq_of_mem_replicate ha⟩) (by decide +kernel) (fun _ _ h => by cases h)
    (fun a ha => List.eq_of_mem_replicate ha) (by decide)
  exact ⟨hhandled,hdelivered smallJob List.mem_cons_self⟩

end PhpAgent.Txndata

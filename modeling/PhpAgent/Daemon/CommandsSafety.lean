import PhpAgent.Daemon.Commands

/-! When a message of an agent is harmless: every offset that the daemon follows, and every number that
it reads, lies in the message. -/
namespace PhpAgent

open Flatbuf

/-! ### Intact tables -/

def EventIntact (t : Table) : Prop := t.HasBytes 4

structure ErrorIntact (t : Table) : Prop where
  priority : t.HasNumber 4 4
  data : t.HasBytes 6

structure SlowSQLIntact (t : Table) : Prop where
  id : t.HasNumber 4 4
  count : t.HasNumber 6 4
  micros : ∀ slot ∈ [8,10,12], t.HasNumber slot 8
  texts : ∀ slot ∈ [14,16,18], t.HasBytes slot

structure TraceIntact (t : Table) : Prop where
  timestamp : t.HasNumber 4 8
  duration : t.HasNumber 6 8
  guid : t.HasBytes 8
  forcePersist : t.HasNumber 10 1
  data : t.HasBytes 12

structure MetricDataIntact (d : Table) : Prop where
  numbers : ∀ k ∈ [0,8,16,24,32,40], Inside d.bytes (wrap (d.pos+k)) 8
  flags : ∀ k ∈ [48,49], Inside d.bytes (wrap (d.pos+k)) 1

structure MetricIntact (t : Table) : Prop where
  data : t.HasField 6 fun pos => MetricDataIntact ⟨t.bytes,pos⟩
  name : t.HasBytes 4

/-- The data of the first metric must be there; other metrics fall back on the data before them. -/
structure MetricsIntact (t : Table) : Prop where
  vector : t.HasVector 14 MetricIntact
  first : 0 < t.length 14 → (t.element 14 0).entry 6 ≠ 0

structure TransactionIntact (t : Table) : Prop where
  texts : ∀ slot ∈ [4,6,8], t.HasBytes slot
  priority : t.HasNumber 26 8
  pid : t.HasNumber 10 4
  event : t.HasTable 12 EventIntact
  metrics : MetricsIntact t
  errors : t.HasVector 16 ErrorIntact
  slowSqls : t.HasVector 18 SlowSQLIntact
  events : ∀ slot ∈ [20,28,30,24], t.HasVector slot EventIntact
  extras : ∀ slot ∈ [34,32], t.HasTable slot EventIntact
  trace : t.HasTable 22 TraceIntact

structure AppIntact (t : Table) : Prop where
  texts : ∀ slot ∈ [26,4,6,8,10,14,16,20,38,28,22,24,30,44,18], t.HasBytes slot
  port : t.HasNumber 32 2
  sizes : ∀ slot ∈ [34,36,40,42], t.HasNumber slot 8
  highSecurity : t.HasNumber 12 1

/-- The builder has a slot for every number of the answer: after a valid run id there is none. -/
def Marshallable (answer : AppInfoReply) : Prop :=
  answer.runIDValid = true → answer.timestamp = 0 ∧ answer.frequency = 0 ∧ answer.target = 0

/-- A message, with what its type makes the daemon read. -/
structure MessageIntact (answer : AppInfoReply) (msg : Table) : Prop where
  dataType : msg.HasNumber 6 1
  transaction : msg.number 6 1 = Protocol.messageBodyTransaction →
    msg.HasTable 8 fun txn => msg.HasBytes 4 ∧ (msg.text 4 ≠ [] → TransactionIntact txn)
  app : msg.number 6 1 = Protocol.messageBodyApp →
    msg.HasTable 8 fun app => AppIntact app ∧ msg.HasBytes 4 ∧ Marshallable answer
  spanBatch : msg.number 6 1 = Protocol.messageBodySpanBatch →
    msg.HasTable 8 fun batch => msg.HasBytes 4 ∧
      (msg.text 4 ≠ [] → batch.HasNumber 4 8 ∧ batch.HasBytes 6)

/-- The root of a message. -/
def rootOf (data : Bytes) : Table := ⟨data,numberAt data 0 4⟩

/-- An empty message, or one with a first offset that is too large or leads to an intact message. -/
def BinaryIntact (data : Bytes) (answer : AppInfoReply) : Prop :=
  data = [] ∨ Inside data 0 4 ∧
    ((numberAt data 0 4 : ℤ) < (data.length : ℤ)-Limits.minFlatbufferSize → MessageIntact answer (rootOf data))

/-! ### The data of a metric -/

/-- The data that a metric uses, after the data before it. -/
def nextData (m data : Table) : Table := if m.entry 6 = 0 then data else ⟨m.bytes,m.field 6⟩

/-- A metric has data, or can use intact data of a metric before it. -/
theorem metricIntact_iff {m data : Table} (hdata : MetricDataIntact data) :
    m.HasSlot 6 ∧ MetricDataIntact (nextData m data) ∧ m.HasBytes 4 ↔ MetricIntact m := by
  unfold nextData
  by_cases hentry : m.entry 6 = 0
  · rw [if_pos hentry]
    exact ⟨fun ⟨hslot,_,hname⟩ => ⟨⟨hslot,fun hne => absurd hentry hne⟩,hname⟩,
      fun hm => ⟨hm.data.1,hdata,hm.name⟩⟩
  · rw [if_neg hentry]
    exact ⟨fun ⟨hslot,hnext,hname⟩ => ⟨⟨hslot,fun _ => hnext⟩,hname⟩,
      fun hm => ⟨hm.data.1,hm.data.2 hentry,hm.name⟩⟩

lemma not_metricDataIntact_zero : ¬ MetricDataIntact Table.zero := by
  intro hzero
  exact absurd (hzero.numbers 0 (by simp)) (by decide)

/-- Before the first metric there is no data. -/
theorem metricIntact_zero_iff (m : Table) :
    m.HasSlot 6 ∧ MetricDataIntact (nextData m Table.zero) ∧ m.HasBytes 4 ↔
      MetricIntact m ∧ m.entry 6 ≠ 0 := by
  unfold nextData
  by_cases hentry : m.entry 6 = 0
  · rw [if_pos hentry]
    exact ⟨fun ⟨_,hzero,_⟩ => absurd hzero not_metricDataIntact_zero,fun ⟨_,hne⟩ => absurd hentry hne⟩
  · rw [if_neg hentry]
    exact ⟨fun ⟨hslot,hnext,hname⟩ => ⟨⟨⟨hslot,fun _ => hnext⟩,hname⟩,hentry⟩,
      fun ⟨hm,_⟩ => ⟨hm.data.1,hm.data.2 hentry,hm.name⟩⟩

/-! ### Aggregation -/

lemma presentEntry_definedIff {β : Type} {body : Table → Option β} {P : Table → Prop}
    (hbody : ∀ e, DefinedIff (body e) (P e)) (t : Table) (slot : ℕ) :
    DefinedIff
      (match if t.entry slot = 0 then none else some (Table.mk t.bytes (target t.bytes (t.field slot))) with
        | none => some []
        | some e => do
          let y ← body e
          return [y])
      (t.entry slot ≠ 0 → P ⟨t.bytes,target t.bytes (t.field slot)⟩) := by
  by_cases hentry : t.entry slot = 0
  · rw [if_pos hentry]
    exact (definedIff_some []).congr ⟨fun _ hne => absurd hentry hne,fun _ => trivial⟩
  · rw [if_neg hentry]
    exact ((hbody _).bind_pure fun y => [y]).congr ⟨fun hP _ => hP,fun hP => hP hentry⟩

section Documented
variable {fb : Runtime} (h : fb.Documented) {P : Table → Prop} {data : Bytes}
include h

lemma forElements_definedIff {β : Type} {body : Table → Option β}
    (hbody : ∀ e, DefinedIff (body e) (P e)) (t : Table) (slot : ℕ) :
    DefinedIff (forElements (readLength fb t slot) (readElement fb t slot) body) (t.HasVector slot P) := by
  have hvector : DefinedIff (forElements (readLength fb t slot) (readElement fb t slot) body)
      (t.HasLength slot ∧ ∀ i ∈ List.range (t.length slot),
        Inside t.bytes (t.elementPos slot i) 4 ∧ P (t.element slot i)) := by
    refine (readLength_yields h t slot).bind_definedIff fun hlength => definedIff_mapM _ fun i hi => ?_
    exact (readElement_yields h t slot hlength (List.mem_range.mp hi)).bind_definedIff fun _ =>
      hbody (t.element slot i)
  refine hvector.congr ⟨?_,?_⟩
  · rintro ⟨hlength,helements⟩
    exact ⟨hlength,fun j hj => helements j (List.mem_range.mpr hj)⟩
  · intro hv
    exact ⟨hv.length,fun j hj => hv.elements j (List.mem_range.mp hj)⟩

lemma ifPresent_definedIff {β : Type} {body : Table → Option β}
    (hbody : ∀ e, DefinedIff (body e) (P e)) (t : Table) (slot : ℕ) :
    DefinedIff (ifPresent (readTable fb t slot) body) (t.HasTable slot P) := by
  refine ((readTable_yields h t slot).bind_definedIff fun _ => presentEntry_definedIff hbody t slot).congr ?_
  constructor
  · rintro ⟨⟨hslot,hinside⟩,hP⟩
    exact ⟨hslot,fun hentry => ⟨hinside hentry,hP hentry⟩⟩
  · rintro ⟨hslot,hfield⟩
    exact ⟨⟨hslot,fun hentry => (hfield hentry).1⟩,fun hentry => (hfield hentry).2⟩

lemma aggregateEvent_definedIff (add : Option Bytes → HarvestCall) (e : Table) :
    DefinedIff (aggregateEvent fb add e) (EventIntact e) := (readBytes_definedIff h e 4).bind_pure add

lemma aggregateError_definedIff (e : Table) : DefinedIff (aggregateError fb e) (ErrorIntact e) := by
  refine ((readNumber_definedIff h e 4 4).bind fun _ => (readBytes_definedIff h e 6).bind_pure _).congr ?_
  exact ⟨fun ⟨hpriority,hdata⟩ => ⟨hpriority,hdata⟩,fun he => ⟨he.priority,he.data⟩⟩

lemma aggregateSlowSQL_definedIff (txnName requestURI : Bytes) (s : Table) :
    DefinedIff (aggregateSlowSQL fb txnName requestURI s) (SlowSQLIntact s) := by
  refine ((readNumber_definedIff h s 4 4).bind fun _ => (readNumber_definedIff h s 6 4).bind fun _ =>
    (readNumber_definedIff h s 8 8).bind fun _ => (readNumber_definedIff h s 10 8).bind fun _ =>
    (readNumber_definedIff h s 12 8).bind fun _ => (readBytes_definedIff h s 14).bind fun _ =>
    (readBytes_definedIff h s 16).bind fun _ => (readBytes_definedIff h s 18).bind_pure _).congr ?_
  constructor
  · rintro ⟨hid,hcount,htotal,hmin,hmax,hmetric,hquery,hparams⟩
    exact ⟨hid,hcount,by simp [htotal,hmin,hmax],by simp [hmetric,hquery,hparams]⟩
  · rintro ⟨hid,hcount,hmicros,htexts⟩
    exact ⟨hid,hcount,hmicros 8 (by simp),hmicros 10 (by simp),hmicros 12 (by simp),htexts 14 (by simp),
      htexts 16 (by simp),htexts 18 (by simp)⟩

lemma aggregateTrace_definedIff (synthetics txnName requestURI : Bytes) (t : Table) :
    DefinedIff (aggregateTrace fb synthetics txnName requestURI t) (TraceIntact t) := by
  refine ((readBytes_definedIff h t 12).bind fun _ => (readNumber_definedIff h t 4 8).bind fun _ =>
    (readNumber_definedIff h t 6 8).bind fun _ => (readBytes_definedIff h t 8).bind fun _ =>
    (readNumber_definedIff h t 10 1).bind_pure _).congr ?_
  exact ⟨fun ⟨hdata,htimestamp,hduration,hguid,hforce⟩ => ⟨htimestamp,hduration,hguid,hforce,hdata⟩,
    fun ht => ⟨ht.data,ht.timestamp,ht.duration,ht.guid,ht.forcePersist⟩⟩

/-! ### Metrics -/

lemma get_definedIff (size : ℕ) (t : Table) (pos : ℕ) :
    DefinedIff (fb.get size t pos) (Inside t.bytes pos size) := by
  rw [h.get,Documentation.get]
  exact (load_yields t.bytes pos size).definedIff

lemma aggregateMetric_definedIff (txn : Table) (txnName : Bytes) (data : Table) {i : ℕ}
    (hlength : txn.HasLength 14) (hi : i < txn.length 14) :
    DefinedIff (aggregateMetric fb txn txnName i data)
      (Inside txn.bytes (txn.elementPos 14 i) 4 ∧ (txn.element 14 i).HasSlot 6 ∧
        MetricDataIntact (nextData (txn.element 14 i) data) ∧ (txn.element 14 i).HasBytes 4) := by
  have hdata : (if (txn.element 14 i).entry 6 = 0 then none
      else some (Table.mk (txn.element 14 i).bytes ((txn.element 14 i).field 6))).getD data =
        nextData (txn.element 14 i) data := by
    unfold nextData
    split_ifs <;> rfl
  refine ((readElement_yields h txn 14 hlength hi).bind_definedIff fun _ =>
    (readStruct_yields h (txn.element 14 i) 6).bind_definedIff fun _ => ?_)
  rw [hdata]
  generalize nextData (txn.element 14 i) data = d
  refine ((get_definedIff h 8 d _).bind fun _ => (get_definedIff h 8 d _).bind fun _ =>
    (get_definedIff h 8 d _).bind fun _ => (get_definedIff h 8 d _).bind fun _ =>
    (get_definedIff h 8 d _).bind fun _ => (get_definedIff h 8 d _).bind fun _ =>
    (get_definedIff h 1 d _).bind fun _ => (readBytes_definedIff h _ 4).bind fun _ =>
    (get_definedIff h 1 d _).bind_pure _).congr ?_
  constructor
  · rintro ⟨h0,h8,h16,h24,h32,h40,h49,hname,h48⟩
    refine ⟨⟨?_,?_⟩,hname⟩
    · simp only [List.forall_mem_cons]
      exact ⟨h0,h8,h16,h24,h32,h40,nofun⟩
    · simp only [List.forall_mem_cons]
      exact ⟨h48,h49,nofun⟩
  · rintro ⟨hd,hname⟩
    exact ⟨hd.numbers 0 (by simp),hd.numbers 8 (by simp),hd.numbers 16 (by simp),hd.numbers 24 (by simp),
      hd.numbers 32 (by simp),hd.numbers 40 (by simp),hd.flags 49 (by simp),hname,hd.flags 48 (by simp)⟩

lemma aggregateMetric_data {txn : Table} {txnName : Bytes} {data d : Table} {i : ℕ}
    {calls : List HarvestCall} (hlength : txn.HasLength 14) (hi : i < txn.length 14)
    (hmetric : aggregateMetric fb txn txnName i data = some (d,calls)) :
    d = nextData (txn.element 14 i) data := by
  have hsome : DefinedIff (aggregateMetric fb txn txnName i data) _ :=
    aggregateMetric_definedIff h txn txnName data hlength hi
  obtain ⟨hinside,hslot,_,_⟩ := hsome.mp (by rw [hmetric]; rfl)
  unfold aggregateMetric Protocol.Transaction.metrics Protocol.Metric.data at hmetric
  rw [(readElement_yields h txn 14 hlength hi).some hinside] at hmetric
  simp only [Option.bind_eq_bind,Option.bind_some,Option.getD_some] at hmetric
  rw [(readStruct_yields h (txn.element 14 i) 6).some hslot] at hmetric
  simp only [Option.bind_some,Option.bind_eq_some_iff] at hmetric
  obtain ⟨_,_,_,_,_,_,_,_,_,_,_,_,_,_,_,_,_,_,hresult⟩ := hmetric
  have hd := (Prod.mk.inj (Option.some.inj hresult)).1
  rw [← hd,nextData]
  split_ifs <;> rfl

lemma aggregateMetricsFrom_cons {txn : Table} {txnName : Bytes} {data : Table} {i : ℕ} {is : List ℕ}
    (hlength : txn.HasLength 14) (hi : i < txn.length 14) {Q : Prop}
    (hrest : MetricDataIntact (nextData (txn.element 14 i) data) →
      DefinedIff (aggregateMetricsFrom fb txn txnName is (nextData (txn.element 14 i) data)) Q) :
    DefinedIff (aggregateMetricsFrom fb txn txnName (i :: is) data)
      ((Inside txn.bytes (txn.elementPos 14 i) 4 ∧ (txn.element 14 i).HasSlot 6 ∧
        MetricDataIntact (nextData (txn.element 14 i) data) ∧ (txn.element 14 i).HasBytes 4) ∧ Q) := by
  have hfirst := aggregateMetric_definedIff h txn txnName data hlength hi
  refine hfirst.bind_of_eq ?_
  rintro ⟨d,calls⟩ hmetric
  obtain rfl := aggregateMetric_data h hlength hi hmetric
  obtain ⟨_,_,hdata,_⟩ := hfirst.mp (by rw [hmetric]; rfl)
  exact (hrest hdata).bind_pure fun rest => calls++rest

/-- Once there is intact data, every metric keeps the data intact. -/
theorem aggregateMetricsFrom_definedIff (txn : Table) (txnName : Bytes) (hlength : txn.HasLength 14)
    (is : List ℕ) (his : ∀ i ∈ is, i < txn.length 14) (data : Table) (hdata : MetricDataIntact data) :
    DefinedIff (aggregateMetricsFrom fb txn txnName is data)
      (∀ i ∈ is, Inside txn.bytes (txn.elementPos 14 i) 4 ∧ MetricIntact (txn.element 14 i)) := by
  induction is generalizing data with
  | nil => exact (definedIff_some []).congr (by simp)
  | cons i is ih =>
    obtain ⟨hi,his⟩ := List.forall_mem_cons.mp his
    refine (aggregateMetricsFrom_cons h hlength hi fun hnext => ih his _ hnext).congr ?_
    rw [metricIntact_iff hdata,List.forall_mem_cons]

lemma aggregateMetrics_definedIff (txn : Table) (txnName : Bytes) :
    DefinedIff (aggregateMetrics fb txn txnName) (MetricsIntact txn) := by
  have hall : DefinedIff (aggregateMetrics fb txn txnName) (txn.HasLength 14 ∧
      ((∀ i ∈ List.range (txn.length 14),
        Inside txn.bytes (txn.elementPos 14 i) 4 ∧ MetricIntact (txn.element 14 i)) ∧
      (0 < txn.length 14 → (txn.element 14 0).entry 6 ≠ 0))) := by
    refine (readLength_yields h txn 14).bind_definedIff fun hlength => ?_
    have hmem : ∀ i ∈ List.range (txn.length 14), i < txn.length 14 := fun i => List.mem_range.mp
    cases hn : txn.length 14 with
    | zero => exact (definedIff_some []).congr (by simp)
    | succ n =>
      rw [hn,List.range_succ_eq_map] at hmem
      rw [List.range_succ_eq_map]
      obtain ⟨hfirst,hothers⟩ := List.forall_mem_cons.mp hmem
      have hothers' : ∀ i ∈ (List.range n).map Nat.succ, i < txn.length 14 := by
        rw [hn]
        exact hothers
      refine (aggregateMetricsFrom_cons h hlength (hn ▸ hfirst) fun hnext =>
        aggregateMetricsFrom_definedIff h txn txnName hlength _ hothers' _ hnext).congr ?_
      rw [metricIntact_zero_iff,List.forall_mem_cons]
      constructor
      · rintro ⟨⟨hinside,hm,hentry⟩,hrest⟩
        exact ⟨⟨⟨hinside,hm⟩,hrest⟩,fun _ => hentry⟩
      · rintro ⟨⟨⟨hinside,hm⟩,hrest⟩,hentry⟩
        exact ⟨⟨hinside,hm,hentry n.succ_pos⟩,hrest⟩
  refine hall.congr ⟨?_,?_⟩
  · rintro ⟨hlength,helements,hfirst⟩
    exact ⟨⟨hlength,fun j hj => helements j (List.mem_range.mpr hj)⟩,hfirst⟩
  · rintro ⟨hvector,hfirst⟩
    exact ⟨hvector.length,fun j hj => hvector.elements j (List.mem_range.mp hj),hfirst⟩

/-! ### Transactions and applications -/

lemma aggregateTransaction_definedIff (size : ℕ) (t : Table) :
    DefinedIff (aggregateTransaction fb size t) (TransactionIntact t) := by
  have hevents := fun (add : Option Bytes → HarvestCall) slot =>
    forElements_definedIff h (aggregateEvent_definedIff h add) t slot
  have hextras := fun (add : Option Bytes → HarvestCall) slot =>
    ifPresent_definedIff h (aggregateEvent_definedIff h add) t slot
  have hlength := fun slot => (readLength_yields h t slot).definedIff
  refine ((hlength 20).bind fun _ => (hlength 14).bind fun _ => (hlength 18).bind fun _ =>
    (readBytes_definedIff h t 4).bind fun name => (readBytes_definedIff h t 6).bind fun uri =>
    (readNumber_definedIff h t 26 8).bind fun priority => (readBytes_definedIff h t 8).bind fun synthetics =>
    (readNumber_definedIff h t 10 4).bind fun _ => (hextras _ 12).bind fun _ =>
    (aggregateMetrics_definedIff h t _).bind fun _ =>
    (forElements_definedIff h (aggregateError_definedIff h) t 16).bind fun _ =>
    (forElements_definedIff h (aggregateSlowSQL_definedIff h _ _) t 18).bind fun _ =>
    (hevents _ 20).bind fun _ => (hevents _ 28).bind fun _ => (hevents _ 30).bind fun _ =>
    (hextras _ 34).bind fun _ => (hextras _ 32).bind fun _ =>
    (ifPresent_definedIff h (aggregateTrace_definedIff h _ _ _) t 22).bind fun _ =>
    (hevents _ 24).bind_pure _).congr ?_
  constructor
  · rintro ⟨_,_,_,hname,huri,hpriority,hsynthetics,hpid,hevent,hmetrics,herrors,hslows,hcustom,hspan,hlog,
      hlabels,hpackages,htrace,herrorEvents⟩
    refine ⟨?_,hpriority,hpid,hevent,hmetrics,herrors,hslows,?_,?_,htrace⟩
    · simp only [List.forall_mem_cons]
      exact ⟨hname,huri,hsynthetics,nofun⟩
    · simp only [List.forall_mem_cons]
      exact ⟨hcustom,hspan,hlog,herrorEvents,nofun⟩
    · simp only [List.forall_mem_cons]
      exact ⟨hlabels,hpackages,nofun⟩
  · intro ht
    obtain ⟨hname,huri,hsynthetics,_⟩ := by simpa only [List.forall_mem_cons] using ht.texts
    obtain ⟨hcustom,hspan,hlog,herrorEvents,_⟩ := by simpa only [List.forall_mem_cons] using ht.events
    obtain ⟨hlabels,hpackages,_⟩ := by simpa only [List.forall_mem_cons] using ht.extras
    exact ⟨hcustom.length,ht.metrics.vector.length,ht.slowSqls.length,hname,huri,ht.priority,hsynthetics,
      ht.pid,ht.event,ht.metrics,ht.errors,ht.slowSqls,hcustom,hspan,hlog,hlabels,hpackages,ht.trace,
      herrorEvents⟩

lemma unmarshalAppInfo_definedIff (t : Table) :
    DefinedIff (unmarshalAppInfo fb t) (AppIntact t) := by
  have hbytes := readBytes_definedIff h t
  refine ((hbytes 26).bind fun _ => (hbytes 4).bind fun _ => (hbytes 6).bind fun _ =>
    (hbytes 8).bind fun _ => (hbytes 10).bind fun _ => (hbytes 14).bind fun _ => (hbytes 16).bind fun _ =>
    (hbytes 20).bind fun _ => (hbytes 38).bind fun _ => (hbytes 28).bind fun _ => (hbytes 22).bind fun _ =>
    (hbytes 24).bind fun _ => (hbytes 30).bind fun _ => (readNumber_definedIff h t 32 2).bind fun _ =>
    (readNumber_definedIff h t 34 8).bind fun _ => (readNumber_definedIff h t 12 1).bind fun _ =>
    (hbytes 44).bind fun _ => (hbytes 18).bind fun _ => (readNumber_definedIff h t 36 8).bind fun _ =>
    (readNumber_definedIff h t 40 8).bind fun _ => (readNumber_definedIff h t 42 8).bind_pure _).congr ?_
  constructor
  · rintro ⟨h26,h4,h6,h8,h10,h14,h16,h20,h38,h28,h22,h24,h30,hport,hqueue,hsecurity,h44,h18,hspan,hlog,
      hcustom⟩
    refine ⟨?_,hport,?_,hsecurity⟩
    · simp only [List.forall_mem_cons]
      exact ⟨h26,h4,h6,h8,h10,h14,h16,h20,h38,h28,h22,h24,h30,h44,h18,nofun⟩
    · simp only [List.forall_mem_cons]
      exact ⟨hqueue,hspan,hlog,hcustom,nofun⟩
  · intro ha
    obtain ⟨h26,h4,h6,h8,h10,h14,h16,h20,h38,h28,h22,h24,h30,h44,h18,_⟩ := by
      simpa only [List.forall_mem_cons] using ha.texts
    obtain ⟨hqueue,hspan,hlog,hcustom,_⟩ := by simpa only [List.forall_mem_cons] using ha.sizes
    exact ⟨h26,h4,h6,h8,h10,h14,h16,h20,h38,h28,h22,h24,h30,ha.port,hqueue,ha.highSecurity,h44,h18,hspan,
      hlog,hcustom⟩

/-! ### Messages -/

/-- There is a result, and a transaction that was forwarded can be aggregated. -/
def Harmless (fb : Runtime) (x : Option BinaryResult) : Prop :=
  ∃ result, x = some result ∧
    ∀ id txn, result.call = some (.incomingTxnData id txn) → (aggregateInto fb txn).isSome

omit h in
lemma harmless_some {result : BinaryResult}
    (hcall : ∀ id txn, result.call ≠ some (.incomingTxnData id txn)) : Harmless fb (some result) :=
  ⟨result,rfl,fun id txn hforwarded => absurd hforwarded (hcall id txn)⟩

omit h in
lemma harmless_bind {α : Type} {x : Option α} {P Q : Prop} {v : α} {f : α → Option BinaryResult}
    (hx : Yields x P v) (hf : P → (Harmless fb (f v) ↔ Q)) : Harmless fb (x >>= f) ↔ P ∧ Q := by
  by_cases hP : P
  · rw [hx.some hP,Option.bind_eq_bind,Option.bind_some,hf hP]
    exact ⟨fun hQ => ⟨hP,hQ⟩,fun hPQ => hPQ.2⟩
  · rw [hx.none hP]
    constructor
    · rintro ⟨_,hnone,_⟩
      cases hnone
    · exact fun hPQ => absurd hPQ.1 hP

omit h in
/-- What forwards no transaction is harmless as soon as it has a result. -/
theorem harmless_iff_of_definedIff {x : Option BinaryResult} {P : Prop} (hx : DefinedIff x P)
    (hcall : ∀ result, x = some result → ∀ id txn, result.call ≠ some (.incomingTxnData id txn)) :
    Harmless fb x ↔ P := by
  refine Iff.trans ⟨?_,?_⟩ hx
  · rintro ⟨result,hresult,_⟩
    rw [hresult]
    rfl
  · intro hsome
    obtain ⟨result,hresult⟩ := Option.isSome_iff_exists.mp hsome
    rw [hresult]
    exact harmless_some (hcall result hresult)

omit h in
/-- The table of the message is read first; without one there is an error. -/
theorem harmless_body {t : Table} {f : Option Table → Option BinaryResult}
    (hunion : Yields (readUnion fb t 8) (t.HasField 8 fun pos => Inside t.bytes pos 4)
      (if t.entry 8 = 0 then none else some ⟨t.bytes,target t.bytes (t.field 8)⟩))
    (hnone : Harmless fb (f none))
    (hsome : ∀ body, body = ⟨t.bytes,target t.bytes (t.field 8)⟩ → t.HasSlot 8 →
      Inside t.bytes (t.field 8) 4 → t.entry 8 ≠ 0 → (Harmless fb (f (some body)) ↔ P body)) :
    Harmless fb (readUnion fb t 8 >>= f) ↔ t.HasTable 8 P := by
  have hall := harmless_bind (Q := t.entry 8 ≠ 0 → P ⟨t.bytes,target t.bytes (t.field 8)⟩) hunion
    (f := f) fun hfield => by
      by_cases hentry : t.entry 8 = 0
      · rw [if_pos hentry]
        exact ⟨fun _ hne => absurd hentry hne,fun _ => hnone⟩
      · rw [if_neg hentry,hsome _ rfl hfield.1 (hfield.2 hentry) hentry]
        exact ⟨fun hP _ => hP,fun hP => hP hentry⟩
  refine hall.trans ⟨?_,?_⟩
  · rintro ⟨⟨hslot,hinside⟩,hP⟩
    exact ⟨hslot,fun hentry => ⟨hinside hentry,hP hentry⟩⟩
  · rintro ⟨hslot,hfield⟩
    exact ⟨⟨hslot,fun hentry => (hfield hentry).1⟩,fun hentry => (hfield hentry).2⟩

omit h in
lemma stringOf_none : stringOf none = [] := rfl

omit h in
lemma stringOf_some (b : Bytes) : stringOf (some b) = b := rfl

omit h in
lemma stringOf_text (t : Table) (slot : ℕ) :
    stringOf (if t.entry slot = 0 then none else some (t.text slot)) = t.text slot := by
  by_cases hentry : t.entry slot = 0
  · rw [if_pos hentry,Table.text,if_pos hentry,stringOf_none]
  · rw [if_neg hentry,stringOf_some]

lemma getRoot_eq (hinside : Inside data 0 4) : Protocol.Message.getRoot fb data = some (rootOf data) := by
  rw [Protocol.Message.getRoot,h.getUOffsetT,(load_yields data 0 4).some hinside]
  rfl

lemma aggregateInto_definedIff (hinside : Inside data 0 4) {body : Table}
    (hbody : body = ⟨(rootOf data).bytes,target (rootOf data).bytes ((rootOf data).field 8)⟩)
    (hslot : (rootOf data).HasSlot 8) (hpos : Inside (rootOf data).bytes ((rootOf data).field 8) 4)
    (hentry : (rootOf data).entry 8 ≠ 0) : DefinedIff (aggregateInto fb data) (TransactionIntact body) := by
  have hunion := (readUnion_yields h (rootOf data) 8).some ⟨hslot,fun _ => hpos⟩
  rw [if_neg hentry,← hbody] at hunion
  have htxn : transactionOf fb data = some body := by
    rw [transactionOf,getRoot_eq h hinside,Option.bind_eq_bind,Option.bind_some,Protocol.Message.data,hunion]
    rfl
  rw [aggregateInto,htxn]
  exact aggregateTransaction_definedIff h data.length body

lemma processTransaction_harmless (hinside : Inside data 0 4) :
    Harmless fb (processTransaction fb data (rootOf data)) ↔
      (rootOf data).HasTable 8 fun txn =>
        (rootOf data).HasBytes 4 ∧ ((rootOf data).text 4 ≠ [] → TransactionIntact txn) := by
  refine harmless_body (readUnion_yields h (rootOf data) 8) (harmless_some nofun) ?_
  intro body hbody hslot hpos hentry
  refine harmless_bind (readBytes_yields h (rootOf data) 4) fun _ => ?_
  rw [stringOf_text]
  by_cases hid : (rootOf data).text 4 = []
  · rw [hid]
    exact ⟨fun _ hne => absurd rfl hne,fun _ => harmless_some nofun⟩
  · rw [if_pos (List.length_pos_iff.mpr hid)]
    have haggregate := aggregateInto_definedIff h hinside hbody hslot hpos hentry
    constructor
    · rintro ⟨result,hresult,hforwarded⟩ _
      obtain rfl := Option.some.inj hresult
      exact haggregate.mp (hforwarded _ _ rfl)
    · intro hintact
      refine ⟨_,rfl,?_⟩
      rintro id txn hcall
      obtain ⟨rfl,rfl⟩ := HandlerCall.incomingTxnData.inj (Option.some.inj hcall)
      exact haggregate.mpr (hintact hid)

lemma marshal_definedIff (answer : AppInfoReply) :
    DefinedIff (answer.marshal fb) (Marshallable answer) := by
  unfold DefinedIff Marshallable
  cases hvalid : answer.runIDValid with
  | true =>
    rw [AppInfoReply.marshal_runIDValid h hvalid]
    split_ifs with hzero
    · exact ⟨fun _ _ => hzero,fun _ => rfl⟩
    · exact ⟨nofun,fun hall => absurd (hall rfl) hzero⟩
  | false =>
    by_cases hstate : answer.state = .connected
    · rw [AppInfoReply.marshal_connected h hvalid hstate]
      exact ⟨fun _ => nofun,fun _ => rfl⟩
    · rw [AppInfoReply.marshal_plain h hvalid hstate]
      exact ⟨fun _ => nofun,fun _ => rfl⟩

lemma processApp_harmless (answer : AppInfoReply) (msg : Table) :
    Harmless fb (processApp fb answer msg) ↔
      msg.HasTable 8 fun app => AppIntact app ∧ msg.HasBytes 4 ∧ Marshallable answer := by
  refine harmless_body (readUnion_yields h msg 8) (harmless_some nofun) ?_
  intro body _ _ _ _
  refine harmless_iff_of_definedIff ((unmarshalAppInfo_definedIff h body).bind fun _ =>
    (readBytes_definedIff h msg 4).bind fun _ => (marshal_definedIff h answer).bind_pure _) ?_
  intro result hresult
  simp only [Option.bind_eq_bind,Option.bind_eq_some_iff] at hresult
  obtain ⟨_,_,_,_,_,_,hresult⟩ := hresult
  obtain rfl := Option.some.inj hresult
  nofun

lemma processSpanBatch_harmless (msg : Table) :
    Harmless fb (processSpanBatch fb msg) ↔
      msg.HasTable 8 fun batch => msg.HasBytes 4 ∧
        (msg.text 4 ≠ [] → batch.HasNumber 4 8 ∧ batch.HasBytes 6) := by
  refine harmless_body (readUnion_yields h msg 8) (harmless_some nofun) ?_
  intro body _ _ _ _
  refine harmless_bind (readBytes_yields h msg 4) fun _ => ?_
  rw [stringOf_text]
  by_cases hid : msg.text 4 = []
  · rw [hid]
    exact ⟨fun _ hne => absurd rfl hne,fun _ => harmless_some nofun⟩
  · rw [if_neg (by simpa using hid)]
    refine (harmless_iff_of_definedIff ((readNumber_definedIff h body 4 8).bind fun _ =>
      (readBytes_definedIff h body 6).bind_pure _) ?_).trans ⟨fun hP _ => hP,fun hP => hP hid⟩
    intro result hresult
    simp only [Option.bind_eq_bind,Option.bind_eq_some_iff] at hresult
    obtain ⟨_,_,_,_,hresult⟩ := hresult
    obtain rfl := Option.some.inj hresult
    nofun

lemma processMessage_harmless (hinside : Inside data 0 4) (answer : AppInfoReply) :
    Harmless fb (processMessage fb data answer (rootOf data)) ↔ MessageIntact answer (rootOf data) := by
  have htype := readNumber_yields h (rootOf data) 6 1
  unfold processMessage
  refine (harmless_bind htype (Q := MessageIntact answer (rootOf data)) fun hnumber => ?_).trans
    ⟨fun hm => hm.2,fun hm => ⟨hm.dataType,hm⟩⟩
  generalize hn : (rootOf data).number 6 1 = n
  split_ifs with htransaction happ hbatch hnone hreply
  · rw [processTransaction_harmless h hinside]
    refine ⟨fun hm => ⟨hnumber,fun _ => hm,?_,?_⟩,fun hm => hm.transaction (hn.trans htransaction)⟩
    · rw [hn,htransaction]
      nofun
    · rw [hn,htransaction]
      nofun
  · rw [processApp_harmless h]
    refine ⟨fun hm => ⟨hnumber,?_,fun _ => hm,?_⟩,fun hm => hm.app (hn.trans happ)⟩
    · rw [hn,happ]
      nofun
    · rw [hn,happ]
      nofun
  · rw [processSpanBatch_harmless h]
    refine ⟨fun hm => ⟨hnumber,?_,?_,fun _ => hm⟩,fun hm => hm.spanBatch (hn.trans hbatch)⟩
    · rw [hn,hbatch]
      nofun
    · rw [hn,hbatch]
      nofun
  all_goals
    refine ⟨fun _ => ⟨hnumber,?_,?_,?_⟩,fun _ => harmless_some nofun⟩
    · exact fun heq => absurd (hn.symm.trans heq) htransaction
    · exact fun heq => absurd (hn.symm.trans heq) happ
    · exact fun heq => absurd (hn.symm.trans heq) hbatch

/-- A message is harmless exactly when it is intact. -/
theorem processBinary_harmless_iff (data : Bytes) (answer : AppInfoReply) :
    Harmless fb (processBinary fb data answer) ↔ BinaryIntact data answer := by
  unfold processBinary BinaryIntact
  by_cases hempty : data = []
  · rw [if_pos (by rw [hempty]; rfl)]
    exact ⟨fun _ => .inl hempty,fun _ => harmless_some nofun⟩
  · rw [if_neg (by simpa using hempty),or_iff_right hempty,h.getUOffsetT]
    refine harmless_bind (load_yields data 0 4) fun hinside => ?_
    by_cases hlarge : (data.length : ℤ)-Limits.minFlatbufferSize ≤ numberAt data 0 4
    · rw [if_pos hlarge]
      exact ⟨fun _ hlt => absurd hlarge (not_le.mpr hlt),fun _ => harmless_some nofun⟩
    · rw [if_neg hlarge,getRoot_eq h hinside,Option.bind_eq_bind,Option.bind_some,
        processMessage_harmless h hinside]
      exact ⟨fun hm _ => hm,fun hm => hm (not_le.mp hlarge)⟩

end Documented

/-- A transaction with a run id whose name points behind the end. -/
def danglingName : Bytes :=
  [16,0,0,0, 10,0,16,0,4,0,12,0,8,0,0,0, 12,0,0,0,12,0,0,0,24,0,0,0,3,0,0,0, 1,0,0,0,49,0,0,0,
    6,0,8,0,4,0,0,0, 8,0,0,0,255,0,0,0]

def noAnswer : AppInfoReply := ⟨false,.unknown,[],[],0,0,0⟩

/-- The transaction is forwarded, and cannot be aggregated. -/
theorem danglingName_not_harmless : ∃ result id txn,
    processBinary .reference danglingName noAnswer = some result ∧
      result.call = some (.incomingTxnData id txn) ∧ aggregateInto .reference txn = none := by
  have hsome : (processBinary .reference danglingName noAnswer).isSome := by decide +kernel
  obtain ⟨result,hresult⟩ := Option.isSome_iff_exists.mp hsome
  have hnot : ¬ Harmless .reference (processBinary .reference danglingName noAnswer) := by
    rw [processBinary_harmless_iff Runtime.reference_documented]
    rintro (hempty | ⟨_,hintact⟩)
    · exact absurd hempty (by decide)
    · have htxn := (hintact (by decide +kernel)).transaction (by decide +kernel)
      have hname := ((htxn.2 (by decide +kernel)).2.2 (by decide +kernel)).texts 4 (by simp)
      exact absurd (hname.2 (by decide +kernel)).length (by decide +kernel)
  by_contra hno
  refine hnot ⟨result,hresult,fun id txn hcall => ?_⟩
  rw [Option.isSome_iff_ne_none]
  exact fun hnone => hno ⟨result,id,txn,hresult,hcall,hnone⟩

/-- One byte is too short for the first offset. -/
theorem not_processBinary_harmless :
    ¬ ∀ fb : Runtime, fb.Documented → ∀ data answer, Harmless fb (processBinary fb data answer) := by
  intro hall
  obtain ⟨result,hresult,_⟩ := hall .reference Runtime.reference_documented [0] noAnswer
  have hnone : processBinary .reference [0] noAnswer = none := rfl
  rw [hnone] at hresult
  cases hresult

end PhpAgent

import PhpAgent.Agent.Messages
import PhpAgent.Util.Metrics

/-! The metrics of a transaction message, after `cmd_txndata_transmit.c`. The data of a metric are a
struct inside of its table. -/
namespace PhpAgent.Txndata
open Flat FlatBuilder FlatBuilder.Builder BuiltTables

/-! ### Writing where there is room -/

/-- Something was put in front of a buffer that has not moved. -/
structure Stacked (fb : Builder) (s : Bytes) (fb' : Builder) : Prop where
  sane : fb'.Sane
  same : SameObject fb fb'
  used : fb'.used = s ++ fb.used
  capacity : fb'.capacity = fb.capacity
  front : fb'.front = fb.front

section Stacked
variable {fb fb' fb'' : Builder} {s t : Bytes}

lemma Stacked.len (h : Stacked fb s fb') : fb'.len = s.length + fb.len := by
  rw [Builder.len,h.used,List.length_append]
  rfl

lemma Stacked.pos (h : Stacked fb s fb') : fb'.pos = fb.pos - s.length := by
  rw [Builder.pos,Builder.pos,h.len,h.capacity,h.front]
  omega

lemma Stacked.trans (h : Stacked fb s fb') (h' : Stacked fb' t fb'') : Stacked fb (t ++ s) fb'' where
  sane := h'.sane
  same := h.same.trans h'.same
  used := by rw [h'.used,h.used,List.append_assoc]
  capacity := h'.capacity.trans h.capacity
  front := h'.front.trans h.front

lemma put_stacked (h : fb.Sane) (hroom : fb.len + s.length ≤ fb.capacity) :
    ∃ fb', fb.put s = .ok fb' ∧ Stacked fb s fb' := by
  obtain ⟨fb',hput,hsane,hsame,hused,hcapacity,hfront⟩ := put_spec h hroom
  exact ⟨fb',hput,⟨hsane,hsame,hused,hcapacity,hfront⟩⟩

variable (malloc : ℕ → ℕ)

lemma prependNumber_stacked (h : fb.Sane) (k : Kind) (x : ℤ) (hroom : fb.len + 2 * k.size < fb.capacity)
    (haligned : k.size ∣ fb.pos) :
    ∃ fb', fb.prependNumber malloc k x = .ok fb' ∧ Stacked fb (lowBytes k.size (k.bits x)) fb' := by
  obtain ⟨hpos,hle⟩ := k.size_pos_le
  have hprep : fb.prep malloc k.size 0 = .ok { fb with minAlign := max fb.minAlign k.size } :=
    prep_of_room h hroom (Nat.dvd_sub haligned (dvd_refl _))
  set fb₁ : Builder := { fb with minAlign := max fb.minAlign k.size }
  have hsane₁ : fb₁.Sane := ⟨h.1,h.2,h.3,h.4,h.5,lt_max_of_lt_left h.minAlign.1,max_le h.minAlign.2 hle⟩
  have hlen₁ : fb₁.len = fb.len := rfl
  have hcapacity₁ : fb₁.capacity = fb.capacity := rfl
  obtain ⟨fb₂,hput,hstacked⟩ := put_stacked (s := lowBytes k.size (k.bits x)) hsane₁ (by
    rw [length_lowBytes,hlen₁,hcapacity₁]
    omega)
  refine ⟨fb₂,?_,hstacked.sane,?_,hstacked.used,hstacked.capacity,hstacked.front⟩
  · rw [prependNumber,hprep]
    exact hput
  · exact ⟨hstacked.same.1,hstacked.same.2,hstacked.same.3,hstacked.same.4,hstacked.same.5⟩

/-- Floats, the first one first. -/
theorem prependFloats_stacked (xs : List ℤ) (h : fb.Sane) (hroom : fb.len + 8 * xs.length + 8 < fb.capacity)
    (haligned : 8 ∣ fb.pos) :
    ∃ fb', xs.foldlM (fun fb x => fb.prependNumber malloc .f64 x) fb = .ok fb' ∧
      Stacked fb (xs.reverse.flatMap fun x => lowBytes 8 (Kind.bits .f64 x)) fb' := by
  induction xs generalizing fb with
  | nil => exact ⟨fb,rfl,h,.refl fb,rfl,rfl,rfl⟩
  | cons x xs ih =>
    rw [List.length_cons] at hroom
    obtain ⟨fb₁,hfirst,hstacked₁⟩ := prependNumber_stacked malloc h .f64 x (by change fb.len + 16 < _; omega) haligned
    have hlen₁ := hstacked₁.len
    have hpos₁ := hstacked₁.pos
    have hcapacity₁ := hstacked₁.capacity
    rw [length_lowBytes] at hlen₁ hpos₁
    change fb₁.len = 8 + fb.len at hlen₁
    change fb₁.pos = fb.pos - 8 at hpos₁
    obtain ⟨fb₂,hrest,hstacked₂⟩ := ih hstacked₁.sane (by omega) (hpos₁ ▸ Nat.dvd_sub haligned (dvd_refl 8))
    refine ⟨fb₂,?_,?_⟩
    · rw [List.foldlM_cons,hfirst]
      exact hrest
    · rw [List.reverse_cons,List.flatMap_append,List.flatMap_singleton]
      exact hstacked₁.trans hstacked₂

end Stacked

/-! ### The data of a metric -/

/-- `nrtime_to_double`, and what it is divided by. Doubles are given by their bits. -/
structure Doubles where
  double : UInt64 → ℤ
  seconds : UInt64 → ℤ
  secondsSquare : UInt64 → ℤ

/-- The numbers of `MetricData` in the order of the struct. -/
def metricNumbers (d : Doubles) (metric : NrMetric) : List ℤ :=
  if metric.isApdex then
    [d.double metric.count,d.double metric.total,d.double metric.exclusive,d.seconds metric.min,d.seconds metric.max,0]
  else
    [d.double metric.count,d.seconds metric.total,d.seconds metric.exclusive,d.seconds metric.min,d.seconds metric.max,
      d.secondsSquare metric.sumSquares]

/-- `nr_flatbuffers_prepend_bool`. -/
def prependBool (malloc : ℕ → ℕ) (fb : Builder) (x : ℤ) : Except FlatBuilder.Fault Builder :=
  fb.prependNumber malloc .u8 (if x ≠ 0 then 1 else 0)

/-- `nr_flatbuffers_object_prepend_struct`. -/
def objectPrependStruct (fb : Builder) (i x d : ℕ) : Except FlatBuilder.Fault Builder :=
  if x ≠ d then fb.setField i else .ok fb

/-- `nr_txndata_prepend_metric_data`. -/
def prependMetricData (malloc : ℕ → ℕ) (d : Doubles) (metric : NrMetric) (inScope : ℤ) (fb : Builder) :
    Except FlatBuilder.Fault (ℕ × Builder) := do
  let fb ← fb.prep malloc 8 56
  let fb ← fb.put (List.replicate 6 0)
  let fb ← prependBool malloc fb (if metric.forced then 1 else 0)
  let fb ← prependBool malloc fb inScope
  let fb ← (metricNumbers d metric).reverse.foldlM (fun fb x => fb.prependNumber malloc .f64 x) fb
  return (fb.len,fb)

/-- The struct. -/
def metricBytes (d : Doubles) (metric : NrMetric) (inScope : ℤ) : Bytes :=
  (metricNumbers d metric).flatMap (fun x => lowBytes 8 (Kind.bits .f64 x)) ++
    (lowBytes 1 (Kind.bits .u8 (truth inScope)) ++
      (lowBytes 1 (Kind.bits .u8 (if metric.forced then 1 else 0)) ++ List.replicate 6 0))

lemma length_metricNumbers (d : Doubles) (metric : NrMetric) : (metricNumbers d metric).length = 6 := by
  unfold metricNumbers
  split_ifs <;> rfl

lemma length_flatMap_lowBytes (xs : List ℤ) :
    (xs.flatMap fun x => lowBytes 8 (Kind.bits .f64 x)).length = 8 * xs.length := by
  induction xs with
  | nil => rfl
  | cons x xs ih =>
    rw [List.flatMap_cons,List.length_append,length_lowBytes,ih,List.length_cons]
    omega

lemma length_metricBytes (d : Doubles) (metric : NrMetric) (inScope : ℤ) :
    (metricBytes d metric inScope).length = 56 := by
  simp only [metricBytes,List.length_append,length_flatMap_lowBytes,length_metricNumbers,length_lowBytes,
    List.length_replicate]

section Metrics
variable {malloc : ℕ → ℕ} {stops : FlatBuilder.Fault → Prop} {fb : Builder}

lemma prependMetricData_spec (hmalloc : EvenAddresses malloc) (h : fb.Sane) (d : Doubles) (metric : NrMetric)
    (inScope : ℤ) (hstops : 2 ^ 30 ≤ fb.len + 72 → stops .tooLarge) :
    Ends stops (fun r => r.1 = r.2.len ∧ Put 8 (metricBytes d metric inScope) fb r.2)
      (prependMetricData malloc d metric inScope fb) := by
  refine (prep_spec hmalloc h (by decide) hstops).bind fun fb₁ hprep => ?_
  have hroom := hprep.room
  have haligned : 8 ∣ fb₁.pos := by
    have hdvd : 8 ∣ fb₁.pos - 56 - 8 := hprep.aligned
    unfold Builder.pos at hdvd ⊢
    omega
  obtain ⟨fb₂,hpad,hstacked₂⟩ := put_stacked (s := List.replicate 6 0) hprep.sane (by rw [List.length_replicate]; omega)
  have hlen₂ := hstacked₂.len
  have hpos₂ := hstacked₂.pos
  have hcapacity₂ := hstacked₂.capacity
  rw [List.length_replicate] at hlen₂ hpos₂
  have hone : Kind.size .u8 = 1 := rfl
  obtain ⟨fb₃,hforced,hstacked₃⟩ := prependNumber_stacked malloc hstacked₂.sane .u8
    (if (if metric.forced then (1 : ℤ) else 0) ≠ 0 then 1 else 0) (by rw [hone]; omega) (one_dvd _)
  have hlen₃ := hstacked₃.len
  have hpos₃ := hstacked₃.pos
  have hcapacity₃ := hstacked₃.capacity
  rw [length_lowBytes,hone] at hlen₃ hpos₃
  obtain ⟨fb₄,hscope,hstacked₄⟩ := prependNumber_stacked malloc hstacked₃.sane .u8 (truth inScope)
    (by rw [hone]; omega) (one_dvd _)
  have hlen₄ := hstacked₄.len
  have hpos₄ := hstacked₄.pos
  have hcapacity₄ := hstacked₄.capacity
  rw [length_lowBytes,hone] at hlen₄ hpos₄
  have hposEight : fb₄.pos = fb₁.pos - 8 := by omega
  obtain ⟨fb₅,hfloats,hstacked₅⟩ := prependFloats_stacked malloc (metricNumbers d metric).reverse hstacked₄.sane
    (by rw [List.length_reverse,length_metricNumbers]; omega) (hposEight ▸ Nat.dvd_sub haligned (dvd_refl 8))
  rw [List.reverse_reverse] at hstacked₅
  have hall := ((hstacked₂.trans hstacked₃).trans hstacked₄).trans hstacked₅
  have hflag : (if (if metric.forced then (1 : ℤ) else 0) ≠ 0 then (1 : ℤ) else 0) = if metric.forced then 1 else 0 := by
    cases metric.forced <;> rfl
  have hbytes : (metricNumbers d metric).flatMap (fun x => lowBytes 8 (Kind.bits .f64 x)) ++
      (lowBytes 1 (Kind.bits .u8 (truth inScope)) ++ (lowBytes 1 (Kind.bits .u8
        (if (if metric.forced then (1 : ℤ) else 0) ≠ 0 then 1 else 0)) ++ List.replicate 6 0)) =
      metricBytes d metric inScope := by
    rw [hflag,metricBytes]
  have hmetric : Stacked fb₁ (metricBytes d metric inScope) fb₅ := hbytes ▸ hall
  change Ends stops _ (fb₁.put (List.replicate 6 0) >>= _)
  rw [hpad]
  change Ends stops _ (prependBool malloc fb₂ (if metric.forced then 1 else 0) >>= _)
  rw [prependBool,hforced]
  change Ends stops _ (prependBool malloc fb₃ inScope >>= _)
  rw [prependBool,show (if inScope ≠ 0 then (1 : ℤ) else 0) = truth inScope from rfl,hscope]
  change Ends stops _ ((metricNumbers d metric).reverse.foldlM (fun fb x => fb.prependNumber malloc .f64 x) fb₄ >>= _)
  rw [hfloats]
  refine ⟨rfl,hmetric.sane,hprep.same.trans hmetric.same,?_,?_⟩
  · obtain ⟨p,hp,hpadded⟩ := hprep.padded
    exact ⟨p,hp,by rw [hmetric.used,hpadded]⟩
  · rw [hmetric.pos,length_metricBytes]
    exact Nat.dvd_sub haligned (by decide)

/-- The struct as a field. -/
def metricData (malloc : ℕ → ℕ) (d : Doubles) (metric : NrMetric) (inScope : ℤ) : FieldWrite where
  index := 1
  holds := fun used place => place ≠ 0 ∧ Lies used place (metricBytes d metric inScope)
  cost := 72
  write := fun fb => do
    let (data,fb) ← prependMetricData malloc d metric inScope fb
    objectPrependStruct fb 1 data 0

lemma sound_metricData (hmalloc : EvenAddresses malloc) {total : ℕ} {pre : Bytes → Prop}
    (htotal : 2 ^ 30 ≤ total → stops .tooLarge) (d : Doubles) (metric : NrMetric) (inScope : ℤ) :
    (metricData malloc d metric inScope).Sound stops total pre := by
  refine ⟨fun begun numFields fb hin hi habsent _ hroom => ?_,fun place used used' h hused => ⟨h.1,h.2.mono hused⟩⟩
  change fb.len + 72 ≤ total at hroom
  refine (prependMetricData_spec hmalloc hin.sane d metric inScope fun hle => htotal (by omega)).bind
    fun ⟨data,fb'⟩ ⟨hdata,hput⟩ => ?_
  have hlen := hput.len
  rw [length_metricBytes] at hlen
  have hdata' : data = fb'.len := hdata
  change Ends stops _ (objectPrependStruct fb' 1 data 0)
  rw [objectPrependStruct,if_pos (by omega)]
  refine hin.wrote hput hi (by rw [length_metricBytes]; decide) ?_ ⟨by omega,hput.lies⟩
  change fb'.len ≤ fb.len + 72
  omega

/-! ### Metrics -/

/-- The fields of `Metric` in the order in which they are written. -/
def metricFields (malloc : ℕ → ℕ) (d : Doubles) (metric : NrMetric) (inScope : ℤ) (name : ℕ) : List FieldWrite :=
  [.uoffset malloc 0 name,metricData malloc d metric inScope]

/-- `nr_txndata_prepend_metric`. -/
def prependMetric (malloc : ℕ → ℕ) (d : Doubles) (metric : NrMetric) (inScope : ℤ) (fb : Builder) :
    Except FlatBuilder.Fault (ℕ × Builder) := do
  let (name,fb) ← fb.prependString malloc (some metric.name)
  prependObject malloc 2 ((metricFields malloc d metric inScope name).map FieldWrite.write) fb

/-- The metrics of a transaction with whether they are in a scope, in the order in which they are put. -/
def allMetrics (scopedMetrics unscopedMetrics : NrmTable) : List (NrMetric × ℤ) :=
  unscopedMetrics.metrics.map (fun node => (node.data,0)) ++ scopedMetrics.metrics.map fun node => (node.data,1)

/-- `nr_txndata_prepend_metrics`. -/
def prependMetrics (malloc : ℕ → ℕ) (d : Doubles) (scopedMetrics unscopedMetrics : NrmTable) (fb : Builder) :
    Except FlatBuilder.Fault (ℕ × Builder) :=
  prependEach malloc (fun m fb => prependMetric malloc d m.1 m.2 fb) (allMetrics scopedMetrics unscopedMetrics) fb

/-- The fields of a metric. -/
structure MetricAt (d : Doubles) (m : NrMetric × ℤ) (o : ℕ) (used : Bytes) : Prop where
  name : HasText used o 0 (some m.1.name)
  data : FieldOf used o 1 fun used place => place ≠ 0 ∧ Lies used place (metricBytes d m.1 m.2)

lemma lasting_metricAt (d : Doubles) (m : NrMetric × ℤ) (o : ℕ) : Lasting (MetricAt d m o) := fun _ _ h hused =>
  ⟨lasting_hasText o 0 _ h.name hused,
    lasting_fieldOf o 1 (fun _ => (lasting_const _).and (lasting_lies _ _)) h.data hused⟩

/-- A bound on the bytes of a metric. -/
def metricCost (m : NrMetric × ℤ) : ℕ := textCost (some m.1.name) + 99

/-- A bound on the bytes of the metrics. -/
def metricsCost (ms : List (NrMetric × ℤ)) : ℕ := (ms.map metricCost).sum + (4 * ms.length + 11)

section Leaves
variable {total : ℕ} {pre : Bytes → Prop} (hmalloc : EvenAddresses malloc) (htotal : 2 ^ 30 ≤ total → stops .tooLarge)
  (hpre : Lasting pre) (d : Doubles)
include hmalloc htotal hpre

lemma leaves_metric (m : NrMetric × ℤ) :
    Leaves buffered stops total (metricCost m) pre (fun o used => o ≠ 0 ∧ o ≤ used.length ∧ MetricAt d m o used)
      (prependMetric malloc d m.1 m.2) := by
  have htext : Leaves buffered stops total _ pre _ _ := leaves_text hmalloc htotal (some m.1.name)
  change Leaves buffered stops total (_ + 99) _ _ fun fb => fb.prependString malloc (some m.1.name) >>= fun r =>
    prependObject malloc 2 ((metricFields malloc d m.1 m.2 r.1).map FieldWrite.write) r.2
  refine htext.bind hpre fun name => ?_
  have htable : Leaves buffered stops total 99
      (fun used => name ≤ used.length ∧ TextAt used name (some m.1.name))
      (fun o used => o ≠ 0 ∧ o ≤ used.length ∧ MetricAt d m o used) _ :=
    leaves_table_with hmalloc htotal 2 80 [0,1] (metricFields malloc d m.1 m.2 name) rfl rfl (by decide)
      (List.forall_mem_cons.mpr ⟨sound_uoffset hmalloc htotal 0 fun _ h => h.1,
        List.forall_mem_singleton.mpr (sound_metricData hmalloc htotal d m.1 m.2)⟩)
      ((lasting_le_length name).and (lasting_textAt name _))
      fun o used hbefore htable => ⟨⟨name,htable.leads 0 rfl,hbefore.2⟩,htable.field 1 rfl⟩
  exact htable.weaken le_rfl (fun _ h => ⟨h.2.1,h.2.2.1⟩) fun _ _ h => h

lemma leaves_metrics (scopedMetrics unscopedMetrics : NrmTable) :
    Leaves buffered stops total (metricsCost (allMetrics scopedMetrics unscopedMetrics)) pre
      (fun o used => o ≤ used.length ∧ ListAt (MetricAt d) used o (allMetrics scopedMetrics unscopedMetrics).reverse)
      (prependMetrics malloc d scopedMetrics unscopedMetrics) :=
  leaves_each hmalloc htotal hpre (lasting_metricAt d) fun m _ => leaves_metric hmalloc htotal hpre d m

end Leaves
end Metrics

end PhpAgent.Txndata

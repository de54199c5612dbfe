import PhpAgent.Lib.Ledger
import PhpAgent.Daemon.ProcessorTables

/-! The metric tables of the processor as a ledger, and what one move does to it. -/
namespace PhpAgent

/-- The harvest whose metrics the goroutine is about to take. -/
def HarvestTask.takes : HarvestTask → Option ℕ
  | harvestAll h => some h
  | harvestMetrics h _ => some h
  | metricsLocked h _ => some h
  | _ => none

section Tasks
variable (cmd : Command) (pl : Payload) (h : ℕ) (d : HarvestData) (args : HarvestArgs)

@[simp] lemma considerHarvestPayload_takes :
    (considerHarvestPayload cmd pl).filterMap HarvestTask.takes = [] := by
  unfold considerHarvestPayload
  split
  · rfl
  · rfl

@[simp] lemma considerHarvestPayloadTxnEvents_takes :
    (considerHarvestPayloadTxnEvents pl args).filterMap HarvestTask.takes = [] := by
  unfold considerHarvestPayloadTxnEvents
  split
  · simp
  · simp

/-- A harvest of all data takes the metrics of its harvest once. -/
theorem harvestAll_takes : (harvestAll h d args).filterMap HarvestTask.takes = [h] := by
  unfold harvestAll
  split
  · split
    · rfl
    · rfl
  · simp [HarvestTask.takes]

lemma harvestDefaultData_takes :
    (harvestDefaultData h d args).2.filterMap HarvestTask.takes = [h] := by
  unfold harvestDefaultData
  split
  · simp [HarvestTask.takes]
  · rfl

lemma harvestEvents_takes (type : HarvestType) (limits : EventConfigs) :
    (harvestEvents d args type limits).2.filterMap HarvestTask.takes = [] := by
  have hspan : ∀ pl, (if args.profileExporter.isSome ∧ args.otlpConfig.emitTraces then
      [HarvestTask.harvestTraces pl] else considerHarvestPayload .spanEvents pl).filterMap
        HarvestTask.takes = [] := by
    intro pl
    split
    · rfl
    · simp
  have hite : ∀ (c : Prop) [Decidable c] (a b : HarvestData × List HarvestTask),
      a.2.filterMap HarvestTask.takes = [] → b.2.filterMap HarvestTask.takes = [] →
      (if c then a else b).2.filterMap HarvestTask.takes = [] := by
    intro c _ a b ha hb
    split
    · exact ha
    · exact hb
  simp only [harvestEvents,List.filterMap_append]
  rw [hite _ _ _ (by simp) rfl,hite _ _ _ (by simp) rfl,hite _ _ _ (by simp) rfl,
    hite _ _ _ (hspan _) rfl,hite _ _ _ (by simp) rfl]
  rfl

end Tasks

namespace Processor
variable {p p' : Processor} {e : ProcessorEvent} {t : Task} {i : ℕ}

/-- What the goroutines and the processor itself are about to do. -/
def running (p : Processor) : Multiset HarvestTask :=
  ↑(p.tasks.map Task.run) + ↑(p.inline.map Task.run)

/-- The metric tables as tokens: the harvests hold them, harvests of all data call them in and
deliveries take them. The tasks `ts` are about to be started. -/
def ledger (p : Processor) (ts : List HarvestTask) : Ledger where
  cells := p.harvestObjs.map Harvest.table
  fresh := p.nextTable
  called := p.detached
  taken := p.handed
  pending := ↑(ts.filterMap HarvestTask.takes) + p.running.filterMap HarvestTask.takes

lemma ledger_eq_await (ts : List HarvestTask) {h : ℕ} (hts : ts.filterMap HarvestTask.takes = [h])
    (p : Processor) : p.ledger ts = (p.ledger []).await h := by
  simp [ledger,Ledger.await,hts]

lemma ledger_eq {ts : List HarvestTask} (hts : ts.filterMap HarvestTask.takes = [])
    (p : Processor) : p.ledger ts = p.ledger [] := by
  simp [ledger,hts]

@[simp] lemma updateApp_ledger (a : ℕ) (f : App → App) (ts : List HarvestTask) :
    (p.updateApp a f).ledger ts = p.ledger ts := rfl

@[simp] lemma updateAppHarvest_ledger (i : ℕ) (f : AppHarvest → AppHarvest)
    (ts : List HarvestTask) : (p.updateAppHarvest i f).ledger ts = p.ledger ts := rfl

@[simp] lemma shutdownAppHarvest_ledger (id : AgentRunID) (ts : List HarvestTask) :
    (p.shutdownAppHarvest id).ledger ts = p.ledger ts := rfl

@[simp] lemma updateHarvest_ledger (h : ℕ) (f : HarvestData → HarvestData)
    (ts : List HarvestTask) : (p.updateHarvest h f).ledger ts = p.ledger ts := by
  have hmap : (p.harvestObjs.modify h fun x => { x with data := f x.data }).map Harvest.table =
      p.harvestObjs.map Harvest.table := by
    apply List.ext_getElem?
    intro n
    by_cases hn : h = n
    · subst hn
      rw [List.getElem?_map,List.getElem?_map,List.getElem?_modify_eq,Option.map_eq_map,
        Option.map_map]
      rfl
    · rw [List.getElem?_map,List.getElem?_map,List.getElem?_modify_ne _ _ hn]
  simp only [ledger,Processor.updateHarvest,hmap,running]

@[simp] lemma considerConnect_ledger (a : ℕ) (now : Time) (ts : List HarvestTask) :
    (p.considerConnect a now).ledger ts = p.ledger ts := by
  unfold considerConnect
  split
  · rfl
  · split
    · rfl
    · rfl

lemma processAppInfo_ledger (id : Option AgentRunID) (info : AppInfo) (now : Time)
    (ts : List HarvestTask) : (p.processAppInfo id info now).1.ledger ts = p.ledger ts := by
  unfold processAppInfo
  split
  · rfl
  · split
    · rw [considerConnect_ledger,updateApp_ledger]
    · split
      · rfl
      · rw [considerConnect_ledger]
        rfl

lemma spawn_running (i : ℕ) (args : HarvestArgs) (blocking : Bool) (ts : List HarvestTask) :
    (p.spawn i args blocking ts).running = ↑ts + p.running := by
  have hmap : ∀ ts : List HarvestTask,
      (ts.map fun run => (⟨i,args,run⟩ : Task)).map Task.run = ts := by
    intro ts
    rw [List.map_map]
    exact List.map_id ts
  cases blocking with
  | false =>
    simp only [spawn,running,Bool.false_eq_true,if_false,List.map_append,hmap,← Multiset.coe_add]
    rw [add_comm (↑(p.tasks.map Task.run) : Multiset HarvestTask),add_assoc]
  | true =>
    have hsplit : (↑ts : Multiset HarvestTask) =
        ↑(ts.filter HarvestTask.otlp) + ↑(ts.filter fun t => !t.otlp) := by
      rw [Multiset.coe_add,Multiset.coe_eq_coe]
      exact (List.filter_append_perm HarvestTask.otlp ts).symm
    simp only [spawn,running,if_true,List.map_append,hmap,← Multiset.coe_add]
    rw [hsplit,add_comm (↑(p.tasks.map Task.run) : Multiset HarvestTask)]
    simp only [add_assoc]
    congr 1
    exact add_left_comm _ _ _

lemma spawn_eq (i : ℕ) (args : HarvestArgs) (blocking : Bool) (ts : List HarvestTask) :
    ∃ tasks inline, p.spawn i args blocking ts = { p with tasks := tasks, inline := inline } := by
  unfold spawn
  split
  · exact ⟨_,_,rfl⟩
  · exact ⟨_,p.inline,rfl⟩

lemma spawn_ledger (i : ℕ) (args : HarvestArgs) (blocking : Bool) (ts : List HarvestTask) :
    (p.spawn i args blocking ts).ledger [] = p.ledger ts := by
  have hrunning : (p.spawn i args blocking ts).running = ↑ts + p.running :=
    spawn_running i args blocking ts
  obtain ⟨tasks,inline,heq⟩ := spawn_eq (p := p) i args blocking ts
  rw [heq] at hrunning ⊢
  simp only [ledger,hrunning,Multiset.filterMap_add,List.filterMap_nil,Multiset.coe_nil,zero_add,
    Multiset.filterMap_coe]

/-! ### What one move does to the tables -/

/-- Nobody but `t` is to take the metrics of its harvest, which were taken off the application, and
it finds the lock of the controller taken. -/
def Skips (p : Processor) (t : Task) (others : List Task) : Prop :=
  ∃ h all ah harvest, t.run = .harvestMetrics h all ∧ p.appHarvests[t.ah]? = some ah ∧
    ah.locked = true ∧ p.harvestObjs[h]? = some harvest ∧ harvest.table ∈ p.detached ∧
    ∀ t' ∈ others, t'.run.takes ≠ some h

/-- `t` is to take metrics that were taken off the application. -/
def Owes (p : Processor) (t : Task) : Prop :=
  ∃ h harvest, t.run.takes = some h ∧ p.harvestObjs[h]? = some harvest ∧ harvest.table ∈ p.detached

/-- A delivery for `ah` has failed, and nobody takes its error: whoever waits for the deliveries
waits for ever. -/
def Stuck (p : Processor) (ah : ℕ) : Prop :=
  p.exiting ≠ none ∧ ∃ t ∈ p.tasks ++ p.inline, t.run = .harvestError ∧ t.ah = ah

/-- The delivery `t` fails when nobody takes its error, before somebody took the metrics that he owes
for the same harvest. -/
def Strands (p : Processor) (t : Task) (others : List Task) (failed : Bool) : Prop :=
  failed = true ∧ p.exiting ≠ none ∧ (∃ cmd pl, t.run = .harvestPayload cmd pl) ∧
    ∃ t' ∈ others, t'.ah = t.ah ∧ Owes p t'

/-- No goroutine skips metrics that nobody else is to take, or is to take some when the process
ends. -/
def Kept (p : Processor) : ProcessorEvent → Prop
  | .task i _ _ => ∀ t, p.tasks[i]? = some t → ¬ Skips p t (p.tasks.eraseIdx i ++ p.inline)
  | .inline _ _ => ∀ t rest, p.inline = t :: rest → ¬ Skips p t (p.tasks ++ rest)
  | .exit => ∀ t ∈ p.tasks ++ p.inline, ¬ Owes p t
  | _ => True

/-- No goroutine that is to take metrics comes to wait for the error of a delivery that nobody
takes. -/
def Unstranded (p : Processor) : ProcessorEvent → Prop
  | .task i _ failed => ∀ t, p.tasks[i]? = some t →
      ¬ Strands p t (p.tasks.eraseIdx i ++ p.inline) failed
  | .inline _ failed => ∀ t rest, p.inline = t :: rest → ¬ Strands p t (p.tasks ++ rest) failed
  | .harvest i _ _ now => Stuck p i → Removes p i now
  | .cleanExit => ∀ t ∈ p.tasks, ∀ t' ∈ p.tasks, t.run = .harvestError → t'.ah = t.ah → ¬ Owes p t'
  | _ => True

/-- Metrics that were taken off an application are neither skipped nor left waiting. -/
def Uncontended (p : Processor) (e : ProcessorEvent) : Prop := Kept p e ∧ Unstranded p e

lemma mem_pending {h : ℕ} : h ∈ (p.ledger []).pending ↔
    ∃ t ∈ p.tasks ++ p.inline, t.run.takes = some h := by
  simp [ledger,running,or_and_right,exists_or]

lemma owes_iff : Owes p t ↔ ∃ h T, t.run.takes = some h ∧
    (p.ledger []).cells[h]? = some T ∧ T ∈ (p.ledger []).called := by
  constructor
  · rintro ⟨h,harvest,htakes,hharvest,hmem⟩
    exact ⟨h,harvest.table,htakes,by rw [ledger,List.getElem?_map,hharvest]; rfl,hmem⟩
  · rintro ⟨h,T,htakes,hcell,hmem⟩
    rw [ledger,List.getElem?_map,Option.map_eq_some_iff] at hcell
    obtain ⟨harvest,hharvest,rfl⟩ := hcell
    exact ⟨h,harvest,htakes,hharvest,hmem⟩

/-- Handing over the metric table of `c` takes its token. -/
theorem handOver_ledger (c T : ℕ) : (p.handOver c T).ledger [] = (p.ledger []).take c T := by
  have hcells : (p.harvestObjs.modify c fun x => { x with
      table := p.nextTable, data := { x.data with metrics := [] } }).map Harvest.table =
        (p.harvestObjs.map Harvest.table).set c p.nextTable := by
    apply List.ext_getElem?
    intro n
    by_cases hn : c = n
    · subst hn
      rw [List.getElem?_map,List.getElem?_modify_eq,List.getElem?_set_self',List.getElem?_map]
      simp only [Option.map_eq_map,Option.map_map]
      rfl
    · rw [List.getElem?_map,List.getElem?_modify_ne _ _ hn,List.getElem?_set_ne hn,
        List.getElem?_map]
  simp only [ledger,Ledger.take,handOver,hcells,running]

/-- Only `metricsLocked` hands over: every other move leaves what its goroutine was to take to the
goroutines that follow it. -/
theorem Performs.sound {failed : Bool} {next : List HarvestTask} (hmove : Performs p t failed p' next)
    (h : (p.ledger [t.run]).Sound) (hskip : ¬ Skips p t (p.tasks ++ p.inline)) :
    (p'.ledger next).Sound := by
  have hkeep : ∀ {ts : List HarvestTask}, ts.filterMap HarvestTask.takes = [] →
      [t.run].filterMap HarvestTask.takes = [] → (p.ledger ts).Sound := by
    intro ts hts ht
    rw [ledger_eq hts,← ledger_eq ht]
    exact h
  have hhandOver : ∀ {c : ℕ} {all : Bool} {harvest : Harvest} {ts : List HarvestTask},
      t.run = .metricsLocked c all → p.harvestObjs[c]? = some harvest →
      ts.filterMap HarvestTask.takes = [] → ((p.handOver c harvest.table).ledger ts).Sound := by
    intro c all harvest ts hrun hharvest hts
    rw [hrun,ledger_eq_await [.metricsLocked c all] rfl] at h
    rw [ledger_eq hts,handOver_ledger]
    exact h.take (by rw [ledger,List.getElem?_map,hharvest]; rfl)
  cases hmove with
  | @harvestAll c _ hrun _ =>
    rw [updateHarvest_ledger,ledger_eq_await _ (harvestAll_takes _ _ _)]
    rw [hrun,ledger_eq_await [.harvestAll c] rfl] at h
    exact h
  | @skip c all ah hrun hah hlocked =>
    rw [hrun,ledger_eq_await [.harvestMetrics c all] rfl] at h
    refine h.leave fun T hcell hT => mem_pending.mpr ?_
    simp only [ledger,List.getElem?_map,Option.map_eq_some_iff] at hcell
    obtain ⟨harvest,hharvest,rfl⟩ := hcell
    by_contra hnone
    exact hskip ⟨c,all,ah,harvest,hrun,hah,hlocked,hharvest,hT,
      fun t' ht' htakes => hnone ⟨t',ht',htakes⟩⟩
  | @lock c all hrun =>
    rw [updateAppHarvest_ledger,ledger_eq_await [.metricsLocked c all] rfl]
    rw [hrun,ledger_eq_await [.harvestMetrics c all] rfl] at h
    exact h
  | metricsOTLP hrun hharvest => exact hhandOver hrun hharvest rfl
  | metrics hrun hharvest =>
    refine hhandOver hrun hharvest ?_
    rw [List.filterMap_append,considerHarvestPayload_takes]
    rfl
  | unlock hrun =>
    rw [updateAppHarvest_ledger]
    exact hkeep rfl (by rw [hrun]; rfl)
  | harvestPayload hrun =>
    refine hkeep ?_ (by rw [hrun]; rfl)
    cases failed
    · rfl
    · rfl
  | exported hrun =>
    refine hkeep rfl ?_
    cases ht : t.run with
    | harvestProfiles => rfl
    | harvestTraces => rfl
    | harvestMetricsOTLP => rfl
    | _ =>
      rw [ht] at hrun
      cases hrun

/-- Taking the whole harvest off calls its table in, with a new harvest in its place. -/
theorem detachHarvest_ledger (i T : ℕ) (ts : List HarvestTask) :
    (p.detachHarvest i T).ledger ts = ((p.ledger ts).grow).call T := by
  simp only [ledger,detachHarvest,Ledger.grow,Ledger.call,List.map_append,List.map_cons,List.map_nil,
    running]

lemma Harvests.sound {type : HarvestType} {blocking : Bool} {now : Time}
    (hharvests : Harvests p i type blocking now p') (h : (p.ledger []).Sound) :
    (p'.ledger []).Sound := by
  have hawait : ∀ {c : ℕ} {harvest : Harvest}, p.harvestObjs[c]? = some harvest →
      ((p.ledger []).await c).Sound := by
    intro c harvest hharvest
    apply h.await
    rw [ledger,List.length_map]
    exact (List.getElem?_eq_some_iff.mp hharvest).1
  cases hharvests with
  | remove => exact h
  | @all ah harvest a f g args hkeep hah hharvest hall =>
    rw [spawn_ledger,detachHarvest_ledger,updateHarvest_ledger,updateApp_ledger,
      ledger_eq_await [.harvestAll ah.harvest] rfl]
    have hmem : ah.harvest ∈ ((p.ledger []).await ah.harvest).pending := Ledger.mem_await _ _
    have hlt : ah.harvest < ((p.ledger []).await ah.harvest).cells.length :=
      (hawait hharvest).pending_lt _ hmem
    refine (hawait hharvest).grow.call hmem ?_
    rw [Ledger.grow,List.getElem?_append_left hlt]
    simp [ledger,Ledger.await,hharvest]
  | @defaultData ah harvest a f g d d' args limits hah hharvest hall =>
    have hts : ((harvestDefaultData ah.harvest d args).2 ++
        (harvestEvents d' args type limits).2).filterMap HarvestTask.takes = [ah.harvest] := by
      rw [List.filterMap_append,harvestDefaultData_takes,harvestEvents_takes]
      rfl
    rw [spawn_ledger,ledger_eq_await _ hts,updateHarvest_ledger,updateApp_ledger]
    exact hawait hharvest
  | events =>
    rw [spawn_ledger,ledger_eq (harvestEvents_takes _ _ _ _),updateHarvest_ledger]
    exact h

lemma processConnectAttempt_sound {rep : ConnectAttempt} {now : Time} (h : (p.ledger []).Sound)
    (heq : p.processConnectAttempt rep now = some p') : (p'.ledger []).Sound := by
  unfold processConnectAttempt at heq
  split at heq
  · cases heq
    exact h
  split at heq
  · cases heq
    exact h
  split at heq
  · split at heq
    · cases heq
      exact h
    · cases heq
      exact h
  split at heq
  · cases heq
    exact h
  obtain ⟨reply,-,heq⟩ := Option.bind_eq_some_iff.mp heq
  obtain ⟨app,-,heq⟩ := Option.bind_eq_some_iff.mp heq
  obtain ⟨limits,-,heq⟩ := Option.bind_eq_some_iff.mp heq
  split at heq
  · cases heq
    have hgrow : ∀ (p : Processor) (a : ℕ) (id : AgentRunID),
        (p.addHarvest a id).ledger [] = (p.ledger []).grow := by
      intro p a id
      simp [ledger,addHarvest,Ledger.grow,running]
    rw [hgrow]
    exact h.grow
  · cases heq

lemma processHarvestError_ledger (id : AgentRunID) (reply : RPMResponse)
    (data : HarvestData → HarvestData) (now : Time) :
    (p.processHarvestError id reply data now).ledger [] = p.ledger [] := by
  unfold processHarvestError
  split
  · rfl
  rename_i ah app _
  dsimp only
  set p₁ := if reply.shouldSaveHarvestData = true then p.updateHarvest ah.harvest data else p
    with hp₁
  have h₁ : p₁.ledger [] = p.ledger [] := by
    rw [hp₁]
    split
    · exact updateHarvest_ledger _ _ _
    · rfl
  rw [← h₁]
  split
  · rfl
  · split
    · rw [considerConnect_ledger]
      rfl
    · rfl

lemma connected_sound {env : ConnectAnswers} {localId : AgentRunID} {body : Bytes}
    {now : Time} (h : (p.ledger []).Sound) (heq : p.connected i env localId body now = some p') :
    (p'.ledger []).Sound := by
  obtain ⟨args,-,heq⟩ := Option.bind_eq_some_iff.mp heq
  obtain ⟨exp,hexp⟩ := ensureOtlpExporterForApp_eq
    { p with connects := p.connects.eraseIdx i } args.appKey.appname
  simp only [hexp] at heq
  split at heq
  · exact processConnectAttempt_sound (by exact h) heq
  · exact processConnectAttempt_sound (by exact h) heq

/-- A goroutine that makes its move is no longer among those running. -/
theorem task_running (ht : p.tasks[i]? = some t) :
    p.running = t.run ::ₘ running { p with tasks := p.tasks.eraseIdx i } := by
  obtain ⟨hi,rfl⟩ := List.getElem?_eq_some_iff.mp ht
  have hperm : (↑(p.tasks.map Task.run) : Multiset HarvestTask) =
      p.tasks[i].run ::ₘ ↑((p.tasks.eraseIdx i).map Task.run) := by
    rw [Multiset.cons_coe,Multiset.coe_eq_coe,← List.map_cons]
    exact ((List.getElem_cons_eraseIdx_perm hi).map Task.run).symm
  simp only [running,hperm,Multiset.cons_add]

lemma inline_running {rest : List Task} (hinline : p.inline = t :: rest) :
    p.running = t.run ::ₘ running { p with inline := rest } := by
  simp only [running,hinline,List.map_cons,← Multiset.cons_coe,Multiset.add_cons]

lemma task_ledger (ht : p.tasks[i]? = some t) :
    ledger { p with tasks := p.tasks.eraseIdx i } [t.run] = p.ledger [] := by
  simp only [ledger,task_running ht,← Multiset.singleton_add,Multiset.filterMap_add]
  rfl

lemma inline_ledger {rest : List Task} (hinline : p.inline = t :: rest) :
    ledger { p with inline := rest } [t.run] = p.ledger [] := by
  simp only [ledger,inline_running hinline,← Multiset.singleton_add,Multiset.filterMap_add]
  rfl

lemma step_sound (h : (p.ledger []).Sound) (hok : Kept p e) (heq : p.step e = some p') :
    (p'.ledger []).Sound := by
  cases step_moves heq with
  | @task i _ _ t _ _ ht hperform =>
    rw [spawn_ledger]
    refine (perform_performs hperform).sound ?_ (hok t ht)
    rw [task_ledger ht]
    exact h
  | @inline _ _ t rest _ _ hinline hperform =>
    rw [spawn_ledger]
    refine (perform_performs hperform).sound ?_ (hok t rest hinline)
    rw [inline_ledger hinline]
    exact h
  | exit =>
    have hclose : p.exit.ledger [] = (p.ledger []).close := by simp [ledger,Ledger.close,exit,running]
    rw [hclose]
    refine h.close fun c hc T hcell hT => ?_
    obtain ⟨t,ht,htakes⟩ := mem_pending.mp hc
    exact hok t ht (owes_iff.mpr ⟨c,T,htakes,hcell,hT⟩)
  | exitHarvest _ _ _ hharvest => exact (doHarvest_harvests hharvest).sound h
  | util => exact h
  | appInfo =>
    rw [processAppInfo_ledger]
    exact h
  | txnData =>
    unfold processTxnData
    split
    · exact h
    · rw [updateHarvest_ledger]
      exact h
  | connected _ hconnected => exact connected_sound h hconnected
  | harvest _ hharvest => exact (doHarvest_harvests hharvest).sound h
  | @harvestError i _ _ _ t _ ht hwaits =>
    have hnone : ∀ q : Processor, q.ledger [t.run] = q.ledger [] := ledger_eq (by rw [hwaits]; rfl)
    rw [processHarvestError_ledger,← hnone,task_ledger ht]
    exact h
  | cleanExit => exact h

end Processor
end PhpAgent

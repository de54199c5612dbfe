import PhpAgent.Daemon.ProcessorTables

/-! When a processor that must not phone home never calls the collector. -/
namespace PhpAgent

/-- The task never leads to a command, given an exporter that takes traces and metrics. -/
def HarvestTask.silent : HarvestTask → Bool
  | harvestPayload _ _ => false
  | _ => true

/-- Traces and metrics go to the exporter. -/
def HarvestArgs.Diverted (args : HarvestArgs) : Prop :=
  (∃ exp, args.profileExporter = some exp) ∧ args.otlpConfig.emitTraces = true ∧
    args.otlpConfig.emitMetrics = true

def Task.Diverted (t : Task) : Prop := t.args.Diverted ∧ t.run.silent = true

/-- No events but spans are collected for the application. -/
def App.OnlySpans (app : App) : Prop :=
  ∀ reply, app.connectReply = some reply →
    reply.eventHarvestConfig.eventConfigs.customEventConfig.limit = 0 ∧
    reply.eventHarvestConfig.eventConfigs.errorEventConfig.limit = 0 ∧
    reply.eventHarvestConfig.eventConfigs.analyticEventConfig.limit = 0 ∧
    reply.eventHarvestConfig.eventConfigs.logEventConfig.limit = 0

section Tasks
variable {args : HarvestArgs}

lemma harvestAll_silent (h : args.Diverted) (i : ℕ) (d : HarvestData) :
    ∀ t ∈ harvestAll i d args, t.silent = true := by
  obtain ⟨⟨exp,hexp⟩,htraces,-⟩ := h
  simp [harvestAll,hexp,htraces,HarvestTask.silent]

lemma harvestDefaultData_silent (h : args.Diverted) (i : ℕ) (d : HarvestData) :
    ∀ t ∈ (harvestDefaultData i d args).2, t.silent = true := by
  obtain ⟨⟨exp,hexp⟩,-⟩ := h
  simp [harvestDefaultData,hexp,HarvestTask.silent]

lemma harvestEvents_silent (h : args.Diverted) (d : HarvestData) (type : HarvestType)
    {reply : ConnectReply} {app : App} (happ : app.OnlySpans) (hreply : app.connectReply = some reply) :
    ∀ t ∈ (harvestEvents d args type reply.eventHarvestConfig.eventConfigs).2,
      t.silent = true := by
  obtain ⟨⟨exp,hexp⟩,htraces,-⟩ := h
  obtain ⟨hcustom,herror,hanalytic,hlog⟩ := happ reply hreply
  intro t ht
  simp only [harvestEvents,hcustom,herror,hanalytic,hlog,ne_eq,not_true_eq_false,and_false,if_false,
    List.nil_append,List.append_nil,hexp,htraces,Option.isSome_some,and_self,if_true] at ht
  split at ht
  · simp only [List.mem_singleton] at ht
    rw [ht]
    rfl
  · cases ht

end Tasks

namespace Processor
variable {p p' : Processor} {e : ProcessorEvent} {otlp : OTLPConfig} {ah : AppHarvest}

/-- Nothing has been executed, and nothing under way will be. -/
structure Diverted (otlp : OTLPConfig) (p : Processor) : Prop where
  config : p.otlp = otlp
  exporter : ∃ exp, p.otlpExporter = some exp
  executed : p.executed = []
  apps : ∀ (a : ℕ) (app : App), p.appObjs[a]? = some app → app.OnlySpans
  tasks : ∀ t ∈ p.tasks, t.Diverted
  inline : ∀ t ∈ p.inline, t.Diverted

namespace Diverted

lemma updateApp (h : Diverted otlp p) {a : ℕ} {f : App → App}
    (hf : ∀ app, p.appObjs[a]? = some app → (f app).OnlySpans) : Diverted otlp (p.updateApp a f) where
  __ := h
  apps b app happ := by
    by_cases hb : a = b
    · subst hb
      simp only [Processor.updateApp,List.getElem?_modify_eq,Option.map_eq_map,
        Option.map_eq_some_iff] at happ
      obtain ⟨app',happ',rfl⟩ := happ
      exact hf app' happ'
    · simp only [Processor.updateApp,List.getElem?_modify_ne _ _ hb] at happ
      exact h.apps b app happ

/-- A change that keeps the reply of the collector. -/
theorem updateApp_reply (h : Diverted otlp p) {a : ℕ} {f : App → App}
    (hf : ∀ app, (f app).connectReply = app.connectReply) : Diverted otlp (p.updateApp a f) := by
  apply h.updateApp
  intro app happ reply hreply
  exact h.apps a app happ reply (hf app ▸ hreply)

lemma updateHarvest (h : Diverted otlp p) (i : ℕ) (f : HarvestData → HarvestData) :
    Diverted otlp (p.updateHarvest i f) :=
  ⟨h.config,h.exporter,h.executed,h.apps,h.tasks,h.inline⟩

lemma updateAppHarvest (h : Diverted otlp p) (i : ℕ) (f : AppHarvest → AppHarvest) :
    Diverted otlp (p.updateAppHarvest i f) :=
  ⟨h.config,h.exporter,h.executed,h.apps,h.tasks,h.inline⟩

lemma spawn (h : Diverted otlp p) (i : ℕ) {args : HarvestArgs} (hargs : args.Diverted)
    (blocking : Bool) {ts : List HarvestTask} (hts : ∀ t ∈ ts, t.silent = true) :
    Diverted otlp (p.spawn i args blocking ts) := by
  have hmap : ∀ l : List HarvestTask, l ⊆ ts →
      ∀ t ∈ l.map fun run => (⟨i,args,run⟩ : Task), t.Diverted := by
    intro l hl t ht
    obtain ⟨run,hrun,rfl⟩ := List.mem_map.mp ht
    exact ⟨hargs,hts run (hl hrun)⟩
  unfold Processor.spawn
  cases blocking with
  | false =>
    refine ⟨h.config,h.exporter,h.executed,h.apps,fun t ht => ?_,h.inline⟩
    rcases List.mem_append.mp ht with ht | ht
    · exact h.tasks t ht
    · exact hmap ts (List.Subset.refl _) t ht
  | true =>
    refine ⟨h.config,h.exporter,h.executed,h.apps,fun t ht => ?_,fun t ht => ?_⟩
    · rcases List.mem_append.mp ht with ht | ht
      · exact h.tasks t ht
      · exact hmap _ List.filter_sublist.subset t ht
    · rcases List.mem_append.mp ht with ht | ht
      · exact hmap _ List.filter_sublist.subset t ht
      · exact h.inline t ht

lemma addHarvest (h : Diverted otlp p) (a : ℕ) (id : AgentRunID) :
    Diverted otlp (p.addHarvest a id) :=
  ⟨h.config,h.exporter,h.executed,h.apps,h.tasks,h.inline⟩

lemma shutdown (h : Diverted otlp p) (id : AgentRunID) : Diverted otlp (p.shutdownAppHarvest id) :=
  ⟨h.config,h.exporter,h.executed,h.apps,h.tasks,h.inline⟩

lemma considerConnect (h : Diverted otlp p) (a : ℕ) (now : Time) :
    Diverted otlp (p.considerConnect a now) := by
  unfold Processor.considerConnect
  split
  · exact h
  · split
    · have h₁ := h.updateApp_reply (a := a) (f := fun app => { app with lastConnectAttempt := now })
        fun _ => rfl
      exact ⟨h₁.config,h₁.exporter,h₁.executed,h₁.apps,h₁.tasks,h₁.inline⟩
    · exact h

lemma processAppInfo (h : Diverted otlp p) (id : Option AgentRunID) (info : AppInfo) (now : Time) :
    Diverted otlp (p.processAppInfo id info now).1 := by
  unfold Processor.processAppInfo
  split
  · exact h
  · split
    · rename_i a _
      have h₁ := h.updateApp_reply (a := a) (f := fun app => { app with lastActivity := now })
        fun _ => rfl
      exact h₁.considerConnect a now
    · split
      · exact h
      · apply considerConnect
        refine ⟨h.config,h.exporter,h.executed,fun a app happ => ?_,h.tasks,h.inline⟩
        rw [List.getElem?_append] at happ
        split at happ
        · exact h.apps a app happ
        · rw [List.getElem?_singleton] at happ
          split at happ
          · cases happ
            intro reply hreply
            cases hreply
          · cases happ

lemma finalLogLimit_le (agentLogLimit limit : ℤ) :
    (if agentLogLimit < limit then agentLogLimit else limit) ≤ limit := by
  split
  · exact le_of_lt (by assumption)
  · exact le_refl limit

/-- The reply of a local connect has no limit but that of spans; a log limit below zero is no
limit a harvest can be made with. -/
theorem localConnect (h : Diverted otlp p) {args : ConnectArgs} {id : AgentRunID} {body : Bytes}
    {now : Time} (heq : p.processConnectAttempt (localConnect args id body) now = some p') :
    Diverted otlp p' := by
  unfold processConnectAttempt at heq
  split at heq
  · cases heq
    exact h
  rename_i a _
  have hok : (PhpAgent.localConnect args id body).rawReply.isDisconnect = false ∧
      (PhpAgent.localConnect args id body).rawReply.isRestartException = false := ⟨rfl,rfl⟩
  simp only [hok.1,hok.2,Bool.false_eq_true,if_false] at heq
  rw [if_neg (by simp [PhpAgent.localConnect])] at heq
  obtain ⟨reply,hreply,heq⟩ := Option.bind_eq_some_iff.mp heq
  obtain ⟨app,happ,heq⟩ := Option.bind_eq_some_iff.mp heq
  obtain ⟨limits,hlimits,heq⟩ := Option.bind_eq_some_iff.mp heq
  split at heq
  · rename_i hvalid
    cases heq
    cases hreply
    have h₁ := h.updateApp_reply (a := a)
      (f := fun app => { app with
        rawConnectReply := (PhpAgent.localConnect args id body).rawReply.body }) fun _ => rfl
    refine (h₁.updateApp ?_).addHarvest a id
    intro app₀ happ₀ reply' hreply'
    have happ' : app = connectApp app₀ (PhpAgent.localConnect args id body) (localReply id) now := by
      simp only [Processor.updateApp,List.getElem?_modify_eq] at happ happ₀
      rw [happ₀] at happ
      simpa using happ.symm
    rw [← happ'] at hreply'
    rw [hreply'] at hlimits
    cases hlimits
    rw [happ'] at hreply'
    cases hreply'
    refine ⟨rfl,rfl,rfl,?_⟩
    simp only [EventConfigs.valid,Bool.and_eq_true,decide_eq_true_eq] at hvalid
    exact le_antisymm (finalLogLimit_le _ _) hvalid.2
  · cases heq

lemma connected (h : Diverted otlp p) (hhome : otlp.noPhoneHome = true) {i : ℕ}
    {env : ConnectAnswers} {localId : AgentRunID} {body : Bytes} {now : Time}
    (heq : p.connected i env localId body now = some p') : Diverted otlp p' := by
  obtain ⟨args,-,heq⟩ := Option.bind_eq_some_iff.mp heq
  obtain ⟨exp,hexp⟩ := h.exporter
  have hsame : ({ p with connects := p.connects.eraseIdx i } :
      Processor).ensureOtlpExporterForApp args.appKey.appname =
      { p with connects := p.connects.eraseIdx i } := by
    simp [ensureOtlpExporterForApp,hexp]
  simp only [hsame] at heq
  rw [if_pos (by rw [h.config]; exact hhome)] at heq
  exact localConnect (p := { p with connects := p.connects.eraseIdx i })
    ⟨h.config,h.exporter,h.executed,h.apps,h.tasks,h.inline⟩ heq

lemma harvestByType (h : Diverted otlp p) {i : ℕ} {ah : AppHarvest} {args : HarvestArgs}
    (hargs : args.Diverted) {type : HarvestType} (heq : p.harvestByType i ah args type = some p') :
    Diverted otlp p' := by
  unfold Processor.harvestByType at heq
  have hfilter : ∀ {app : App}, p.appObjs[ah.app]? = some app → ∀ data,
      Diverted otlp (p.updateApp ah.app fun _ => (app.filterPhpPackages data).1) := by
    intro app happ data
    apply h.updateApp
    intro app' _ reply hreply
    have hview := filterPhpPackages_view app data
    simp only [App.tableView,Prod.mk.injEq] at hview
    exact h.apps _ app happ reply (hview.2.2 ▸ hreply)
  split at heq
  · obtain ⟨harvest,-,heq⟩ := Option.bind_eq_some_iff.mp heq
    obtain ⟨app,happ,heq⟩ := Option.bind_eq_some_iff.mp heq
    cases heq
    have h₁ := (hfilter happ harvest.data.phpPackages).updateHarvest ah.harvest fun d =>
      { d with phpPackages := (app.filterPhpPackages harvest.data.phpPackages).2 }
    refine spawn (p := detachHarvest _ _ _) ?_ i hargs _ (by simp [HarvestTask.silent])
    exact ⟨h₁.config,h₁.exporter,h₁.executed,h₁.apps,h₁.tasks,h₁.inline⟩
  · obtain ⟨harvest,-,heq⟩ := Option.bind_eq_some_iff.mp heq
    obtain ⟨app,happ,heq⟩ := Option.bind_eq_some_iff.mp heq
    obtain ⟨reply,hreply,heq⟩ := Option.bind_eq_some_iff.mp heq
    split at heq
    · cases heq
      refine ((hfilter happ _).updateHarvest _ _).spawn i hargs _ fun t ht => ?_
      rcases List.mem_append.mp ht with ht | ht
      · exact harvestDefaultData_silent hargs _ _ t ht
      · exact harvestEvents_silent hargs _ _ (h.apps _ app happ) hreply t ht
    · cases heq
      exact (h.updateHarvest _ _).spawn i hargs _
        (harvestEvents_silent hargs _ _ (h.apps _ app happ) hreply)

lemma doHarvest (h : Diverted otlp p) (htraces : otlp.emitTraces = true)
    (hmetrics : otlp.emitMetrics = true) {i : ℕ} {type : HarvestType} {blocking : Bool} {now : Time}
    (heq : p.doHarvest i type blocking now = some p') : Diverted otlp p' := by
  obtain ⟨ah,-,heq⟩ := Option.bind_eq_some_iff.mp heq
  obtain ⟨app,-,heq⟩ := Option.bind_eq_some_iff.mp heq
  split at heq
  · cases heq
    exact ⟨h.config,h.exporter,h.executed,h.apps,h.tasks,h.inline⟩
  · refine h.harvestByType ⟨h.exporter,?_,?_⟩ heq
    · rw [h.config]
      exact htraces
    · rw [h.config]
      exact hmetrics

lemma processHarvestError (h : Diverted otlp p) (id : AgentRunID) (reply : RPMResponse)
    (data : HarvestData → HarvestData) (now : Time) :
    Diverted otlp (p.processHarvestError id reply data now) := by
  unfold Processor.processHarvestError
  split
  · exact h
  rename_i ah app _
  simp only
  set p₁ := if reply.shouldSaveHarvestData = true then p.updateHarvest ah.harvest data else p
    with hp₁
  have h₁ : Diverted otlp p₁ := by
    rw [hp₁]
    split
    · exact h.updateHarvest _ _
    · exact h
  have hstop : ∀ f : App → App, (∀ app, (f app).connectReply = app.connectReply) →
      Diverted otlp ((p₁.updateApp ah.app f).shutdownAppHarvest id) :=
    fun f hf => (h₁.updateApp_reply hf).shutdown id
  split
  · exact hstop _ fun _ => rfl
  · split
    · apply considerConnect
      exact hstop _ fun _ => rfl
    · exact h₁

/-- A task given to the exporter only leads to such tasks. -/
theorem performs (h : Diverted otlp p) {t : Task} (ht : t.Diverted) {failed : Bool}
    {next : List HarvestTask} (hperform : Performs p t failed p' next) :
    Diverted otlp p' ∧ ∀ t ∈ next, t.silent = true := by
  obtain ⟨hargs,hsilent⟩ := ht
  cases hperform with
  | harvestAll => exact ⟨h.updateHarvest _ _,harvestAll_silent hargs _ _⟩
  | skip => exact ⟨h,by simp⟩
  | lock => exact ⟨h.updateAppHarvest _ _,by simp [HarvestTask.silent]⟩
  | metricsOTLP =>
    exact ⟨⟨h.config,h.exporter,h.executed,h.apps,h.tasks,h.inline⟩,by simp [HarvestTask.silent]⟩
  | metrics _ _ hexporter =>
    obtain ⟨⟨exp,hexp⟩,-,hmetrics⟩ := hargs
    exact absurd ⟨by rw [hexp]; rfl,hmetrics⟩ hexporter
  | unlock => exact ⟨h.updateAppHarvest _ _,by simp⟩
  | harvestPayload hrun =>
    rw [hrun] at hsilent
    cases hsilent
  | exported => exact ⟨h,by simp⟩

lemma step (h : Diverted otlp p) (hhome : otlp.noPhoneHome = true)
    (htraces : otlp.emitTraces = true) (hmetrics : otlp.emitMetrics = true)
    (heq : p.step e = some p') : Diverted otlp p' := by
  cases step_moves heq with
  | @task i _ _ _ _ _ ht hperform =>
    have htd := h.tasks _ (List.mem_of_getElem? ht)
    have h₁ : Diverted otlp { p with tasks := p.tasks.eraseIdx i } :=
      ⟨h.config,h.exporter,h.executed,h.apps,fun t ht => h.tasks t (List.mem_of_mem_eraseIdx ht),
        h.inline⟩
    obtain ⟨h₂,hnext⟩ := h₁.performs htd (perform_performs hperform)
    exact h₂.spawn _ htd.1 _ hnext
  | @inline _ _ _ rest _ _ hinline hperform =>
    have htd := h.inline _ (by rw [hinline]; exact List.mem_cons_self)
    have h₁ : Diverted otlp { p with inline := rest } :=
      ⟨h.config,h.exporter,h.executed,h.apps,h.tasks,
        fun t ht => h.inline t (by rw [hinline]; exact List.mem_cons_of_mem _ ht)⟩
    obtain ⟨h₂,hnext⟩ := h₁.performs htd (perform_performs hperform)
    exact h₂.spawn _ htd.1 _ hnext
  | exit =>
    exact ⟨h.config,h.exporter,h.executed,h.apps,fun t ht => (by cases ht),fun t ht => (by cases ht)⟩
  | @exitHarvest i _ left _ _ _ _ hharvest =>
    have h₁ : Diverted otlp { p with exiting := some (left.erase i) } :=
      ⟨h.config,h.exporter,h.executed,h.apps,h.tasks,h.inline⟩
    exact h₁.doHarvest htraces hmetrics hharvest
  | util => exact ⟨h.config,h.exporter,h.executed,h.apps,h.tasks,h.inline⟩
  | appInfo => exact h.processAppInfo _ _ _
  | txnData =>
    unfold processTxnData
    split
    · exact h
    · apply updateHarvest
      exact h.updateApp_reply fun _ => rfl
  | connected _ hconnected => exact h.connected hhome hconnected
  | harvest _ hharvest => exact h.doHarvest htraces hmetrics hharvest
  | @harvestError i =>
    have h₁ : Diverted otlp { p with tasks := p.tasks.eraseIdx i } :=
      ⟨h.config,h.exporter,h.executed,h.apps,fun t ht => h.tasks t (List.mem_of_mem_eraseIdx ht),
        h.inline⟩
    exact h₁.processHarvestError _ _ _ _
  | cleanExit => exact ⟨h.config,h.exporter,h.executed,h.apps,h.tasks,h.inline⟩

end Diverted

/-- With an endpoint the processor starts with its exporter. -/
theorem new_exporter (hendpoint : otlp.endpoint ≠ "") (appTimeout : Duration) :
    ∃ exp, new otlp appTimeout = { bare otlp appTimeout with otlpExporter := some exp } := by
  have hsvc : (bare otlp appTimeout).otlpServiceName ≠ "" := by
    unfold otlpServiceName
    split
    · assumption
    · decide
  refine ⟨⟨otlp.endpoint,(bare otlp appTimeout).otlpServiceName⟩,?_⟩
  have hnew : Exporter.new (bare otlp appTimeout).otlp.endpoint (bare otlp appTimeout).otlpServiceName =
      .ok ⟨otlp.endpoint,(bare otlp appTimeout).otlpServiceName⟩ := by
    have hbare : (bare otlp appTimeout).otlp.endpoint = otlp.endpoint := rfl
    unfold Exporter.new
    rw [hbare,if_neg hendpoint,if_neg hsvc]
  simp only [new,if_pos hendpoint,buildOtlpExporter,hnew]

lemma Run.diverted {ok : Processor → ProcessorEvent → Prop} {appTimeout : Duration}
    (hhome : otlp.noPhoneHome = true) (hendpoint : otlp.endpoint ≠ "")
    (htraces : otlp.emitTraces = true) (hmetrics : otlp.emitMetrics = true)
    (h : Run ok (Processor.new otlp appTimeout) p) : Diverted otlp p := by
  induction h with
  | init =>
    obtain ⟨exp,heq⟩ := new_exporter hendpoint appTimeout
    rw [heq]
    exact ⟨rfl,⟨exp,rfl⟩,rfl,fun a app happ => (by cases happ),fun t ht => (by cases ht),
      fun t ht => (by cases ht)⟩
  | step e _ _ heq ih => exact ih.step hhome htraces hmetrics heq

/-- An application that was active right now is harvested. -/
theorem doHarvest_active {i : ℕ} {app : App} (hah : p.appHarvests[i]? = some ah)
    (happ : p.appObjs[ah.app]? = some app) (type : HarvestType) (blocking : Bool) :
    p.doHarvest i type blocking app.lastActivity = p.harvestByType i ah
      ⟨ah.id,app.collector,p.otlpExporter,p.otlp,app.info.distributedTracingEnabled,blocking⟩
      type := by
  have hsub : Time.sub app.lastActivity app.lastActivity = 0 := by simp [Time.sub]
  have hactive : ¬ (0 < p.appTimeout ∧ app.inactive p.appTimeout app.lastActivity = true) := by
    rintro ⟨hpos,hinactive⟩
    simp only [App.inactive,hsub,decide_eq_true_eq] at hinactive
    exact lt_asymm hpos hinactive
  simp only [doHarvest,hah,happ,Option.bind_eq_bind,Option.bind_some,if_neg hactive]

/-- The messages up to the first local connect. -/
def localOpening : List ProcessorEvent :=
  [.util,.appInfo none exampleInfo 0,
    .connected 0 (.ending ⟨200,[],none,false⟩ (localReply "")) "run" [] 0]

/-- A run of messages, and a harvest of an application that was active right now. -/
theorem Run.of_harvest {p₀ : Processor} {es : List ProcessorEvent} (hes : exec es p₀ = some p)
    (type : HarvestType) {app : App} (hrunning : p.exiting = none)
    (hah : p.appHarvests[0]? = some ah) (happ : p.appObjs[ah.app]? = some app)
    (hharvest : p.harvestByType 0 ah
      ⟨ah.id,app.collector,p.otlpExporter,p.otlp,app.info.distributedTracingEnabled,false⟩ type =
        some p') : Run (fun _ _ => True) p₀ p' := by
  have hrun : Run (fun _ _ => True) p₀ p := Run.init.of_exec hes
  refine hrun.step (.harvest 0 type false app.lastActivity) trivial ?_
  simp only [Processor.step,receive,hrunning,if_true]
  rw [doHarvest_active hah happ,hharvest]

/-- The metrics of the only task left go to the collector if the exporter does not take them. -/
theorem Run.metrics_executed {p₀ : Processor} {h : ℕ} {all : Bool}
    {args : HarvestArgs} {harvest : Harvest} (hrun : Run (fun _ _ => True) p₀ p)
    (htasks : p.tasks = [⟨0,args,.harvestMetrics h all⟩]) (hinline : p.inline = [])
    (hah : p.appHarvests = [ah])
    (hlocked : ah.locked = false) (hh : p.harvestObjs[h]? = some harvest)
    (hmetrics : harvest.data.metrics ≠ [])
    (hargs : ¬ (args.profileExporter.isSome ∧ args.otlpConfig.emitMetrics)) :
    ∃ p', Run (fun _ _ => True) p₀ p' ∧ p'.executed ≠ [] := by
  have hpayload : considerHarvestPayload .metrics harvest.data.metrics =
      [.harvestPayload .metrics harvest.data.metrics] := by
    simp [considerHarvestPayload,hmetrics]
  have hexec : ∃ p', exec [.task 0 [] false,.task 0 [] false,.task 0 [] false] p = some p' ∧
      p'.executed = p.executed ++ [⟨.metrics,args.collector,args.id⟩] := by
    simp only [exec,Processor.step,htasks,hinline,perform,hah]
    simp [hlocked,updateAppHarvest,handOver,spawn,waiting,HarvestTask.waited,HarvestTask.otlp,hh,
      hargs,hpayload]
  obtain ⟨p',hexec,hexecuted⟩ := hexec
  refine ⟨p',hrun.of_exec hexec,?_⟩
  rw [hexecuted]
  simp

/-- Without an exporter the metrics go to the collector. -/
theorem no_endpoint_executed (svc : String) (traces metrics : Bool) (appTimeout : Duration) :
    ∃ p, Run (fun _ _ => True) (bare ⟨"",svc,true,traces,metrics⟩ appTimeout) p ∧
      p.executed ≠ [] := by
  have hrun := Run.of_harvest
    (rfl : exec localOpening (bare ⟨"",svc,true,traces,metrics⟩ appTimeout) = some _)
    .defaultData rfl rfl rfl rfl
  exact hrun.metrics_executed rfl rfl rfl rfl rfl (List.cons_ne_nil _ _)
    fun h => Bool.false_ne_true h.1

/-- The metrics that the exporter is not to have go to the collector. -/
theorem no_metrics_executed (endpoint svc : String) (traces : Bool) (exp : Exporter)
    (appTimeout : Duration) :
    ∃ p, Run (fun _ _ => True)
        { bare ⟨endpoint,svc,true,traces,false⟩ appTimeout with otlpExporter := some exp } p ∧
      p.executed ≠ [] := by
  have hrun := Run.of_harvest
    (rfl : exec localOpening
      { bare ⟨endpoint,svc,true,traces,false⟩ appTimeout with otlpExporter := some exp } = some _)
    .defaultData rfl rfl rfl rfl
  -- the first task exports the profiles
  have hrun := hrun.step (.task 0 [] false) trivial rfl
  exact hrun.metrics_executed rfl rfl rfl rfl rfl (List.cons_ne_nil _ _)
    fun h => Bool.false_ne_true h.2

/-- The spans that the exporter is not to have go to the collector, in a harvest of spans alone. -/
theorem no_traces_executed (endpoint svc : String) (metrics : Bool) (exp : Exporter)
    (appTimeout : Duration) :
    ∃ p, Run (fun _ _ => True)
        { bare ⟨endpoint,svc,true,false,metrics⟩ appTimeout with otlpExporter := some exp } p ∧
      p.executed ≠ [] := by
  have hrun := Run.of_harvest
    (rfl : exec (localOpening ++ [.txnData "run" (fun d => { d with spanEvents := [[0x31]] }) 0])
      { bare ⟨endpoint,svc,true,false,metrics⟩ appTimeout with otlpExporter := some exp } = some _)
    .spanEvents rfl rfl rfl rfl
  exact ⟨_,hrun.step (.task 0 [] false) trivial rfl,List.cons_ne_nil _ _⟩

/-- No run of a processor that must not phone home executes a command, if and only if there is an
exporter and it takes both the metrics and the traces. -/
theorem never_executes_iff (otlp : OTLPConfig) (appTimeout : Duration)
    (hhome : otlp.noPhoneHome = true) :
    (∀ p, Run (fun _ _ => True) (Processor.new otlp appTimeout) p → p.executed = []) ↔
      otlp.endpoint ≠ "" ∧ otlp.emitMetrics = true ∧ otlp.emitTraces = true := by
  constructor
  · intro hall
    have hfail : ∀ p₀, p₀ = Processor.new otlp appTimeout →
        ¬ ∃ p, Run (fun _ _ => True) p₀ p ∧ p.executed ≠ [] := by
      rintro p₀ rfl ⟨p,hrun,hne⟩
      exact hne (hall p hrun)
    have hendpoint : otlp.endpoint ≠ "" := by
      intro hempty
      refine hfail (bare otlp appTimeout) (by simp [Processor.new,hempty]) ?_
      obtain ⟨endpoint,svc,home,traces,metrics⟩ := otlp
      cases hempty
      cases hhome
      exact no_endpoint_executed svc traces metrics appTimeout
    obtain ⟨exp,hnew⟩ := new_exporter hendpoint appTimeout
    have hexp := hfail _ hnew.symm
    obtain ⟨endpoint,svc,home,traces,metrics⟩ := otlp
    cases hhome
    refine ⟨hendpoint,?_,?_⟩
    · cases metrics with
      | true => rfl
      | false => exact absurd (no_metrics_executed endpoint svc traces exp appTimeout) hexp
    · cases traces with
      | true => rfl
      | false => exact absurd (no_traces_executed endpoint svc metrics exp appTimeout) hexp
  · rintro ⟨hendpoint,hmetrics,htraces⟩ p hrun
    exact (hrun.diverted hhome hendpoint htraces hmetrics).executed

theorem never_executes_iff_exporter :
    (OTLPConfig.mk "http://localhost:4318" "" true true true).noPhoneHome = true ∧
    ∀ p, Run (fun _ _ => True) (Processor.new ⟨"http://localhost:4318","",true,true,true⟩ 0) p →
      p.executed = [] :=
  ⟨rfl,(never_executes_iff ⟨"http://localhost:4318","",true,true,true⟩ 0 rfl).mpr
    ⟨by decide,rfl,rfl⟩⟩

/-- A harvest of all data, with the metrics kept from the exporter. -/
theorem disabled_metrics_phone_home : ¬ ∀ otlp appTimeout, otlp.noPhoneHome = true →
    ∀ p, Run (fun _ _ => True) (Processor.new otlp appTimeout) p → p.executed = [] := by
  intro h
  have hrun : ∃ p, exec (localOpening ++ [.harvest 0 .all false 0,.task 0 [] false,.task 0 [] false,
      .task 0 [] false,.task 0 [] false,.task 0 [] false,.task 0 [] false])
        (Processor.new ⟨"http://localhost:4318","",true,true,false⟩ 0) = some p ∧
      p.executed = [⟨.metrics,"local","run"⟩] := ⟨_,rfl,rfl⟩
  obtain ⟨p,hexec,hexecuted⟩ := hrun
  have hnone := h ⟨"http://localhost:4318","",true,true,false⟩ 0 rfl p (Run.init.of_exec hexec)
  rw [hexecuted] at hnone
  cases hnone

end Processor
end PhpAgent

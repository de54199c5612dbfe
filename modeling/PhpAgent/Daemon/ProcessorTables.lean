import PhpAgent.Daemon.Processor

/-! The tables of the processor: every live run belongs to a connected application that is in the
table of applications, as long as no connect result arrives for an application with a live run and
no inactive application is removed beside another run of it. -/
namespace PhpAgent

/-- What the tables say of an application. -/
def App.tableView (app : App) : AppInfo × AppState × Option ConnectReply :=
  (app.info,app.state,app.connectReply)

def AppHarvest.tableView (ah : AppHarvest) : ℕ × AgentRunID := (ah.app,ah.id)

namespace Processor
variable {p p' p'' : Processor} {e : ProcessorEvent} {a : ℕ} {i : ℕ} {f : App → App} {id : AgentRunID}

/-- The same applications and runs, in the same states. -/
structure SameTables (p p' : Processor) : Prop where
  apps : p'.apps = p.apps
  harvests : p'.harvests = p.harvests
  appObjs : ∀ a : ℕ, p'.appObjs[a]?.map App.tableView = p.appObjs[a]?.map App.tableView
  appHarvests : ∀ i : ℕ,
    p'.appHarvests[i]?.map AppHarvest.tableView = p.appHarvests[i]?.map AppHarvest.tableView

lemma SameTables.refl (p : Processor) : SameTables p p := ⟨rfl,rfl,fun _ => rfl,fun _ => rfl⟩

lemma SameTables.trans (h : SameTables p p') (h' : SameTables p' p'') : SameTables p p'' :=
  ⟨h'.apps.trans h.apps,h'.harvests.trans h.harvests,fun a => (h'.appObjs a).trans (h.appObjs a),
    fun i => (h'.appHarvests i).trans (h.appHarvests i)⟩

lemma SameTables.app (h : SameTables p p') {app : App} (ha : p.appObjs[a]? = some app) :
    ∃ app', p'.appObjs[a]? = some app' ∧ app'.tableView = app.tableView := by
  have := h.appObjs a
  rw [ha,Option.map_some,Option.map_eq_some_iff] at this
  exact this

lemma SameTables.appHarvest (h : SameTables p p') {ah : AppHarvest} (hi : p.appHarvests[i]? = some ah) :
    ∃ ah', p'.appHarvests[i]? = some ah' ∧ ah'.tableView = ah.tableView := by
  have := h.appHarvests i
  rw [hi,Option.map_some,Option.map_eq_some_iff] at this
  exact this

lemma updateApp_same (hf : ∀ app, p.appObjs[a]? = some app → (f app).tableView = app.tableView) :
    SameTables p (p.updateApp a f) := by
  refine ⟨rfl,rfl,fun b => ?_,fun _ => rfl⟩
  by_cases hb : a = b
  · subst hb
    cases happ : p.appObjs[a]? with
    | none => simp [updateApp,happ]
    | some app => simp [updateApp,happ,hf app happ]
  · simp [updateApp,List.getElem?_modify_ne,hb]

lemma updateAppHarvest_same {f : AppHarvest → AppHarvest}
    (hf : ∀ ah, (f ah).tableView = ah.tableView) : SameTables p (p.updateAppHarvest i f) := by
  refine ⟨rfl,rfl,fun _ => rfl,fun j => ?_⟩
  by_cases hj : i = j
  · subst hj
    cases hi : p.appHarvests[i]? with
    | none => simp [updateAppHarvest,hi]
    | some ah => simp [updateAppHarvest,hi,hf]
  · simp [updateAppHarvest,List.getElem?_modify_ne,hj]

lemma updateHarvest_same (p : Processor) (h : ℕ) (f : HarvestData → HarvestData) :
    SameTables p (p.updateHarvest h f) := ⟨rfl,rfl,fun _ => rfl,fun _ => rfl⟩

lemma spawn_same (p : Processor) (i : ℕ) (args : HarvestArgs) (blocking : Bool)
    (ts : List HarvestTask) : SameTables p (p.spawn i args blocking ts) := by
  unfold spawn
  cases blocking <;> exact ⟨rfl,rfl,fun _ => rfl,fun _ => rfl⟩

lemma considerConnect_same (p : Processor) (a : ℕ) (now : Time) :
    SameTables p (p.considerConnect a now) := by
  unfold considerConnect
  split
  · exact .refl p
  · split
    · have h := updateApp_same (p := p) (a := a)
        (f := fun app => { app with lastConnectAttempt := now }) fun _ _ => rfl
      exact ⟨h.apps,h.harvests,h.appObjs,h.appHarvests⟩
    · exact .refl p

lemma filterPhpPackages_view (app : App) (data : Option (List PhpPackagesKey)) :
    (app.filterPhpPackages data).1.tableView = app.tableView := by
  cases data <;> rfl

lemma Performs.same {t : Task} {failed : Bool} {next : List HarvestTask}
    (h : Performs p t failed p' next) : SameTables p p' := by
  cases h with
  | harvestAll => exact updateHarvest_same p _ _
  | skip => exact .refl p
  | lock => exact updateAppHarvest_same fun _ => rfl
  | metricsOTLP => exact ⟨rfl,rfl,fun _ => rfl,fun _ => rfl⟩
  | metrics => exact ⟨rfl,rfl,fun _ => rfl,fun _ => rfl⟩
  | unlock => exact updateAppHarvest_same fun _ => rfl
  | harvestPayload => exact ⟨rfl,rfl,fun _ => rfl,fun _ => rfl⟩
  | exported => exact .refl p

lemma filterApp_same {app : App} (happ : p.appObjs[a]? = some app) (data : Option (List PhpPackagesKey)) :
    SameTables p (p.updateApp a fun _ => (app.filterPhpPackages data).1) := by
  apply updateApp_same
  intro app' happ'
  rw [happ,Option.some_inj] at happ'
  subst happ'
  exact filterPhpPackages_view _ _

lemma detachHarvest_same (p : Processor) (i table : ℕ) : SameTables p (p.detachHarvest i table) := by
  have h := updateAppHarvest_same (p := p) (i := i)
    (f := fun ah => { ah with harvest := p.harvestObjs.length }) fun _ => rfl
  exact ⟨h.apps,h.harvests,h.appObjs,h.appHarvests⟩

lemma harvestByType_same {ah : AppHarvest} {args : HarvestArgs} {type : HarvestType}
    (h : p.harvestByType i ah args type = some p') : SameTables p p' := by
  unfold harvestByType at h
  split at h
  · obtain ⟨harvest,-,h⟩ := Option.bind_eq_some_iff.mp h
    obtain ⟨app,happ,h⟩ := Option.bind_eq_some_iff.mp h
    cases h
    exact (((filterApp_same happ _).trans (updateHarvest_same _ _ _)).trans
      (detachHarvest_same _ _ _)).trans (spawn_same _ _ _ _ _)
  · obtain ⟨harvest,-,h⟩ := Option.bind_eq_some_iff.mp h
    obtain ⟨app,happ,h⟩ := Option.bind_eq_some_iff.mp h
    obtain ⟨reply,-,h⟩ := Option.bind_eq_some_iff.mp h
    split at h
    · cases h
      exact ((filterApp_same happ _).trans (updateHarvest_same _ _ _)).trans (spawn_same _ _ _ _ _)
    · cases h
      exact (updateHarvest_same _ _ _).trans (spawn_same _ _ _ _ _)

/-! ### Consistency -/

/-- The run `id` is that of the application `a`, which is connected with it and in the table. -/
def LiveRun (p : Processor) (id : AgentRunID) (ah : AppHarvest) : Prop :=
  ∃ app reply, p.appObjs[ah.app]? = some app ∧ p.apps.lookup app.key = some ah.app ∧
    app.state = .connected ∧ app.connectReply = some reply ∧ reply.id = id

/-- The tables agree: the applications are under their keys, and every live run is the run of its
application. -/
structure Consistent (p : Processor) : Prop where
  keyed : ∀ k a, p.apps.lookup k = some a → ∃ app, p.appObjs[a]? = some app ∧ app.key = k
  live : ∀ id i, p.harvests.lookup id = some i → ∃ ah, p.appHarvests[i]? = some ah ∧
    LiveRun p id ah

/-- A run of the application `a` is live. -/
def HasRun (p : Processor) (a : ℕ) (id : AgentRunID) : Prop :=
  ∃ i ah, p.harvests.lookup id = some i ∧ p.appHarvests[i]? = some ah ∧ ah.app = a

lemma consistent_new (otlp : OTLPConfig) (appTimeout : Duration) :
    Consistent (new otlp appTimeout) := by
  obtain ⟨exp,heq⟩ := new_eq otlp appTimeout
  rw [heq]
  constructor
  · intro k a h
    cases h
  · intro id i h
    cases h

/-- Two live runs of one application are the same run. -/
theorem Consistent.run_unique (h : Consistent p) {id id' : AgentRunID}
    (hid : HasRun p a id) (hid' : HasRun p a id') : id = id' := by
  obtain ⟨i,ah,hi,hah,rfl⟩ := hid
  obtain ⟨i',ah',hi',hah',heq⟩ := hid'
  obtain ⟨_,hah₁,⟨app,reply,happ,-,-,hreply,rfl⟩⟩ := h.live id i hi
  obtain ⟨_,hah₂,⟨app',reply',happ',-,-,hreply',rfl⟩⟩ := h.live id' i' hi'
  rw [hah,Option.some_inj] at hah₁
  rw [hah',Option.some_inj] at hah₂
  subst hah₁ hah₂
  rw [heq,happ,Option.some_inj] at happ'
  subst happ'
  rw [hreply,Option.some_inj] at hreply'
  rw [hreply']

lemma Consistent.congr (h : Consistent p) (hs : SameTables p p') : Consistent p' := by
  have hkey : ∀ (a : ℕ) (app : App), p.appObjs[a]? = some app → ∃ app', p'.appObjs[a]? = some app' ∧
      app'.key = app.key ∧ app'.state = app.state ∧ app'.connectReply = app.connectReply := by
    intro a app happ
    obtain ⟨app',happ',hview⟩ := hs.app happ
    simp only [App.tableView,Prod.mk.injEq] at hview
    exact ⟨app',happ',congrArg AppInfo.key hview.1,hview.2⟩
  constructor
  · intro k a hk
    rw [hs.apps] at hk
    obtain ⟨app,happ,rfl⟩ := h.keyed k a hk
    obtain ⟨app',happ',hk',-⟩ := hkey a app happ
    exact ⟨app',happ',hk'⟩
  · intro id i hi
    rw [hs.harvests] at hi
    obtain ⟨ah,hah,⟨app,reply,happ,hlook,hstate,hreply,hid⟩⟩ := h.live id i hi
    obtain ⟨ah',hah',hview⟩ := hs.appHarvest hah
    simp only [AppHarvest.tableView,Prod.mk.injEq] at hview
    obtain ⟨app',happ',hk',hstate',hreply'⟩ := hkey _ app happ
    refine ⟨ah',hah',⟨app',reply,?_,?_,hstate'.trans hstate,hreply'.trans hreply,hid⟩⟩
    · rw [hview.1]
      exact happ'
    · rw [hs.apps,hk',hview.1]
      exact hlook

/-- Whatever happens to an application without live run, the runs of the others stay. -/
theorem Consistent.updateApp (h : Consistent p)
    (hkey : ∀ app, (f app).key = app.key) (hrun : ∀ id, ¬ HasRun p a id) :
    Consistent (p.updateApp a f) := by
  constructor
  · intro k b hk
    obtain ⟨app,happ,rfl⟩ := h.keyed k b hk
    by_cases hab : a = b
    · subst hab
      exact ⟨f app,by simp [Processor.updateApp,happ],hkey app⟩
    · exact ⟨app,by simpa [Processor.updateApp,List.getElem?_modify_ne,hab] using happ,rfl⟩
  · intro id i hi
    obtain ⟨ah,hah,⟨app,reply,happ,hlook,hstate,hreply,hid⟩⟩ := h.live id i hi
    have hne : a ≠ ah.app := fun heq => hrun id ⟨i,ah,hi,hah,heq.symm⟩
    refine ⟨ah,hah,⟨app,reply,?_,hlook,hstate,hreply,hid⟩⟩
    simpa [Processor.updateApp,List.getElem?_modify_ne,hne] using happ

/-- Ending runs keeps the tables consistent. -/
theorem Consistent.shutdown (h : Consistent p) (id : AgentRunID) :
    Consistent (p.shutdownAppHarvest id) := by
  refine ⟨h.keyed,fun id' i hi => ?_⟩
  by_cases heq : id' = id
  · subst heq
    rw [shutdownAppHarvest,AList.lookup_erase] at hi
    cases hi
  · rw [shutdownAppHarvest,AList.lookup_erase_ne heq] at hi
    exact h.live id' i hi

/-- After its only run has ended the application may change as it likes. -/
theorem Consistent.shutdown_update (h : Consistent p)
    (hid : HasRun p a id) (hkey : ∀ app, (f app).key = app.key) :
    Consistent ((p.updateApp a f).shutdownAppHarvest id) := by
  have h₁ := h.shutdown id
  have hnone : ∀ id', ¬ HasRun (p.shutdownAppHarvest id) a id' := by
    rintro id' ⟨i,ah,hi,hah,ha⟩
    by_cases heq : id' = id
    · subst heq
      rw [shutdownAppHarvest,AList.lookup_erase] at hi
      cases hi
    · rw [shutdownAppHarvest,AList.lookup_erase_ne heq] at hi
      exact heq (h.run_unique ⟨i,ah,hi,hah,ha⟩ hid)
  exact h₁.updateApp hkey hnone

/-! ### The messages -/

/-- The two conditions under which the tables stay consistent. A connect result is taken only for
an application without live run; an inactive application is removed only with its last run. -/
def Calm (p : Processor) (e : ProcessorEvent) : Prop :=
  match e with
  | .connected i _ _ _ _ => ∀ args a, p.connects[i]? = some args →
      p.apps.lookup args.appKey = some a → ∀ id, ¬ HasRun p a id
  | .harvest i _ _ now => ∀ ah app, p.appHarvests[i]? = some ah → p.appObjs[ah.app]? = some app →
      0 < p.appTimeout → app.inactive p.appTimeout now = true →
      ∀ id a app', HasRun p a id → p.appObjs[a]? = some app' → app'.key = app.key → id = ah.id
  | _ => True

lemma Consistent.processAppInfo (h : Consistent p) (id : Option AgentRunID) (info : AppInfo)
    (now : Time) : Consistent (p.processAppInfo id info now).1 := by
  unfold Processor.processAppInfo
  split
  · exact h
  · split
    · rename_i a _
      have h₁ : SameTables p (p.updateApp a fun app => { app with lastActivity := now }) :=
        updateApp_same fun _ _ => rfl
      exact h.congr (h₁.trans (considerConnect_same _ _ _))
    · rename_i hnone
      split
      · exact h
      · refine Consistent.congr ?_ (considerConnect_same _ _ _)
        constructor
        · intro k a hk
          by_cases hkey : k = info.key
          · subst hkey
            rw [AList.lookup_insert,Option.some_inj] at hk
            subst hk
            exact ⟨App.new info now,by simp,rfl⟩
          · rw [AList.lookup_insert_ne hkey] at hk
            obtain ⟨app,happ,rfl⟩ := h.keyed k a hk
            exact ⟨app,List.getElem?_append_left (List.getElem?_eq_some_iff.mp happ).1 ▸ happ,rfl⟩
        · intro id' i hi
          obtain ⟨ah,hah,⟨app,reply,happ,hlook,hrest⟩⟩ := h.live id' i hi
          refine ⟨ah,hah,⟨app,reply,?_,?_,hrest⟩⟩
          · exact List.getElem?_append_left (List.getElem?_eq_some_iff.mp happ).1 ▸ happ
          · have hne : app.key ≠ info.key := by
              intro heq
              rw [heq,hnone] at hlook
              cases hlook
            rw [AList.lookup_insert_ne hne]
            exact hlook

lemma connectApp_key (app : App) (rep : ConnectAttempt) (reply : ConnectReply) (now : Time) :
    (connectApp app rep reply now).key = app.key ∧
    (connectApp app rep reply now).state = .connected ∧
    ∃ reply', (connectApp app rep reply now).connectReply = some reply' ∧ reply'.id = reply.id := by
  exact ⟨rfl,rfl,_,rfl,rfl⟩

lemma Consistent.addHarvest (h : Consistent p) {app : App}
    {reply : ConnectReply} (happ : p.appObjs[a]? = some app) (hlook : p.apps.lookup app.key = some a)
    (hstate : app.state = .connected) (hreply : app.connectReply = some reply) (hid : reply.id = id) :
    Consistent (p.addHarvest a id) := by
  refine ⟨h.keyed,fun id' i hi => ?_⟩
  by_cases heq : id' = id
  · subst heq
    rw [Processor.addHarvest,AList.lookup_insert,Option.some_inj] at hi
    subst hi
    refine ⟨⟨a,id',p.harvestObjs.length,false⟩,?_,app,reply,happ,hlook,hstate,hreply,hid⟩
    simp [Processor.addHarvest]
  · rw [Processor.addHarvest,AList.lookup_insert_ne heq] at hi
    obtain ⟨ah,hah,hlive⟩ := h.live id' i hi
    refine ⟨ah,?_,hlive⟩
    exact List.getElem?_append_left (List.getElem?_eq_some_iff.mp hah).1 ▸ hah

lemma Consistent.processConnectAttempt (h : Consistent p) {rep : ConnectAttempt} {now : Time}
    (hrun : ∀ a, p.apps.lookup rep.key = some a → ∀ id, ¬ HasRun p a id)
    (heq : p.processConnectAttempt rep now = some p') : Consistent p' := by
  unfold Processor.processConnectAttempt at heq
  split at heq
  · cases heq
    exact h
  rename_i a hlook
  have hnone := hrun a hlook
  -- the application has no live run, before and after its fields change
  set p₁ := p.updateApp a fun app => { app with rawConnectReply := rep.rawReply.body } with hp₁
  have h₁ : Consistent p₁ := h.updateApp (fun _ => rfl) hnone
  have hnone₁ : ∀ id, ¬ HasRun p₁ a id := hnone
  have hfail : ∀ state, Consistent (p₁.updateApp a fun app => { app with state := state }) :=
    fun _ => h₁.updateApp (fun _ => rfl) hnone₁
  split at heq
  · cases heq
    exact hfail _
  split at heq
  · split at heq
    · cases heq
      exact hfail _
    · cases heq
      exact hfail _
  split at heq
  · cases heq
    exact hfail _
  obtain ⟨reply,-,heq⟩ := Option.bind_eq_some_iff.mp heq
  obtain ⟨app,happ,heq⟩ := Option.bind_eq_some_iff.mp heq
  obtain ⟨limits,-,heq⟩ := Option.bind_eq_some_iff.mp heq
  split at heq
  · cases heq
    have h₂ := h₁.updateApp (f := fun app => connectApp app rep reply now)
      (fun app => (connectApp_key app rep reply now).1) hnone₁
    obtain ⟨app₁,happ₁,hkey₁⟩ := h₁.keyed rep.key a hlook
    have happ' : app = connectApp app₁ rep reply now := by
      simp only [Processor.updateApp,List.getElem?_modify_eq] at happ happ₁
      rw [happ₁] at happ
      simpa using happ.symm
    obtain ⟨hkey,hstate,reply',hreply',hid⟩ := connectApp_key app₁ rep reply now
    rw [← happ'] at hkey hstate hreply'
    refine h₂.addHarvest happ ?_ hstate hreply' hid
    rw [hkey,hkey₁]
    exact hlook
  · cases heq

lemma ensureOtlpExporterForApp_same (p : Processor) (appname : String) :
    SameTables p (p.ensureOtlpExporterForApp appname) := by
  obtain ⟨exp,heq⟩ := p.ensureOtlpExporterForApp_eq appname
  rw [heq]
  exact ⟨rfl,rfl,fun _ => rfl,fun _ => rfl⟩

/-- What a connect goroutine reports is about the application it was started for. -/
theorem connectApplication_key (args : ConnectArgs) (env : ConnectAnswers) :
    (connectApplication args env).1.key = args.appKey := by
  unfold connectApplication
  repeat' split
  all_goals rfl

lemma HasRun.congr (hs : SameTables p p') (h : HasRun p' a id) : HasRun p a id := by
  obtain ⟨i,ah,hi,hah,rfl⟩ := h
  have hmap := hs.appHarvests i
  rw [hah,Option.map_some] at hmap
  obtain ⟨ah',hah',hview⟩ := Option.map_eq_some_iff.mp hmap.symm
  simp only [AppHarvest.tableView,Prod.mk.injEq] at hview
  exact ⟨i,ah',hs.harvests ▸ hi,hah',hview.1⟩

lemma Consistent.connected (h : Consistent p) {env : ConnectAnswers}
    {localId : AgentRunID} {body : Bytes} {now : Time}
    (hok : Calm p (.connected i env localId body now))
    (heq : p.connected i env localId body now = some p') : Consistent p' := by
  obtain ⟨args,hargs,heq⟩ := Option.bind_eq_some_iff.mp heq
  set p₁ : Processor := { p with connects := p.connects.eraseIdx i }
  have hs₁ : SameTables p p₁ := ⟨rfl,rfl,fun _ => rfl,fun _ => rfl⟩
  have hs := hs₁.trans (ensureOtlpExporterForApp_same p₁ args.appKey.appname)
  have h₁ := h.congr hs
  have hrun : ∀ a, (p₁.ensureOtlpExporterForApp args.appKey.appname).apps.lookup args.appKey =
      some a → ∀ id, ¬ HasRun (p₁.ensureOtlpExporterForApp args.appKey.appname) a id := by
    intro a ha id hid
    exact hok args a hargs (hs.apps ▸ ha) id (hid.congr hs)
  simp only at heq
  split at heq
  · exact h₁.processConnectAttempt hrun heq
  · refine Consistent.processConnectAttempt ?_ ?_ heq
    · exact h₁.congr ⟨rfl,rfl,fun _ => rfl,fun _ => rfl⟩
    · rw [connectApplication_key]
      exact hrun

lemma Consistent.doHarvest (h : Consistent p) {type : HarvestType} {blocking : Bool}
    {now : Time} (hok : Calm p (.harvest i type blocking now))
    (heq : p.doHarvest i type blocking now = some p') : Consistent p' := by
  obtain ⟨ah,hah,heq⟩ := Option.bind_eq_some_iff.mp heq
  obtain ⟨app,happ,heq⟩ := Option.bind_eq_some_iff.mp heq
  split at heq
  · rename_i hremove
    cases heq
    have h₁ := h.shutdown ah.id
    constructor
    · intro k a hk
      by_cases hkey : k = app.key
      · subst hkey
        simp only [shutdownAppHarvest,AList.lookup_erase] at hk
        cases hk
      · simp only [shutdownAppHarvest,AList.lookup_erase_ne hkey] at hk
        exact h.keyed k a hk
    · intro id j hj
      obtain ⟨ah',hah',⟨app',reply,happ',hlook,hrest⟩⟩ := h₁.live id j hj
      refine ⟨ah',hah',⟨app',reply,happ',?_,hrest⟩⟩
      have hne : app'.key ≠ app.key := by
        intro hkey
        have hid : id ≠ ah.id := by
          rintro rfl
          simp only [shutdownAppHarvest,AList.lookup_erase] at hj
          cases hj
        refine hid (hok ah app hah happ hremove.1 hremove.2 id ah'.app app' ?_ happ' hkey)
        refine ⟨j,ah',?_,hah',rfl⟩
        simpa only [shutdownAppHarvest,AList.lookup_erase_ne hid] using hj
      simp only [AList.lookup_erase_ne hne]
      exact hlook
  · exact h.congr (harvestByType_same heq)

lemma Consistent.processHarvestError (h : Consistent p) (id : AgentRunID) (reply : RPMResponse)
    (data : HarvestData → HarvestData) (now : Time) :
    Consistent (p.processHarvestError id reply data now) := by
  unfold Processor.processHarvestError
  split
  · exact h
  rename_i ah app hfound
  obtain ⟨i,hi,hfound⟩ := Option.bind_eq_some_iff.mp hfound
  obtain ⟨ah,hah,hfound⟩ := Option.bind_eq_some_iff.mp hfound
  obtain ⟨app,-,hfound⟩ := Option.bind_eq_some_iff.mp hfound
  cases hfound
  simp only
  set p₁ := if reply.shouldSaveHarvestData = true then p.updateHarvest ah.harvest data else p
    with hp₁
  have hs : SameTables p p₁ := by
    rw [hp₁]
    split
    · exact updateHarvest_same _ _ _
    · exact .refl p
  have h₁ := h.congr hs
  have hid : HasRun p₁ ah.app id := by
    obtain ⟨ah',hah',hview⟩ := hs.appHarvest hah
    simp only [AppHarvest.tableView,Prod.mk.injEq] at hview
    exact ⟨i,ah',hs.harvests ▸ hi,hah',hview.1⟩
  split
  · exact h₁.shutdown_update hid fun _ => rfl
  · split
    · refine Consistent.congr ?_ (considerConnect_same _ _ _)
      exact h₁.shutdown_update hid fun _ => rfl
    · exact h₁

lemma processTxnData_same (p : Processor) (id : AgentRunID) (sample : HarvestData → HarvestData)
    (now : Time) : SameTables p (p.processTxnData id sample now) := by
  unfold processTxnData
  split
  · exact .refl p
  · rename_i ah _
    have hs : SameTables p (p.updateApp ah.app fun app => { app with lastActivity := now }) :=
      updateApp_same fun _ _ => rfl
    exact hs.trans (updateHarvest_same _ _ _)

lemma Consistent.step (h : Consistent p) (hok : Calm p e) (heq : p.step e = some p') :
    Consistent p' := by
  have hsame : ∀ {q : Processor} {t : Task} {final : Payload} {failed blocking : Bool}
      {p₁ : Processor} {next : List HarvestTask}, q.perform t final failed = some (p₁,next) →
      SameTables p q → Consistent (p₁.spawn t.ah t.args blocking next) := fun hperform hq =>
    h.congr ((hq.trans (perform_performs hperform).same).trans (spawn_same _ _ _ _ _))
  cases step_moves heq with
  | task _ hperform => exact hsame hperform ⟨rfl,rfl,fun _ => rfl,fun _ => rfl⟩
  | inline _ hperform => exact hsame hperform ⟨rfl,rfl,fun _ => rfl,fun _ => rfl⟩
  | exit => exact h.congr ⟨rfl,rfl,fun _ => rfl,fun _ => rfl⟩
  | @exitHarvest i _ left _ _ _ _ hharvest =>
    have h₁ : Consistent { p with exiting := some (left.erase i) } :=
      h.congr ⟨rfl,rfl,fun _ => rfl,fun _ => rfl⟩
    exact h₁.doHarvest hok hharvest
  | util => exact h.congr ⟨rfl,rfl,fun _ => rfl,fun _ => rfl⟩
  | appInfo => exact h.processAppInfo _ _ _
  | txnData => exact h.congr (processTxnData_same p _ _ _)
  | connected _ hconnected => exact h.connected hok hconnected
  | harvest _ hharvest => exact h.doHarvest hok hharvest
  | harvestError =>
    refine Consistent.processHarvestError ?_ _ _ _ _
    exact h.congr ⟨rfl,rfl,fun _ => rfl,fun _ => rfl⟩
  | cleanExit => exact h.congr ⟨rfl,rfl,fun _ => rfl,fun _ => rfl⟩

lemma Run.consistent {otlp : OTLPConfig} {appTimeout : Duration}
    (h : Run Calm (Processor.new otlp appTimeout) p) : Consistent p := by
  induction h with
  | init => exact consistent_new otlp appTimeout
  | step e _ hok heq ih => exact ih.step hok heq

/-- In a calm run every live run is the only one of its application, which is in the table under its
key and connected with that run id. -/
theorem calm_run_consistent (otlp : OTLPConfig) (appTimeout : Duration) {p : Processor}
    (h : Run Calm (Processor.new otlp appTimeout) p) {id : AgentRunID} {i : ℕ}
    (hid : p.harvests.lookup id = some i) :
    ∃ ah app reply, p.appHarvests[i]? = some ah ∧ p.appObjs[ah.app]? = some app ∧
      p.apps.lookup app.key = some ah.app ∧ app.state = .connected ∧
      app.connectReply = some reply ∧ reply.id = id ∧ ∀ id', HasRun p ah.app id' → id' = id := by
  have hc := h.consistent
  obtain ⟨ah,hah,app,reply,happ,hlook,hstate,hreply,hrid⟩ := hc.live id i hid
  refine ⟨ah,app,reply,hah,happ,hlook,hstate,hreply,hrid,fun id' hid' => ?_⟩
  exact hc.run_unique hid' ⟨i,ah,hid,hah,rfl⟩

/-- An application like any other. -/
def exampleInfo : AppInfo := ⟨"licence","app","",false,"php","","","host","",0,0,false⟩

/-- An application that phones home, with no exporter. -/
def exampleConfig : OTLPConfig := ⟨"","",false,false,false⟩

theorem calm_run_consistent_connected : ∃ p, Run Calm (Processor.new exampleConfig 0) p ∧
    ∃ i, p.harvests.lookup "run" = some i ∧ ∃ ah app, p.appHarvests[i]? = some ah ∧
      p.appObjs[ah.app]? = some app ∧ app.state = .connected := by
  have h₁ : ∃ p, exec [.util,.appInfo none exampleInfo 0] (Processor.new exampleConfig 0) = some p ∧
      p.harvests = ∅ ∧ ∃ p', p.step (.connected 0
        (.ending ⟨200,[],none,false⟩ (localReply "run")) "" [] 0) = some p' ∧
      p'.harvests.lookup "run" = some 0 := ⟨_,rfl,rfl,_,rfl,rfl⟩
  obtain ⟨p,hexec,hempty,p',hstep,hlook⟩ := h₁
  have hrun : Run Calm (Processor.new exampleConfig 0) p := by
    obtain ⟨p₁,hstep₁,hexec⟩ := Option.bind_eq_some_iff.mp hexec
    obtain ⟨p₂,hstep₂,hexec⟩ := Option.bind_eq_some_iff.mp hexec
    cases hexec
    exact (Run.init.step .util trivial hstep₁).step (.appInfo none exampleInfo 0) trivial hstep₂
  have hrun' : Run Calm (Processor.new exampleConfig 0) p' := by
    refine hrun.step _ ?_ hstep
    rintro args a - - id ⟨i,ah,hi,-⟩
    rw [hempty] at hi
    cases hi
  obtain ⟨ah,app,-,hah,happ,-,hstate,-⟩ := calm_run_consistent exampleConfig 0 hrun' hlook
  exact ⟨p',hrun',0,hlook,ah,app,hah,happ,hstate⟩

/-- Two connect attempts of one application are under way at once, and both succeed. -/
theorem overlapping_connects_two_runs : ¬ ∀ otlp appTimeout p,
    Run (fun _ _ => True) (Processor.new otlp appTimeout) p →
    ∀ id i, p.harvests.lookup id = some i → ∃ ah app reply, p.appHarvests[i]? = some ah ∧
      p.appObjs[ah.app]? = some app ∧ app.connectReply = some reply ∧ reply.id = id := by
  intro h
  have hrun : ∃ p, exec [.util,.appInfo none exampleInfo 0,.appInfo none exampleInfo (31*second),
      .connected 0 (.ending ⟨200,[],none,false⟩ (localReply "first")) "" [] (32*second),
      .connected 0 (.ending ⟨200,[],none,false⟩ (localReply "second")) "" [] (33*second)]
        (Processor.new exampleConfig 0) = some p ∧ p.harvests.lookup "first" = some 0 ∧
      ∃ ah app reply, p.appHarvests[0]? = some ah ∧ p.appObjs[ah.app]? = some app ∧
        app.connectReply = some reply ∧ reply.id = "second" :=
    ⟨_,rfl,rfl,_,_,_,rfl,rfl,rfl,rfl⟩
  obtain ⟨p,hexec,hfirst,ah,app,reply,hah,happ,hreply,hsecond⟩ := hrun
  obtain ⟨ah',app',reply',hah',happ',hreply',hid⟩ :=
    h exampleConfig 0 p (Run.init.of_exec hexec) "first" 0 hfirst
  rw [hah,Option.some_inj] at hah'
  subst hah'
  rw [happ,Option.some_inj] at happ'
  subst happ'
  rw [hreply,Option.some_inj] at hreply'
  subst hreply'
  rw [hsecond] at hid
  exact absurd hid (by decide)

end Processor
end PhpAgent

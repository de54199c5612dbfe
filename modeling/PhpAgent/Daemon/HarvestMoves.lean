import PhpAgent.Daemon.HarvestLedger

/-! The goroutines of a harvest come to an end, unless one waits for an error that nobody takes. -/
namespace PhpAgent

/-- How many moves the goroutine and those it starts can make. -/
def HarvestTask.weight : HarvestTask → ℕ
  | harvestAll _ => 26
  | harvestMetrics _ _ => 5
  | metricsLocked _ _ => 4
  | harvestPayload _ _ => 2
  | _ => 1

section Tasks
variable (cmd : Command) (pl : Payload) (h : ℕ) (d : HarvestData) (args : HarvestArgs)

end Tasks

namespace Processor
variable {p p' : Processor} {e : ProcessorEvent} {own : ℕ → ℕ} {t : Task}

/-! ### Whose harvest it is -/

/-- Where the harvests and the goroutines are. -/
def shape (p : Processor) : List ℕ × ℕ × List Task × List Task × Option (List ℕ) :=
  (p.appHarvests.map AppHarvest.harvest,p.harvestObjs.length,p.tasks,p.inline,p.exiting)

/-- A harvest has been that of one `AppHarvest` only, given by `own`, and whoever is to take its
metrics works for that one. Only `CleanExit` runs harvests itself, and one at a time. -/
structure Owned (own : ℕ → ℕ) (p : Processor) : Prop where
  harvest : ∀ i h, (p.appHarvests.map AppHarvest.harvest)[i]? = some h →
    h < p.harvestObjs.length ∧ own h = i
  ah_lt : ∀ t ∈ p.tasks ++ p.inline, t.ah < (p.appHarvests.map AppHarvest.harvest).length
  takes : ∀ t ∈ p.tasks ++ p.inline, ∀ h, t.run.takes = some h →
    h < p.harvestObjs.length ∧ own h = t.ah
  idle : p.exiting = none → p.inline = []
  one : ∀ s ∈ p.inline, ∀ t ∈ p.inline, s.ah = t.ah

section Shape
variable (h a : ℕ) (now : Time)

@[simp] lemma updateHarvest_shape (f : HarvestData → HarvestData) :
    (p.updateHarvest h f).shape = p.shape := by
  simp [shape,updateHarvest]

@[simp] lemma updateApp_shape (f : App → App) : (p.updateApp a f).shape = p.shape := rfl

@[simp] lemma shutdownAppHarvest_shape (id : AgentRunID) :
    (p.shutdownAppHarvest id).shape = p.shape := rfl

@[simp] lemma considerConnect_shape : (p.considerConnect a now).shape = p.shape := by
  unfold considerConnect
  split
  · rfl
  · split
    · rfl
    · rfl

lemma processAppInfo_shape (id : Option AgentRunID) (info : AppInfo) :
    (p.processAppInfo id info now).1.shape = p.shape := by
  unfold processAppInfo
  split
  · rfl
  · split
    · rw [considerConnect_shape,updateApp_shape]
    · split
      · rfl
      · rw [considerConnect_shape]
        rfl

lemma processTxnData_shape (id : AgentRunID) (sample : HarvestData → HarvestData) :
    (p.processTxnData id sample now).shape = p.shape := by
  unfold processTxnData
  split
  · rfl
  · rw [updateHarvest_shape,updateApp_shape]

lemma processHarvestError_shape (id : AgentRunID) (reply : RPMResponse)
    (data : HarvestData → HarvestData) : (p.processHarvestError id reply data now).shape = p.shape := by
  unfold processHarvestError
  split
  · rfl
  rename_i ah app _
  dsimp only
  set p₁ := if reply.shouldSaveHarvestData = true then p.updateHarvest ah.harvest data else p
    with hp₁
  have h₁ : p₁.shape = p.shape := by
    rw [hp₁]
    split
    · exact updateHarvest_shape _ _
    · rfl
  rw [← h₁]
  split
  · rw [shutdownAppHarvest_shape,updateApp_shape]
  · split
    · rw [considerConnect_shape,shutdownAppHarvest_shape,updateApp_shape]
    · rfl

/-- A goroutine that moves leaves the harvests where they are. -/
theorem Performs.shape {t : Task} {failed : Bool} {next : List HarvestTask}
    (hmove : Performs p t failed p' next) : p'.shape = p.shape := by
  have hlock : ∀ b : Bool, (p.updateAppHarvest t.ah fun ah => { ah with locked := b }).shape =
      p.shape := by
    intro b
    have hmap : (p.appHarvests.modify t.ah fun ah => { ah with locked := b }).map
        AppHarvest.harvest = p.appHarvests.map AppHarvest.harvest := by
      apply List.ext_getElem?
      intro n
      by_cases hn : t.ah = n
      · subst hn
        rw [List.getElem?_map,List.getElem?_map,List.getElem?_modify_eq,Option.map_eq_map,
          Option.map_map]
        rfl
      · rw [List.getElem?_map,List.getElem?_map,List.getElem?_modify_ne _ _ hn]
    simp only [Processor.shape,updateAppHarvest,hmap]
  have hhandOver : ∀ c T, (p.handOver c T).shape = p.shape := by
    intro c T
    simp [Processor.shape,handOver]
  cases hmove with
  | harvestAll => exact updateHarvest_shape _ _
  | skip => rfl
  | lock => exact hlock true
  | metricsOTLP => exact hhandOver _ _
  | metrics => exact hhandOver _ _
  | unlock => exact hlock false
  | harvestPayload => rfl
  | exported => rfl

/-- What follows a goroutine takes only what it was to take. -/
theorem Performs.takes {t : Task} {failed : Bool} {next : List HarvestTask}
    (hmove : Performs p t failed p' next) {c : ℕ} (hc : c ∈ next.filterMap HarvestTask.takes) : t.run.takes = some c := by
  cases hmove with
  | harvestAll hrun =>
    rw [harvestAll_takes,List.mem_singleton] at hc
    rw [hrun,hc]
    rfl
  | skip => cases hc
  | lock hrun =>
    have hc := List.mem_singleton.mp (show c ∈ [_] from hc)
    rw [hrun,hc]
    rfl
  | metricsOTLP => cases hc
  | metrics =>
    rw [List.filterMap_append,considerHarvestPayload_takes] at hc
    cases hc
  | unlock => cases hc
  | harvestPayload =>
    cases failed
    · cases hc
    · cases hc
  | exported => cases hc

end Shape

lemma mem_spawn {i : ℕ} {args : HarvestArgs} {blocking : Bool} {ts : List HarvestTask} :
    t ∈ (p.spawn i args blocking ts).tasks ++ (p.spawn i args blocking ts).inline ↔
      t ∈ p.tasks ++ p.inline ∨ ∃ run ∈ ts, ⟨i,args,run⟩ = t := by
  cases blocking with
  | false =>
    simp only [Processor.spawn,Bool.false_eq_true,if_false,List.mem_append,List.mem_map]
    exact or_right_comm
  | true =>
    have hsplit : (∃ run ∈ ts, (⟨i,args,run⟩ : Task) = t) ↔
        (∃ run ∈ ts.filter HarvestTask.otlp, (⟨i,args,run⟩ : Task) = t) ∨
          ∃ run ∈ ts.filter fun run => !run.otlp, (⟨i,args,run⟩ : Task) = t := by
      simp only [List.mem_filter,← exists_or,← or_and_right,← and_or_left]
      simp
    simp only [Processor.spawn,if_true,List.mem_append,List.mem_map,hsplit]
    grind

@[simp] lemma spawn_exiting (i : ℕ) (args : HarvestArgs) (blocking : Bool)
    (ts : List HarvestTask) : (p.spawn i args blocking ts).exiting = p.exiting := by
  obtain ⟨tasks,inline,heq⟩ := spawn_eq (p := p) i args blocking ts
  rw [heq]

namespace Owned

/-- Some of the goroutines stay. -/
theorem mono (h : Owned own p)
    (hharvest : p'.appHarvests.map AppHarvest.harvest = p.appHarvests.map AppHarvest.harvest)
    (hlen : p'.harvestObjs.length = p.harvestObjs.length) (htasks : ∀ t ∈ p'.tasks, t ∈ p.tasks)
    (hinline : ∀ t ∈ p'.inline, t ∈ p.inline) (hexit : p'.exiting = none → p.exiting = none) :
    Owned own p' := by
  have hmem : ∀ t ∈ p'.tasks ++ p'.inline, t ∈ p.tasks ++ p.inline := by
    intro t ht
    rcases List.mem_append.mp ht with ht | ht
    · exact List.mem_append_left _ (htasks t ht)
    · exact List.mem_append_right _ (hinline t ht)
  constructor
  · rw [hharvest,hlen]
    exact h.harvest
  · rw [hharvest]
    exact fun t ht => h.ah_lt t (hmem t ht)
  · rw [hlen]
    exact fun t ht => h.takes t (hmem t ht)
  · intro hnone
    refine List.eq_nil_iff_forall_not_mem.mpr fun t ht => ?_
    have hmem := hinline t ht
    rw [h.idle (hexit hnone)] at hmem
    cases hmem
  · exact fun s hs t ht => h.one s (hinline s hs) t (hinline t ht)

lemma congr (h : Owned own p) (heq : p'.shape = p.shape) : Owned own p' := by
  simp only [shape,Prod.mk.injEq] at heq
  obtain ⟨hharvest,hlen,htasks,hinline,hexit⟩ := heq
  exact h.mono hharvest hlen (by rw [htasks]; exact fun t ht => ht)
    (by rw [hinline]; exact fun t ht => ht) (by rw [hexit]; exact fun h => h)

variable {i : ℕ}

lemma spawn (h : Owned own p) (hi : i < (p.appHarvests.map AppHarvest.harvest).length)
    (args : HarvestArgs) {blocking : Bool} {ts : List HarvestTask}
    (hts : ∀ c ∈ ts.filterMap HarvestTask.takes, c < p.harvestObjs.length ∧ own c = i)
    (hblocking : blocking = true → p.exiting ≠ none ∧ ∀ t ∈ p.inline, t.ah = i) :
    Owned own (p.spawn i args blocking ts) := by
  obtain ⟨tasks,inline,heq⟩ := spawn_eq (p := p) i args blocking ts
  have hsame : (p.spawn i args blocking ts).appHarvests = p.appHarvests ∧
      (p.spawn i args blocking ts).harvestObjs = p.harvestObjs ∧
      (p.spawn i args blocking ts).exiting = p.exiting := by
    rw [heq]
    exact ⟨rfl,rfl,rfl⟩
  constructor
  · rw [hsame.1,hsame.2.1]
    exact h.harvest
  · rw [hsame.1]
    intro t ht
    rcases mem_spawn.mp ht with ht | ⟨run,-,rfl⟩
    · exact h.ah_lt t ht
    · exact hi
  · rw [hsame.2.1]
    intro t ht c hc
    rcases mem_spawn.mp ht with ht | ⟨run,hrun,rfl⟩
    · exact h.takes t ht c hc
    · exact hts c (List.mem_filterMap.mpr ⟨run,hrun,hc⟩)
  · rw [hsame.2.2]
    intro hnone
    cases blocking with
    | false => exact h.idle hnone
    | true => exact absurd hnone (hblocking rfl).1
  · cases blocking with
    | false => exact h.one
    | true =>
      have hall : ∀ t ∈ (p.spawn i args true ts).inline, t.ah = i := by
        intro t ht
        simp only [Processor.spawn,if_true,List.mem_append] at ht
        rcases ht with ht | ht
        · obtain ⟨run,-,rfl⟩ := List.mem_map.mp ht
          rfl
        · exact (hblocking rfl).2 t ht
      exact fun s hs t ht => (hall s hs).trans (hall t ht).symm

/-- A new harvest, which is that of `i` from now on. -/
theorem grow (h : Owned own p) (hharvest : ∀ j, (p'.appHarvests.map AppHarvest.harvest)[j]? =
      if j = i then some p.harvestObjs.length else (p.appHarvests.map AppHarvest.harvest)[j]?)
    (hlen : p'.harvestObjs.length = p.harvestObjs.length+1)
    (hle : p.appHarvests.length ≤ p'.appHarvests.length) (htasks : p'.tasks = p.tasks)
    (hinline : p'.inline = p.inline) (hexit : p'.exiting = p.exiting) :
    Owned (Function.update own p.harvestObjs.length i) p' := by
  have hold : ∀ c, c < p.harvestObjs.length →
      Function.update own p.harvestObjs.length i c = own c := fun c hc =>
    Function.update_of_ne (Nat.ne_of_lt hc) _ _
  constructor
  · intro j c hc
    rw [hlen]
    rw [hharvest] at hc
    split at hc
    · rename_i hj
      cases hc
      exact ⟨Nat.lt_succ_self _,(Function.update_self _ _ _).trans hj.symm⟩
    · obtain ⟨hlt,hown⟩ := h.harvest j c hc
      exact ⟨Nat.lt_succ_of_lt hlt,(hold c hlt).trans hown⟩
  · intro t ht
    rw [htasks,hinline] at ht
    have hlt := h.ah_lt t ht
    rw [List.length_map] at hlt ⊢
    exact lt_of_lt_of_le hlt hle
  · intro t ht c hc
    rw [htasks,hinline] at ht
    rw [hlen]
    obtain ⟨hlt,hown⟩ := h.takes t ht c hc
    exact ⟨Nat.lt_succ_of_lt hlt,(hold c hlt).trans hown⟩
  · rw [hexit,hinline]
    exact h.idle
  · rw [hinline]
    exact h.one

lemma addHarvest (h : Owned own p) (a : ℕ) (id : AgentRunID) :
    ∃ own', Owned own' (p.addHarvest a id) := by
  refine ⟨_,h.grow (i := p.appHarvests.length) (fun j => ?_) ?_ ?_ rfl rfl rfl⟩
  · rw [Processor.addHarvest,List.map_append]
    split
    · rename_i hj
      rw [hj,List.getElem?_append_right (by rw [List.length_map])]
      simp
    · rename_i hj
      rcases lt_or_gt_of_ne hj with hlt | hgt
      · rw [List.getElem?_append_left (by rwa [List.length_map])]
      · rw [List.getElem?_eq_none (by simpa using hgt),
          List.getElem?_eq_none (by simpa using hgt.le)]
  · simp [Processor.addHarvest]
  · simp [Processor.addHarvest]

lemma detachHarvest (h : Owned own p) {ah : AppHarvest} (hah : p.appHarvests[i]? = some ah)
    (T : ℕ) : Owned (Function.update own p.harvestObjs.length i) (p.detachHarvest i T) := by
  refine h.grow (fun j => ?_) ?_ ?_ rfl rfl rfl
  · rw [Processor.detachHarvest,List.getElem?_map]
    split
    · rename_i hj
      rw [hj,List.getElem?_modify_eq,hah]
      rfl
    · rename_i hj
      rw [List.getElem?_modify_ne _ _ (Ne.symm hj),List.getElem?_map]
  · simp [Processor.detachHarvest]
  · simp [Processor.detachHarvest]

lemma processConnectAttempt (h : Owned own p) {rep : ConnectAttempt} {now : Time}
    (heq : p.processConnectAttempt rep now = some p') : ∃ own', Owned own' p' ∧ p'.exiting = p.exiting := by
  unfold Processor.processConnectAttempt at heq
  split at heq
  · cases heq
    exact ⟨own,h.congr rfl,rfl⟩
  split at heq
  · cases heq
    exact ⟨own,h.congr rfl,rfl⟩
  split at heq
  · split at heq
    · cases heq
      exact ⟨own,h.congr rfl,rfl⟩
    · cases heq
      exact ⟨own,h.congr rfl,rfl⟩
  split at heq
  · cases heq
    exact ⟨own,h.congr rfl,rfl⟩
  obtain ⟨reply,-,heq⟩ := Option.bind_eq_some_iff.mp heq
  obtain ⟨app,-,heq⟩ := Option.bind_eq_some_iff.mp heq
  obtain ⟨limits,-,heq⟩ := Option.bind_eq_some_iff.mp heq
  split at heq
  · cases heq
    obtain ⟨own',hown⟩ := Owned.addHarvest
      (show Owned own ((p.updateApp _ _).updateApp _ _) from h.congr rfl) _ _
    exact ⟨own',hown,rfl⟩
  · cases heq

lemma connected (h : Owned own p) {env : ConnectAnswers} {localId : AgentRunID}
    {body : Bytes} {now : Time} (heq : p.connected i env localId body now = some p') :
    ∃ own', Owned own' p' ∧ p'.exiting = p.exiting := by
  obtain ⟨args,-,heq⟩ := Option.bind_eq_some_iff.mp heq
  obtain ⟨exp,hexp⟩ := ensureOtlpExporterForApp_eq
    { p with connects := p.connects.eraseIdx i } args.appKey.appname
  simp only [hexp] at heq
  have hattempt : ∀ {q : Processor} {rep}, q.processConnectAttempt rep now = some p' →
      q.shape = p.shape → ∃ own', Owned own' p' ∧ p'.exiting = q.exiting :=
    fun heq hq => (h.congr hq).processConnectAttempt heq
  split at heq
  · obtain ⟨own',h',hexit⟩ := hattempt heq rfl
    exact ⟨own',h',hexit⟩
  · obtain ⟨own',h',hexit⟩ := hattempt heq rfl
    exact ⟨own',h',hexit⟩

lemma harvests (h : Owned own p) {type : HarvestType} {blocking : Bool} {now : Time}
    (hblocking : blocking = true → p.exiting ≠ none ∧ p.inline = [])
    (hharvests : Harvests p i type blocking now p') : ∃ own', Owned own' p' ∧ p'.exiting = p.exiting := by
  have hblock : blocking = true → p.exiting ≠ none ∧ ∀ t ∈ p.inline, t.ah = i := by
    intro hb
    refine ⟨(hblocking hb).1,fun t ht => ?_⟩
    rw [(hblocking hb).2] at ht
    cases ht
  have hi : ∀ {ah : AppHarvest}, p.appHarvests[i]? = some ah →
      i < (p.appHarvests.map AppHarvest.harvest).length ∧
        ah.harvest < p.harvestObjs.length ∧ own ah.harvest = i := by
    intro ah hah
    refine ⟨?_,h.harvest i ah.harvest (by rw [List.getElem?_map,hah]; rfl)⟩
    rw [List.length_map]
    exact (List.getElem?_eq_some_iff.mp hah).1
  cases hharvests with
  | remove => exact ⟨own,h.congr rfl,rfl⟩
  | @all ah harvest a f g args hkeep hah hharvest hall =>
    obtain ⟨hlt,hharv,hown⟩ := hi hah
    set q := (p.updateApp a f).updateHarvest ah.harvest g with hq
    have hshape : q.shape = p.shape := by rw [hq,updateHarvest_shape,updateApp_shape]
    have hlen : q.harvestObjs.length = p.harvestObjs.length := by
      simp [hq,updateHarvest,updateApp]
    refine ⟨_,((h.congr hshape).detachHarvest (show q.appHarvests[i]? = some ah from hah) harvest.table).spawn ?_ args ?_
      ?_,spawn_exiting _ _ _ _⟩
    · have hahs : q.appHarvests.length = p.appHarvests.length := rfl
      rw [List.length_map] at hlt ⊢
      simpa [Processor.detachHarvest,hahs] using hlt
    · intro c hc
      have hc : c = ah.harvest := List.mem_singleton.mp hc
      subst hc
      rw [hlen,Function.update_of_ne (Nat.ne_of_lt hharv)]
      refine ⟨?_,hown⟩
      simp only [Processor.detachHarvest,List.length_append,hlen]
      exact Nat.lt_succ_of_lt hharv
    · exact hblock
  | @defaultData ah harvest a f g d d' args limits hah hharvest hall =>
    obtain ⟨hlt,hharv⟩ := hi hah
    set q := (p.updateApp a f).updateHarvest ah.harvest g with hq
    have hshape : q.shape = p.shape := by rw [hq,updateHarvest_shape,updateApp_shape]
    have hlen : q.harvestObjs.length = p.harvestObjs.length := by
      simp [hq,updateHarvest,updateApp]
    refine ⟨own,(h.congr hshape).spawn hlt args (fun c hc => ?_) hblock,spawn_exiting _ _ _ _⟩
    rw [List.filterMap_append,harvestDefaultData_takes,harvestEvents_takes] at hc
    have hc : c = ah.harvest := List.mem_singleton.mp hc
    rw [hc,hlen]
    exact hharv
  | @events ah g d args limits hah hall =>
    obtain ⟨hlt,-⟩ := hi hah
    refine ⟨own,(h.congr (updateHarvest_shape _ _)).spawn hlt args (fun c hc => ?_) hblock,
      spawn_exiting _ _ _ _⟩
    rw [harvestEvents_takes] at hc
    cases hc

/-- A goroutine moves, with what it starts. -/
theorem performs (h : Owned own p) {t : Task} {failed blocking : Bool} {next : List HarvestTask}
    (hmove : Performs p t failed p' next) (ht : t.ah < (p.appHarvests.map AppHarvest.harvest).length)
    (htakes : ∀ c, t.run.takes = some c → c < p.harvestObjs.length ∧ own c = t.ah)
    (hblocking : blocking = true → p.exiting ≠ none ∧ ∀ s ∈ p.inline, s.ah = t.ah) :
    Owned own (p'.spawn t.ah t.args blocking next) := by
  have hshape := hmove.shape
  have h₁ := h.congr hshape
  simp only [shape,Prod.mk.injEq] at hshape
  obtain ⟨hharvest,hlen,-,hinline,hexit⟩ := hshape
  refine h₁.spawn ?_ _ (fun c hc => ?_) ?_
  · rw [hharvest]
    exact ht
  · rw [hlen]
    exact htakes c (hmove.takes hc)
  · rw [hinline,hexit]
    exact hblocking

lemma erase (h : Owned own p) (i : ℕ) : Owned own { p with tasks := p.tasks.eraseIdx i } :=
  h.mono rfl rfl (fun _ ht => List.mem_of_mem_eraseIdx ht) (fun _ ht => ht) (fun hnone => hnone)

lemma step (h : Owned own p) (heq : p.step e = some p') : ∃ own', Owned own' p' := by
  cases step_moves heq with
  | @task i _ _ t _ _ ht hperform =>
    have hmem : t ∈ p.tasks ++ p.inline := List.mem_append_left _ (List.mem_of_getElem? ht)
    refine ⟨own,(h.erase i).performs (perform_performs hperform) (h.ah_lt t hmem) (h.takes t hmem) ?_⟩
    intro hb
    cases hb
  | @inline _ _ t rest _ _ hinline hperform =>
    have hmem : t ∈ p.inline := by
      rw [hinline]
      exact List.mem_cons_self
    have hrest : ∀ s ∈ rest, s ∈ p.inline := by
      intro s hs
      rw [hinline]
      exact List.mem_cons_of_mem _ hs
    have h₀ : Owned own { p with inline := rest } :=
      h.mono rfl rfl (fun _ hs => hs) hrest (fun hnone => hnone)
    refine ⟨own,h₀.performs (perform_performs hperform) (h.ah_lt t (List.mem_append_right _ hmem))
      (h.takes t (List.mem_append_right _ hmem)) fun _ => ⟨fun hnone => ?_,fun s hs => ?_⟩⟩
    · rw [h.idle hnone] at hmem
      cases hmem
    · exact h.one s (hrest s hs) t hmem
  | exit =>
    refine ⟨own,h.mono rfl rfl (fun t ht => ?_) (fun t ht => ?_) (fun hnone => ?_)⟩
    · cases ht
    · cases ht
    · cases hnone
  | @exitHarvest i _ left _ hleft hinline hi hharvest =>
    have h₀ : Owned own { p with exiting := some (left.erase i) } :=
      h.mono rfl rfl (fun _ ht => ht) (fun _ ht => ht) (fun hnone => by cases hnone)
    obtain ⟨own',h',-⟩ := h₀.harvests (fun _ => ⟨Option.some_ne_none _,hinline⟩)
      (doHarvest_harvests hharvest)
    exact ⟨own',h'⟩
  | util => exact ⟨own,h.congr rfl⟩
  | appInfo => exact ⟨own,h.congr (processAppInfo_shape _ _ _)⟩
  | txnData => exact ⟨own,h.congr (processTxnData_shape _ _ _)⟩
  | connected _ hconnected =>
    obtain ⟨own',h',-⟩ := h.connected hconnected
    exact ⟨own',h'⟩
  | harvest _ hharvest =>
    obtain ⟨own',h',-⟩ := h.harvests (fun hb => by cases hb) (doHarvest_harvests hharvest)
    exact ⟨own',h'⟩
  | @harvestError i =>
    exact ⟨own,(h.erase i).congr (processHarvestError_shape _ _ _ _)⟩
  | cleanExit hrun =>
    exact ⟨own,h.mono rfl rfl (fun _ ht => ht) (fun _ ht => ht) (fun hnone => by cases hnone)⟩

end Owned

/-! ### The moves come to an end -/

end Processor
end PhpAgent

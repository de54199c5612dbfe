import PhpAgent.Daemon.HarvestMoves

/-! When every metric table that a harvest takes off an application is handed to one delivery. -/
namespace PhpAgent

section Tasks
variable (cmd : Command) (pl : Payload) (h : ℕ) (d : HarvestData) (args : HarvestArgs)

@[simp] lemma considerHarvestPayload_error :
    HarvestTask.harvestError ∉ considerHarvestPayload cmd pl := by
  unfold considerHarvestPayload
  split
  · simp
  · simp

lemma harvestAll_error : HarvestTask.harvestError ∉ harvestAll h d args := by
  unfold harvestAll
  split
  · split
    · simp
    · simp
  · unfold considerHarvestPayloadTxnEvents
    split
    · simp
    · simp

end Tasks

namespace Processor
variable {p p' : Processor} {e : ProcessorEvent} {own : ℕ → ℕ} {t : Task} {ts : List HarvestTask}
  {failed : Bool} {next : List HarvestTask}

/-! ### Who waits for ever -/

/-- Nobody who is to take metrics that were taken off an application waits for ever. -/
def Free (p : Processor) : Prop := ∀ t ∈ p.tasks ++ p.inline, Owes p t → ¬ Stuck p t.ah

@[simp] lemma spawn_owes {i : ℕ} {args : HarvestArgs} {blocking : Bool} : Owes (p.spawn i args blocking ts)
    t ↔ Owes p t := by
  obtain ⟨tasks,inline,heq⟩ := spawn_eq (p := p) i args blocking ts
  rw [heq]
  exact Iff.rfl

lemma Performs.owes {t s : Task} (hmove : Performs p t failed p' next) (hs : (p.ledger ts).Sound)
    (h : Owes p' s) : Owes p s := by
  obtain ⟨c,T,htakes,hcell,hT⟩ := owes_iff.mp h
  refine owes_iff.mpr ⟨c,T,htakes,?_⟩
  cases hmove with
  | harvestAll =>
    rw [updateHarvest_ledger] at hcell hT
    exact ⟨hcell,hT⟩
  | @metricsOTLP _ _ harvest =>
    rw [handOver_ledger] at hcell hT
    exact ⟨hs.cell_of_take (T := harvest.table) hcell hT,hT⟩
  | @metrics _ _ harvest =>
    rw [handOver_ledger] at hcell hT
    exact ⟨hs.cell_of_take (T := harvest.table) hcell hT,hT⟩
  | _ => exact ⟨hcell,hT⟩

/-- Only a delivery that has failed leads to an error. -/
theorem Performs.error (hmove : Performs p t failed p' next) (h : HarvestTask.harvestError ∈ next) :
    failed = true ∧ (∃ cmd pl, t.run = .harvestPayload cmd pl) ∧ next = [.harvestError] := by
  cases hmove with
  | harvestAll => exact absurd h (harvestAll_error _ _ _)
  | harvestPayload hrun =>
    cases failed with
    | false => cases h
    | true => exact ⟨rfl,⟨_,_,hrun⟩,rfl⟩
  | metrics => simp at h
  | _ => simp at h

/-- A goroutine that moves strands others, or leaves nobody waiting. -/
theorem Performs.free_iff {failed blocking : Bool}
    (hmove : Performs p t failed p' next) (hs : (p.ledger ts).Sound)
    (hfree : ∀ s, s = t ∨ s ∈ p.tasks ++ p.inline → Owes p s →
      ¬ (p.exiting ≠ none ∧ ∃ u ∈ p.tasks ++ p.inline, u.run = .harvestError ∧ u.ah = s.ah)) :
    Free (p'.spawn t.ah t.args blocking next) ↔ ¬ Strands p t (p.tasks ++ p.inline) failed := by
  have hshape := hmove.shape
  simp only [Processor.shape,Prod.mk.injEq] at hshape
  obtain ⟨-,-,htasks,hinline,hexit⟩ := hshape
  constructor
  · rintro hf ⟨rfl,hexiting,⟨cmd,pl,hrun⟩,s,hs',hah,howes⟩
    cases hmove with
    | harvestPayload =>
      refine hf s (mem_spawn.mpr (.inl hs')) (spawn_owes.mpr howes) ⟨?_,⟨t.ah,t.args,.harvestError⟩,?_⟩
      · rw [spawn_exiting]
        exact hexiting
      · exact ⟨mem_spawn.mpr (.inr ⟨_,List.mem_singleton_self _,rfl⟩),rfl,hah.symm⟩
    | exported hotlp =>
      rw [hrun] at hotlp
      cases hotlp
    | _ => simp_all
  · rintro hno s hs' howes ⟨hexiting,u,hu,herror,huah⟩
    rw [spawn_exiting,hexit] at hexiting
    rw [mem_spawn,htasks,hinline] at hs' hu
    rw [spawn_owes] at howes
    have howes' : Owes p s := hmove.owes hs howes
    rcases hu with hu | ⟨run,hrun,rfl⟩
    · rcases hs' with hs' | ⟨run,hrun,rfl⟩
      · exact hfree s (.inr hs') howes' ⟨hexiting,u,hu,herror,huah⟩
      · obtain ⟨c,harvest,htakes,hrest⟩ := howes'
        refine hfree t (.inl rfl) ⟨c,harvest,?_,hrest⟩ ⟨hexiting,u,hu,herror,huah⟩
        exact hmove.takes (List.mem_filterMap.mpr ⟨run,hrun,htakes⟩)
    · have hrun : HarvestTask.harvestError ∈ next := by
        rw [← herror]
        exact hrun
      obtain ⟨hfailed,hpayload,hnext⟩ := hmove.error hrun
      rcases hs' with hs' | ⟨run',hrun',rfl⟩
      · exact hno ⟨hfailed,hexiting,hpayload,s,hs',huah.symm,howes'⟩
      · rw [hnext,List.mem_singleton] at hrun'
        subst hrun'
        obtain ⟨c,harvest,htakes,-⟩ := howes'
        cases htakes

lemma free_of_running (hexit : p.exiting = none) : Free p := fun _ _ _ hstuck => hstuck.1 hexit

/-- A harvest of all data that `CleanExit` runs itself. -/
theorem Harvests.free_iff {i : ℕ} {now : Time} (hharvests : Harvests p i .all true now p')
    (hs : (p.ledger []).Sound) (ho : Owned own p) (hexit : p.exiting ≠ none) (hfree : Free p) :
    Free p' ↔ (Stuck p i → Removes p i now) := by
  have hincludes : HarvestType.all.includes .all = true := rfl
  cases hharvests with
  | remove hremove => exact ⟨fun _ _ => hremove,fun _ => hfree⟩
  | defaultData _ _ hall => exact absurd hincludes hall
  | events _ hall => exact absurd hincludes hall
  | @all ah harvest a f g args hkeep hah hharvest hall =>
    set q := ((p.updateApp a f).updateHarvest ah.harvest g).detachHarvest i harvest.table with hq
    have hown : own ah.harvest = i :=
      (ho.harvest i ah.harvest (by rw [List.getElem?_map,hah]; rfl)).2
    have hcell : (p.ledger []).cells[ah.harvest]? = some harvest.table := by
      rw [ledger,List.getElem?_map,hharvest]
      rfl
    have hledger : q.ledger [] = ((p.ledger []).grow).call harvest.table := by
      rw [hq,detachHarvest_ledger,updateHarvest_ledger,updateApp_ledger]
    have hold : ∀ {c T : ℕ}, c < p.harvestObjs.length →
        ((q.ledger []).cells[c]? = some T ↔ (p.ledger []).cells[c]? = some T) := by
      intro c T hc
      rw [hledger]
      simp only [Ledger.call,Ledger.grow]
      rw [List.getElem?_append_left (by simpa [ledger] using hc)]
    have hcalled : (q.ledger []).called = p.detached ++ [harvest.table] := by
      rw [hledger]
      rfl
    have hlt : ah.harvest < p.harvestObjs.length := (List.getElem?_eq_some_iff.mp hharvest).1
    have hstuck : ∀ j, Stuck (q.spawn i args true [.harvestAll ah.harvest]) j ↔ Stuck p j := by
      intro j
      constructor
      · rintro ⟨-,u,hu,herror,huah⟩
        rcases mem_spawn.mp hu with hu | ⟨run,hrun,rfl⟩
        · exact ⟨hexit,u,hu,herror,huah⟩
        · rw [List.mem_singleton.mp hrun] at herror
          cases herror
      · rintro ⟨-,u,hu,herror,huah⟩
        refine ⟨?_,u,mem_spawn.mpr (.inl hu),herror,huah⟩
        rw [spawn_exiting]
        exact hexit
    constructor
    · intro hf hst
      refine absurd ((hstuck i).mpr hst) (hf ⟨i,args,.harvestAll ah.harvest⟩ ?_ ?_)
      · exact mem_spawn.mpr (.inr ⟨_,List.mem_singleton_self _,rfl⟩)
      · rw [spawn_owes,owes_iff]
        refine ⟨ah.harvest,harvest.table,rfl,(hold hlt).mpr hcell,?_⟩
        rw [hcalled]
        exact List.mem_append_right _ (List.mem_singleton_self _)
    · intro hno t ht howes hst
      rw [hstuck] at hst
      have hi : t.ah ≠ i := by
        rintro rfl
        exact hkeep (hno hst)
      rcases mem_spawn.mp ht with ht | ⟨run,-,rfl⟩
      · rw [spawn_owes,owes_iff,hcalled] at howes
        obtain ⟨c,T,htakes,hcell',hT⟩ := howes
        have htaker := ho.takes t ht c htakes
        rw [hold htaker.1] at hcell'
        rcases List.mem_append.mp hT with hT | hT
        · exact hfree t ht (owes_iff.mpr ⟨c,T,htakes,hcell',hT⟩) hst
        · rw [List.mem_singleton.mp hT] at hcell'
          rw [hs.cell_unique hcell' hcell] at htaker
          exact hi (htaker.2.symm.trans hown)
      · exact hi rfl

/-- A move leaves somebody waiting for ever if and only if it strands him. -/
theorem step_free_iff (hs : (p.ledger []).Sound) (ho : Owned own p) (hfree : Free p)
    (heq : p.step e = some p') : Free p' ↔ Unstranded p e := by
  have hrunning : p'.exiting = none → Unstranded p e → (Free p' ↔ Unstranded p e) := fun hexit hun =>
    iff_of_true (free_of_running hexit) hun
  -- the goroutine that moves and the others are those that were there
  have hothers : ∀ {t : Task} {others : List Task},
      (∀ s, s = t ∨ s ∈ others → s ∈ p.tasks ++ p.inline) →
      ∀ s, s = t ∨ s ∈ others → Owes p s →
        ¬ (p.exiting ≠ none ∧ ∃ u ∈ others, u.run = .harvestError ∧ u.ah = s.ah) := by
    rintro t others hsub s hs' howes ⟨hexit,u,hu,hrest⟩
    exact hfree s (hsub s hs') howes ⟨hexit,u,hsub u (.inr hu),hrest⟩
  cases step_moves heq with
  | @task i _ failed t _ _ ht hperform =>
    have hsub : ∀ s, s = t ∨ s ∈ p.tasks.eraseIdx i ++ p.inline → s ∈ p.tasks ++ p.inline := by
      rintro s (rfl | hs')
      · exact List.mem_append_left _ (List.mem_of_getElem? ht)
      · rcases List.mem_append.mp hs' with hs' | hs'
        · exact List.mem_append_left _ (List.mem_of_mem_eraseIdx hs')
        · exact List.mem_append_right _ hs'
    have hs₁ : (ledger { p with tasks := p.tasks.eraseIdx i } [t.run]).Sound := by
      rw [task_ledger ht]
      exact hs
    rw [(perform_performs hperform).free_iff hs₁ (hothers hsub)]
    refine ⟨fun hno t' ht' => ?_,fun hun => hun t ht⟩
    rw [ht,Option.some_inj] at ht'
    rw [← ht']
    exact hno
  | @inline _ failed t rest _ _ hinline hperform =>
    have hsub : ∀ s, s = t ∨ s ∈ p.tasks ++ rest → s ∈ p.tasks ++ p.inline := by
      intro s hs'
      rw [hinline]
      rcases hs' with rfl | hs'
      · exact List.mem_append_right _ List.mem_cons_self
      · rcases List.mem_append.mp hs' with hs' | hs'
        · exact List.mem_append_left _ hs'
        · exact List.mem_append_right _ (List.mem_cons_of_mem _ hs')
    have hs₁ : (ledger { p with inline := rest } [t.run]).Sound := by
      rw [inline_ledger hinline]
      exact hs
    rw [(perform_performs hperform).free_iff hs₁ (hothers hsub)]
    refine ⟨fun hno t' rest' hinline' => ?_,fun hun => hun t rest hinline⟩
    rw [hinline,List.cons.injEq] at hinline'
    rw [← hinline'.1,← hinline'.2]
    exact hno
  | exit => exact iff_of_true (fun t ht => by cases ht) trivial
  | @exitHarvest i _ left _ hleft _ _ hharvest =>
    have hexit : p.exiting ≠ none := by simp [hleft]
    have ho₁ : Owned own { p with exiting := some (left.erase i) } :=
      ho.mono rfl rfl (fun _ ht => ht) (fun _ ht => ht) (fun hnone => by cases hnone)
    have hstuck : ∀ j, Stuck { p with exiting := some (left.erase i) } j ↔ Stuck p j := fun j =>
      and_congr_left fun _ => iff_of_true (Option.some_ne_none _) hexit
    have hfree₁ : Free { p with exiting := some (left.erase i) } := fun t ht howes hst =>
      hfree t ht howes ((hstuck t.ah).mp hst)
    rw [(doHarvest_harvests hharvest).free_iff hs ho₁ (Option.some_ne_none _) hfree₁,hstuck]
    exact Iff.rfl
  | util hrun => exact hrunning hrun trivial
  | @appInfo id info now hrun =>
    have hshape := processAppInfo_shape (p := p) now id info
    simp only [shape,Prod.mk.injEq] at hshape
    exact hrunning (hshape.2.2.2.2.trans hrun) trivial
  | @txnData id sample now hrun =>
    have hshape := processTxnData_shape (p := p) now id sample
    simp only [shape,Prod.mk.injEq] at hshape
    exact hrunning (hshape.2.2.2.2.trans hrun) trivial
  | connected hrun hconnected =>
    obtain ⟨-,-,hexit⟩ := ho.connected hconnected
    exact hrunning (hexit.trans hrun) trivial
  | harvest hrun hharvest =>
    obtain ⟨-,-,hexit⟩ := ho.harvests (fun hb => by cases hb) (doHarvest_harvests hharvest)
    exact hrunning (hexit.trans hrun) fun hst => absurd hrun hst.1
  | @harvestError i reply data now t hrun =>
    have hshape := processHarvestError_shape (p := { p with tasks := p.tasks.eraseIdx i }) now
      t.args.id reply data
    simp only [shape,Prod.mk.injEq] at hshape
    exact hrunning (hshape.2.2.2.2.trans hrun) trivial
  | cleanExit hrun =>
    have hinline : p.inline = [] := ho.idle hrun
    simp only [Free,Unstranded,Stuck,cleanExit,hinline,List.append_nil]
    constructor
    · rintro hf t ht t' ht' herror hah howes
      exact hf t' ht' howes ⟨Option.some_ne_none _,t,ht,herror,hah.symm⟩
    · rintro hno t' ht' howes ⟨-,t,ht,herror,hah⟩
      exact hno t ht t' ht' herror hah.symm howes

/-! ### Uncontended runs -/

lemma new_sound (otlp : OTLPConfig) (appTimeout : Duration) :
    ((Processor.new otlp appTimeout).ledger []).Sound ∧
      Owned id (Processor.new otlp appTimeout) ∧ Free (Processor.new otlp appTimeout) := by
  obtain ⟨exp,heq⟩ := new_eq otlp appTimeout
  rw [heq]
  refine ⟨Ledger.sound_empty,?_,free_of_running rfl⟩
  constructor
  · rintro i h ⟨⟩
  · rintro t ⟨⟩
  · rintro t ⟨⟩
  · exact fun _ => rfl
  · rintro s ⟨⟩

lemma Run.sound {otlp : OTLPConfig} {appTimeout : Duration}
    (h : Run Uncontended (Processor.new otlp appTimeout) p) :
    (p.ledger []).Sound ∧ (∃ own, Owned own p) ∧ Free p := by
  induction h with
  | init =>
    obtain ⟨hs,ho,hfree⟩ := new_sound otlp appTimeout
    exact ⟨hs,⟨id,ho⟩,hfree⟩
  | step e _ hok heq ih =>
    obtain ⟨hs,⟨own,ho⟩,hfree⟩ := ih
    exact ⟨step_sound hs hok.1 heq,ho.step heq,(step_free_iff hs ho hfree heq).mpr hok.2⟩

end Processor
end PhpAgent

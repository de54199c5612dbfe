import PhpAgent.Daemon.ProcessorTables

/-! Which failed connects are tried again. -/
namespace PhpAgent
namespace Processor
variable {p : Processor} {rep : ConnectAttempt} {now : Time} {a : ℕ} {app : App}

/-- Once the backoff has elapsed the application needs another connect attempt. -/
def Retried (app : App) (backoff : Duration) : Prop :=
  ∀ now, backoff ≤ Time.sub now app.lastConnectAttempt → app.needsConnectAttempt now backoff = true

/-- Only an application in the unknown state is tried again; some time is late enough to see it. -/
theorem retried_iff {backoff : Duration} (hb : backoff ≤ 2^63-1) :
    Retried app backoff ↔ app.state = .unknown := by
  constructor
  · intro h
    by_contra hstate
    have hlate : backoff ≤ Time.sub (app.lastConnectAttempt+backoff) app.lastConnectAttempt := by
      unfold Time.sub
      rw [add_sub_cancel_left,min_eq_right hb]
      exact le_max_right _ _
    have := h _ hlate
    simp [App.needsConnectAttempt,hstate] at this
  · intro hstate now hlate
    simp [App.needsConnectAttempt,hstate,hlate]

/-- The state a failed attempt that neither disconnects nor has an invalid licence leads to. -/
theorem processConnectAttempt_failed (now : Time) (hlook : p.apps.lookup rep.key = some a)
    (happ : p.appObjs[a]? = some app) (hfail : rep.err ≠ none)
    (hdisconnect : rep.rawReply.isDisconnect = false)
    (hlicense : rep.rawReply.isInvalidLicense = false) :
    ∃ p' app', p.processConnectAttempt rep now = some p' ∧ p'.appObjs[a]? = some app' ∧
      app'.state = if rep.rawReply.statusCode = 409 then .restart else .unknown := by
  have hcode : rep.rawReply.statusCode ≠ 401 := by
    simpa [RPMResponse.isInvalidLicense] using hlicense
  have hrestart : rep.rawReply.isRestartException = decide (rep.rawReply.statusCode = 409) := by
    simp [RPMResponse.isRestartException,hcode]
  unfold processConnectAttempt
  simp only [hlook,hdisconnect,hrestart,hlicense,Bool.false_eq_true,if_false,decide_eq_true_eq]
  by_cases h409 : rep.rawReply.statusCode = 409
  · rw [if_pos h409]
    refine ⟨_,{ app with rawConnectReply := rep.rawReply.body, state := .restart },rfl,?_,by simp [h409]⟩
    simp [updateApp,happ]
  · rw [if_neg h409,if_pos hfail]
    refine ⟨_,{ app with rawConnectReply := rep.rawReply.body, state := .unknown },rfl,?_,by simp [h409]⟩
    simp [updateApp,happ]

/-- A failed connect whose response means neither disconnect nor invalid licence is tried again
after the backoff unless its status code is 409. -/
theorem failed_connect_retried_iff (hlook : p.apps.lookup rep.key = some a)
    (happ : p.appObjs[a]? = some app) (hfail : rep.err ≠ none)
    (hdisconnect : rep.rawReply.isDisconnect = false)
    (hlicense : rep.rawReply.isInvalidLicense = false) {backoff : Duration}
    (hb : backoff ≤ 2^63-1) :
    ∃ p' app', p.processConnectAttempt rep now = some p' ∧ p'.appObjs[a]? = some app' ∧
      (Retried app' backoff ↔ rep.rawReply.statusCode ≠ 409) := by
  obtain ⟨p',app',hp',happ',hstate⟩ :=
    processConnectAttempt_failed now hlook happ hfail hdisconnect hlicense
  refine ⟨p',app',hp',happ',?_⟩
  rw [retried_iff hb,hstate]
  by_cases h409 : rep.rawReply.statusCode = 409 <;> simp [h409]

/-- The reachable state with one application, and the failed attempt to connect it. -/
theorem exists_failed_connect (statusCode : ℤ) (hcode : statusCode ≠ 200 ∧ statusCode ≠ 202) :
    ∃ (p : Processor) (app : App) (rep : ConnectAttempt),
      Run (fun _ _ => True) (Processor.new exampleConfig 0) p ∧ p.apps.lookup rep.key = some 0 ∧ p.appObjs[0]? = some app ∧
      rep.rawReply.statusCode = statusCode ∧ rep.err ≠ none ∧
      rep.rawReply.disconnectSecurityPolicy = false := by
  have hrun : ∃ p app, exec [.util,.appInfo none exampleInfo 0] (Processor.new exampleConfig 0) =
      some p ∧ p.apps.lookup exampleInfo.key = some 0 ∧ p.appObjs[0]? = some app :=
    ⟨_,_,rfl,rfl,rfl⟩
  obtain ⟨p,app,hexec,hlook,happ⟩ := hrun
  refine ⟨p,app,(connectApplication ⟨"","licence",exampleInfo.key,""⟩
    (.ending (.ofStatusCode statusCode) (localReply "run"))).1,Run.init.of_exec hexec,?_⟩
  rw [connectApplication_key]
  have herr : ∃ err, (RPMResponse.ofStatusCode statusCode).err = some err :=
    ⟨_,if_pos hcode⟩
  obtain ⟨err,herr⟩ := herr
  refine ⟨hlook,happ,?_⟩
  simp [connectApplication,ConnectAnswers.ending,herr]
  simp [RPMResponse.ofStatusCode]

theorem failed_connect_retried_timeout : ∃ (p : Processor) (app : App) (rep : ConnectAttempt),
    Run (fun _ _ => True) (Processor.new exampleConfig 0) p ∧ rep.rawReply.statusCode = 503 ∧
    p.apps.lookup rep.key = some 0 ∧ p.appObjs[0]? = some app ∧
    ∃ p' app', p.processConnectAttempt rep 0 = some p' ∧ p'.appObjs[0]? = some app' ∧
      Retried app' Limits.appConnectAttemptBackoff := by
  obtain ⟨p,app,rep,hrun,hlook,happ,hcode,herr,hpolicy⟩ := exists_failed_connect 503 (by decide)
  have hiff : ∃ p' app', p.processConnectAttempt rep 0 = some p' ∧ p'.appObjs[0]? = some app' ∧
      (Retried app' Limits.appConnectAttemptBackoff ↔ rep.rawReply.statusCode ≠ 409) :=
    failed_connect_retried_iff hlook happ herr (by simp [RPMResponse.isDisconnect,hcode,hpolicy])
      (by simp [RPMResponse.isInvalidLicense,hcode]) (by decide)
  obtain ⟨p',app',hp',happ',hiff⟩ := hiff
  exact ⟨p,app,rep,hrun,hcode,hlook,happ,p',app',hp',happ',hiff.mpr (by rw [hcode]; decide)⟩

/-- After a 409 the application stays in a state that nobody leaves. -/
theorem conflict_connect_not_retried : ¬ ∀ otlp appTimeout p rep now a app,
    Run (fun _ _ => True) (Processor.new otlp appTimeout) p → p.apps.lookup rep.key = some a →
    p.appObjs[a]? = some app → rep.err ≠ none → rep.rawReply.isDisconnect = false →
    rep.rawReply.isInvalidLicense = false → ∃ p' app', p.processConnectAttempt rep now = some p' ∧
      p'.appObjs[a]? = some app' ∧ Retried app' Limits.appConnectAttemptBackoff := by
  intro h
  obtain ⟨p,app,rep,hrun,hlook,happ,hcode,herr,hpolicy⟩ := exists_failed_connect 409 (by decide)
  have hdisconnect : rep.rawReply.isDisconnect = false := by
    simp [RPMResponse.isDisconnect,hcode,hpolicy]
  have hlicense : rep.rawReply.isInvalidLicense = false := by
    simp [RPMResponse.isInvalidLicense,hcode]
  obtain ⟨p',app',hp',happ',hretried⟩ :=
    h exampleConfig 0 p rep 0 0 app hrun hlook happ herr hdisconnect hlicense
  obtain ⟨p₁,app₁,hp₁,happ₁,hstate⟩ :=
    processConnectAttempt_failed 0 hlook happ herr hdisconnect hlicense
  rw [hp₁,Option.some_inj] at hp'
  subst hp'
  rw [happ₁,Option.some_inj] at happ'
  subst happ'
  rw [retried_iff (by decide),hstate,if_pos hcode] at hretried
  cases hretried

end Processor
end PhpAgent

import PhpAgent.Daemon.TraceObserver

/-! When the shutdown of the trace observer is clean: which moves may close the queue of messages. -/
namespace PhpAgent

/-- The worker has left its loop, or does so without another look at the queue. -/
def WorkerAt.leaving : WorkerAt → Bool
  | .returned .shutdown => true
  | .complete => true
  | .closeSender => true
  | .done => true
  | _ => false

/-- The call has passed its check for a shutdown and has not sent its batch yet. -/
def QueueBatchAt.admitted : QueueBatchAt → Bool
  | .getRemainingQueueCapacity _ => true
  | .emptyQueue _ _ => true
  | .send _ => true
  | _ => false

/-- The call has seen that a shutdown was initiated. -/
def QueueBatchAt.refused : QueueBatchAt → Bool
  | .shutdownInitiated => true
  | .closeMessages => true
  | .drainMessages => true
  | _ => false

namespace TraceObserver
variable {s s' : TraceObserver} {e : ObserverEvent}

/-- The move is the one that closes the queue. -/
def closesMessages (s : TraceObserver) : ObserverEvent → Bool
  | .producer => s.closeMessagesOnce = .fresh ∧ s.producer = .closeMessages
  | .caller i _ => s.closeMessagesOnce = .fresh ∧ s.shutdowns[i]? = some .closeMessages
  | _ => false

/-- The queue is closed only when nobody is going to use it. -/
def Settled (s : TraceObserver) (e : ObserverEvent) : Prop :=
  s.closesMessages e = true → s.worker.leaving = true ∧ s.producer.admitted = false

instance (s : TraceObserver) (e : ObserverEvent) : Decidable (Settled s e) :=
  inferInstanceAs (Decidable (_ → _))

/-- What the channels and the once-objects say about the goroutines. -/
structure Orderly (s : TraceObserver) : Prop where
  fault : s.fault = none
  sent : s.messagesSent.closed = false
  once : s.initiateShutdown.closed = true ↔ s.initiateShutdownOnce ≠ .fresh
  closeOnce : s.messages.closed = true ↔ s.closeMessagesOnce ≠ .fresh
  quiet : s.messages.closed = true → s.worker.leaving = true ∧ s.producer.admitted = false ∧
    s.initiateShutdown.closed = true
  refused : s.producer.refused = true → s.initiateShutdown.closed = true
  callers : s.shutdowns ≠ [] → s.initiateShutdown.closed = true
  complete : s.shutdownComplete.closed = true → s.worker = .closeSender ∨ s.worker = .done

lemma orderly_init (queueSize : ℕ) : Orderly (init queueSize) := by
  constructor <;> simp [init,Chan.make,QueueBatchAt.refused]

/-! ### The parts of a shutdown -/

lemma Orderly.initShutdown (h : Orderly s) : Orderly s.initShutdown ∧
    s.initShutdown.initiateShutdown.closed = true ∧ s.initShutdown.worker = s.worker ∧
    s.initShutdown.shutdowns = s.shutdowns := by
  cases honce : s.initiateShutdownOnce with
  | fresh =>
    have hopen : s.initiateShutdown.closed = false := by simpa [honce] using h.once
    have heq : s.initShutdown = { s with
        initiateShutdown := { s.initiateShutdown with closed := true }
        initiateShutdownOnce := .done } := by
      simp [TraceObserver.initShutdown,honce,Chan.close,hopen]
    rw [heq]
    exact ⟨⟨h.fault,h.sent,by simp,h.closeOnce,fun hc => ⟨(h.quiet hc).1,(h.quiet hc).2.1,rfl⟩,
      fun _ => rfl,fun _ => rfl,h.complete⟩,rfl,rfl,rfl⟩
  | running =>
    have heq : s.initShutdown = s := by simp [TraceObserver.initShutdown,honce]
    rw [heq]
    exact ⟨h,h.once.mpr (by simp [honce]),rfl,rfl⟩
  | done =>
    have heq : s.initShutdown = s := by simp [TraceObserver.initShutdown,honce]
    rw [heq]
    exact ⟨h,h.once.mpr (by simp [honce]),rfl,rfl⟩

/-- `closeMessages` either finds the queue closed and drained or closes it. -/
theorem Orderly.closeMessages_cases (h : Orderly s) {drain : Bool}
    (heq : s.closeMessages = some (s',drain)) :
    (s.closeMessagesOnce = .done ∧ s' = s ∧ drain = false) ∨
    (s.closeMessagesOnce = .fresh ∧ drain = true ∧ s' = { s with
      messages := { s.messages with closed := true }
      closeMessagesOnce := .running }) := by
  cases honce : s.closeMessagesOnce with
  | done =>
    simp only [closeMessages,honce,Option.some_inj,Prod.mk.injEq] at heq
    exact .inl ⟨rfl,heq.1.symm,heq.2.symm⟩
  | running => simp [closeMessages,honce] at heq
  | fresh =>
    have hopen : s.messages.closed = false := by simpa [honce] using h.closeOnce
    simp only [closeMessages,honce,Chan.close,hopen,Bool.false_eq_true,if_false,Option.some_inj,
      Prod.mk.injEq] at heq
    exact .inr ⟨rfl,heq.2.symm,heq.1.symm⟩

/-- Closing the queue keeps order where nobody is going to use it. -/
theorem Orderly.closed (h : Orderly s) (hworker : s.worker.leaving = true)
    (hprod : s.producer.admitted = false) (hinit : s.initiateShutdown.closed = true) :
    Orderly { s with
      messages := { s.messages with closed := true }
      closeMessagesOnce := .running } :=
  ⟨h.fault,h.sent,h.once,by simp,fun _ => ⟨hworker,hprod,hinit⟩,h.refused,h.callers,h.complete⟩

lemma Orderly.drainMessages (h : Orderly s) {last : Bool}
    (heq : s.drainMessages = some (s',last)) : Orderly s' ∧ s'.producer = s.producer ∧
      s'.worker = s.worker ∧ s'.initiateShutdown = s.initiateShutdown ∧
      s'.shutdowns = s.shutdowns ∧ s'.messages.closed = s.messages.closed := by
  unfold TraceObserver.drainMessages at heq
  split at heq
  · rename_i b c hrecv
    cases heq
    rcases Chan.recv_ready hrecv with ⟨_,rest,-,-,rfl⟩ | ⟨hnone,-⟩
    · exact ⟨⟨h.fault,h.sent,h.once,h.closeOnce,h.quiet,h.refused,h.callers,h.complete⟩,
        rfl,rfl,rfl,rfl,rfl⟩
    · cases hnone
  · rename_i c hrecv
    cases heq
    rcases Chan.recv_ready hrecv with ⟨_,_,hsome,-⟩ | ⟨-,-,hclosed,-⟩
    · cases hsome
    · exact ⟨⟨h.fault,h.sent,h.once,by simp [hclosed],h.quiet,h.refused,h.callers,h.complete⟩,
        rfl,rfl,rfl,rfl,rfl⟩
  · cases heq

/-! ### The goroutines -/

/-- The producer moves on without touching a channel. -/
theorem Orderly.moveProducer (h : Orderly s) {p : QueueBatchAt}
    (hadm : p.admitted = true → s.messages.closed = false)
    (href : p.refused = true → s.initiateShutdown.closed = true) :
    Orderly { s with producer := p } where
  __ := h
  quiet hc := by
    refine ⟨(h.quiet hc).1,?_,(h.quiet hc).2.2⟩
    cases hp : p.admitted with
    | false => rfl
    | true => exact absurd hc (by simp [hadm hp])
  refused := href

/-- The worker moves on without touching a channel. -/
theorem Orderly.moveWorker (h : Orderly s) {w : WorkerAt}
    (hleave : s.messages.closed = true → w.leaving = true)
    (hcomplete : s.shutdownComplete.closed = true → w = .closeSender ∨ w = .done) :
    Orderly { s with worker := w } :=
  ⟨h.fault,h.sent,h.once,h.closeOnce,fun hc => ⟨hleave hc,(h.quiet hc).2⟩,h.refused,h.callers,
    hcomplete⟩

/-- As long as the worker has not left its loop the queue is open and no shutdown complete. -/
theorem Orderly.staying (h : Orderly s) (hstay : s.worker.leaving = false) :
    s.messages.closed = false ∧ s.shutdownComplete.closed = false := by
  constructor
  · by_contra hc
    rw [(h.quiet (by simpa using hc)).1] at hstay
    cases hstay
  · by_contra hc
    rcases h.complete (by simpa using hc) with hw | hw <;> simp [hw,WorkerAt.leaving] at hstay

/-- In its loop the worker may go anywhere. -/
theorem Orderly.stayWorker (h : Orderly s) (hstay : s.worker.leaving = false) (w : WorkerAt) :
    Orderly { s with worker := w } :=
  h.moveWorker (fun hc => by simp [(h.staying hstay).1] at hc)
    (fun hc => by simp [(h.staying hstay).2] at hc)

lemma Orderly.closeProducer (h : Orderly s) (hprod : s.producer = .closeMessages)
    (hok : Settled s .producer) {drain : Bool} (heq : s.closeMessages = some (s',drain)) :
    Orderly { s' with producer := if drain then .drainMessages else .idle } := by
  have hinit : s.initiateShutdown.closed = true := h.refused (by rw [hprod]; rfl)
  rcases h.closeMessages_cases heq with ⟨-,rfl,rfl⟩ | ⟨hfresh,rfl,rfl⟩
  · exact h.moveProducer (fun hp => by cases hp) (fun hp => by cases hp)
  · obtain ⟨hworker,hadm⟩ := hok (by simp [closesMessages,hfresh,hprod])
    exact (h.closed hworker hadm hinit).moveProducer (fun hp => by cases hp) (fun _ => hinit)

lemma Orderly.stepProducer (h : Orderly s) (hok : Settled s .producer)
    (heq : s.stepProducer = some s') : Orderly s' := by
  unfold TraceObserver.stepProducer at heq
  -- a call that was admitted runs with the queue open
  have hopen : s.producer.admitted = true → s.messages.closed = false := by
    intro hadm
    by_contra hc
    rw [(h.quiet (by simpa using hc)).2.1] at hadm
    cases hadm
  split at heq
  · cases heq
  · rename_i hprod
    have hinit : s.initiateShutdown.closed = true := h.refused (by rw [hprod]; rfl)
    split at heq
    · cases heq
      exact h.moveProducer (fun hp => by cases hp) (fun hp => by cases hp)
    · cases heq
      exact h.moveProducer (fun hp => by cases hp) (fun _ => hinit)
  · rename_i hprod
    obtain ⟨⟨s₁,drain⟩,hclose,heq⟩ := Option.bind_eq_some_iff.mp heq
    cases heq
    exact h.closeProducer hprod hok hclose
  · rename_i hprod
    obtain ⟨⟨s₁,last⟩,hdrain,heq⟩ := Option.bind_eq_some_iff.mp heq
    cases heq
    obtain ⟨h₁,-,-,hinit,-⟩ := h.drainMessages hdrain
    refine h₁.moveProducer (fun hp => by cases last <;> cases hp) (fun _ => ?_)
    rw [hinit]
    exact h.refused (by rw [hprod]; rfl)
  · rename_i b hprod
    have hc := hopen (by rw [hprod]; rfl)
    split at heq
    · rename_i sent c hrecv
      cases heq
      have hsent : c.closed = false := by
        rcases Chan.recv_ready hrecv with ⟨_,_,-,-,rfl⟩ | ⟨-,-,-,rfl⟩
        · exact h.sent
        · exact h.sent
      exact ⟨h.fault,hsent,h.once,h.closeOnce,h.quiet,h.refused,h.callers,h.complete⟩
    · split at heq
      · cases heq
        exact h.moveProducer (fun _ => hc) (fun hp => by cases hp)
      · cases heq
        exact h.moveProducer (fun _ => hc) (fun hp => by cases hp)
  · rename_i b dropped hprod
    have hc := hopen (by rw [hprod]; rfl)
    split at heq
    · rename_i x c hrecv
      cases heq
      rcases Chan.recv_ready hrecv with ⟨_,rest,-,-,rfl⟩ | ⟨hnone,-⟩
      · exact ⟨h.fault,h.sent,h.once,h.closeOnce,fun hc' => (by simp [hc] at hc'),
          fun hp => (by cases hp),h.callers,h.complete⟩
      · cases hnone
    · rename_i c hrecv
      rcases Chan.recv_ready hrecv with ⟨_,_,hsome,-⟩ | ⟨-,-,hclosed,-⟩
      · cases hsome
      · rw [hc] at hclosed
        cases hclosed
    · cases heq
      exact ⟨h.fault,h.sent,h.once,h.closeOnce,fun hc' => (by simp [hc] at hc'),
        fun hp => (by cases hp),h.callers,h.complete⟩
  · rename_i b hprod
    have hc := hopen (by rw [hprod]; rfl)
    split at heq
    · rename_i c hsend
      cases heq
      obtain ⟨-,-,rfl⟩ := Chan.send_ready hsend
      exact ⟨h.fault,h.sent,h.once,h.closeOnce,fun hc' => (by simp [hc] at hc'),
        fun hp => (by cases hp),h.callers,h.complete⟩
    · rename_i f hsend
      have hclosed := Chan.send_fault hsend
      rw [hc] at hclosed
      cases hclosed
    · cases heq
  · cases heq
    exact ⟨h.fault,h.sent,h.once,h.closeOnce,fun hc => ⟨(h.quiet hc).1,rfl,(h.quiet hc).2.2⟩,
      fun hp => (by cases hp),h.callers,h.complete⟩

lemma Orderly.stepSelect (h : Orderly s) (hworker : s.worker = .select) {case : Selected}
    (heq : s.stepSelect case = some s') : Orderly s' := by
  have hstay : s.worker.leaving = false := by rw [hworker]; rfl
  obtain ⟨hopen,hcomplete⟩ := h.staying hstay
  unfold TraceObserver.stepSelect at heq
  cases case with
  | messages =>
    simp only at heq
    split at heq
    · rename_i b c hrecv
      cases heq
      rcases Chan.recv_ready hrecv with ⟨_,rest,-,-,rfl⟩ | ⟨hnone,-⟩
      · exact ⟨h.fault,h.sent,h.once,h.closeOnce,fun hc => (by simp [hopen] at hc),h.refused,
          h.callers,fun hc => by simp [hcomplete] at hc⟩
      · cases hnone
    · rename_i c hrecv
      rcases Chan.recv_ready hrecv with ⟨_,_,hsome,-⟩ | ⟨-,-,hclosed,-⟩
      · cases hsome
      · rw [hopen] at hclosed
        cases hclosed
    · cases heq
  | responseError status =>
    cases heq
    exact h.stayWorker hstay _
  | initiateShutdown =>
    simp only at heq
    split at heq
    · cases heq
      exact h.stayWorker hstay _
    · cases heq

lemma Orderly.completeShutdown (h : Orderly s) (hworker : s.worker = .complete) :
    Orderly { s.completeShutdown with worker := .closeSender } := by
  have hclosed : s.shutdownComplete.closed = false := by
    by_contra hc
    rcases h.complete (by simpa using hc) with hw | hw <;> simp [hw] at hworker
  have heq : s.completeShutdown =
      { s with shutdownComplete := { s.shutdownComplete with closed := true } } := by
    simp [TraceObserver.completeShutdown,isShutdownComplete,Chan.close,hclosed]
  rw [heq]
  exact ⟨h.fault,h.sent,h.once,h.closeOnce,fun hc => ⟨rfl,(h.quiet hc).2⟩,h.refused,h.callers,
    fun _ => .inl rfl⟩

lemma Orderly.stepWorker (h : Orderly s) (heq : s.stepWorker = some s') : Orderly s' := by
  unfold TraceObserver.stepWorker at heq
  split at heq
  · rename_i b err hworker
    have hstay : s.worker.leaving = false := by rw [hworker]; rfl
    split at heq
    · rename_i c hsend
      cases heq
      obtain ⟨-,-,rfl⟩ := Chan.send_ready hsend
      have h₁ : Orderly { s with messagesSent.buf := s.messagesSent.buf ++ [b.count] } :=
        ⟨h.fault,h.sent,h.once,h.closeOnce,h.quiet,h.refused,h.callers,h.complete⟩
      exact h₁.stayWorker hstay _
    · rename_i f hsend
      have hclosed := Chan.send_fault hsend
      rw [h.sent] at hclosed
      cases hclosed
    · cases heq
  · rename_i hworker
    cases heq
    obtain ⟨h₁,-,hw,-⟩ := h.initShutdown
    refine h₁.moveWorker (fun _ => rfl) (fun hc => ?_)
    have := h₁.complete hc
    rw [hw,hworker] at this
    rcases this with hw | hw <;> cases hw
  · rename_i hworker
    cases heq
    exact h.stayWorker (by rw [hworker]; rfl) _
  · rename_i hworker
    cases heq
    exact h.stayWorker (by rw [hworker]; rfl) _
  · rename_i code hne _ _ hworker
    cases heq
    refine h.stayWorker ?_ _
    rw [hworker]
    cases code with
    | shutdown => exact absurd rfl hne
    | ok => rfl
    | restart => rfl
    | reconnect => rfl
    | immediateRestart => rfl
  · rename_i hworker
    cases heq
    exact h.stayWorker (by rw [hworker]; rfl) _
  · rename_i hworker
    cases heq
    exact h.completeShutdown hworker
  · cases heq
    exact h.moveWorker (fun _ => rfl) (fun _ => .inr rfl)
  · cases heq

/-- A call of `Shutdown` moves on. -/
theorem Orderly.moveShutdown (h : Orderly s) (hne : s.shutdowns ≠ []) (l : List ShutdownAt) :
    Orderly { s with shutdowns := l } :=
  ⟨h.fault,h.sent,h.once,h.closeOnce,h.quiet,h.refused,fun _ => h.callers hne,h.complete⟩

lemma Orderly.stepShutdown (h : Orderly s) {i : ℕ} {timeout : Bool}
    (hok : Settled s (.caller i timeout)) (heq : s.stepShutdown i timeout = some s') :
    Orderly s' := by
  unfold TraceObserver.stepShutdown at heq
  split at heq
  · rename_i hi
    have hne : s.shutdowns ≠ [] := List.ne_nil_of_mem (List.mem_of_getElem? hi)
    split at heq
    · cases heq
      exact h.moveShutdown hne _
    · cases heq
  · rename_i hi
    have hne : s.shutdowns ≠ [] := List.ne_nil_of_mem (List.mem_of_getElem? hi)
    obtain ⟨⟨s₁,drain⟩,hclose,heq⟩ := Option.bind_eq_some_iff.mp heq
    cases heq
    rcases h.closeMessages_cases hclose with ⟨-,rfl,rfl⟩ | ⟨hfresh,rfl,rfl⟩
    · exact h.moveShutdown hne _
    · obtain ⟨hworker,hadm⟩ := hok (by simp [closesMessages,hfresh,hi])
      exact (h.closed hworker hadm (h.callers hne)).moveShutdown hne _
  · rename_i hi
    have hne : s.shutdowns ≠ [] := List.ne_nil_of_mem (List.mem_of_getElem? hi)
    obtain ⟨⟨s₁,last⟩,hdrain,heq⟩ := Option.bind_eq_some_iff.mp heq
    cases heq
    obtain ⟨h₁,-,-,-,hcallers,-⟩ := h.drainMessages hdrain
    exact h₁.moveShutdown (by rw [hcallers]; exact hne) _
  · cases heq

lemma Orderly.step (h : Orderly s) (hok : Settled s e) (heq : s.step e = some s') :
    Orderly s' := by
  unfold TraceObserver.step at heq
  rw [if_neg (by simp [h.fault])] at heq
  cases e with
  | queueBatch b =>
    simp only at heq
    split at heq
    · cases heq
      cases hinit : s.isShutdownInitiated with
      | true => exact h.moveProducer (fun hp => by cases hp) (fun _ => hinit)
      | false =>
        refine h.moveProducer (fun _ => ?_) (fun hp => by cases hp)
        by_contra hc
        have := (h.quiet (by simpa using hc)).2.2
        rw [isShutdownInitiated,this] at hinit
        cases hinit
    · cases heq
  | producer => exact h.stepProducer hok heq
  | create ok =>
    simp only at heq
    split at heq
    · rename_i hworker
      cases heq
      exact h.stayWorker (by rw [hworker]; rfl) _
    · cases heq
  | connect err =>
    simp only at heq
    split at heq
    · rename_i hworker
      cases heq
      exact h.stayWorker (by rw [hworker]; rfl) _
    · cases heq
  | select case =>
    simp only at heq
    split at heq
    · rename_i hworker
      exact h.stepSelect hworker heq
    · cases heq
  | send err =>
    simp only at heq
    split at heq
    · rename_i b hworker
      cases heq
      exact h.stayWorker (by rw [hworker]; rfl) _
    · cases heq
  | worker => exact h.stepWorker heq
  | clone ok =>
    simp only at heq
    split at heq
    · rename_i hworker
      cases heq
      exact h.stayWorker (by rw [hworker]; rfl) _
    · cases heq
  | shutdown =>
    cases heq
    obtain ⟨h₁,hinit,-,-⟩ := h.initShutdown
    exact ⟨h₁.fault,h₁.sent,h₁.once,h₁.closeOnce,h₁.quiet,h₁.refused,fun _ => hinit,h₁.complete⟩
  | caller i timeout => exact h.stepShutdown hok heq

lemma Run.orderly {queueSize : ℕ} (h : Run Settled (TraceObserver.init queueSize) s) : Orderly s := by
  induction h with
  | init => exact orderly_init queueSize
  | step e _ hok heq ih => exact ih.step hok heq

/-- Where the queue is closed only once the worker is leaving and no call is about to send, no
goroutine faults: no batch of the closed queue is dereferenced, nothing is sent on a closed
channel and none is closed twice. -/
theorem settled_run_no_fault (queueSize : ℕ) {s : TraceObserver}
    (h : Run Settled (TraceObserver.init queueSize) s) : s.fault = none := h.orderly.fault

/-- A batch is sent, then the worker answers a shutdown in time. -/
theorem settled_run_no_fault_in_time : ∃ s, Run Settled (TraceObserver.init 10) s ∧
    s.messages.closed = true ∧ s.shutdowns = [.done] ∧ s.fault = none := by
  have hrun : ∃ s, exec Settled [.queueBatch ⟨1,[]⟩,.producer,.producer,.producer,.create true,
      .connect none,.select .messages,.send none,.worker,.shutdown,.select .initiateShutdown,
      .worker,.worker,.caller 0 false,.caller 0 false,.caller 0 false] (TraceObserver.init 10) =
        some s ∧ s.messages.closed = true ∧ s.shutdowns = [.done] := ⟨_,rfl,rfl,rfl⟩
  obtain ⟨s,hexec,hclosed,hdone⟩ := hrun
  have h : Run Settled (TraceObserver.init 10) s := Run.init.of_exec hexec
  exact ⟨s,h,hclosed,hdone,settled_run_no_fault 10 h⟩

/-- A shutdown times out while the worker waits to connect again. It then finds both the closed
queue and the shutdown ready, and may take the queue. -/
theorem shutdown_timeout_faults : ¬ ∀ queueSize s,
    Run (fun _ _ => True) (TraceObserver.init queueSize) s → s.fault = none := by
  intro h
  have hrun : ∃ s, exec (fun _ _ => True) [.create true,.connect (some .restart),.worker,.shutdown,
      .caller 0 true,.caller 0 true,.caller 0 true,.worker,.connect none,.select .messages]
        (TraceObserver.init 10) = some s ∧ s.fault = some .nilDereference := ⟨_,rfl,rfl⟩
  obtain ⟨s,hexec,hfault⟩ := hrun
  have hnone := h 10 s (Run.init.of_exec hexec)
  rw [hfault] at hnone
  cases hnone

end TraceObserver
end PhpAgent

import PhpAgent.Daemon.TraceObserver

/-! The capacity of the span queue: every span of it is in one place as long as no batch is larger
than what flushing the queue frees. -/
namespace PhpAgent

/-- The spans the worker has received and not acknowledged. -/
def WorkerAt.inFlight : WorkerAt → ℕ
  | .send b => b.count
  | .sent b _ => b.count
  | _ => 0

/-- The spans `emptyQueue` has dropped so far. -/
def QueueBatchAt.dropped : QueueBatchAt → ℕ
  | .emptyQueue _ dropped => dropped
  | _ => 0

/-- The spans that are sent and not yet taken off the capacity. -/
def QueueBatchAt.undeducted : QueueBatchAt → ℕ
  | .deduct b => b.count
  | _ => 0

namespace TraceObserver
variable {s s' : TraceObserver} {e : ObserverEvent} {queueSize : ℕ} {b : SpanBatch}

/-- The spans in the `messages` channel. -/
def queued (s : TraceObserver) : ℕ := (s.messages.buf.map SpanBatch.count).sum

/-- The spans acknowledged in `messagesSent` and not yet read. -/
def acknowledged (s : TraceObserver) : ℕ := s.messagesSent.buf.sum

/-- When `emptyQueue` has emptied the queue, the batch fits beside what is in flight or
acknowledged. -/
def Fits (s : TraceObserver) (e : ObserverEvent) : Prop :=
  match e, s.producer with
  | .producer, .emptyQueue b _ =>
    s.messages.buf = [] → b.count+s.worker.inFlight+s.acknowledged ≤ s.queueSize
  | _, _ => True

instance (s : TraceObserver) (e : ObserverEvent) : Decidable (Fits s e) := by
  unfold Fits
  split <;> infer_instance

/-- The capacity accounts for every span, the counter has not wrapped and does not wrap at the next
move, and a send finds room. -/
structure Accounted (s : TraceObserver) : Prop where
  cap : s.messages.cap = s.queueSize
  capacity : s.messagesRemainingCapacity+s.producer.dropped+s.queued+s.worker.inFlight+
    s.acknowledged = s.queueSize+s.producer.undeducted
  counter : s.messagesRemainingCapacity ≤ s.queueSize
  noWrap : s.producer.undeducted ≤ s.messagesRemainingCapacity
  fits : ∀ b, s.producer = .send b → b.count ≤ s.messagesRemainingCapacity

lemma length_le_sum {l : List SpanBatch} (h : ∀ b ∈ l, 1 ≤ b.count) :
    l.length ≤ (l.map SpanBatch.count).sum := by
  induction l with
  | nil => exact le_rfl
  | cons b l ih =>
    have hb := h b List.mem_cons_self
    have hl := ih fun x hx => h x (List.mem_cons_of_mem _ hx)
    rw [List.length_cons,List.map_cons,List.sum_cons]
    omega

/-- With no empty batch about, the channel has room for the batch about to be sent. -/
theorem Accounted.room (h : Accounted s) (hsend : s.producer = .send b)
    (hb : 1 ≤ b.count) (hall : ∀ x ∈ s.messages.buf, 1 ≤ x.count) :
    s.messages.buf.length < s.messages.cap := by
  have hcap := h.capacity
  have hfits := h.fits b hsend
  have hlen : s.messages.buf.length ≤ s.queued := length_le_sum hall
  rw [hsend] at hcap
  simp only [QueueBatchAt.dropped,QueueBatchAt.undeducted] at hcap
  rw [h.cap]
  omega

/-- The queue is drained only once it is closed, and accounted for until then. -/
structure Counted (queueSize : ℕ) (s : TraceObserver) : Prop where
  size : s.queueSize = queueSize
  drains : s.producer = .drainMessages ∨ .drainMessages ∈ s.shutdowns → s.messages.closed = true
  accounted : s.messages.closed = false → Accounted s

lemma counted_init (queueSize : ℕ) : Counted queueSize (init queueSize) := by
  refine ⟨rfl,by simp [init],fun _ => ⟨rfl,?_,le_rfl,Nat.zero_le _,by simp [init]⟩⟩
  simp [init,Chan.make,queued,acknowledged,WorkerAt.inFlight,QueueBatchAt.dropped,
    QueueBatchAt.undeducted]

/-- Moves that keep the counter and the places of the spans. -/
theorem Counted.keep (h : Counted queueSize s) (hsize : s'.queueSize = s.queueSize)
    (hmsg : s'.messages = s.messages) (hsent : s'.messagesSent = s.messagesSent)
    (hcap : s'.messagesRemainingCapacity = s.messagesRemainingCapacity)
    (hprod : s'.producer = s.producer) (hworker : s'.worker.inFlight = s.worker.inFlight)
    (hdrains : .drainMessages ∈ s'.shutdowns → s.messages.closed = true) : Counted queueSize s' where
  size := hsize.trans h.size
  drains := by
    rw [hprod,hmsg]
    rintro (hp | hp)
    · exact h.drains (.inl hp)
    · exact hdrains hp
  accounted hopen := by
    rw [hmsg] at hopen
    obtain ⟨h₁,h₂,h₃,h₄,h₅⟩ := h.accounted hopen
    refine ⟨by rw [hmsg,hsize,h₁],?_,by rw [hcap,hsize]; exact h₃,by rw [hprod,hcap]; exact h₄,
      by rw [hprod,hcap]; exact h₅⟩
    rw [queued,acknowledged,hcap,hprod,hmsg,hsent,hworker,hsize]
    exact h₂

/-- The producer moves between points where it holds no spans. -/
theorem Counted.moveProducer (h : Counted queueSize s) {p : QueueBatchAt}
    (hdropped : p.dropped = s.producer.dropped) (hundeducted : p.undeducted = s.producer.undeducted)
    (hdrains : p = .drainMessages → s.messages.closed = true)
    (hfits : ∀ b, p = .send b → b.count ≤ s.messagesRemainingCapacity) :
    Counted queueSize { s with producer := p } where
  size := h.size
  drains := by
    rintro (hp | hp)
    · exact hdrains hp
    · exact h.drains (.inr hp)
  accounted hopen := by
    obtain ⟨h₁,h₂,h₃,h₄,-⟩ := h.accounted hopen
    refine ⟨h₁,?_,h₃,by rw [hundeducted]; exact h₄,hfits⟩
    change s.messagesRemainingCapacity+p.dropped+s.queued+s.worker.inFlight+s.acknowledged =
      s.queueSize+p.undeducted
    rw [hdropped,hundeducted]
    exact h₂

/-- Nothing is claimed of a closed queue. -/
theorem counted_of_closed (hsize : s.queueSize = queueSize) (hclosed : s.messages.closed = true) :
    Counted queueSize s :=
  ⟨hsize,fun _ => hclosed,fun hopen => by rw [hclosed] at hopen; cases hopen⟩

lemma initShutdown_keep (s : TraceObserver) : s.initShutdown.queueSize = s.queueSize ∧
    s.initShutdown.messages = s.messages ∧ s.initShutdown.messagesSent = s.messagesSent ∧
    s.initShutdown.messagesRemainingCapacity = s.messagesRemainingCapacity ∧
    s.initShutdown.producer = s.producer ∧ s.initShutdown.worker = s.worker ∧
    s.initShutdown.shutdowns = s.shutdowns := by
  unfold initShutdown
  split
  · split <;> exact ⟨rfl,rfl,rfl,rfl,rfl,rfl,rfl⟩
  · exact ⟨rfl,rfl,rfl,rfl,rfl,rfl,rfl⟩

lemma completeShutdown_keep (s : TraceObserver) :
    s.completeShutdown.queueSize = s.queueSize ∧ s.completeShutdown.messages = s.messages ∧
    s.completeShutdown.messagesSent = s.messagesSent ∧
    s.completeShutdown.messagesRemainingCapacity = s.messagesRemainingCapacity ∧
    s.completeShutdown.producer = s.producer ∧ s.completeShutdown.shutdowns = s.shutdowns := by
  unfold completeShutdown
  split
  · exact ⟨rfl,rfl,rfl,rfl,rfl,rfl⟩
  · split <;> exact ⟨rfl,rfl,rfl,rfl,rfl,rfl⟩

/-- `closeMessages` leaves the queue as it was, or closed. -/
theorem closeMessages_keep {drain : Bool} (heq : s.closeMessages = some (s',drain)) :
    (drain = false ∧ ∃ f, s' = { s with fault := f }) ∨
    (s'.messages.closed = true ∧ s'.queueSize = s.queueSize) := by
  unfold closeMessages at heq
  split at heq
  · cases heq
    exact .inl ⟨rfl,s.fault,rfl⟩
  · cases heq
  · split at heq
    · rename_i c hclose
      cases heq
      obtain ⟨-,rfl⟩ := Chan.close_ready hclose
      exact .inr ⟨rfl,rfl⟩
    · cases heq
      exact .inl ⟨rfl,_,rfl⟩
    · cases heq

lemma drainMessages_closed {last : Bool} (hclosed : s.messages.closed = true)
    (heq : s.drainMessages = some (s',last)) :
    s'.messages.closed = true ∧ s'.queueSize = s.queueSize := by
  unfold drainMessages at heq
  split at heq
  · rename_i b c hrecv
    cases heq
    rcases Chan.recv_ready hrecv with ⟨_,rest,-,-,rfl⟩ | ⟨hnone,-⟩
    · exact ⟨hclosed,rfl⟩
    · cases hnone
  · cases heq
    exact ⟨hclosed,rfl⟩
  · cases heq

/-! ### The goroutines -/

/-- An acknowledgement that is read is room again. -/
lemma Counted.readSent (h : Counted queueSize s) (hsize : s.queueSize < 2^64)
    (hprod : s.producer = .getRemainingQueueCapacity b) {sent : Option ℕ} {c : Chan ℕ}
    (hrecv : s.messagesSent.recv = .ready (sent,c)) : Counted queueSize { s with
      messagesSent := c
      messagesRemainingCapacity := add64 s.messagesRemainingCapacity (sent.getD 0) } := by
  refine ⟨h.size,h.drains,fun hopen => ?_⟩
  obtain ⟨h₁,h₂,h₃,h₄,h₅⟩ := h.accounted hopen
  rcases Chan.recv_ready hrecv with ⟨x,rest,rfl,hbuf,rfl⟩ | ⟨rfl,hbuf,-,rfl⟩
  · have hack : s.acknowledged = x+rest.sum := by rw [acknowledged,hbuf,List.sum_cons]
    rw [hprod] at h₂
    simp only [QueueBatchAt.dropped,QueueBatchAt.undeducted] at h₂
    have hadd : add64 s.messagesRemainingCapacity x = s.messagesRemainingCapacity+x :=
      Nat.mod_eq_of_lt (by omega)
    refine ⟨h₁,?_,?_,?_,fun b' hp => ?_⟩
    · simp only [queued,acknowledged,hprod,Option.getD_some,hadd,QueueBatchAt.dropped,
        QueueBatchAt.undeducted] at h₂ hack ⊢
      omega
    · simp only [Option.getD_some,hadd]
      omega
    · simp [hprod,QueueBatchAt.undeducted]
    · exact absurd (hprod.symm.trans hp) (by simp)
  · have hadd : add64 s.messagesRemainingCapacity 0 = s.messagesRemainingCapacity :=
      Nat.mod_eq_of_lt (by omega)
    exact ⟨h₁,by simpa [hadd] using h₂,by simpa [hadd] using h₃,by simpa [hadd] using h₄,
      by simpa [hadd] using h₅⟩

/-- A batch that is taken out of the queue is dropped. -/
lemma Counted.dropBatch (h : Counted queueSize s) (hsize : s.queueSize < 2^64) {b x : SpanBatch}
    {dropped : ℕ} (hprod : s.producer = .emptyQueue b dropped) {c : Chan SpanBatch}
    (hrecv : s.messages.recv = .ready (some x,c)) : Counted queueSize { s with
      messages := c
      producer := .emptyQueue b (add64 dropped x.count) } := by
  rcases Chan.recv_ready hrecv with ⟨x',rest,hx,hbuf,rfl⟩ | ⟨hnone,-⟩
  · cases hx
    refine ⟨h.size,fun hp => h.drains (hp.imp (fun hp => by cases hp) id),fun hopen => ?_⟩
    obtain ⟨h₁,h₂,h₃,h₄,h₅⟩ := h.accounted hopen
    have hq : s.queued = x.count+(rest.map SpanBatch.count).sum := by
      rw [queued,hbuf,List.map_cons,List.sum_cons]
    rw [hprod] at h₂
    simp only [QueueBatchAt.dropped,QueueBatchAt.undeducted] at h₂
    have hadd : add64 dropped x.count = dropped+x.count := Nat.mod_eq_of_lt (by omega)
    refine ⟨h₁,?_,h₃,Nat.zero_le _,fun b' hp => by cases hp⟩
    simp only [queued,acknowledged,QueueBatchAt.dropped,QueueBatchAt.undeducted,hadd] at h₂ hq ⊢
    omega
  · cases hnone

/-- The dropped spans are room for a batch that fits beside those that are not acknowledged. -/
lemma Counted.emptied (h : Counted queueSize s) (hsize : s.queueSize < 2^64) {dropped : ℕ}
    (hprod : s.producer = .emptyQueue b dropped) (hbuf : s.messages.buf = [])
    (hfit : b.count+s.worker.inFlight+s.acknowledged ≤ s.queueSize) : Counted queueSize { s with
      messagesRemainingCapacity := add64 s.messagesRemainingCapacity dropped
      producer := .send b } := by
  refine ⟨h.size,fun hp => h.drains (hp.imp (fun hp => by cases hp) id),fun hopen => ?_⟩
  obtain ⟨h₁,h₂,h₃,h₄,h₅⟩ := h.accounted hopen
  have hq : s.queued = 0 := by rw [queued,hbuf]; rfl
  rw [hprod] at h₂
  simp only [QueueBatchAt.dropped,QueueBatchAt.undeducted] at h₂
  have hadd : add64 s.messagesRemainingCapacity dropped = s.messagesRemainingCapacity+dropped :=
    Nat.mod_eq_of_lt (by omega)
  refine ⟨h₁,?_,?_,Nat.zero_le _,fun b' hp => ?_⟩
  · simp only [queued,acknowledged,QueueBatchAt.dropped,QueueBatchAt.undeducted,hadd] at h₂ hq ⊢
    omega
  · simp only [hadd]
    omega
  · cases hp
    simp only [hadd]
    omega

lemma Counted.sendBatch (h : Counted queueSize s) (hprod : s.producer = .send b)
    {c : Chan SpanBatch} (hsend : s.messages.send b = .ready c) :
    Counted queueSize { s with messages := c, producer := .deduct b } := by
  obtain ⟨-,-,rfl⟩ := Chan.send_ready hsend
  refine ⟨h.size,fun hp => h.drains (hp.imp (fun hp => by cases hp) id),fun hopen => ?_⟩
  obtain ⟨h₁,h₂,h₃,h₄,h₅⟩ := h.accounted hopen
  have hq : ((s.messages.buf ++ [b]).map SpanBatch.count).sum = s.queued+b.count := by
    rw [List.map_append,List.sum_append,queued]
    simp
  rw [hprod] at h₂
  refine ⟨h₁,?_,h₃,h₅ b hprod,fun b' hp => by cases hp⟩
  simp only [queued,acknowledged,QueueBatchAt.dropped,QueueBatchAt.undeducted] at h₂ hq ⊢
  omega

/-- The batch that was sent is taken off the capacity, which does not wrap. -/
lemma Counted.deductBatch (h : Counted queueSize s) (hsize : s.queueSize < 2^64)
    (hprod : s.producer = .deduct b) : Counted queueSize { s with
      messagesRemainingCapacity := sub64 s.messagesRemainingCapacity b.count
      producer := .idle } := by
  refine ⟨h.size,fun hp => h.drains (hp.imp (fun hp => by cases hp) id),fun hopen => ?_⟩
  obtain ⟨h₁,h₂,h₃,h₄,h₅⟩ := h.accounted hopen
  rw [hprod] at h₂ h₄
  simp only [QueueBatchAt.dropped,QueueBatchAt.undeducted] at h₂ h₄
  have hsub : sub64 s.messagesRemainingCapacity b.count = s.messagesRemainingCapacity-b.count := by
    unfold sub64
    have : s.messagesRemainingCapacity+2^64-b.count = s.messagesRemainingCapacity-b.count+2^64 := by
      omega
    rw [this,Nat.add_mod_right,Nat.mod_eq_of_lt (by omega)]
  refine ⟨h₁,?_,?_,Nat.zero_le _,fun b' hp => by cases hp⟩
  · simp only [queued,acknowledged,QueueBatchAt.dropped,QueueBatchAt.undeducted,hsub] at h₂ ⊢
    omega
  · simp only [hsub]
    omega

lemma Counted.stepProducer (h : Counted queueSize s) (hsize : queueSize < 2^64)
    (hok : Fits s .producer) (heq : s.stepProducer = some s') : Counted queueSize s' := by
  rw [← h.size] at hsize
  unfold TraceObserver.stepProducer at heq
  split at heq
  · cases heq
  · rename_i hprod
    split at heq
    · cases heq
      exact h.moveProducer (by rw [hprod]; rfl) (by rw [hprod]; rfl) (fun hp => by cases hp)
        (fun b hp => by cases hp)
    · cases heq
      exact h.moveProducer (by rw [hprod]; rfl) (by rw [hprod]; rfl) (fun hp => by cases hp)
        (fun b hp => by cases hp)
  · rename_i hprod
    obtain ⟨⟨s₁,drain⟩,hclose,heq⟩ := Option.bind_eq_some_iff.mp heq
    cases heq
    rcases closeMessages_keep hclose with ⟨rfl,f,rfl⟩ | ⟨hclosed,hsame⟩
    · have h₁ : Counted queueSize { s with fault := f } :=
        h.keep rfl rfl rfl rfl rfl rfl fun hp => h.drains (.inr hp)
      exact h₁.moveProducer (p := .idle) (by rw [hprod]; rfl) (by rw [hprod]; rfl)
        (fun hp => by cases hp) (fun b hp => by cases hp)
    · exact counted_of_closed (hsame.trans h.size) hclosed
  · rename_i hprod
    obtain ⟨⟨s₁,last⟩,hdrain,heq⟩ := Option.bind_eq_some_iff.mp heq
    cases heq
    obtain ⟨hclosed,hsame⟩ := drainMessages_closed (h.drains (.inl hprod)) hdrain
    exact counted_of_closed (hsame.trans h.size) hclosed
  · rename_i b hprod
    split at heq
    · rename_i sent c hrecv
      cases heq
      exact h.readSent hsize hprod hrecv
    · split at heq
      · cases heq
        exact h.moveProducer (by rw [hprod]; rfl) (by rw [hprod]; rfl) (fun hp => by cases hp)
          (fun b hp => by cases hp)
      · rename_i hle
        cases heq
        refine h.moveProducer (by rw [hprod]; rfl) (by rw [hprod]; rfl) (fun hp => by cases hp) ?_
        intro b' hp
        cases hp
        omega
  · rename_i b dropped hprod
    split at heq
    · rename_i x c hrecv
      cases heq
      exact h.dropBatch hsize hprod hrecv
    · cases heq
      exact h.keep rfl rfl rfl rfl rfl rfl fun hp => h.drains (.inr hp)
    · rename_i hnotsome hnotnone
      cases heq
      have hbuf : s.messages.buf = [] := by
        cases hrecv : s.messages.recv with
        | ready r =>
          obtain ⟨o,c⟩ := r
          cases o with
          | none => exact absurd hrecv (hnotnone c)
          | some x => exact absurd hrecv (hnotsome x c)
        | blocked => exact (Chan.recv_blocked hrecv).1
        | fault f => exact absurd hrecv Chan.recv_not_fault
      simp only [Fits,hprod] at hok
      exact h.emptied hsize hprod hbuf (hok hbuf)
  · rename_i b hprod
    split at heq
    · rename_i c hsend
      cases heq
      exact h.sendBatch hprod hsend
    · cases heq
      exact h.keep rfl rfl rfl rfl rfl rfl fun hp => h.drains (.inr hp)
    · cases heq
  · rename_i b hprod
    cases heq
    exact h.deductBatch hsize hprod

lemma Counted.moveWorker (h : Counted queueSize s) {w : WorkerAt} (hw : w.inFlight = s.worker.inFlight) :
    Counted queueSize { s with worker := w } :=
  h.keep rfl rfl rfl rfl rfl hw fun hp => h.drains (.inr hp)

lemma Counted.stepSelect (h : Counted queueSize s) (hworker : s.worker = .select) {case : Selected}
    (heq : s.stepSelect case = some s') : Counted queueSize s' := by
  unfold TraceObserver.stepSelect at heq
  cases case with
  | messages =>
    simp only at heq
    split at heq
    · rename_i b c hrecv
      cases heq
      rcases Chan.recv_ready hrecv with ⟨x,rest,hx,hbuf,rfl⟩ | ⟨hnone,-⟩
      · cases hx
        refine ⟨h.size,h.drains,fun hopen => ?_⟩
        obtain ⟨h₁,h₂,h₃,h₄,h₅⟩ := h.accounted hopen
        have hq : s.queued = b.count+(rest.map SpanBatch.count).sum := by
          rw [queued,hbuf,List.map_cons,List.sum_cons]
        refine ⟨h₁,?_,h₃,h₄,h₅⟩
        rw [hworker] at h₂
        simp only [queued,acknowledged,WorkerAt.inFlight] at h₂ hq ⊢
        omega
      · cases hnone
    · cases heq
      exact h.keep rfl rfl rfl rfl rfl rfl fun hp => h.drains (.inr hp)
    · cases heq
  | responseError status =>
    cases heq
    exact h.moveWorker (by rw [hworker]; rfl)
  | initiateShutdown =>
    simp only at heq
    split at heq
    · cases heq
      exact h.moveWorker (by rw [hworker]; rfl)
    · cases heq

lemma Counted.stepWorker (h : Counted queueSize s) (heq : s.stepWorker = some s') : Counted queueSize s' := by
  unfold TraceObserver.stepWorker at heq
  split at heq
  · rename_i b err hworker
    split at heq
    · rename_i c hsend
      cases heq
      obtain ⟨-,-,rfl⟩ := Chan.send_ready hsend
      refine ⟨h.size,h.drains,fun hopen => ?_⟩
      obtain ⟨h₁,h₂,h₃,h₄,h₅⟩ := h.accounted hopen
      refine ⟨h₁,?_,h₃,h₄,h₅⟩
      rw [hworker] at h₂
      cases err with
      | none =>
        simp only [queued,acknowledged,WorkerAt.inFlight,List.sum_append,List.sum_singleton] at h₂ ⊢
        omega
      | some code =>
        simp only [queued,acknowledged,WorkerAt.inFlight,List.sum_append,List.sum_singleton] at h₂ ⊢
        omega
    · cases heq
      exact h.keep rfl rfl rfl rfl rfl rfl fun hp => h.drains (.inr hp)
    · cases heq
  · rename_i hworker
    cases heq
    obtain ⟨hsize,hmsg,hsent,hcap,hprod,-,hcallers⟩ := s.initShutdown_keep
    refine h.keep hsize hmsg hsent hcap hprod (by rw [hworker]; rfl) fun hp => h.drains (.inr ?_)
    exact hcallers ▸ hp
  · rename_i hworker
    cases heq
    exact h.moveWorker (by rw [hworker]; rfl)
  · rename_i hworker
    cases heq
    exact h.moveWorker (by rw [hworker]; rfl)
  · rename_i hworker
    cases heq
    exact h.moveWorker (by rw [hworker]; rfl)
  · rename_i hworker
    cases heq
    exact h.moveWorker (by rw [hworker]; rfl)
  · rename_i hworker
    cases heq
    obtain ⟨hsize,hmsg,hsent,hcap,hprod,hcallers⟩ := s.completeShutdown_keep
    refine h.keep hsize hmsg hsent hcap hprod (by rw [hworker]; rfl) fun hp => h.drains (.inr ?_)
    exact hcallers ▸ hp
  · rename_i hworker
    cases heq
    exact h.moveWorker (by rw [hworker]; rfl)
  · cases heq

lemma Counted.stepShutdown (h : Counted queueSize s) {i : ℕ} {timeout : Bool}
    (heq : s.stepShutdown i timeout = some s') : Counted queueSize s' := by
  -- a call that moves on does not start to drain
  have hset : ∀ a : ShutdownAt, a ≠ .drainMessages →
      .drainMessages ∈ s.shutdowns.set i a → s.messages.closed = true := by
    intro a ha hp
    rcases List.mem_or_eq_of_mem_set hp with hp | hp
    · exact h.drains (.inr hp)
    · exact absurd hp.symm ha
  unfold TraceObserver.stepShutdown at heq
  split at heq
  · split at heq
    · cases heq
      exact h.keep rfl rfl rfl rfl rfl rfl (hset _ (by simp))
    · cases heq
  · obtain ⟨⟨s₁,drain⟩,hclose,heq⟩ := Option.bind_eq_some_iff.mp heq
    cases heq
    rcases closeMessages_keep hclose with ⟨rfl,f,rfl⟩ | ⟨hclosed,hsame⟩
    · exact h.keep rfl rfl rfl rfl rfl rfl (hset _ (by simp))
    · exact counted_of_closed (hsame.trans h.size) hclosed
  · rename_i hi
    obtain ⟨⟨s₁,last⟩,hdrain,heq⟩ := Option.bind_eq_some_iff.mp heq
    cases heq
    obtain ⟨hclosed,hsame⟩ := drainMessages_closed (h.drains (.inr (List.mem_of_getElem? hi))) hdrain
    exact counted_of_closed (hsame.trans h.size) hclosed
  · cases heq

lemma Counted.step (h : Counted queueSize s) (hsize : queueSize < 2^64) (hok : Fits s e)
    (heq : s.step e = some s') : Counted queueSize s' := by
  unfold TraceObserver.step at heq
  split at heq
  · cases heq
  cases e with
  | queueBatch b =>
    simp only at heq
    split at heq
    · rename_i hprod
      cases heq
      cases hinit : s.isShutdownInitiated with
      | true =>
        exact h.moveProducer (by rw [hprod]; rfl) (by rw [hprod]; rfl) (fun hp => by cases hp)
          (fun b hp => by cases hp)
      | false =>
        exact h.moveProducer (by rw [hprod]; rfl) (by rw [hprod]; rfl) (fun hp => by cases hp)
          (fun b hp => by cases hp)
    · cases heq
  | producer => exact h.stepProducer hsize hok heq
  | create ok =>
    simp only at heq
    split at heq
    · rename_i hworker
      cases heq
      exact h.moveWorker (by rw [hworker]; cases ok <;> rfl)
    · cases heq
  | connect err =>
    simp only at heq
    split at heq
    · rename_i hworker
      cases heq
      exact h.moveWorker (by rw [hworker]; cases err <;> rfl)
    · cases heq
  | select case =>
    simp only at heq
    split at heq
    · rename_i hworker
      exact h.stepSelect hworker heq
    · cases heq
  | send err =>
    simp only at heq
    split at heq
    · rename_i b hworker
      cases heq
      exact h.moveWorker (by rw [hworker]; rfl)
    · cases heq
  | worker => exact h.stepWorker heq
  | clone ok =>
    simp only at heq
    split at heq
    · rename_i hworker
      cases heq
      exact h.moveWorker (by rw [hworker]; cases ok <;> rfl)
    · cases heq
  | shutdown =>
    cases heq
    obtain ⟨hsize,hmsg,hsent,hcap,hprod,hw,hcallers⟩ := s.initShutdown_keep
    refine h.keep hsize hmsg hsent hcap hprod (by simp only [hw]) fun hp => h.drains (.inr ?_)
    rcases List.mem_append.mp hp with hp | hp
    · exact hp
    · simp at hp
  | caller i timeout => exact h.stepShutdown heq

lemma Run.counted (hsize : queueSize < 2^64) (h : Run Fits (TraceObserver.init queueSize) s) :
    Counted queueSize s := by
  induction h with
  | init => exact counted_init queueSize
  | step e _ hok heq ih => exact ih.step hsize hok heq

/-- As long as every batch fits what flushing frees, and until the queue is closed, the counter and
the spans in the queue, at the worker and acknowledged add up to the size of the queue: exactly
between calls, and up to the spans that a running call has dropped or not yet deducted. -/
theorem fitting_run_accounted (hsize : queueSize < 2^64) {s : TraceObserver}
    (h : Run Fits (TraceObserver.init queueSize) s) (hopen : s.messages.closed = false) :
    s.queueSize = queueSize ∧ Accounted s ∧
    (s.producer = .idle → s.messagesRemainingCapacity+s.queued+s.worker.inFlight+s.acknowledged =
      queueSize) ∧
    ∀ b, s.producer = .send b → 1 ≤ b.count → (∀ x ∈ s.messages.buf, 1 ≤ x.count) →
      s.messages.buf.length < s.messages.cap := by
  have hcount := h.counted hsize
  have hacc := hcount.accounted hopen
  refine ⟨hcount.size,hacc,fun hidle => ?_,fun b hsend hb hall => hacc.room hsend hb hall⟩
  have hcap := hacc.capacity
  rw [hidle,hcount.size] at hcap
  simpa [QueueBatchAt.dropped,QueueBatchAt.undeducted] using hcap

/-- A queue of two spans takes a batch of one, then a batch of two that flushes it. -/
theorem fitting_run_accounted_flushed : ∃ s, Run Fits (TraceObserver.init 2) s ∧
    s.messages.buf = [⟨2,[]⟩] ∧ s.messagesRemainingCapacity = 0 ∧ Accounted s := by
  have hrun : ∃ s, exec Fits [.queueBatch ⟨1,[]⟩,.producer,.producer,.producer,.queueBatch ⟨2,[]⟩,
      .producer,.producer,.producer,.producer,.producer] (TraceObserver.init 2) = some s ∧
        s.messages.buf = [⟨2,[]⟩] ∧ s.messagesRemainingCapacity = 0 ∧ s.messages.closed = false :=
    ⟨_,rfl,rfl,rfl,rfl⟩
  obtain ⟨s,hexec,hbuf,hcap,hopen⟩ := hrun
  have h : Run Fits (TraceObserver.init 2) s := Run.init.of_exec hexec
  exact ⟨s,h,hbuf,hcap,(fitting_run_accounted (by decide) h hopen).2.1⟩

/-- A batch of two spans for a queue of one makes the counter wrap. -/
theorem large_batch_wraps : ¬ ∀ queueSize s, queueSize < 2^64 →
    Run (fun _ _ => True) (TraceObserver.init queueSize) s → s.messages.closed = false →
    s.producer = .idle → s.messagesRemainingCapacity+s.queued+s.worker.inFlight+s.acknowledged =
      queueSize := by
  intro h
  have hrun : ∃ s, exec (fun _ _ => True) [.queueBatch ⟨2,[]⟩,.producer,.producer,.producer,
      .producer] (TraceObserver.init 1) = some s ∧ s.messages.closed = false ∧ s.producer = .idle ∧
        s.messagesRemainingCapacity+s.queued+s.worker.inFlight+s.acknowledged = 2^64+1 :=
    ⟨_,rfl,rfl,rfl,rfl⟩
  obtain ⟨s,hexec,hopen,hidle,hsum⟩ := hrun
  have := h 1 s (by decide) (Run.init.of_exec hexec) hopen hidle
  rw [hsum] at this
  omega

end TraceObserver
end PhpAgent

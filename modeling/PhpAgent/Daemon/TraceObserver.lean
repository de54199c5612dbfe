import PhpAgent.Lib.Channel
import PhpAgent.Util.Vector

/-! The trace observer of the daemon, after `infinite_tracing/trace_observer.go`: a queue of span
batches between the processor and a worker, with its goroutines as program counters. -/
namespace PhpAgent

/-- `spanBatch`; `count` is a uint64. -/
structure SpanBatch where
  count : ℕ
  batch : List UInt8
deriving DecidableEq

/-- `spanBatchSenderCode`. -/
inductive SenderCode
  | ok
  | shutdown
  | restart
  | reconnect
  | immediateRestart
deriving DecidableEq

/-- Where the goroutine that calls `QueueBatch` is. -/
inductive QueueBatchAt
  | idle
  | shutdownInitiated
  | closeMessages
  | drainMessages
  | getRemainingQueueCapacity (b : SpanBatch)
  | emptyQueue (b : SpanBatch) (dropped : ℕ)
  | send (b : SpanBatch)
  | deduct (b : SpanBatch)
deriving DecidableEq

/-- Where a call of `Shutdown` is, after its `initShutdown`. -/
inductive ShutdownAt
  | wait
  | closeMessages
  | drainMessages
  | done
deriving DecidableEq

/-- Where the worker is. Inside `doStreaming` it is at `connect` to `sent`; `returned` holds the
code `doStreaming` gave back. -/
inductive WorkerAt
  | create
  | connect
  | select
  | send (b : SpanBatch)
  | sent (b : SpanBatch) (err : Option SenderCode)
  | returned (code : SenderCode)
  | sleep
  | reconnect
  | complete
  | closeSender
  | done
deriving DecidableEq

structure TraceObserver where
  queueSize : ℕ
  messages : Chan SpanBatch
  closeMessagesOnce : Once
  messagesSent : Chan ℕ
  messagesRemainingCapacity : ℕ
  initiateShutdown : Chan Unit
  initiateShutdownOnce : Once
  shutdownComplete : Chan Unit
  producer : QueueBatchAt
  worker : WorkerAt
  shutdowns : List ShutdownAt
  fault : Option Fault
deriving DecidableEq

/-- The sum of two uint64. -/
def add64 (a b : ℕ) : ℕ := (a+b) % 2^64

/-- The difference of two uint64. -/
def sub64 (a b : ℕ) : ℕ := (a+2^64-b) % 2^64

/-- The cases of the select in `doStreaming`. -/
inductive Selected
  | messages
  | responseError (status : SenderCode)
  | initiateShutdown
deriving DecidableEq

/-- One move of one goroutine, with what its environment answers: whether the sender can be made or
cloned, the error of `connect` and `send`, the case of the select, whether the wait of `Shutdown`
ended by its timeout. -/
inductive ObserverEvent
  | queueBatch (b : SpanBatch)
  | producer
  | create (ok : Bool)
  | connect (err : Option SenderCode)
  | select (case : Selected)
  | send (err : Option SenderCode)
  | worker
  | clone (ok : Bool)
  | shutdown
  | caller (i : ℕ) (timeout : Bool)
deriving DecidableEq

namespace TraceObserver

/-- `newTraceObserverWithWorker`. -/
def init (queueSize : ℕ) : TraceObserver where
  queueSize := queueSize
  messages := .make queueSize
  closeMessagesOnce := .fresh
  messagesSent := .make queueSize
  messagesRemainingCapacity := queueSize
  initiateShutdown := .make 0
  initiateShutdownOnce := .fresh
  shutdownComplete := .make 0
  producer := .idle
  worker := .create
  shutdowns := []
  fault := none

def fail (s : TraceObserver) (f : Fault) : TraceObserver := { s with fault := some f }

/-- A closed channel without values, as a signal. -/
def isShutdownInitiated (s : TraceObserver) : Bool := s.initiateShutdown.closed
def isShutdownComplete (s : TraceObserver) : Bool := s.shutdownComplete.closed

def initShutdown (s : TraceObserver) : TraceObserver :=
  match s.initiateShutdownOnce with
  | .fresh =>
    match s.initiateShutdown.close with
    | .ready c => { s with initiateShutdown := c, initiateShutdownOnce := .done }
    | .fault f => s.fail f
    | .blocked => s
  | _ => s

/-- The first half of `closeMessages`, and whether the channel is to be drained. -/
def closeMessages (s : TraceObserver) : Option (TraceObserver × Bool) :=
  match s.closeMessagesOnce with
  | .done => some (s,false)
  | .running => none
  | .fresh =>
    match s.messages.close with
    | .ready c => some ({ s with messages := c, closeMessagesOnce := .running },true)
    | .fault f => some (s.fail f,false)
    | .blocked => none

/-- One turn of the drain in `closeMessages`, and whether it was the last. -/
def drainMessages (s : TraceObserver) : Option (TraceObserver × Bool) :=
  match s.messages.recv with
  | .ready (some _,c) => some ({ s with messages := c },false)
  | .ready (none,_) => some ({ s with closeMessagesOnce := .done },true)
  | _ => none

def completeShutdown (s : TraceObserver) : TraceObserver :=
  if s.isShutdownComplete then s
  else
    match s.shutdownComplete.close with
    | .ready c => { s with shutdownComplete := c }
    | .fault f => s.fail f
    | .blocked => s

/-- The next move of a running `QueueBatch`. -/
def stepProducer (s : TraceObserver) : Option TraceObserver :=
  match s.producer with
  | .idle => none
  | .shutdownInitiated =>
    if s.isShutdownComplete then some { s with producer := .idle }
    else some { s with producer := .closeMessages }
  | .closeMessages => do
    let (s,drain) ← s.closeMessages
    return { s with producer := if drain then .drainMessages else .idle }
  | .drainMessages => do
    let (s,last) ← s.drainMessages
    return { s with producer := if last then .idle else .drainMessages }
  | .getRemainingQueueCapacity b =>
    match s.messagesSent.recv with
    | .ready (sent,c) => some { s with
        messagesSent := c
        messagesRemainingCapacity := add64 s.messagesRemainingCapacity (sent.getD 0) }
    | _ =>
      if s.messagesRemainingCapacity < b.count then some { s with producer := .emptyQueue b 0 }
      else some { s with producer := .send b }
  | .emptyQueue b dropped =>
    match s.messages.recv with
    | .ready (some x,c) => some { s with
        messages := c
        producer := .emptyQueue b (add64 dropped x.count) }
    | .ready (none,_) => some (s.fail .nilDereference)
    | _ => some { s with
        messagesRemainingCapacity := add64 s.messagesRemainingCapacity dropped
        producer := .send b }
  | .send b =>
    match s.messages.send b with
    | .ready c => some { s with messages := c, producer := .deduct b }
    | .fault f => some (s.fail f)
    | .blocked => none
  | .deduct b => some { s with
      messagesRemainingCapacity := sub64 s.messagesRemainingCapacity b.count
      producer := .idle }

/-- The select of `doStreaming`: any ready case may be taken. -/
def stepSelect (s : TraceObserver) (case : Selected) : Option TraceObserver :=
  match case with
  | .messages =>
    match s.messages.recv with
    | .ready (some b,c) => some { s with messages := c, worker := .send b }
    | .ready (none,_) => some (s.fail .nilDereference)
    | _ => none
  | .responseError status => some { s with worker := .returned status }
  | .initiateShutdown =>
    if s.initiateShutdown.closed then some { s with worker := .returned .shutdown } else none

/-- The moves of the worker that ask the environment nothing. -/
def stepWorker (s : TraceObserver) : Option TraceObserver :=
  match s.worker with
  | .sent b err =>
    match s.messagesSent.send b.count with
    | .ready c => some { s with
        messagesSent := c
        worker := match err with
          | none => .select
          | some code => .returned code }
    | .fault f => some (s.fail f)
    | .blocked => none
  | .returned .shutdown => some { s.initShutdown with worker := .complete }
  | .returned .restart => some { s with worker := .sleep }
  | .returned .reconnect => some { s with worker := .reconnect }
  | .returned _ => some { s with worker := .connect }
  | .sleep => some { s with worker := .connect }
  | .complete => some { s.completeShutdown with worker := .closeSender }
  | .closeSender => some { s with worker := .done }
  | _ => none

/-- The next move of the `i`th call of `Shutdown`. -/
def stepShutdown (s : TraceObserver) (i : ℕ) (timeout : Bool) : Option TraceObserver := do
  let move (at' : ShutdownAt) (s : TraceObserver) : TraceObserver :=
    { s with shutdowns := s.shutdowns.set i at' }
  match s.shutdowns[i]? with
  | some .wait =>
    if s.shutdownComplete.closed ∨ timeout then some (move .closeMessages s) else none
  | some .closeMessages => do
    let (s,drain) ← s.closeMessages
    return move (if drain then .drainMessages else .done) s
  | some .drainMessages => do
    let (s,last) ← s.drainMessages
    return move (if last then .done else .drainMessages) s
  | _ => none

/-- One move. A fault ends the process. -/
def step (s : TraceObserver) (e : ObserverEvent) : Option TraceObserver :=
  if s.fault ≠ none then none
  else
    match e with
    | .queueBatch b =>
      if s.producer = .idle then
        some { s with
          producer :=
            if s.isShutdownInitiated then .shutdownInitiated else .getRemainingQueueCapacity b }
      else none
    | .producer => s.stepProducer
    | .create ok =>
      if s.worker = .create then some { s with worker := if ok then .connect else .done } else none
    | .connect err =>
      if s.worker = .connect then
        some { s with
          worker := match err with
            | none => .select
            | some code => .returned code }
      else none
    | .select case => if s.worker = .select then s.stepSelect case else none
    | .send err =>
      match s.worker with
      | .send b => some { s with worker := .sent b err }
      | _ => none
    | .worker => s.stepWorker
    | .clone ok =>
      if s.worker = .reconnect then some { s with worker := if ok then .connect else .complete }
      else none
    | .shutdown => some { s.initShutdown with shutdowns := s.shutdowns ++ [.wait] }
    | .caller i timeout => s.stepShutdown i timeout

/-- The states of the runs from `s₀` whose moves all meet `ok`. -/
inductive Run (ok : TraceObserver → ObserverEvent → Prop) (s₀ : TraceObserver) :
    TraceObserver → Prop
  | init : Run ok s₀ s₀
  | step {s s' : TraceObserver} (e : ObserverEvent) : Run ok s₀ s → ok s e → s.step e = some s' →
      Run ok s₀ s'

/-- Run a list of moves that all meet `ok`. -/
def exec (ok : TraceObserver → ObserverEvent → Prop) [∀ s e, Decidable (ok s e)] :
    List ObserverEvent → TraceObserver → Option TraceObserver
  | [], s => some s
  | e :: es, s => if ok s e then (s.step e).bind (exec ok es) else none

lemma Run.of_exec {ok : TraceObserver → ObserverEvent → Prop} [∀ s e, Decidable (ok s e)]
    {s₀ s s' : TraceObserver} {es : List ObserverEvent} (hs : Run ok s₀ s)
    (h : exec ok es s = some s') : Run ok s₀ s' := by
  induction es generalizing s with
  | nil =>
    cases h
    exact hs
  | cons e es ih =>
    simp only [exec] at h
    split at h
    · obtain ⟨s₁,hstep,h⟩ := Option.bind_eq_some_iff.mp h
      exact ih (.step e hs ‹_› hstep) h
    · cases h

end TraceObserver
end PhpAgent

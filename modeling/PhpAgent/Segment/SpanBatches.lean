import PhpAgent.Util.Object

/-! The queue that gathers span events into batches, after `nr_span_queue.c`. -/
namespace PhpAgent.SpanQueue

variable {α : Type}

/-- `nr_span_batch_t`. The slots that are used come first. -/
structure Batch (α : Type) where
  capacity : ℕ
  spans : List α
  startTime : UInt64
deriving DecidableEq

/-- `nr_span_queue_t`. -/
structure Queue (α : Type) where
  batchSize : ℕ
  batchTimeout : UInt64
  currentBatch : Option (Batch α)
deriving DecidableEq

/-- What a call is told: the time a push looks at, the time a new batch starts, and how encoding and
handling the batch go. -/
structure Answers where
  now : UInt64
  started : UInt64
  encodes : Bool
  handled : Bool
deriving DecidableEq

/-- `nr_span_batch_create`. -/
def Batch.create (capacity : ℕ) (now : UInt64) : Batch α := ⟨capacity,[],now⟩

/-- The next slot is written. There is none behind the last one. -/
def Batch.put (batch : Batch α) (event : α) : Option (Batch α) :=
  if batch.spans.length < batch.capacity then some { batch with spans := batch.spans ++ [event] }
  else none

namespace Queue

/-- `nr_span_queue_create`. -/
def create (batchSize : ℕ) (batchTimeout now : UInt64) : Option (Queue α) :=
  if batchSize = 0 ∨ batchTimeout = 0 then none
  else some ⟨batchSize,batchTimeout,some (Batch.create batchSize now)⟩

/-- `nr_span_queue_flush`, with the spans that are given to the encoder. -/
def flush (q : Queue α) (answers : Answers) : Option (Bool × Option (List α) × Queue α) :=
  q.currentBatch.map fun batch =>
    let q := { q with currentBatch := some (Batch.create q.batchSize answers.started) }
    if batch.spans.length = 0 then (true,none,q)
    else if answers.encodes = false then (false,some batch.spans,q)
    else (answers.handled,some batch.spans,q)

/-- The end of a push. -/
def enqueue (q : Queue α) (event : α) : Option (Queue α) := do
  let batch ← q.currentBatch
  let batch ← batch.put event
  return { q with currentBatch := some batch }

/-- A batch that is full or too old is flushed before anything is added. -/
def due (q : Queue α) (batch : Batch α) (now : UInt64) : Prop :=
  batch.capacity ≤ batch.spans.length ∨ batch.startTime + q.batchTimeout < now

instance (q : Queue α) (batch : Batch α) (now : UInt64) : Decidable (q.due batch now) := by
  unfold due
  infer_instance

/-- `nr_span_queue_push`. What the flush returns is not looked at. -/
def push (q : Queue α) (answers : Answers) (event : Option α) :
    Option (Bool × Option (List α) × Queue α) :=
  match event,q.currentBatch with
  | some event,some batch =>
    if q.due batch answers.now then do
      let (_,given,q) ← q.flush answers
      let q ← q.enqueue event
      return (true,given,q)
    else do
      let q ← q.enqueue event
      return (true,none,q)
  | _,_ => some (false,none,q)

end Queue

/-! ### Runs -/

inductive Call (α : Type)
  | push (answers : Answers) (event : Option α)
  | flush (answers : Answers)

/-- A queue, the batches that were given to the encoder, and the spans that were taken. -/
structure Run (α : Type) where
  queue : Option (Queue α)
  given : List (List α)
  taken : List α

def start (batchSize : ℕ) (batchTimeout now : UInt64) : Run α :=
  ⟨Queue.create batchSize batchTimeout now,[],[]⟩

/-- One call. A queue that was not created takes nothing. -/
def step (r : Run α) (call : Call α) : Option (Run α) :=
  match r.queue,call with
  | none,_ => some r
  | some q,.push answers event => do
    let (ok,given,q) ← q.push answers event
    return ⟨some q,r.given ++ given.toList,r.taken ++ if ok then event.toList else []⟩
  | some q,.flush answers => do
    let (_,given,q) ← q.flush answers
    return ⟨some q,r.given ++ given.toList,r.taken⟩

/-- Calls one after the other; there is no result when one of them leaves a batch or its memory. -/
def run (r : Run α) (calls : List (Call α)) : Option (Run α) := calls.foldlM step r

/-- The spans that wait. -/
def Queue.waiting (q : Queue α) : List α := (q.currentBatch.map Batch.spans).getD []

/-- The current batch. -/
def Run.current (r : Run α) : List α := (r.queue.map Queue.waiting).getD []

/-- The spans of the pushes. -/
def pushedBy (calls : List (Call α)) : List α :=
  calls.flatMap fun
    | .push _ event => event.toList
    | .flush _ => []

/-! ### What holds between calls -/

/-- A queue with a batch of its size. -/
structure Queue.Ready (q : Queue α) (b : ℕ) (waiting : List α) : Prop where
  pos : 0 < b
  size : q.batchSize = b
  batch : ∃ now, q.currentBatch = some ⟨b,waiting,now⟩
  fits : waiting.length ≤ b

lemma Queue.create_ready {b : ℕ} {timeout now : UInt64} {q : Queue α}
    (h : Queue.create b timeout now = some q) : q.Ready b [] := by
  unfold Queue.create at h
  split_ifs at h with hzero
  cases h
  exact ⟨by omega,rfl,⟨now,rfl⟩,Nat.zero_le _⟩

variable {q : Queue α} {b : ℕ} {waiting : List α}

/-- Flushing gives all that waits to the encoder, unless nothing does. -/
theorem Queue.Ready.flush (h : q.Ready b waiting) (answers : Answers) :
    ∃ ok q', q.flush answers = some (ok,if waiting = [] then none else some waiting,q') ∧
      q'.Ready b [] := by
  obtain ⟨now,hbatch⟩ := h.batch
  have hnew : Queue.Ready (α := α)
      { q with currentBatch := some (Batch.create q.batchSize answers.started) } b [] :=
    ⟨h.pos,h.size,⟨_,by rw [Batch.create,h.size]⟩,Nat.zero_le _⟩
  unfold Queue.flush
  rw [hbatch,Option.map_some]
  by_cases hempty : waiting = []
  · refine ⟨true,_,?_,hnew⟩
    simp [hempty]
  · have hlen : waiting.length ≠ 0 := mt List.length_eq_zero_iff.mp hempty
    simp only [if_neg hlen,if_neg hempty]
    split_ifs
    · exact ⟨_,_,rfl,hnew⟩
    · exact ⟨_,_,rfl,hnew⟩

lemma Queue.Ready.enqueue (h : q.Ready b waiting) (hroom : waiting.length < b) (event : α) :
    ∃ q', q.enqueue event = some q' ∧ q'.Ready b (waiting ++ [event]) := by
  obtain ⟨now,hbatch⟩ := h.batch
  refine ⟨{ q with currentBatch := some ⟨b,waiting ++ [event],now⟩ },?_,h.pos,h.size,⟨now,rfl⟩,?_⟩
  · simp [Queue.enqueue,hbatch,Batch.put,hroom]
  · rw [List.length_append,List.length_singleton]
    omega

/-- A push takes the span behind what waits, of which it may give away all. -/
theorem Queue.Ready.push (h : q.Ready b waiting) (answers : Answers) (event : α) :
    ∃ given q' waiting', q.push answers (some event) = some (true,given,q') ∧
      q'.Ready b (waiting' ++ [event]) ∧ given.toList.flatten ++ waiting' = waiting ∧
      ∀ batch ∈ given, batch = waiting ∧ batch ≠ [] := by
  obtain ⟨now,hbatch⟩ := h.batch
  simp only [Queue.push,hbatch]
  split_ifs with hdue
  · obtain ⟨ok,q₁,hflush,hready⟩ := h.flush answers
    obtain ⟨q₂,henqueue,hready'⟩ := hready.enqueue h.pos event
    refine ⟨if waiting = [] then none else some waiting,q₂,[],by simp [hflush,henqueue],hready',?_,?_⟩
    · split_ifs with hempty
      · simp [hempty]
      · simp
    · intro batch hmem
      split_ifs at hmem with hempty
      · cases hmem
      · cases hmem
        exact ⟨rfl,hempty⟩
  · have hroom : waiting.length < b := by
      by_contra hfull
      exact hdue (.inl (Nat.le_of_not_lt hfull))
    obtain ⟨q₁,henqueue,hready⟩ := h.enqueue hroom event
    exact ⟨none,q₁,waiting,by simp [henqueue],hready,rfl,fun batch hmem => by cases hmem⟩

/-- What a run keeps: batches are neither empty nor too large, and nothing is lost or moved. -/
structure Run.Orderly (r : Run α) (b : ℕ) : Prop where
  ready : ∀ q, r.queue = some q → ∃ waiting, q.Ready b waiting
  batches : ∀ batch ∈ r.given, batch ≠ [] ∧ batch.length ≤ b
  order : r.given.flatten ++ r.current = r.taken

lemma Queue.Ready.waiting_eq (h : q.Ready b waiting) : q.waiting = waiting := by
  obtain ⟨now,hbatch⟩ := h.batch
  rw [Queue.waiting,hbatch]
  rfl

lemma start_orderly (b : ℕ) (timeout now : UInt64) : (start b timeout now : Run α).Orderly b where
  ready q hq := ⟨[],Queue.create_ready hq⟩
  batches := List.forall_mem_nil _
  order := by
    cases hq : (Queue.create b timeout now : Option (Queue α)) with
    | none => simp [start,Run.current,hq]
    | some q => simp [start,Run.current,hq,(Queue.create_ready hq).waiting_eq]

/-- The queue after a call that gave away `given` and took `taken`. -/
theorem Run.Orderly.next {r : Run α} (h : r.Orderly b) (hq : r.queue = some q)
    (hready : q.Ready b waiting) {q' : Queue α} {waiting' : List α} (hready' : q'.Ready b waiting')
    (given : Option (List α)) (taken : List α) (horder : given.toList.flatten ++ waiting' = waiting ++ taken)
    (hgiven : ∀ batch ∈ given, batch = waiting ∧ batch ≠ []) :
    (⟨some q',r.given ++ given.toList,r.taken ++ taken⟩ : Run α).Orderly b where
  ready q hq := ⟨waiting',Option.some.inj hq ▸ hready'⟩
  batches := by
    rw [List.forall_mem_append]
    refine ⟨h.batches,fun batch hmem => ?_⟩
    obtain ⟨rfl,hne⟩ := hgiven batch (Option.mem_toList.mp hmem)
    exact ⟨hne,hready.fits⟩
  order := by
    have hbefore : r.given.flatten ++ waiting = r.taken := by
      rw [← h.order,Run.current,hq,Option.map_some,Option.getD_some,hready.waiting_eq]
    calc (r.given ++ given.toList).flatten ++ q'.waiting
        = r.given.flatten ++ (given.toList.flatten ++ waiting') := by
          rw [hready'.waiting_eq,List.flatten_append,List.append_assoc]
      _ = r.taken ++ taken := by rw [horder,← List.append_assoc,hbefore]

/-- A call takes the spans it pushes. -/
theorem Run.Orderly.step {r : Run α} (h : r.Orderly b) (call : Call α) :
    ∃ r', SpanQueue.step r call = some r' ∧ r'.Orderly b ∧ r'.queue.isSome = r.queue.isSome ∧
      r'.taken = r.taken ++ if r.queue.isSome then pushedBy [call] else [] := by
  cases hq : r.queue with
  | none => exact ⟨r,by simp [SpanQueue.step,hq],h,by rw [hq],by simp⟩
  | some q =>
    obtain ⟨waiting,hready⟩ := h.ready q hq
    cases call with
    | push answers event =>
      cases event with
      | none =>
        have hpush : q.push answers none = some (false,none,q) := rfl
        have hnext := h.next hq hready hready none [] (by simp) (by simp)
        exact ⟨_,by simp [SpanQueue.step,hq,hpush],hnext,rfl,by simp [pushedBy]⟩
      | some event =>
        obtain ⟨given,q',waiting',hpush,hready',horder,hgiven⟩ := hready.push answers event
        have hnext := h.next hq hready hready' given [event]
          (by rw [← List.append_assoc,horder]) hgiven
        exact ⟨_,by simp [SpanQueue.step,hq,hpush],hnext,rfl,by simp [pushedBy]⟩
    | flush answers =>
      obtain ⟨ok,q',hflush,hready'⟩ := hready.flush answers
      have hnext := h.next hq hready hready'
        (if waiting = [] then none else some waiting) [] (by split_ifs with hw <;> simp [hw])
        (by
          intro batch hmem
          split_ifs at hmem with hempty
          · cases hmem
          · cases hmem
            exact ⟨rfl,hempty⟩)
      exact ⟨_,by simp [SpanQueue.step,hq,hflush],hnext,rfl,by simp [pushedBy]⟩

lemma Run.Orderly.run {r : Run α} (h : r.Orderly b) (calls : List (Call α)) :
    ∃ r', SpanQueue.run r calls = some r' ∧ r'.Orderly b ∧
      r'.taken = r.taken ++ if r.queue.isSome then pushedBy calls else [] := by
  induction calls generalizing r with
  | nil => exact ⟨r,rfl,h,by simp [pushedBy]⟩
  | cons call calls ih =>
    obtain ⟨r₁,hstep,h₁,hsome,htaken⟩ := h.step call
    obtain ⟨r₂,hrun,h₂,htaken'⟩ := ih h₁
    refine ⟨r₂,?_,h₂,?_⟩
    · rw [SpanQueue.run,List.foldlM_cons,hstep]
      exact hrun
    · rw [htaken',htaken,hsome,List.append_assoc]
      split_ifs
      · simp [pushedBy]
      · rfl

/-- The batches that the encoder gets are neither empty nor larger than the batch size; one after the
other and with the spans that wait they are the spans that were pushed. No slot behind a batch is
written. Without a timeout there is no queue and nothing is taken. -/
theorem run_batches_inOrder (batchSize : ℕ) (hsize : 1 ≤ batchSize) (batchTimeout now : UInt64)
    (calls : List (Call α)) :
    ∃ r, run (start batchSize batchTimeout now) calls = some r ∧
      (∀ batch ∈ r.given, batch ≠ [] ∧ batch.length ≤ batchSize) ∧
      r.given.flatten ++ r.current = r.taken ∧
      r.taken = if batchTimeout = 0 then [] else pushedBy calls := by
  obtain ⟨r,hrun,h,htaken⟩ := (start_orderly batchSize batchTimeout now).run calls
  refine ⟨r,hrun,h.batches,h.order,?_⟩
  have hcreated : (Queue.create batchSize batchTimeout now : Option (Queue α)).isSome =
      decide (batchTimeout ≠ 0) := by
    have hpos : batchSize ≠ 0 := by omega
    unfold Queue.create
    by_cases htimeout : batchTimeout = 0
    · simp [htimeout]
    · simp [htimeout,hpos]
  rw [htaken]
  simp [start,hcreated]

/-- Three spans and batches of two. -/
theorem run_batches_inOrder_three :
    let answers : Answers := ⟨1,1,true,true⟩
    let calls := [Call.push answers (some 1),.push answers (some 2),.push answers (some 3)]
    ∃ r : Run ℕ, run (start 2 5 0) calls = some r ∧ r.given.flatten ++ r.current = [1,2,3] := by
  intro answers calls
  obtain ⟨r,hrun,-,horder,htaken⟩ := run_batches_inOrder 2 (by decide) 5 0 calls
  exact ⟨r,hrun,by rw [horder,htaken]; rfl⟩

end PhpAgent.SpanQueue

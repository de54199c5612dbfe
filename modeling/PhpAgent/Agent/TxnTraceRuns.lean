import PhpAgent.Agent.TxnTrace

/-! Accepts and creations in any order on one transaction. A transaction is closed to further
accepts once one of them has succeeded, which sets the inbound flag, or a creation has, which is
known by its metric. -/
namespace PhpAgent

open NrDistributedTrace (convertW3cHeadersTraceparent convertW3cHeadersTracestate
  convertW3cHeadersToObject acceptInboundW3cPayload)

/-! ### Converted headers -/

section Converted
variable {regex : TraceRegex} {nearest : ℚ≥0 → Double}

/-- A trace parent that is read has both identifiers. -/
theorem convertW3cHeadersTraceparent_ids {traceparent : Option Bytes} {parent : NrObj}
    (h : convertW3cHeadersTraceparent regex traceparent = .ok parent) :
    ∃ spanId traceId, parent.getHashString "parent_id" = some spanId ∧
      parent.getHashString "trace_id" = some traceId := by
  unfold NrDistributedTrace.convertW3cHeadersTraceparent at h
  split at h
  · next version traceId parentId traceFlags added heq =>
    split_ifs at h
    rw [← Except.ok.inj h]
    refine ⟨parentId,traceId,?_,?_⟩
    · simp only [NrObj.getHashString,NrObj.getHashValue]
      rw [NrHash.get?_set_ne (by decide),NrHash.get?_set_self (by decide)]
      rfl
    · simp only [NrObj.getHashString,NrObj.getHashValue]
      rw [NrHash.get?_set_ne (by decide),NrHash.get?_set_ne (by decide),
        NrHash.get?_set_self (by decide)]
      rfl
  · contradiction

lemma get?_setVendors (obj : NrHash) (forwarded tracingVendors : Option Bytes) :
    (NrDistributedTrace.setVendors obj forwarded tracingVendors).get? (ascii "traceparent") =
      obj.get? (ascii "traceparent") := by
  unfold NrDistributedTrace.setVendors
  split_ifs
  · rfl
  · rw [NrHash.get?_setString_ne (by decide),NrHash.get?_setString_ne (by decide)]

/-- Reading the trace state leaves the trace parent where it is. -/
theorem convertW3cHeadersTracestate_traceparent (obj : NrHash)
    (tracestate trustedAccountKey : Option Bytes) :
    (convertW3cHeadersTracestate regex nearest obj tracestate trustedAccountKey).2.get?
      (ascii "traceparent") = obj.get? (ascii "traceparent") := by
  unfold NrDistributedTrace.convertW3cHeadersTracestate
  split
  · simp only
    split_ifs
    · rfl
    · exact get?_setVendors ..
    · split
      · exact get?_setVendors ..
      · rw [NrHash.get?_set_ne (by decide)]
        exact get?_setVendors ..
  · rfl

/-- Headers that could be converted are accepted. -/
theorem acceptInboundW3cPayload_of_converted {traceparent tracestate trustedAccountKey : Option Bytes}
    {headers : NrObj}
    (h : (convertW3cHeadersToObject regex nearest traceparent tracestate trustedAccountKey).2 =
      some headers) (dt : NrDistributedTrace) (transportType : Option Bytes) :
    ∃ dt', acceptInboundW3cPayload (some dt) (some headers) transportType = .ok dt' := by
  unfold NrDistributedTrace.convertW3cHeadersToObject at h
  split at h
  · simp at h
  · next parent hparent =>
    obtain ⟨spanId,traceId,hspan,htrace⟩ := convertW3cHeadersTraceparent_ids hparent
    have hget : headers.getHashValue "traceparent" = some parent := by
      rw [← Option.some_inj.mp h]
      simp only [NrObj.getHashValue]
      rw [convertW3cHeadersTracestate_traceparent,NrHash.get?_set_self (by decide)]
    simp only [NrDistributedTrace.acceptInboundW3cPayload,hget,hspan,htrace]
    exact ⟨_,rfl⟩

end Converted

namespace TraceTxn

variable {env : TraceEnv} {txn txn' txn'' : TraceTxn}

/-! ### One call -/

/-- Only metrics were added. -/
structure OnlyCounts (env : TraceEnv) (txn txn' : TraceTxn) : Prop where
  trace : txn'.distributedTrace = txn.distributedTrace
  metrics : ∀ name, txn.unscopedMetrics.Has env.hash name → txn'.unscopedMetrics.Has env.hash name

lemma OnlyCounts.refl (txn : TraceTxn) : OnlyCounts env txn txn := ⟨rfl,fun _ h => h⟩

lemma onlyCounts_forceSingleCount (txn : TraceTxn) (name : Bytes) :
    OnlyCounts env txn (txn.forceSingleCount env name) :=
  ⟨rfl,fun _ h => h.forceAdd name 0⟩

lemma onlyCounts_countError (txn : TraceTxn) (e : Option Bytes) :
    OnlyCounts env txn (txn.countError env e) := by
  cases e with
  | none => exact OnlyCounts.refl txn
  | some e => exact onlyCounts_forceSingleCount txn e

/-- No accept will succeed any more. -/
def Closed (env : TraceEnv) (txn : TraceTxn) : Prop :=
  txn.inboundIsSet ∨ txn.createSuccessful env

lemma createSuccessful_iff :
    txn.createSuccessful env ↔ txn.unscopedMetrics.Has env.hash DtMetric.createSuccess ∨
      txn.unscopedMetrics.Has env.hash DtMetric.w3cCreateSuccess := by
  simp only [createSuccessful,Bool.or_eq_true,NrmTable.Has]

lemma Closed.onlyCounts (h : Closed env txn) (hcounts : OnlyCounts env txn txn') :
    Closed env txn' := by
  rcases h with h | h
  · left
    unfold inboundIsSet at *
    rw [hcounts.trace]
    exact h
  · right
    rw [createSuccessful_iff] at *
    exact h.imp (hcounts.metrics _) (hcounts.metrics _)

lemma createW3cTraceparentHeader_spec (txn : TraceTxn) (spanId : Option Bytes) (guid : Bytes) :
    OnlyCounts env txn (txn.createW3cTraceparentHeader env spanId guid).2 ∧
      ((txn.createW3cTraceparentHeader env spanId guid).1.isSome →
        Closed env (txn.createW3cTraceparentHeader env spanId guid).2) := by
  unfold createW3cTraceparentHeader
  simp only
  split
  · refine ⟨onlyCounts_forceSingleCount txn _,fun _ => .inr ?_⟩
    exact createSuccessful_iff.mpr (.inr (NrmTable.has_forceAdd ..))
  · exact ⟨onlyCounts_forceSingleCount txn _,by simp⟩

lemma createDistributedTracePayload_spec (txn : TraceTxn) (segment : Option TraceSegment)
    (now : UInt64) :
    OnlyCounts env txn (txn.createDistributedTracePayload env segment now).2 ∧
      ((txn.createDistributedTracePayload env segment now).1.isSome →
        Closed env (txn.createDistributedTracePayload env segment now).2) := by
  unfold createDistributedTracePayload
  simp only
  split
  · refine ⟨onlyCounts_forceSingleCount txn _,fun _ => .inr ?_⟩
    exact createSuccessful_iff.mpr (.inl (NrmTable.has_forceAdd ..))
  · exact ⟨onlyCounts_forceSingleCount txn _,by simp⟩

/-- A header is refused with nothing but metrics added, or accepted with the inbound flag set. -/
def Answered (env : TraceEnv) (txn : TraceTxn) (r : Bool × TraceTxn) : Prop :=
  (r.1 = false ∧ OnlyCounts env txn r.2) ∨ (r.1 = true ∧ r.2.inboundIsSet)

lemma acceptNewRelicHeader_answered (txn : TraceTxn) (nrHeader transportType : Option Bytes) :
    Answered env txn (txn.acceptNewRelicHeader env nrHeader transportType) := by
  unfold acceptNewRelicHeader
  split
  · exact .inl ⟨rfl,OnlyCounts.refl txn⟩
  · split
    · exact .inl ⟨rfl,onlyCounts_forceSingleCount txn _⟩
    · simp only
      split_ifs
      · split
        · exact .inl ⟨rfl,onlyCounts_forceSingleCount txn _⟩
        · next dt' hdt' =>
          refine .inr ⟨rfl,?_⟩
          simp [inboundIsSet,NrDistributedTrace.acceptInboundPayload_set hdt']
      · exact .inl ⟨rfl,onlyCounts_forceSingleCount txn _⟩

lemma acceptW3cTraceContextHeaders_answered (txn : TraceTxn)
    (traceparent tracestate transportType : Option Bytes) :
    Answered env txn (txn.acceptW3cTraceContextHeaders env traceparent tracestate transportType) := by
  unfold acceptW3cTraceContextHeaders
  split
  · exact .inl ⟨rfl,OnlyCounts.refl txn⟩
  · next dt hdt =>
    split_ifs
    · simp only
      split
      · exact .inl ⟨rfl,onlyCounts_countError txn _⟩
      · next headers hheaders =>
        obtain ⟨dt',hdt'⟩ := acceptInboundW3cPayload_of_converted hheaders dt transportType
        refine .inr ⟨rfl,?_⟩
        simp only [hdt']
        simp [inboundIsSet,forceSingleCount,countError,
          NrDistributedTrace.inbound_handleInboundW3cSampledFlag,
          NrDistributedTrace.acceptInboundW3cPayload_set hdt']
    · exact .inl ⟨rfl,OnlyCounts.refl txn⟩

lemma inboundIsSet_acceptSucceeded (txn : TraceTxn) (transportType : Option Bytes) :
    (txn.acceptSucceeded env transportType).inboundIsSet = txn.inboundIsSet := by
  unfold inboundIsSet
  cases h : txn.distributedTrace <;> simp [acceptSucceeded,createDtMetrics,forceSingleCount,h]

/-- What an accept does: it returns false and adds metrics, or the transaction was open and is
closed now. -/
theorem acceptDistributedTracePayload_spec (txn : TraceTxn) (headerMap : HeaderMap)
    (transportType : Option Bytes) :
    ((txn.acceptDistributedTracePayload env headerMap transportType).1 = false ∧
      OnlyCounts env txn (txn.acceptDistributedTracePayload env headerMap transportType).2) ∨
    ((txn.acceptDistributedTracePayload env headerMap transportType).1 = true ∧ ¬Closed env txn ∧
      Closed env (txn.acceptDistributedTracePayload env headerMap transportType).2) := by
  unfold acceptDistributedTracePayload
  simp only
  by_cases hdt : txn.distributedTrace = none
  · rw [if_pos hdt]
    exact .inl ⟨rfl,OnlyCounts.refl txn⟩
  rw [if_neg hdt]
  by_cases henabled : txn.options.distributedTracingEnabled
  swap
  · rw [if_pos henabled]
    exact .inl ⟨rfl,onlyCounts_forceSingleCount txn _⟩
  rw [if_neg (not_not.mpr henabled)]
  by_cases hset : txn.inboundIsSet
  · rw [if_pos hset]
    exact .inl ⟨rfl,onlyCounts_forceSingleCount txn _⟩
  rw [if_neg hset]
  by_cases hcreated : txn.createSuccessful env
  · rw [if_pos hcreated]
    exact .inl ⟨rfl,onlyCounts_forceSingleCount txn _⟩
  rw [if_neg hcreated]
  have hopen : ¬Closed env txn := by
    rintro (h | h)
    · exact hset h
    · exact hcreated h
  generalize hr : (if (headerMap.lookup (ascii "traceparent")).isSome then
    txn.acceptW3cTraceContextHeaders env (headerMap.lookup (ascii "traceparent"))
      (headerMap.lookup (ascii "tracestate")) transportType
    else txn.acceptNewRelicHeader env (headerMap.lookup (ascii "newrelic")) transportType) = r
  have hanswered : Answered env txn r := by
    rw [← hr]
    split_ifs
    · exact acceptW3cTraceContextHeaders_answered ..
    · exact acceptNewRelicHeader_answered ..
  rcases hanswered with ⟨hfalse,hcounts⟩ | ⟨htrue,hinbound⟩
  · simp [hfalse,hcounts]
  · simp only [htrue,not_true,if_false]
    refine .inr ⟨trivial,hopen,.inl ?_⟩
    rw [inboundIsSet_acceptSucceeded]
    exact hinbound

end TraceTxn

/-! ### Runs -/

/-- The calls on a transaction. What a creation takes from the segment, the random identifier and
the time are inputs of the call. -/
inductive TraceCall
  | accept (headerMap : TraceTxn.HeaderMap) (transportType : Option Bytes)
  | createTraceparent (spanId : Option Bytes) (guid : Bytes)
  | createTracestate (spanId : Option Bytes) (now : UInt64)
  | createPayload (segment : Option TraceSegment) (now : UInt64)

namespace TraceCall

/-- Whether the call returns true or a text, and the transaction after it. -/
def perform (env : TraceEnv) : TraceCall → TraceTxn → Bool × TraceTxn
  | accept headerMap transportType, txn =>
    txn.acceptDistributedTracePayload env headerMap transportType
  | createTraceparent spanId guid, txn =>
    let (header,txn) := txn.createW3cTraceparentHeader env spanId guid
    (header.isSome,txn)
  | createTracestate spanId now, txn => ((txn.createW3cTracestateHeader spanId now).isSome,txn)
  | createPayload segment now, txn =>
    let (text,txn) := txn.createDistributedTracePayload env segment now
    (text.isSome,txn)

def isAccept : TraceCall → Bool
  | accept .. => true
  | _ => false

/-- The creations that are counted. A trace state is only created along with a trace parent. -/
def isCreation : TraceCall → Bool
  | createTraceparent .. => true
  | createPayload .. => true
  | _ => false

end TraceCall

/-- A call in a run. -/
structure TraceStep where
  call : TraceCall
  succeeded : Bool
  before : TraceTxn
  after : TraceTxn

namespace TraceStep

def accepts (s : TraceStep) : Bool := s.call.isAccept && s.succeeded
def refuses (s : TraceStep) : Bool := s.call.isAccept && !s.succeeded
def creates (s : TraceStep) : Bool := s.call.isCreation && s.succeeded

end TraceStep

namespace TraceTxn

variable {env : TraceEnv} {txn : TraceTxn}

/-- The steps of a sequence of calls. -/
def steps (env : TraceEnv) : TraceTxn → List TraceCall → List TraceStep
  | _, [] => []
  | txn, call :: calls =>
    let (succeeded,txn') := call.perform env txn
    ⟨call,succeeded,txn,txn'⟩ :: steps env txn' calls

/-- A transaction that is closed refuses and stays closed. -/
theorem Closed.perform (h : Closed env txn) (call : TraceCall) :
    Closed env (call.perform env txn).2 ∧ (call.isAccept → (call.perform env txn).1 = false) := by
  cases call with
  | accept headerMap transportType =>
    rcases acceptDistributedTracePayload_spec txn headerMap transportType with
      ⟨hfalse,hcounts⟩ | ⟨-,hopen,-⟩
    · exact ⟨h.onlyCounts hcounts,fun _ => hfalse⟩
    · exact absurd h hopen
  | createTraceparent spanId guid =>
    exact ⟨h.onlyCounts (createW3cTraceparentHeader_spec txn spanId guid).1,by simp [TraceCall.isAccept]⟩
  | createTracestate spanId now => exact ⟨h,by simp [TraceCall.isAccept]⟩
  | createPayload segment now =>
    exact ⟨h.onlyCounts (createDistributedTracePayload_spec txn segment now).1,
      by simp [TraceCall.isAccept]⟩

/-- An accept or a creation that succeeds closes the transaction. -/
theorem closed_perform {call : TraceCall} (hcall : call.isAccept ∨ call.isCreation)
    (h : (call.perform env txn).1 = true) : Closed env (call.perform env txn).2 := by
  cases call with
  | accept headerMap transportType =>
    rcases acceptDistributedTracePayload_spec txn headerMap transportType with
      ⟨hfalse,-⟩ | ⟨-,-,hclosed⟩
    · exact absurd (h.symm.trans hfalse) (by decide)
    · exact hclosed
  | createTraceparent spanId guid => exact (createW3cTraceparentHeader_spec txn spanId guid).2 h
  | createTracestate spanId now => simp [TraceCall.isAccept,TraceCall.isCreation] at hcall
  | createPayload segment now => exact (createDistributedTracePayload_spec txn segment now).2 h

lemma perform_refused {call : TraceCall} (hcall : call.isAccept)
    (h : (call.perform env txn).1 = false) :
    (call.perform env txn).2.distributedTrace = txn.distributedTrace := by
  cases call with
  | accept headerMap transportType =>
    rcases acceptDistributedTracePayload_spec txn headerMap transportType with
      ⟨-,hcounts⟩ | ⟨htrue,-,-⟩
    · exact hcounts.trace
    · exact absurd (htrue.symm.trans h) (by decide)
  | createTraceparent spanId guid => simp [TraceCall.isAccept] at hcall
  | createTracestate spanId now => simp [TraceCall.isAccept] at hcall
  | createPayload segment now => simp [TraceCall.isAccept] at hcall

lemma Closed.steps (h : Closed env txn) (calls : List TraceCall) :
    ∀ s ∈ steps env txn calls, s.accepts = false := by
  induction calls generalizing txn with
  | nil => simp [TraceTxn.steps]
  | cons call calls ih =>
    obtain ⟨hclosed,hrefuse⟩ := h.perform call
    simp only [TraceTxn.steps,List.mem_cons,forall_eq_or_imp]
    refine ⟨?_,ih hclosed⟩
    cases hcall : call.isAccept
    · simp [TraceStep.accepts,hcall]
    · simp [TraceStep.accepts,hrefuse hcall]

/-- In every run at most one accept returns true, none does after a successful creation, and an
accept that returns false leaves the distributed trace as it was. -/
theorem accept_once (env : TraceEnv) (txn : TraceTxn) (calls : List TraceCall) :
    (steps env txn calls).countP TraceStep.accepts ≤ 1 ∧
      (steps env txn calls).Pairwise (fun s s' => s.creates → ¬s'.accepts) ∧
      ∀ s ∈ steps env txn calls, s.refuses →
        s.after.distributedTrace = s.before.distributedTrace := by
  induction calls generalizing txn with
  | nil => simp [steps]
  | cons call calls ih =>
    obtain ⟨hcount,hpairs,hrefused⟩ := ih (call.perform env txn).2
    -- what the first call closes stays closed for the others
    have hlater : call.isAccept ∨ call.isCreation → (call.perform env txn).1 = true →
        ∀ s ∈ steps env (call.perform env txn).2 calls, s.accepts = false :=
      fun hcall hsucceeded => (closed_perform hcall hsucceeded).steps calls
    simp only [steps,List.countP_cons,List.pairwise_cons,List.mem_cons,forall_eq_or_imp]
    refine ⟨?_,⟨?_,hpairs⟩,?_,hrefused⟩
    · split_ifs with haccepts
      · simp only [TraceStep.accepts,Bool.and_eq_true] at haccepts
        have hnone := List.countP_eq_zero.mpr fun s hs =>
          Bool.eq_false_iff.mp (hlater (.inl haccepts.1) haccepts.2 s hs)
        omega
      · omega
    · intro s hs hcreates
      simp only [TraceStep.creates,Bool.and_eq_true] at hcreates
      rw [hlater (.inr hcreates.1) hcreates.2 s hs]
      exact Bool.false_ne_true
    · intro hrefuses
      simp only [TraceStep.refuses,Bool.and_eq_true,Bool.not_eq_true'] at hrefuses
      exact perform_refused hrefuses.1 hrefuses.2

end TraceTxn
end PhpAgent

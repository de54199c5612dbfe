import PhpAgent.Agent.TraceContextRead

/-! What fields that are left out of a New Relic tracestate entry do to a distributed trace. -/
namespace PhpAgent

open Json (code digitsValue)

namespace NrDistributedTrace

/-! ### The fields of the entry -/

section Fields
variable (regex : TraceRegex)

/-- The fields of the New Relic entry that the converter reads. -/
def nrEntryFields (tracestate trustedAccountKey : Option Bytes) : Option (List Bytes) := do
  let tracestate ← tracestate
  let trustedAccountKey ← trustedAccountKey
  let headerKey := buffer260 (trustedAccountKey ++ atNr)
  let headerValue := (separate headerKey (strsplit tracestate (code ',')) ([],none,none)).1
  if headerValue = [] then none else regex.tracestate headerKey headerValue

end Fields

/-- Neither zero nor one. -/
def sampledInvalid (sampled : Bytes) : Bool := digitsValue sampled ≠ 0 && digitsValue sampled ≠ 1

/-- Not a number as a whole. -/
def priorityInvalid (nearest : ℚ≥0 → Double) (priority : Bytes) : Bool := (strtod nearest priority).2 ≠ []

/-- Optional fields that are empty or invalid leave the trace as it was. -/
structure OmittedKept (nearest : ℚ≥0 → Double) (spanId txnId sampled priority : Bytes)
    (dt dt' : NrDistributedTrace) : Prop where
  spanId : spanId = [] → dt'.inbound.trustedParentId = dt.inbound.trustedParentId
  txnId : txnId = [] → dt'.inbound.txnId = dt.inbound.txnId
  sampled : sampled = [] ∨ sampledInvalid sampled → dt'.sampled = dt.sampled
  priority : priority = [] ∨ priorityInvalid nearest priority → dt'.priority = dt.priority

/-- The flag that an empty or invalid field is read as. -/
def readsSampled (sampled : Bytes) : Bool := sampled = [] || toInt (strtol sampled) ≠ 0

lemma getHashDouble_priority (nearest : ℚ≥0 → Double)
    (version parentType account app span txn sampled priority timestamp : Bytes)
    (homitted : priority = [] ∨ priorityInvalid nearest priority) {o : NrObj}
    (h : entryObject nearest
      [version,parentType,account,app,span,txn,sampled,priority,timestamp] = some o) :
    o.getHashDouble "priority" = none := by
  obtain rfl := Option.some.inj h
  have hleft : priority = [] ∨ (strtod nearest priority).2 ≠ [] := by
    simpa [priorityInvalid] using homitted
  simp only [NrObj.getHashDouble,NrObj.getHashValue]
  rw [NrHash.get?_set_ne (by decide)]
  unfold setPriority
  simp only
  rw [if_pos hleft,get?_setNonEmpty_ne (by decide),get?_setNonEmpty_ne (by decide),
    get?_setNonEmpty_ne (by decide),NrHash.get?_set_ne (by decide),NrHash.get?_set_ne (by decide),
    NrHash.get?_set_ne (by decide),NrHash.get?_set_ne (by decide)]
  rfl

/-! ### Headers that are accepted -/

section Accepted
variable {regex : TraceRegex} {nearest : ℚ≥0 → Double} {traceparent tracestate trustedAccountKey : Option Bytes}

/-- The converted headers have the object of the entry. -/
theorem getHashValue_tracestate {e : Option Bytes} {headers : NrObj} {fields : List Bytes} {entry : NrObj}
    (hconvert : convertW3cHeadersToObject regex nearest traceparent tracestate trustedAccountKey =
      (e,some headers))
    (hfields : nrEntryFields regex tracestate trustedAccountKey = some fields)
    (hentry : entryObject nearest fields = some entry) :
    headers.getHashValue "tracestate" = some entry := by
  obtain ⟨state,rfl⟩ : ∃ state, tracestate = some state := by
    cases tracestate with
    | none => cases hfields
    | some state => exact ⟨state,rfl⟩
  obtain ⟨key,rfl⟩ : ∃ key, trustedAccountKey = some key := by
    cases trustedAccountKey with
    | none => cases hfields
    | some key => exact ⟨key,rfl⟩
  simp only [nrEntryFields,Option.bind_eq_bind,Option.bind_some] at hfields
  split_ifs at hfields with hvalue
  have hvendors : strsplit state (code ',') ≠ [] := by
    intro hnil
    rw [hnil] at hvalue
    exact hvalue rfl
  unfold convertW3cHeadersToObject at hconvert
  cases hparent : convertW3cHeadersTraceparent regex traceparent with
  | error err =>
    rw [hparent] at hconvert
    cases hconvert
  | ok parent =>
    simp only [hparent,convertW3cHeadersTracestate] at hconvert
    rw [if_neg hvendors,if_neg hvalue,hfields,Option.bind_some,hentry] at hconvert
    cases hconvert
    simp only [NrObj.getHashValue]
    rw [NrHash.get?_set_self (by decide)]

/-- What the acceptance makes of the optional fields. -/
theorem accepted_fields {headers entry : NrObj} (hstate : headers.getHashValue "tracestate" = some entry)
    {dt dt' : NrDistributedTrace} {transportType : Option Bytes}
    (haccept : acceptInboundW3cPayload (some dt) (some headers) transportType = .ok dt') :
    dt'.inbound.trustedParentId = (dt.acceptTracestate entry).inbound.trustedParentId ∧
      dt'.inbound.txnId = (dt.acceptTracestate entry).inbound.txnId ∧
      dt'.sampled = (dt.acceptTracestate entry).sampled ∧
      dt'.priority = (dt.acceptTracestate entry).priority := by
  unfold acceptInboundW3cPayload at haccept
  simp only at haccept
  split at haccept
  · contradiction
  · split at haccept
    · rw [hstate,Option.elim_some] at haccept
      obtain rfl := Except.ok.inj haccept
      exact ⟨rfl,rfl,rfl,rfl⟩
    · contradiction

/-- Omitted fields change nothing exactly when the trace had the sampled flag that an empty or invalid
one is read as. -/
theorem omittedKept_iff {e : Option Bytes} {headers : NrObj}
    {version parentType account app span txn sampled priority timestamp : Bytes}
    (hconvert : convertW3cHeadersToObject regex nearest traceparent tracestate trustedAccountKey =
      (e,some headers))
    (hfields : nrEntryFields regex tracestate trustedAccountKey =
      some [version,parentType,account,app,span,txn,sampled,priority,timestamp])
    {dt dt' : NrDistributedTrace} {transportType : Option Bytes}
    (haccept : acceptInboundW3cPayload (some dt) (some headers) transportType = .ok dt') :
    OmittedKept nearest span txn sampled priority dt dt' ↔
      (sampled = [] ∨ sampledInvalid sampled → dt.sampled = readsSampled sampled) := by
  obtain ⟨entry,hentry,hread⟩ := entryObject_read nearest version parentType account app span txn sampled
    priority timestamp
  obtain ⟨hspan,htxn,hsampled,hpriority⟩ :=
    accepted_fields (getHashValue_tracestate hconvert hfields hentry) haccept
  have hflag : dt'.sampled = readsSampled sampled := by
    rw [hsampled,acceptTracestate,hread.sampled,readsSampled]
    by_cases hnil : sampled = [] <;> simp [hnil]
  constructor
  · intro hkept homitted
    rw [← hflag,hkept.sampled homitted]
  · intro hsame
    refine ⟨?_,?_,?_,?_⟩
    · rintro rfl
      rw [hspan,acceptTracestate,hread.span]
      rfl
    · rintro rfl
      rw [htxn,acceptTracestate,hread.txn]
      rfl
    · intro homitted
      rw [hflag,hsame homitted]
    · intro homitted
      have hnone := getHashDouble_priority nearest version parentType account app span txn sampled priority
        timestamp homitted hentry
      rw [hpriority,acceptTracestate,hnone]
      have hnot : ¬ (Double.finite true 1).IsPositive := by decide
      simp [hnot]

end Accepted

/-! ### An entry with only what is required -/

def bareParent : Bytes := ascii "00-0af7651916cd43dd8448eb211c80319c-b7ad6b7169203331-01"

/-- The sampled flag of this entry is empty, like the ids and the priority. -/
def bareState : Bytes := ascii "1@nr=0-0-2-3-----5"

/-- The headers of that entry as they are converted. -/
def bareHeaders : Option Bytes × Option NrObj :=
  convertW3cHeadersToObject pcre (Double.finite false) (some bareParent) (some bareState) (some (ascii "1"))

lemma bareHeaders_eq : ∃ headers, bareHeaders = (none,some headers) := by
  have herror : bareHeaders.1 = none := by decide
  have hsome : bareHeaders.2.isSome = true := by decide
  obtain ⟨headers,hheaders⟩ := Option.isSome_iff_exists.mp hsome
  exact ⟨headers,Prod.ext herror hheaders⟩

lemma nrEntryFields_bare : nrEntryFields pcre (some bareState) (some (ascii "1")) =
    some [ascii "0",ascii "0",ascii "2",ascii "3",[],[],[],[],ascii "5"] := by
  decide

/-- What becomes of the sampled flag of a trace. -/
def bareSampled (sampled : Bool) : Option Bool :=
  match bareHeaders.2 with
  | none => none
  | some headers =>
    match acceptInboundW3cPayload (some { create with sampled := sampled }) (some headers) none with
    | .ok dt => some dt.sampled
    | .error _ => none

lemma accepted_bare (sampled : Bool) : ∃ headers dt', bareHeaders = (none,some headers) ∧
    acceptInboundW3cPayload (some { create with sampled := sampled }) (some headers) none = .ok dt' ∧
      dt'.sampled = true := by
  obtain ⟨headers,hheaders⟩ := bareHeaders_eq
  have hsampled : bareSampled sampled = some true := by
    revert sampled
    decide
  unfold bareSampled at hsampled
  rw [hheaders] at hsampled
  cases haccept : acceptInboundW3cPayload (some { create with sampled := sampled }) (some headers) none with
  | error e =>
    simp only [haccept] at hsampled
    cases hsampled
  | ok dt' =>
    simp only [haccept,Option.some.injEq] at hsampled
    exact ⟨headers,dt',hheaders,haccept,hsampled⟩

/-- A trace that is sampled stays so. -/
theorem omittedKept_bare : ∃ headers dt', bareHeaders = (none,some headers) ∧
    acceptInboundW3cPayload (some { create with sampled := true }) (some headers) none = .ok dt' ∧
    OmittedKept (Double.finite false) [] [] [] [] { create with sampled := true } dt' := by
  obtain ⟨headers,dt',hheaders,haccept,-⟩ := accepted_bare true
  exact ⟨headers,dt',hheaders,haccept,
    (omittedKept_iff hheaders nrEntryFields_bare haccept).mpr fun _ => rfl⟩

/-- A trace that is not sampled becomes so. -/
theorem omitted_sampled : ¬ ∀ (tracestate trustedAccountKey : Option Bytes)
    (version parentType account app span txn sampled priority timestamp : Bytes) (headers : NrObj)
    (dt dt' : NrDistributedTrace) (transportType : Option Bytes),
      convertW3cHeadersToObject pcre (Double.finite false) (some bareParent) tracestate trustedAccountKey =
        (none,some headers) →
      nrEntryFields pcre tracestate trustedAccountKey =
        some [version,parentType,account,app,span,txn,sampled,priority,timestamp] →
      acceptInboundW3cPayload (some dt) (some headers) transportType = .ok dt' →
      OmittedKept (Double.finite false) span txn sampled priority dt dt' := by
  intro h
  obtain ⟨headers,dt',hheaders,haccept,hsampled⟩ := accepted_bare false
  have hkept := (h _ _ _ _ _ _ _ _ _ _ _ headers _ dt' none hheaders nrEntryFields_bare haccept).sampled
    (.inl rfl)
  rw [hsampled] at hkept
  cases hkept

end NrDistributedTrace
end PhpAgent

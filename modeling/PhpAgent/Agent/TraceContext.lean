import PhpAgent.Agent.DistributedTrace
import PhpAgent.Lib.Pattern

/-! W3C trace context headers, after `nr_distributed_trace.c`, with what they use of
`util_strings.c`. -/
namespace PhpAgent

open Json (code decimal digitsValue hexValue)

/-! ### Strings -/

def strip (b : Bytes) : Bytes := ((b.dropWhile isspace).reverse.dropWhile isspace).reverse

/-- `nr_strsplit` at one character, without empty pieces. -/
def strsplit (orig : Bytes) (delim : UInt8) : List Bytes :=
  if orig = [] then [[]] else ((orig.splitOn delim).map strip).filter (· ≠ [])

/-- `nr_str_append` with a comma. -/
def strAppend (dest src : Option Bytes) : Option Bytes :=
  match dest, src with
  | dest, none => dest
  | none, some src => some src
  | some dest, some src => some (dest ++ code ',' :: src)

/-- What a copy into a buffer of 260 bytes keeps. -/
def buffer260 (b : Bytes) : Bytes := b.take 259

/-- `strtol` of decimal digits. -/
def strtol (b : Bytes) : ℤ := toLong false (digitsValue b)

/-- `strtoull` of decimal digits, stored as a `long`. -/
def strtoull (b : Bytes) : ℤ := ((min (digitsValue b) (2^64-1) : ℕ) : ℤ).bmod (2^64)

/-- `strtol` of hexadecimal digits. -/
def strtolHex (b : Bytes) : ℤ := valueOf 16 b

/-- `strtod` of digits and dots, with what is left over. `nearest` rounds to a double. -/
def strtod (nearest : ℚ≥0 → Double) (b : Bytes) : Double × Bytes :=
  let whole := b.takeWhile Json.isDigit
  let rest := b.dropWhile Json.isDigit
  let fraction := if rest.head? = some (code '.') then rest.tail.takeWhile Json.isDigit else []
  let left := if rest.head? = some (code '.') then rest.tail.dropWhile Json.isDigit else rest
  if whole ++ fraction = [] then (.finite false 0,b)
  else (nearest (digitsValue (whole ++ fraction) / (10^fraction.length : ℕ)),left)

/-! ### Regular expressions -/

def isLowerHex (c : UInt8) : Bool := Json.isDigit c || (0x61 ≤ c && c ≤ 0x66)
def isNumeric (c : UInt8) : Bool := Json.isDigit c || c == code '.'

def dash : Pattern.Item UInt8 := .text [code '-']

/-- The end of the subject, or a last newline. -/
def atEnd (s : Bytes) : Bool := s = [] || s = [0x0a]

/-- The group `(-.*)?` at the end of a trace parent; a dot is no newline. -/
def additional (s : Bytes) : Option (Option Bytes) :=
  if s.head? = some (code '-') ∧ atEnd (s.dropWhile (· ≠ 0x0a)) then
    some (some (s.takeWhile (· ≠ 0x0a)))
  else if atEnd s then some none
  else none

def traceparentItems : List (Pattern.Item UInt8) :=
  [.field isLowerHex 2 (some 2),dash,.field isLowerHex 32 (some 32),dash,
    .field isLowerHex 16 (some 16),dash,.field isLowerHex 2 (some 2)]

def tracestateItems (headerKey : Bytes) : List (Pattern.Item UInt8) :=
  [.text headerKey,.field Json.isDigit 1 none,dash,.field Json.isDigit 1 none,dash,.field isalnum 1 none,dash,
    .field isalnum 1 none,dash,.field isalnum 0 none,dash,.field isalnum 0 none,dash,
    .field Json.isDigit 0 none,dash,.field isNumeric 0 none,dash,.field Json.isDigit 1 none]

/-- The two regular expressions: the four fields of a trace parent with what is added to them, and
the nine fields of a New Relic entry whose key is part of the expression. -/
structure TraceRegex where
  traceparent : Bytes → Option (List Bytes × Option Bytes)
  tracestate : Bytes → Bytes → Option (List Bytes)

/-- The expressions for keys without characters that have a meaning in them. -/
def pcre : TraceRegex where
  traceparent := Pattern.run additional traceparentItems
  tracestate headerKey s := (Pattern.run (fun _ => some ()) (tracestateItems headerKey) s).map Prod.fst

namespace NrDistributedTrace

/-! ### Writing -/

/-- `nr_priority_double_to_str`, which is `%.6f`. -/
def priorityDoubleToStr (d : Double) : Bytes := d.text 6

def atNr : Bytes := ascii "@nr="

/-- The values joined by dashes. -/
def dashed : List Bytes → Bytes
  | [] => []
  | [b] => b
  | b :: bs => b ++ code '-' :: dashed bs

/-- `nr_distributed_trace_create_w3c_tracestate_header` at the time `now`. -/
def createW3cTracestateHeader (dt : Option NrDistributedTrace) (spanId txnId : Option Bytes)
    (now : UInt64) : Option Bytes := do
  let dt ← dt
  let trustedAccountKey ← dt.trustedKey
  let accountId ← dt.accountId
  let appId ← dt.appId
  let sampled := if dt.sampled then ascii "1" else ascii "0"
  return trustedAccountKey ++ atNr ++ dashed [ascii "0",ascii "0",accountId,appId,spanId.getD [],
    txnId.getD [],sampled,priorityDoubleToStr dt.priority,decimal (now / timeDivisorMs).toNat]

/-- The trace id in lower case with zeros in front; the buffer has room for 32 digits. -/
def formattedTraceId (traceId : Bytes) : Bytes :=
  let tmp := traceId.map tolower
  if tmp.length < 32 then List.replicate (32-tmp.length) (code '0') ++ tmp else tmp.take 32

/-- `nr_distributed_trace_create_w3c_traceparent_header`. -/
def createW3cTraceparentHeader (traceId spanId : Option Bytes) (sampled : Bool) : Option Bytes := do
  let traceId ← traceId
  let spanId ← spanId
  let flags := if sampled then ascii "01" else ascii "00"
  return dashed [ascii "00",formattedTraceId traceId,spanId,flags]

/-! ### Reading -/

section Reading
variable (regex : TraceRegex) (nearest : ℚ≥0 → Double)

/-- `nr_distributed_trace_convert_w3c_headers_traceparent`. -/
def convertW3cHeadersTraceparent (traceparent : Option Bytes) : Except Bytes NrObj :=
  match traceparent.bind regex.traceparent with
  | some ([version,traceId,parentId,traceFlags],added) =>
    if version = ascii "ff" then .error DtMetric.w3cTraceparentParseException
    else if version = ascii "00" ∧ added ≠ none then .error DtMetric.w3cTraceparentParseException
    else if traceId = List.replicate 32 (code '0') then
      .error DtMetric.w3cTraceparentParseException
    else if parentId = List.replicate 16 (code '0') then
      .error DtMetric.w3cTraceparentParseException
    else
      .ok <| .hash <| (NrHash.set [] (ascii "version") (.string version))
        |>.set (ascii "trace_id") (.string traceId)
        |>.set (ascii "parent_id") (.string parentId)
        |>.set (ascii "trace_flags") (.int (strtolHex traceFlags))
  | _ => .error DtMetric.w3cTraceparentParseException

/-- The loop over the vendors: the New Relic entry, the others and their names. -/
def separate (headerKey : Bytes) :
    List Bytes → Bytes × Option Bytes × Option Bytes → Bytes × Option Bytes × Option Bytes
  | [], acc => acc
  | value :: vendors, (headerValue,forwarded,tracingVendors) =>
    if headerKey.isPrefixOf value then
      separate headerKey vendors (buffer260 value,forwarded,tracingVendors)
    else
      separate headerKey vendors (headerValue,strAppend forwarded (some value),
        strAppend tracingVendors (strsplit value (code '=')).head?)

def setNonEmpty (h : NrHash) (key : String) (value : Bytes) (o : NrObj) : NrHash :=
  if value = [] then h else h.set (ascii key) o

/-- The priority is left out when it is empty or not a number. -/
def setPriority (h : NrHash) (priority : Bytes) : NrHash :=
  let (value,left) := strtod nearest priority
  if priority = [] ∨ left ≠ [] then h else h.set (ascii "priority") (.double value)

/-- The object made of a New Relic entry. -/
def entryObject : List Bytes → Option NrObj
  | [version,parentType,accountId,appId,spanId,txnId,sampled,priority,timestamp] =>
    let h := (NrHash.set [] (ascii "version") (.int (toInt (strtol version))))
      |>.set (ascii "parent_type") (.int (toInt (strtol parentType)))
      |>.set (ascii "parent_account_id") (.string accountId)
      |>.set (ascii "parent_application_id") (.string appId)
    let h := setNonEmpty h "span_id" spanId (.string spanId)
    let h := setNonEmpty h "transaction_id" txnId (.string txnId)
    let h := setNonEmpty h "sampled" sampled (.int (toInt (strtol sampled)))
    let h := setPriority nearest h priority
    some (.hash (h.set (ascii "timestamp") (.long (strtoull timestamp))))
  | _ => none

def setVendors (obj : NrHash) (forwarded tracingVendors : Option Bytes) : NrHash :=
  if tracingVendors = none then obj
  else (obj.setString "tracingVendors" tracingVendors).setString "rawTracingVendors" forwarded

/-- `nr_distributed_trace_convert_w3c_headers_tracestate`: the error, and the object to which the
vendors and the New Relic entry are added. -/
def convertW3cHeadersTracestate (obj : NrHash) (tracestate trustedAccountKey : Option Bytes) :
    Option Bytes × NrHash :=
  match tracestate, trustedAccountKey with
  | some tracestate, some trustedAccountKey =>
    let headerKey := buffer260 (trustedAccountKey ++ atNr)
    let vendors := strsplit tracestate (code ',')
    if vendors = [] then (some DtMetric.w3cTracestateNoNrEntry,obj)
    else
      let (headerValue,forwarded,tracingVendors) := separate headerKey vendors ([],none,none)
      let obj := setVendors obj forwarded tracingVendors
      if headerValue = [] then (some DtMetric.w3cTracestateNoNrEntry,obj)
      else
        match (regex.tracestate headerKey headerValue).bind (entryObject nearest) with
        | none => (some DtMetric.w3cTracestateInvalidNrEntry,obj)
        | some entry => (none,obj.set (ascii "tracestate") entry)
  | _, _ => (some DtMetric.w3cTracestateNoNrEntry,obj)

/-- `nr_distributed_trace_convert_w3c_headers_to_object`. Without a trace parent there is no object;
an error in the trace state is only reported. -/
def convertW3cHeadersToObject (traceparent tracestate trustedAccountKey : Option Bytes) :
    Option Bytes × Option NrObj :=
  match convertW3cHeadersTraceparent regex traceparent with
  | .error e => (some e,none)
  | .ok parent =>
    let obj := NrHash.set [] (ascii "traceparent") parent
    let (e,obj) := convertW3cHeadersTracestate regex nearest obj tracestate trustedAccountKey
    (e,some (.hash obj))

end Reading

/-! ### Accepting -/

/-- `nr_distributed_trace_set_parent_type`. -/
def parentType (w3cType : ℤ) : Bytes :=
  if w3cType = 1 then ascii "Browser" else if w3cType = 2 then ascii "Mobile" else ascii "App"

/-- `nr_distributed_trace_accept_tracestate`. Its error pointer is NULL, so that every test for
success holds, and a missing number is read as -1. -/
def acceptTracestate (dt : NrDistributedTrace) (tracestate : NrObj) : NrDistributedTrace :=
  let kept (old value : Option Bytes) := if value = none then old else setDtField value
  let priority := (tracestate.getHashDouble "priority").getD (.finite true 1)
  { dt with
    sampled := (tracestate.getHashInt "sampled").getD (-1) ≠ 0
    priority := if priority.IsPositive then priority else dt.priority
    inbound := { dt.inbound with
      trustedParentId := (tracestate.getHashString "span_id").or dt.inbound.trustedParentId
      accountId := kept dt.inbound.accountId (tracestate.getHashString "parent_account_id")
      appId := kept dt.inbound.appId (tracestate.getHashString "parent_application_id")
      txnId := kept dt.inbound.txnId (tracestate.getHashString "transaction_id")
      timestamp := timestampOf (tracestate.getHashLong "timestamp")
      type := some (parentType ((tracestate.getHashInt "parent_type").getD (-1))) } }

/-- `nr_distributed_trace_accept_inbound_w3c_payload`, called with no earlier error. -/
def acceptInboundW3cPayload (dt : Option NrDistributedTrace) (traceHeaders : Option NrObj)
    (transportType : Option Bytes) : Except Bytes NrDistributedTrace :=
  match dt, traceHeaders with
  | none, _ => .error DtMetric.w3cTracecontextAcceptException
  | some _, none => .error DtMetric.w3cTraceparentParseException
  | some dt, some headers =>
    match headers.getHashValue "traceparent" with
    | none => .error DtMetric.w3cTraceparentParseException
    | some traceparent =>
      match traceparent.getHashString "parent_id", traceparent.getHashString "trace_id" with
      | some spanId, some traceId =>
        let dt := (headers.getHashValue "tracestate").elim dt dt.acceptTracestate
        let vendors := headers.getHashString "tracingVendors"
        let rawVendors := headers.getHashString "rawTracingVendors"
        let dt := { dt with
          inbound := { dt.inbound with
            tracingVendors :=
              if vendors = none then dt.inbound.tracingVendors else setDtField vendors
            rawTracingVendors :=
              if rawVendors = none then dt.inbound.rawTracingVendors else setDtField rawVendors } }
        let dt := dt.inboundSetTransportType transportType
        .ok { dt with
          traceId := setDtField (some traceId)
          inbound := { dt.inbound with
            guid := setDtField (some spanId)
            set := true } }
      | _, _ => .error DtMetric.w3cTraceparentParseException

/-- `nr_upstream_parent_sampling_control_t`. -/
inductive ParentSampling
  | default
  | alwaysKeep
  | alwaysDrop
deriving DecidableEq

def keep (dt : NrDistributedTrace) : NrDistributedTrace := { dt with sampled := true, priority := .finite false 2 }
def drop (dt : NrDistributedTrace) : NrDistributedTrace := { dt with sampled := false }

/-- `nr_distributed_trace_handle_inbound_w3c_sampled_flag`. -/
def handleInboundW3cSampledFlag (dt : NrDistributedTrace) (traceHeaders : NrObj)
    (remoteParentSampled remoteParentNotSampled : ParentSampling) : NrDistributedTrace :=
  if remoteParentSampled = .default ∧ remoteParentNotSampled = .default then dt
  else
    match (traceHeaders.getHashValue "traceparent").bind (NrObj.getHashInt · "trace_flags") with
    | none => dt
    | some flags =>
      if flags % 2 = 1 then
        match remoteParentSampled with
        | .default => dt
        | .alwaysKeep => dt.keep
        | .alwaysDrop => dt.drop
      else
        match remoteParentNotSampled with
        | .default => dt
        | .alwaysDrop => dt.drop
        | .alwaysKeep => dt.keep

lemma acceptInboundW3cPayload_set {dt dt' : NrDistributedTrace} {headers : Option NrObj}
    {transportType : Option Bytes}
    (h : acceptInboundW3cPayload (some dt) headers transportType = .ok dt') :
    dt'.inbound.set = true := by
  unfold acceptInboundW3cPayload at h
  split at h
  · contradiction
  · contradiction
  · split at h
    · contradiction
    · split at h
      · rw [← Except.ok.inj h]
      · contradiction

lemma inbound_handleInboundW3cSampledFlag (dt : NrDistributedTrace) (headers : NrObj)
    (sampled notSampled : ParentSampling) :
    (dt.handleInboundW3cSampledFlag headers sampled notSampled).inbound = dt.inbound := by
  unfold handleInboundW3cSampledFlag keep drop
  split_ifs
  · rfl
  · split
    · rfl
    · split_ifs
      · cases sampled <;> rfl
      · cases notSampled <;> rfl

end NrDistributedTrace
end PhpAgent

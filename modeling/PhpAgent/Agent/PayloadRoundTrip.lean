import PhpAgent.Agent.DistributedTrace
import PhpAgent.Util.ObjectRoundTrip

/-! New Relic payloads: what a service writes for another one is what the other one reads. -/
namespace PhpAgent
namespace NrDistributedTrace

open NroParse

section Payloads
variable (nearest : ℚ≥0 → Option ℚ≥0) (garbage above : Bytes → UInt32)

/-- `nro_create_from_json`; a text that the parser would leave has no object. -/
def fromJson (text : Bytes) : Option NrObj :=
  match createFromJson nearest garbage above text with
  | .ok obj => obj
  | .error _ => none

/-- A payload with all that is needed, of texts in UTF-8. The priority is a finite double. -/
structure Sendable (payload : Payload) (dt : NrDistributedTrace) : Prop where
  metadata : payload.metadata = some dt
  account : ∃ s, dt.accountId = some s
  app : ∃ s, dt.appId = some s
  trace : ∃ s, dt.traceId = some s
  spanOrTxn : ¬ (payload.parentId = none ∧ dt.txnId = none)
  texts : ∀ s ∈ [dt.accountId,dt.appId,dt.traceId,payload.parentId,dt.txnId,dt.trustedKey].filterMap id,
    Text s
  priority : ReadsDouble nearest dt.priority

/-- The ids of a payload. -/
def ids (payload : Payload) (dt : NrDistributedTrace) : List Bytes :=
  [dt.accountId,dt.appId,dt.traceId,payload.parentId,dt.txnId].filterMap id

/-- The object that a payload is written of. -/
def payloadObject (payload : Payload) (dt : NrDistributedTrace) : NrHash :=
  (NrHash.set [] (ascii "v") (.array [.int versionMajor,.int versionMinor])).set (ascii "d")
    (.hash (payloadMembers dt payload.parentId payload.timestamp))

lemma payloadAsText_eq {payload : Payload} {dt : NrDistributedTrace}
    (h : Sendable nearest payload dt) :
    payloadAsText payload = some (NrObj.hash (payloadObject payload dt)).toJson := by
  rw [payloadAsText,h.metadata]
  simp only
  rw [if_neg h.spanOrTxn]
  rfl

end Payloads

/-! ### Copies -/

section Copies
variable (o : NrObj) (key : String)

lemma getHashValue_copy : o.copy.getHashValue key = (o.getHashValue key).map NrObj.copy := by
  cases o with
  | hash entries => exact NrHash.get?_copyMembers entries (ascii key)
  | _ => rfl

lemma getHashString_copy : o.copy.getHashString key = o.getHashString key := by
  rw [NrObj.getHashString,getHashValue_copy,NrObj.getHashString]
  cases o.getHashValue key with
  | none => rfl
  | some value => cases value <;> rfl

lemma getHashBoolean_copy : o.copy.getHashBoolean key = o.getHashBoolean key := by
  rw [NrObj.getHashBoolean,getHashValue_copy,NrObj.getHashBoolean]
  cases o.getHashValue key with
  | none => rfl
  | some value => cases value <;> rfl

lemma isSome_getHashLong_copy : (o.copy.getHashLong key).isSome = (o.getHashLong key).isSome := by
  have hlong : ∀ value : NrObj, value.copy.getLong.isSome = value.getLong.isSome := by
    intro value
    cases value <;> simp [NrObj.copy,NrObj.getLong]
  rw [NrObj.getHashLong,getHashValue_copy,NrObj.getHashLong]
  cases o.getHashValue key with
  | none => rfl
  | some value => exact hlong value

lemma getHashArray_copy : o.copy.getHashArray key = (o.getHashArray key).map NrObj.copy := by
  rw [NrObj.getHashArray,getHashValue_copy,NrObj.getHashArray]
  cases o.getHashValue key with
  | none => rfl
  | some value => cases value <;> rfl

lemma getArrayInt_copy (i : ℕ) : o.copy.getArrayInt i = o.getArrayInt i := by
  cases o with
  | array elements =>
    cases i with
    | zero => rfl
    | succ i =>
      rw [NrObj.copy,NrObj.getArrayInt,NrObj.getArrayInt,copyElements_eq,List.getElem?_map]
      cases elements[i]? with
      | none => rfl
      | some value => cases value <;> rfl
  | _ => rfl

lemma payloadData_copy : payloadData o.copy = (payloadData o).copy := by
  rw [payloadData,NrObj.getHashHash,getHashValue_copy,payloadData,NrObj.getHashHash]
  cases o.getHashValue "d" with
  | none => rfl
  | some value => cases value <;> rfl

lemma hasField_copy : hasField o.copy key = hasField o key := by
  rw [hasField,getHashString_copy,isSome_getHashLong_copy,hasField]

/-- A `long` is the same in a copy. -/
theorem getHashLong_of_copy {o o' : NrObj} (hcopy : o.copy = o') {i : ℤ}
    (h : o'.getHashValue key = some (.long i)) : o.getHashLong key = some i := by
  rw [← hcopy,getHashValue_copy] at h
  rw [NrObj.getHashLong]
  cases hvalue : o.getHashValue key with
  | none =>
    rw [hvalue] at h
    cases h
  | some value =>
    rw [hvalue,Option.map_some,Option.some.injEq] at h
    cases value with
    | long j =>
      cases h
      rfl
    | _ => cases h

/-- The check does not see what stands above an `int`. -/
theorem copy_convert {fromJson fromJson' : Bytes → Option NrObj}
    (hcopy : ∀ text, (fromJson text).map NrObj.copy = fromJson' text) (payload : Option Bytes) :
    (convertPayloadToObject fromJson payload).map NrObj.copy = convertPayloadToObject fromJson' payload := by
  unfold convertPayloadToObject
  cases payload.filter (· ≠ []) with
  | none => rfl
  | some text =>
    simp only
    rw [← hcopy]
    cases fromJson text with
    | none => rfl
    | some obj =>
      rw [Option.map_some]
      simp only
      rw [getHashArray_copy]
      cases obj.getHashArray "v" with
      | none => rfl
      | some version =>
        have hfields : requiredDataFields.all (hasField (payloadData obj).copy) =
            requiredDataFields.all (hasField (payloadData obj)) :=
          congrArg requiredDataFields.all (funext fun key => hasField_copy _ key)
        rw [Option.map_some]
        simp only
        rw [getArrayInt_copy,payloadData_copy,getHashString_copy,getHashString_copy,hfields]
        split_ifs <;> rfl

end Copies

lemma copy_fromJson (nearest : ℚ≥0 → Option ℚ≥0) (garbage above : Bytes → UInt32) (text : Bytes) :
    (fromJson nearest garbage above text).map NrObj.copy = fromJson nearest garbage 0 text := by
  have hcopy : (createFromJson nearest garbage above text).map (Option.map NrObj.copy) =
      createFromJson nearest garbage 0 text := copy_createFromJson text
  rw [fromJson,fromJson,← hcopy]
  cases createFromJson nearest garbage above text <;> rfl

/-! ### The members -/

section Members
variable {nearest : ℚ≥0 → Option ℚ≥0} {garbage above : Bytes → UInt32} {key : String} {h : NrHash}
  {dt : NrDistributedTrace} {payload : Payload} {field : Option Bytes}

def payloadKeys : List String := ["v","d","ty","ac","ap","id","tr","tx","pr","sa","ti","tk"]

lemma basic_key (h : key ∈ payloadKeys) : Basic (ascii key) := by
  have hall : (payloadKeys.all fun key => key.toList.all (fun c => 0 < c.toNat && c.toNat < 65536) &&
      ascii key == utf8 key.toList) = true := by decide
  have hkey := List.all_eq_true.mp hall key h
  simp only [Bool.and_eq_true,List.all_eq_true,decide_eq_true_eq,beq_iff_eq] at hkey
  exact ⟨key.toList,hkey⟩

lemma of_setString (hof : (NrObj.hash h).Of Text (ReadsDouble nearest)) (key : String)
    (hkey : key ∈ payloadKeys) {value : Option Bytes} (hvalue : ∀ s ∈ value, Text s) :
    (NrObj.hash (h.setString key value)).Of Text (ReadsDouble nearest) := by
  cases value with
  | none => exact hof
  | some s => exact NrObj.of_set hof (basic_key hkey) (.string s) (hvalue s rfl)

lemma timestamp_le (timestamp : UInt64) :
    longMin ≤ ((timestamp / timeDivisorMs).toNat : ℤ) ∧
      ((timestamp / timeDivisorMs).toNat : ℤ) ≤ longMax := by
  have hlt := timestamp.toNat_lt
  have hdiv : (timestamp / timeDivisorMs).toNat = timestamp.toNat/1000 := rfl
  unfold longMin longMax
  omega

/-- The object of a payload is one that is read back. -/
theorem Sendable.of_payloadObject (h : Sendable nearest payload dt) :
    (NrObj.hash (payloadObject payload dt)).Of Text (ReadsDouble nearest) := by
  have htext : ∀ field ∈ [dt.accountId,dt.appId,dt.traceId,payload.parentId,dt.txnId,dt.trustedKey],
      ∀ s ∈ field, Text s := by
    intro field hfield s hs
    exact h.texts s (List.mem_filterMap.mpr ⟨field,hfield,hs⟩)
  have happ : ∀ s ∈ some (ascii "App"), Text s := by
    rintro s hs
    cases hs
    exact ⟨['A','p','p'],by simp,by decide⟩
  have hnil : (NrObj.hash []).Of Text (ReadsDouble nearest) := ⟨List.nodup_nil,trivial⟩
  have hdata : (NrObj.hash (payloadMembers dt payload.parentId payload.timestamp)).Of Text
      (ReadsDouble nearest) := by
    have hty := of_setString hnil "ty" (by decide) happ
    have hac := of_setString hty "ac" (by decide) (htext dt.accountId (by simp))
    have hap := of_setString hac "ap" (by decide) (htext dt.appId (by simp))
    have hid := of_setString hap "id" (by decide) (htext payload.parentId (by simp))
    have htr := of_setString hid "tr" (by decide) (htext dt.traceId (by simp))
    have htx := of_setString htr "tx" (by decide) (htext dt.txnId (by simp))
    have hpr := NrObj.of_set htx (basic_key (show "pr" ∈ payloadKeys by decide)) (.double dt.priority)
      h.priority
    have hsa := NrObj.of_set hpr (basic_key (show "sa" ∈ payloadKeys by decide)) (.boolean dt.sampled)
      trivial
    have hti := NrObj.of_set hsa (basic_key (show "ti" ∈ payloadKeys by decide))
      (.long (payload.timestamp / timeDivisorMs).toNat) (timestamp_le payload.timestamp)
    unfold payloadMembers
    dsimp only
    split_ifs
    · exact hti
    · exact of_setString hti "tk" (by decide) (htext dt.trustedKey (by simp))
  have hversion : (NrObj.array [.int versionMajor,.int versionMinor]).Of Text (ReadsDouble nearest) :=
    ⟨⟨by decide,by decide⟩,⟨by decide,by decide⟩,trivial⟩
  have hv := NrObj.of_set hnil (basic_key (show "v" ∈ payloadKeys by decide)) _ hversion
  exact NrObj.of_set hv (basic_key (show "d" ∈ payloadKeys by decide)) _ hdata

/-- What the members of a payload are, without the trusted key. -/
theorem get?_payloadMembers (dt : NrDistributedTrace) (parentId : Option Bytes) (timestamp : UInt64) :
    let get := fun key : String => (payloadMembers dt parentId timestamp).get? (ascii key)
    get "ty" = some (.string (ascii "App")) ∧ get "ac" = dt.accountId.map .string ∧
      get "ap" = dt.appId.map .string ∧ get "id" = parentId.map .string ∧
      get "tr" = dt.traceId.map .string ∧ get "tx" = dt.txnId.map .string ∧
      get "sa" = some (.boolean dt.sampled) ∧ get "ti" = some (.long (timestamp / timeDivisorMs).toNat) := by
  have hnil : ∀ key, NrHash.get? [] key = none := fun key => rfl
  unfold payloadMembers
  dsimp only
  split_ifs <;>
    simp (disch := decide) only [NrHash.get?_setString_ne,NrHash.get?_set_ne,NrHash.get?_set_self,
      NrHash.get?_setString_self,hnil,Option.or_none,Option.map_some,and_self]

/-- What is read of a member. -/
theorem getHashValue_reread (h : NrHash) (key : String) :
    ((NrObj.hash h).reread nearest).getHashValue key = (h.get? (ascii key)).map (NrObj.reread nearest) :=
  get?_rereadMembers h (ascii key)

lemma payloadData_reread (payload : Payload) (dt : NrDistributedTrace) :
    payloadData ((NrObj.hash (payloadObject payload dt)).reread nearest) =
      (NrObj.hash (payloadMembers dt payload.parentId payload.timestamp)).reread nearest := by
  rw [payloadData,NrObj.getHashHash,getHashValue_reread,payloadObject,NrHash.get?_set_self (by decide)]
  rfl

/-- A text of the payload, as it is read. -/
theorem getHashString_reread (nearest : ℚ≥0 → Option ℚ≥0) (hget : h.get? (ascii key) = field.map .string) :
    ((NrObj.hash h).reread nearest).getHashString key = field.map rereadString := by
  rw [NrObj.getHashString,getHashValue_reread,hget]
  cases field <;> rfl

/-- A number in an object without anything above it. -/
theorem isSome_getLong_number (i : ℤ) : (number i).getLong.isSome = true := by
  unfold number
  split_ifs <;> rfl

lemma toUint64_natCast {n : ℕ} (hn : n < 2^64) : toUint64 n = n := by
  unfold toUint64
  omega

lemma isSome_getHashLong_reread (nearest : ℚ≥0 → Option ℚ≥0) {i : ℤ}
    (hget : h.get? (ascii key) = some (.long i)) :
    (((NrObj.hash h).reread nearest).getHashLong key).isSome = true := by
  rw [NrObj.getHashLong,getHashValue_reread,hget]
  exact isSome_getLong_number i

lemma getHashBoolean_reread (nearest : ℚ≥0 → Option ℚ≥0) {b : Bool}
    (hget : h.get? (ascii key) = some (.boolean b)) :
    ((NrObj.hash h).reread nearest).getHashBoolean key = some b := by
  rw [NrObj.getHashBoolean,getHashValue_reread,hget]
  rfl

lemma getHashArray_version (payload : Payload) (dt : NrDistributedTrace) :
    ((NrObj.hash (payloadObject payload dt)).reread nearest).getHashArray "v" =
      some (.array [.int versionMajor,.int versionMinor]) := by
  rw [NrObj.getHashArray,getHashValue_reread,payloadObject,NrHash.get?_set_ne (by decide),
    NrHash.get?_set_self (by decide)]
  rfl

/-- The text of a payload is accepted. -/
theorem Sendable.convert_eq (h : Sendable nearest payload dt) :
    convertPayloadToObject (fromJson nearest garbage 0)
      (some (NrObj.hash (payloadObject payload dt)).toJson) =
        .ok ((NrObj.hash (payloadObject payload dt)).reread nearest) := by
  obtain ⟨hty,hac,hap,hid,htr,htx,hsa,hti⟩ :=
    get?_payloadMembers dt payload.parentId payload.timestamp
  have hparsed : fromJson nearest garbage 0 (NrObj.hash (payloadObject payload dt)).toJson =
      some ((NrObj.hash (payloadObject payload dt)).reread nearest) := by
    obtain ⟨obj,hobj,hcopy⟩ := createFromJson_reread nearest garbage 0 _ h.of_payloadObject
    rw [← copy_fromJson nearest garbage 0,fromJson,hobj,Option.map_some,hcopy]
  have hne : (NrObj.hash (payloadObject payload dt)).toJson ≠ [] := List.cons_ne_nil _ _
  obtain ⟨account,haccount⟩ := h.account
  obtain ⟨app,happ⟩ := h.app
  obtain ⟨trace,htrace⟩ := h.trace
  have hspanOrTxn : ¬ (payload.parentId.map rereadString = none ∧ dt.txnId.map rereadString = none) := by
    simpa using h.spanOrTxn
  have htype := @getHashString_reread "ty" _ (some (ascii "App")) nearest hty
  have hfields : requiredDataFields.all
      (hasField ((NrObj.hash (payloadMembers dt payload.parentId payload.timestamp)).reread
        nearest)) = true := by
    simp only [requiredDataFields,List.all_cons,List.all_nil,hasField,htype,
      getHashString_reread nearest hac,getHashString_reread nearest hap,getHashString_reread nearest htr,
      isSome_getHashLong_reread nearest hti,haccount,happ,htrace,Option.map_some,Option.isSome_some,
      Bool.true_or,Bool.or_true,Bool.and_self]
  rw [convertPayloadToObject,Option.filter_some_pos (by simpa using hne)]
  simp only
  rw [hparsed]
  simp only
  rw [getHashArray_version]
  simp only
  rw [if_neg (by decide),payloadData_reread,getHashString_reread nearest hid,
    getHashString_reread nearest htx,
    if_neg (by simpa using hspanOrTxn),if_pos hfields]

/-- The time in milliseconds is no `int`, and is read as a `long`. -/
def Late (timestamp : UInt64) : Prop := intMax ≤ ((timestamp / timeDivisorMs).toNat : ℤ)

lemma Late.number {timestamp : UInt64} (h : Late timestamp) :
    number (timestamp / timeDivisorMs).toNat = .long (timestamp / timeDivisorMs).toNat :=
  if_pos (.inr h)

/-- What the payload is read as by a service. -/
theorem Sendable.received (garbage above : Bytes → UInt32)
    (h : Sendable nearest payload dt) (hlate : Late payload.timestamp) (receiver : NrDistributedTrace)
    (transportType : Option Bytes) :
    ∃ text obj dt', payloadAsText payload = some text ∧
      convertPayloadToObject (fromJson nearest garbage above) (some text) = .ok obj ∧
      acceptInboundPayload (some receiver) (some obj) transportType = .ok dt' ∧
      dt'.inbound.type = some (ascii "App") ∧
      dt'.inbound.accountId = setDtField (dt.accountId.map rereadString) ∧
      dt'.inbound.appId = setDtField (dt.appId.map rereadString) ∧
      dt'.inbound.guid = setDtField (payload.parentId.map rereadString) ∧
      dt'.inbound.txnId = setDtField (dt.txnId.map rereadString) ∧
      dt'.traceId = setDtField (dt.traceId.map rereadString) ∧ dt'.sampled = dt.sampled ∧
      dt'.inbound.timestamp = payload.timestamp / timeDivisorMs * timeDivisorMs := by
  obtain ⟨hty,hac,hap,hid,htr,htx,hsa,hti⟩ :=
    get?_payloadMembers dt payload.parentId payload.timestamp
  have happName : setDtField ((some (ascii "App")).map rereadString) = some (ascii "App") := by
    decide
  obtain ⟨obj,hconvert,hcopy⟩ : ∃ obj, convertPayloadToObject (fromJson nearest garbage above)
      (some (NrObj.hash (payloadObject payload dt)).toJson) = .ok obj ∧
        obj.copy = (NrObj.hash (payloadObject payload dt)).reread nearest := by
    have hzero : convertPayloadToObject (fromJson nearest garbage 0)
        (some (NrObj.hash (payloadObject payload dt)).toJson) = .ok _ := h.convert_eq
    rw [← copy_convert (copy_fromJson nearest garbage above)] at hzero
    cases hobj : convertPayloadToObject (fromJson nearest garbage above)
        (some (NrObj.hash (payloadObject payload dt)).toJson) with
    | error e =>
      rw [hobj] at hzero
      cases hzero
    | ok obj =>
      rw [hobj] at hzero
      exact ⟨obj,rfl,Except.ok.inj hzero⟩
  have hdata : (payloadData obj).copy =
      (NrObj.hash (payloadMembers dt payload.parentId payload.timestamp)).reread nearest := by
    rw [← payloadData_copy,hcopy,payloadData_reread]
  refine ⟨_,obj,_,payloadAsText_eq nearest h,hconvert,rfl,?_⟩
  have hstring : ∀ {key : String} {field : Option Bytes},
      (payloadMembers dt payload.parentId payload.timestamp).get? (ascii key) = field.map .string →
        (payloadData obj).getHashString key = field.map rereadString := by
    intro key field hget
    rw [← getHashString_copy,hdata,getHashString_reread nearest hget]
  have hboolean : (payloadData obj).getHashBoolean "sa" = some dt.sampled := by
    rw [← getHashBoolean_copy,hdata,getHashBoolean_reread nearest hsa]
  have htime : (payloadData obj).getHashLong "ti" = some ((payload.timestamp / timeDivisorMs).toNat : ℤ) := by
    apply getHashLong_of_copy "ti" hdata
    dsimp only at hti
    rw [getHashValue_reread,hti,Option.map_some,NrObj.reread,hlate.number]
  have htype := @hstring "ty" (some (ascii "App")) hty
  simp only [setInbound,inboundSetTransportType,acceptData,htype,happName,hstring hac,hstring hap,
    hstring hid,hstring htr,hstring htx,hboolean,htime,Option.getD_some,true_and]
  rw [timestampOf,Option.getD_some,toUint64_natCast (UInt64.toNat_lt _),UInt64.ofNat_toNat]

/-- A text of one code unit a character is read as it was, and an empty one as none. -/
theorem setDtField_reread (h : ∀ s ∈ field, Basic s) :
    setDtField (field.map rereadString) = setDtField field := by
  cases field with
  | none => rfl
  | some s =>
    have hs := h s rfl
    rw [Option.map_some,(rereadString_eq_iff hs.text).mpr hs]

lemma setDtField_reread_eq_iff (h : ∀ s ∈ field, Text s) :
    setDtField (field.map rereadString) = field ↔ ∀ s ∈ field, s ≠ [] ∧ Basic s := by
  cases field with
  | none => simp [setDtField]
  | some s =>
    have hs := rereadString_eq_iff (h s rfl)
    rw [Option.map_some,setDtField_some]
    constructor
    · intro heq
      split_ifs at heq with hnil
      rw [Option.some.injEq] at heq
      rintro s' hs'
      cases hs'
      exact ⟨heq ▸ hnil,hs.mp heq⟩
    · intro hall
      obtain ⟨hne,hbasic⟩ := hall s rfl
      rw [hs.mpr hbasic,if_neg hne]

/-- What is read of a payload is what was written: the ids, the sampled flag and the timestamp in whole
milliseconds. -/
def RoundTrips (nearest : ℚ≥0 → Option ℚ≥0) (garbage above : Bytes → UInt32) (payload : Payload)
    (dt receiver : NrDistributedTrace) (transportType : Option Bytes) : Prop :=
  ∃ text obj dt', payloadAsText payload = some text ∧
    convertPayloadToObject (fromJson nearest garbage above) (some text) = .ok obj ∧
    acceptInboundPayload (some receiver) (some obj) transportType = .ok dt' ∧
    dt'.inbound.type = some (ascii "App") ∧ dt'.inbound.accountId = dt.accountId ∧
    dt'.inbound.appId = dt.appId ∧ dt'.inbound.guid = payload.parentId ∧ dt'.inbound.txnId = dt.txnId ∧
    dt'.traceId = dt.traceId ∧ dt'.sampled = dt.sampled ∧
    dt'.inbound.timestamp = payload.timestamp / timeDivisorMs * timeDivisorMs

/-- What a service is after it has read the text of a payload. -/
def delivered (nearest : ℚ≥0 → Option ℚ≥0) (garbage above : Bytes → UInt32) (payload : Payload)
    (receiver : NrDistributedTrace) (transportType : Option Bytes) : Option NrDistributedTrace :=
  match convertPayloadToObject (fromJson nearest garbage above) (payloadAsText payload) with
  | .ok obj => (acceptInboundPayload (some receiver) (some obj) transportType).toOption
  | .error _ => none

lemma RoundTrips.time {dt receiver : NrDistributedTrace} {transportType : Option Bytes}
    (h : RoundTrips nearest garbage above payload dt receiver transportType) :
    (delivered nearest garbage above payload receiver transportType).map (·.inbound.timestamp) =
      some (payload.timestamp / timeDivisorMs * timeDivisorMs) := by
  obtain ⟨text,obj,dt',htext,hconvert,haccept,-,-,-,-,-,-,-,htime⟩ := h
  unfold delivered
  rw [htext,hconvert]
  simp only
  rw [haccept]
  simpa [Except.toOption] using htime

/-- A late payload is read as it was written exactly when no id is empty or has a character that takes two
code units. -/
theorem payload_roundTrips_iff
    (h : Sendable nearest payload dt) (hlate : Late payload.timestamp) (receiver : NrDistributedTrace)
    (transportType : Option Bytes) :
    RoundTrips nearest garbage above payload dt receiver transportType ↔
      ∀ s ∈ ids payload dt, s ≠ [] ∧ Basic s := by
  have htext : ∀ field ∈ [dt.accountId,dt.appId,dt.traceId,payload.parentId,dt.txnId],
      ∀ s ∈ field, Text s := by
    intro field hfield s hs
    apply h.texts s (List.mem_filterMap.mpr ⟨field,?_,hs⟩)
    simp only [List.mem_cons,List.not_mem_nil,or_false] at hfield ⊢
    tauto
  have hfield := fun field hmem => @setDtField_reread_eq_iff field (htext field hmem)
  have hids : (∀ s ∈ ids payload dt, s ≠ [] ∧ Basic s) ↔
      ∀ field ∈ [dt.accountId,dt.appId,dt.traceId,payload.parentId,dt.txnId],
        setDtField (field.map rereadString) = field := by
    unfold ids
    constructor
    · intro hall field hmem
      exact (hfield field hmem).mpr fun s hs => hall s (List.mem_filterMap.mpr ⟨field,hmem,hs⟩)
    · intro hall s hs
      obtain ⟨field,hmem,hs⟩ := List.mem_filterMap.mp hs
      exact (hfield field hmem).mp (hall field hmem) s hs
  obtain ⟨text,obj,dt',htext',hconvert,haccept,htype,haccount,happ,hguid,htxn,htrace,hsampled,htime⟩ :=
    h.received garbage above hlate receiver transportType
  rw [hids]
  simp only [List.forall_mem_cons,List.not_mem_nil,false_implies,implies_true,and_true]
  rw [← haccount,← happ,← hguid,← htxn,← htrace]
  constructor
  · rintro ⟨text',obj',dt'',htext'',hconvert',haccept',-,haccount',happ',hguid',htxn',htrace',-⟩
    rw [htext',Option.some.injEq] at htext''
    subst htext''
    rw [hconvert,Except.ok.injEq] at hconvert'
    subst hconvert'
    rw [haccept,Except.ok.injEq] at haccept'
    subst haccept'
    exact ⟨haccount',happ',htrace',hguid',htxn'⟩
  · rintro ⟨haccount',happ',htrace',hguid',htxn'⟩
    exact ⟨text,obj,dt',htext',hconvert,haccept,htype,haccount',happ',hguid',htxn',htrace',hsampled,htime⟩

/-- A late payload of ids of one code unit a character is read as it was written, with an empty id as
none. -/
theorem payload_recovered {payload : Payload} {dt : NrDistributedTrace}
    (h : Sendable nearest payload dt) (hlate : Late payload.timestamp)
    (hids : ∀ s ∈ ids payload dt, Basic s) (receiver : NrDistributedTrace)
    (transportType : Option Bytes) :
    ∃ text obj dt', payloadAsText payload = some text ∧
      convertPayloadToObject (fromJson nearest garbage above) (some text) = .ok obj ∧
      acceptInboundPayload (some receiver) (some obj) transportType = .ok dt' ∧
      dt'.inbound.type = some (ascii "App") ∧ dt'.inbound.accountId = setDtField dt.accountId ∧
      dt'.inbound.appId = setDtField dt.appId ∧ dt'.inbound.guid = setDtField payload.parentId ∧
      dt'.inbound.txnId = setDtField dt.txnId ∧ dt'.traceId = setDtField dt.traceId ∧
      dt'.sampled = dt.sampled ∧
      dt'.inbound.timestamp = payload.timestamp / timeDivisorMs * timeDivisorMs := by
  have hbasic : ∀ field ∈ [dt.accountId,dt.appId,dt.traceId,payload.parentId,dt.txnId],
      setDtField (field.map rereadString) = setDtField field := fun field hmem =>
    setDtField_reread fun s hs => hids s (List.mem_filterMap.mpr ⟨field,hmem,hs⟩)
  obtain ⟨text,obj,dt',htext,hconvert,haccept,htype,haccount,happ,hguid,htxn,htrace,hrest⟩ :=
    h.received garbage above hlate receiver transportType
  rw [hbasic _ (by simp)] at haccount happ hguid htxn htrace
  exact ⟨text,obj,dt',htext,hconvert,haccept,htype,haccount,happ,hguid,htxn,htrace,hrest⟩

end Members

/-! ### A payload -/

def sampleTrace (trace : List Char) : NrDistributedTrace :=
  { create with
    accountId := some (ascii "1")
    appId := some (ascii "2")
    priority := .ofRat (1/2)
    sampled := true
    traceId := some (utf8 trace) }

def samplePayload (trace span : List Char) : Payload :=
  ⟨some (sampleTrace trace),some (utf8 span),1518469636035123⟩

def infinitePayload (trace span : List Char) : Payload :=
  { samplePayload trace span with
    metadata := some { sampleTrace trace with priority := .infinite false } }

lemma late_sample (trace span : List Char) : Late (samplePayload trace span).timestamp := by
  show intMax ≤ (((1518469636035123 : UInt64) / timeDivisorMs).toNat : ℤ)
  decide

lemma sendable_sample {trace span : List Char} (htrace : ∀ c ∈ trace, 0 < c.toNat)
    (hspan : ∀ c ∈ span, 0 < c.toNat) : Sendable some (samplePayload trace span) (sampleTrace trace) where
  metadata := rfl
  account := ⟨_,rfl⟩
  app := ⟨_,rfl⟩
  trace := ⟨_,rfl⟩
  spanOrTxn := fun h => by cases h.1
  texts := by
    intro s hs
    have hs' : s ∈ [ascii "1",ascii "2",utf8 trace,utf8 span] := hs
    simp only [List.mem_cons,List.not_mem_nil,or_false] at hs'
    rcases hs' with rfl | rfl | rfl | rfl
    · exact ⟨['1'],by simp,by decide⟩
    · exact ⟨['2'],by simp,by decide⟩
    · exact ⟨trace,htrace,rfl⟩
    · exact ⟨span,hspan,rfl⟩
  priority := rfl

theorem payload_recovered_sample :
    ∃ text obj dt', payloadAsText (samplePayload ['é'] ['s']) = some text ∧
      convertPayloadToObject (fromJson some 0 fun _ => 0x7fff) (some text) = .ok obj ∧
      acceptInboundPayload (some create) (some obj) none = .ok dt' ∧
      dt'.inbound.type = some (ascii "App") ∧ dt'.inbound.accountId = setDtField (some (ascii "1")) ∧
      dt'.inbound.appId = setDtField (some (ascii "2")) ∧
      dt'.inbound.guid = setDtField (some (utf8 ['s'])) ∧ dt'.inbound.txnId = setDtField none ∧
      dt'.traceId = setDtField (some (utf8 ['é'])) ∧ dt'.sampled = true ∧
      dt'.inbound.timestamp = 1518469636035123 / timeDivisorMs * timeDivisorMs := by
  have hids : ∀ s ∈ ids (samplePayload ['é'] ['s']) (sampleTrace ['é']), Basic s := by
    intro s hs
    have hs' : s ∈ [ascii "1",ascii "2",utf8 ['é'],utf8 ['s']] := hs
    simp only [List.mem_cons,List.not_mem_nil,or_false] at hs'
    rcases hs' with rfl | rfl | rfl | rfl
    · exact ⟨['1'],by simp,by decide⟩
    · exact ⟨['2'],by simp,by decide⟩
    · exact ⟨['é'],by simp,rfl⟩
    · exact ⟨['s'],by simp,rfl⟩
  exact payload_recovered (sendable_sample (by simp) (by simp)) (late_sample _ _) hids create none

/-- An empty span id arrives as none, and a trace id of a character beyond the first plane as another
text. A time of less than 2147483647 ms is an `int` behind another member, and is read with the half of a
pointer. An infinite priority is no number in JSON. -/
theorem not_roundTrips_sample :
    ¬ RoundTrips some 0 0 (samplePayload ['t'] []) (sampleTrace ['t']) create none ∧
      ¬ RoundTrips some 0 0 (samplePayload ['😀'] ['s']) (sampleTrace ['😀']) create none ∧
      ¬ RoundTrips some 0 (fun _ => 0x7fff) { samplePayload ['t'] ['s'] with timestamp := 1500123 }
        (sampleTrace ['t']) create none ∧
      ¬ RoundTrips some 0 0 (infinitePayload ['t'] ['s'])
        { sampleTrace ['t'] with priority := .infinite false } create none := by
  have hempty := @payload_roundTrips_iff some 0 0 _ _
    (@sendable_sample ['t'] [] (by simp) (by simp)) (late_sample _ _) create none
  have hwide := @payload_roundTrips_iff some 0 0 _ _
    (@sendable_sample ['😀'] ['s'] (by simp) (by simp)) (late_sample _ _) create none
  have htext : Text (utf8 ['😀']) := ⟨['😀'],by simp,rfl⟩
  have hread : rereadString (utf8 ['😀']) ≠ utf8 ['😀'] := by decide
  rw [hempty,hwide]
  refine ⟨?_,?_,?_,?_⟩
  · intro h
    exact (h [] (List.mem_filterMap.mpr ⟨some (utf8 []),by simp [samplePayload],rfl⟩)).1 rfl
  · intro h
    have hbasic := (h (utf8 ['😀']) (List.mem_filterMap.mpr
      ⟨some (utf8 ['😀']),by simp [sampleTrace],rfl⟩)).2
    exact hread ((rereadString_eq_iff htext).mpr hbasic)
  · intro h
    have htime := h.time
    revert htime
    decide +kernel
  · intro h
    have htime := h.time
    revert htime
    decide +kernel

end NrDistributedTrace
end PhpAgent

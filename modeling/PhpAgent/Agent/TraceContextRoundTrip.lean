import PhpAgent.Agent.TraceContextRead

/-! Trace context headers from one agent to another. The writer puts a negative priority with its
sign between the dashes, where the reader finds an empty priority and takes the digits behind the
sign for the timestamp. -/
namespace PhpAgent

open Json (code decimal digitsValue)
open Double (fixed padded digits isDigit_padded)

namespace NrDistributedTrace

/-! ### What is sent -/

/-- Another vendor's entry in the trace state. -/
structure Vendor where
  key : Bytes
  value : Bytes

def Vendor.entry (v : Vendor) : Bytes := v.key ++ code '=' :: v.value

/-- The vendor can be told from its neighbours and from New Relic. -/
structure Vendor.Valid (trustedKey : Bytes) (v : Vendor) : Prop where
  key_ne_nil : v.key ≠ []
  key : ∀ c ∈ v.key, c ≠ code ',' ∧ c ≠ code '=' ∧ isspace c = false
  value : ∀ c ∈ v.value, c ≠ code ',' ∧ isspace c = false
  other : v.key ≠ trustedKey ++ ascii "@nr"

/-- Texts appended with commas; there is none without texts. -/
def joined (bs : List Bytes) : Option Bytes := (bs.map some).foldl strAppend none

variable {trustedKey : Bytes}

lemma Vendor.Valid.piece {v : Vendor} (h : v.Valid trustedKey) : Piece (code ',') v.entry where
  ne_nil := by simp [Vendor.entry]
  noSpace := by
    intro c hc
    simp only [Vendor.entry,List.mem_append,List.mem_cons] at hc
    rcases hc with hc | rfl | hc
    · exact (h.key c hc).2.2
    · decide
    · exact (h.value c hc).2
  noDelim := by
    intro hc
    simp only [Vendor.entry,List.mem_append,List.mem_cons] at hc
    rcases hc with hc | hc | hc
    · exact (h.key _ hc).1 rfl
    · exact absurd hc (by decide)
    · exact (h.value _ hc).1 rfl

lemma Vendor.Valid.name {v : Vendor} (h : v.Valid trustedKey) :
    (strsplit v.entry (code '=')).head? = some v.key :=
  head?_strsplit ⟨h.key_ne_nil,fun c hc => (h.key c hc).2.2,fun hc => (h.key _ hc).2.1 rfl⟩

/-- Up to its equals sign the entry is the key of the vendor. -/
theorem Vendor.Valid.not_isPrefixOf {v : Vendor} (h : v.Valid trustedKey)
    (hkey : ∀ c ∈ trustedKey, isalnum c) : (trustedKey ++ atNr).isPrefixOf v.entry = false := by
  rw [Bool.eq_false_iff]
  intro hpre
  obtain ⟨rest,hrest⟩ := List.isPrefixOf_iff_prefix.mp hpre
  have hown : ∀ c ∈ trustedKey ++ ascii "@nr", (c != code '=') = true := by
    intro c hc
    rcases List.mem_append.mp hc with hc | hc
    · rw [bne_iff_ne]
      rintro rfl
      exact absurd (hkey _ hc) (by decide)
    · exact (show ∀ c ∈ ascii "@nr", (c != code '=') = true by decide +kernel) c hc
  have htake := congrArg (List.takeWhile (· != code '=')) hrest
  have hsplit : trustedKey ++ atNr ++ rest = (trustedKey ++ ascii "@nr") ++ code '=' :: rest := by
    simp [atNr,ascii,code]
  rw [hsplit,Vendor.entry,Pattern.takeWhile_of_stop hown (by simp),
    Pattern.takeWhile_of_stop (fun c hc => by simpa using (h.key c hc).2.1) (by simp)] at htake
  exact h.other htake.symm

/-- What the headers of an outbound request are made of. The trace state names a span or a
transaction only when their events are enabled. -/
structure Outbound where
  dt : NrDistributedTrace
  trustedKey : Bytes
  accountId : Bytes
  appId : Bytes
  traceId : Bytes
  spanId : Bytes
  entrySpanId : Option Bytes
  txnId : Option Bytes
  vendors : List Vendor
  now : UInt64

namespace Outbound

def traceparent (o : Outbound) : Option Bytes :=
  createW3cTraceparentHeader (some o.traceId) (some o.spanId) o.dt.sampled

def nrEntry (o : Outbound) : Option Bytes :=
  createW3cTracestateHeader (some o.dt) o.entrySpanId o.txnId o.now

/-- The trace state with the other vendors behind the New Relic entry. -/
def tracestate (o : Outbound) : Option Bytes :=
  strAppend o.nrEntry (joined (o.vendors.map Vendor.entry))

structure Valid (o : Outbound) : Prop where
  trustedKey : o.dt.trustedKey = some o.trustedKey ∧ ∀ c ∈ o.trustedKey, isalnum c
  accountId : o.dt.accountId = some o.accountId ∧ (∀ c ∈ o.accountId, isalnum c) ∧ o.accountId ≠ []
  appId : o.dt.appId = some o.appId ∧ (∀ c ∈ o.appId, isalnum c) ∧ o.appId ≠ []
  traceId : ∀ c ∈ o.traceId, Json.isHex c
  traceId_length : 1 ≤ o.traceId.length ∧ o.traceId.length ≤ 32
  traceId_ne_zero : ∃ c ∈ o.traceId, c ≠ code '0'
  spanId : ∀ c ∈ o.spanId, isLowerHex c
  spanId_length : o.spanId.length = 16
  spanId_ne_zero : ∃ c ∈ o.spanId, c ≠ code '0'
  entrySpanId : ∀ s ∈ o.entrySpanId, s = o.spanId
  txnId : ∀ s ∈ o.txnId, ∀ c ∈ s, isalnum c
  entry : ∀ b ∈ o.nrEntry, b.length < 260
  vendors : ∀ v ∈ o.vendors, v.Valid o.trustedKey

/-- What the receiver holds after it has parsed and accepted the headers. -/
def received (o : Outbound) (nearest : ℚ≥0 → Double) (receiver : NrDistributedTrace)
    (transportType : Option Bytes) : Except Bytes NrDistributedTrace :=
  acceptInboundW3cPayload (some receiver)
    (convertW3cHeadersToObject pcre nearest o.traceparent o.tracestate (some o.trustedKey)).2
    transportType

/-- The receiver has what was sent, and keeps what it had where nothing was sent. -/
structure Recovered (o : Outbound) (receiver dt : NrDistributedTrace) : Prop where
  traceId : dt.traceId =
    some (List.replicate (32-o.traceId.length) (code '0') ++ o.traceId.map tolower)
  guid : dt.inbound.guid = some o.spanId
  trustedParentId : dt.inbound.trustedParentId = o.entrySpanId.or receiver.inbound.trustedParentId
  accountId : dt.inbound.accountId = some o.accountId
  appId : dt.inbound.appId = some o.appId
  txnId : dt.inbound.txnId = (setDtField o.txnId).or receiver.inbound.txnId
  sampled : dt.sampled = o.dt.sampled
  rawTracingVendors : dt.inbound.rawTracingVendors =
    (joined (o.vendors.map Vendor.entry)).or receiver.inbound.rawTracingVendors
  tracingVendors : dt.inbound.tracingVendors =
    (joined (o.vendors.map Vendor.key)).or receiver.inbound.tracingVendors

/-- The time in milliseconds, as microseconds. -/
def sentTimestamp (o : Outbound) : UInt64 := o.now / timeDivisorMs * timeDivisorMs

def RoundTrips (o : Outbound) (nearest : ℚ≥0 → Double) (receiver : NrDistributedTrace)
    (transportType : Option Bytes) : Prop :=
  ∃ dt, o.received nearest receiver transportType = .ok dt ∧ o.Recovered receiver dt ∧
    dt.inbound.timestamp = o.sentTimestamp

/-! ### The trace parent -/

lemma formattedTraceId_eq {traceId : Bytes} (h : traceId.length ≤ 32) :
    formattedTraceId traceId =
      List.replicate (32-traceId.length) (code '0') ++ traceId.map tolower := by
  unfold formattedTraceId
  simp only [List.length_map]
  split_ifs with hlt
  · rfl
  · have hlen : traceId.length = 32 := by omega
    rw [List.take_of_length_le (by simp [hlen]),hlen]
    rfl

/-- A fact about characters can be checked for each of them. -/
theorem forall_char {P : UInt8 → Prop} (h : ∀ n : Fin 256, P (UInt8.ofFin n)) (c : UInt8) : P c :=
  h c.toFin

lemma hexDigits_chars (c : UInt8) : (Json.isHex c → isLowerHex (tolower c)) ∧
    (tolower c = code '0' → c = code '0') ∧ (isLowerHex c → isalnum c) :=
  forall_char (P := fun c => (Json.isHex c → isLowerHex (tolower c)) ∧
    (tolower c = code '0' → c = code '0') ∧ (isLowerHex c → isalnum c)) (by decide +kernel) c

lemma isLowerHex_tolower (c : UInt8) : Json.isHex c → isLowerHex (tolower c) := (hexDigits_chars c).1

lemma tolower_eq_zero (c : UInt8) : tolower c = code '0' → c = code '0' := (hexDigits_chars c).2.1

lemma isalnum_of_isLowerHex (c : UInt8) : isLowerHex c → isalnum c := (hexDigits_chars c).2.2

variable {o : Outbound} {nearest : ℚ≥0 → Double} {receiver : NrDistributedTrace}
  {transportType : Option Bytes}

lemma ne_replicate {b : Bytes} {n : ℕ} {d : UInt8} (h : ∃ c ∈ b, c ≠ d) :
    b ≠ List.replicate n d := by
  rintro rfl
  obtain ⟨c,hc,hne⟩ := h
  exact hne (List.eq_of_mem_replicate hc)

lemma Valid.formatted (h : o.Valid) :
    (∀ c ∈ formattedTraceId o.traceId, isLowerHex c) ∧ (formattedTraceId o.traceId).length = 32 ∧
      formattedTraceId o.traceId ≠ List.replicate 32 (code '0') := by
  have hle := h.traceId_length.2
  rw [formattedTraceId_eq hle]
  refine ⟨?_,by simp; omega,ne_replicate ?_⟩
  · intro c hc
    rcases List.mem_append.mp hc with hc | hc
    · rw [List.eq_of_mem_replicate hc]
      decide
    · obtain ⟨d,hd,rfl⟩ := List.mem_map.mp hc
      exact isLowerHex_tolower d (h.traceId d hd)
  · obtain ⟨c,hc,hne⟩ := h.traceId_ne_zero
    exact ⟨tolower c,List.mem_append_right _ (List.mem_map_of_mem hc),
      fun heq => hne (tolower_eq_zero c heq)⟩

/-- The trace parent is read with both identifiers. -/
theorem Valid.parent (h : o.Valid) :
    ∃ parent, convertW3cHeadersTraceparent pcre o.traceparent = .ok parent ∧
      parent.getHashString "parent_id" = some o.spanId ∧
      parent.getHashString "trace_id" = some (formattedTraceId o.traceId) := by
  obtain ⟨hhex,hlen,hne⟩ := h.formatted
  have hread : o.traceparent.bind pcre.traceparent =
      some ([ascii "00",formattedTraceId o.traceId,o.spanId,
        if o.dt.sampled then ascii "01" else ascii "00"],none) := by
    apply pcre_traceparent (by decide +kernel) rfl hhex hlen h.spanId h.spanId_length
    · cases o.dt.sampled <;> decide +kernel
    · cases o.dt.sampled <;> rfl
  unfold convertW3cHeadersTraceparent
  rw [hread]
  simp only [ne_eq,not_true,and_false,if_false,if_neg hne,if_neg (ne_replicate h.spanId_ne_zero)]
  rw [if_neg (by decide)]
  refine ⟨_,rfl,?_,?_⟩
  · simp only [NrObj.getHashString,NrObj.getHashValue]
    rw [NrHash.get?_set_ne (by decide),NrHash.get?_set_self (by decide)]
    rfl
  · simp only [NrObj.getHashString,NrObj.getHashValue]
    rw [NrHash.get?_set_ne (by decide),NrHash.get?_set_ne (by decide),
      NrHash.get?_set_self (by decide)]
    rfl

/-! ### The vendors -/

lemma joined_cons (b : Bytes) (bs : List Bytes) :
    joined (b :: bs) = some ([code ','].intercalate (b :: bs)) :=
  foldl_strAppend b bs

lemma strAppend_joined (b : Bytes) (bs : List Bytes) :
    strAppend (some b) (joined bs) = some ([code ','].intercalate (b :: bs)) := by
  cases bs with
  | nil => simp [joined,strAppend]
  | cons b' bs =>
    rw [joined_cons,strAppend,List.intercalate_cons_cons,List.append_assoc]
    rfl

lemma separate_others {headerKey headerValue : Bytes} {vs : List Vendor} {forwarded names : Option Bytes}
    (hother : ∀ v ∈ vs, headerKey.isPrefixOf v.entry = false)
    (hname : ∀ v ∈ vs, (strsplit v.entry (code '=')).head? = some v.key) :
    separate headerKey (vs.map Vendor.entry) (headerValue,forwarded,names) =
      (headerValue,((vs.map Vendor.entry).map some).foldl strAppend forwarded,
        ((vs.map Vendor.key).map some).foldl strAppend names) := by
  induction vs generalizing forwarded names with
  | nil => rfl
  | cons v vs ih =>
    simp only [List.map_cons,List.foldl_cons,separate,hother v List.mem_cons_self,
      Bool.false_eq_true,if_false,hname v List.mem_cons_self]
    exact ih (fun w hw => hother w (List.mem_cons_of_mem v hw))
      fun w hw => hname w (List.mem_cons_of_mem v hw)

/-! ### The New Relic entry -/

def flag (o : Outbound) : Bytes := if o.dt.sampled then ascii "1" else ascii "0"

def entryText (o : Outbound) : Bytes :=
  dashed [ascii "0",ascii "0",o.accountId,o.appId,o.entrySpanId.getD [],o.txnId.getD [],o.flag,
    priorityDoubleToStr o.dt.priority,decimal (o.now / timeDivisorMs).toNat]

lemma Valid.nrEntry_eq (h : o.Valid) : o.nrEntry = some (o.trustedKey ++ atNr ++ o.entryText) := by
  simp only [nrEntry,createW3cTracestateHeader,Option.bind_eq_bind,Option.bind_some,h.trustedKey.1,
    h.accountId.1,h.appId.1]
  rfl

/-- The characters of a New Relic entry. -/
def isEntryChar (c : UInt8) : Bool := isalnum c || c ∈ ascii "@=-."

lemma isEntryChar_spec (c : UInt8) : isEntryChar c → c ≠ code ',' ∧ isspace c = false :=
  forall_char (P := fun c => isEntryChar c → c ≠ code ',' ∧ isspace c = false) (by decide +kernel) c

lemma isEntryChar_of_isalnum (c : UInt8) (hc : isalnum c) : isEntryChar c := by
  simp [isEntryChar,hc]

lemma isEntryChar_of_isDigit (c : UInt8) (hc : Json.isDigit c) : isEntryChar c := by
  simp [isEntryChar,isalnum,hc]

lemma isEntryChar_dashed {bs : List Bytes} (h : ∀ b ∈ bs, ∀ c ∈ b, isEntryChar c) :
    ∀ c ∈ dashed bs, isEntryChar c := by
  induction bs with
  | nil => simp [dashed]
  | cons b bs ih =>
    intro c hc
    cases bs with
    | nil => exact h b List.mem_cons_self c hc
    | cons b' bs =>
      simp only [dashed,List.mem_append,List.mem_cons] at hc
      rcases hc with hc | rfl | hc
      · exact h b List.mem_cons_self c hc
      · decide
      · exact ih (fun x hx => h x (List.mem_cons_of_mem b hx)) c (by simpa [dashed] using hc)

lemma mem_digits (places : ℕ) (magnitude : ℚ≥0) :
    ∀ c ∈ digits places magnitude, Json.isDigit c ∨ c = code '.' := by
  intro c hc
  rcases List.mem_append.mp hc with hc | hc
  · exact .inl (Json.isDigit_decimal _ c hc)
  · rcases List.mem_cons.mp hc with rfl | hc
    · exact .inr rfl
    · exact .inl (isDigit_padded _ _ c hc)

lemma isEntryChar_priorityDoubleToStr (d : Double) : ∀ c ∈ priorityDoubleToStr d, isEntryChar c := by
  have hunsigned : ∀ c ∈ d.unsignedText 6, isEntryChar c := by
    intro c hc
    cases d with
    | finite negative magnitude =>
      rcases mem_digits 6 magnitude c hc with hc | rfl
      · exact isEntryChar_of_isDigit c hc
      · decide
    | infinite negative => exact (show ∀ c ∈ "inf".toList.map code, isEntryChar c by decide +kernel) c hc
    | nan negative => exact (show ∀ c ∈ "nan".toList.map code, isEntryChar c by decide +kernel) c hc
  intro c hc
  unfold priorityDoubleToStr Double.text at hc
  split_ifs at hc
  · rcases List.mem_cons.mp hc with rfl | hc
    · decide
    · exact hunsigned c hc
  · exact hunsigned c hc

lemma Valid.alnum_span (h : o.Valid) : ∀ c ∈ o.entrySpanId.getD [], isalnum c := by
  intro c hc
  cases hs : o.entrySpanId with
  | none => simp [hs] at hc
  | some s =>
    rw [hs,Option.getD_some,h.entrySpanId s hs] at hc
    exact isalnum_of_isLowerHex c (h.spanId c hc)

lemma Valid.alnum_txn (h : o.Valid) : ∀ c ∈ o.txnId.getD [], isalnum c := by
  intro c hc
  cases hs : o.txnId with
  | none => simp [hs] at hc
  | some s =>
    rw [hs,Option.getD_some] at hc
    exact h.txnId s hs c hc

lemma isDigit_flag (o : Outbound) : ∀ c ∈ o.flag, Json.isDigit c := by
  unfold flag
  cases o.dt.sampled <;> decide +kernel

lemma Valid.entry_piece (h : o.Valid) : Piece (code ',') (o.trustedKey ++ atNr ++ o.entryText) := by
  have hchars : ∀ c ∈ o.trustedKey ++ atNr ++ o.entryText, isEntryChar c := by
    intro c hc
    rcases List.mem_append.mp hc with hc | hc
    · rcases List.mem_append.mp hc with hc | hc
      · exact isEntryChar_of_isalnum c (h.trustedKey.2 c hc)
      · exact (show ∀ c ∈ atNr, isEntryChar c by decide +kernel) c hc
    · apply isEntryChar_dashed _ c hc
      intro b hb
      simp only [List.mem_cons,List.not_mem_nil,or_false] at hb
      rcases hb with rfl | rfl | rfl | rfl | rfl | rfl | rfl | rfl | rfl
      · decide +kernel
      · decide +kernel
      · exact fun d hd => isEntryChar_of_isalnum d (h.accountId.2.1 d hd)
      · exact fun d hd => isEntryChar_of_isalnum d (h.appId.2.1 d hd)
      · exact fun d hd => isEntryChar_of_isalnum d (h.alnum_span d hd)
      · exact fun d hd => isEntryChar_of_isalnum d (h.alnum_txn d hd)
      · exact fun d hd => isEntryChar_of_isDigit d (o.isDigit_flag d hd)
      · exact isEntryChar_priorityDoubleToStr o.dt.priority
      · exact fun d hd => isEntryChar_of_isDigit d (Json.isDigit_decimal _ d hd)
  refine ⟨by simp [atNr,ascii],fun c hc => (isEntryChar_spec c (hchars c hc)).2,fun hc => ?_⟩
  exact (isEntryChar_spec _ (hchars _ hc)).1 rfl

/-! ### Reading and accepting -/

/-- The fields that the reader finds in the entry: a priority and a timestamp that need not be those
that were written, and what it leaves behind them. -/
structure ReadAs (o : Outbound) (priority timestamp left : Bytes) : Prop where
  text : o.entryText = dashed [ascii "0",ascii "0",o.accountId,o.appId,o.entrySpanId.getD [],
    o.txnId.getD [],o.flag,priority,timestamp] ++ left
  priority : ∀ c ∈ priority, isNumeric c
  timestamp : (∀ c ∈ timestamp, Json.isDigit c) ∧ timestamp ≠ []
  left : ∀ c ∈ left.head?, Json.isDigit c = false

variable {priority timestamp left : Bytes}

lemma Valid.entryFields (h : o.Valid) (hread : o.ReadAs priority timestamp left) :
    EntryFields (ascii "0") (ascii "0") o.accountId o.appId (o.entrySpanId.getD [])
      (o.txnId.getD []) o.flag priority timestamp left where
  version := by decide +kernel
  parentType := by decide +kernel
  account := h.accountId.2
  app := h.appId.2
  span := h.alnum_span
  txn := h.alnum_txn
  sampled := o.isDigit_flag
  priority := hread.priority
  timestamp := hread.timestamp
  left := hread.left

lemma Valid.header_length (h : o.Valid) : (o.trustedKey ++ atNr ++ o.entryText).length ≤ 259 :=
  Nat.le_of_lt_succ (h.entry _ h.nrEntry_eq)

lemma buffer260_eq_self {b : Bytes} (hb : b.length ≤ 259) : buffer260 b = b :=
  List.take_of_length_le hb

lemma Valid.headerKey (h : o.Valid) : buffer260 (o.trustedKey ++ atNr) = o.trustedKey ++ atNr := by
  apply buffer260_eq_self
  have hlen := h.header_length
  rw [List.length_append] at hlen
  omega

/-- The vendors as the loop finds them. -/
theorem Valid.separate_eq (h : o.Valid) :
    separate (o.trustedKey ++ atNr)
        ((o.trustedKey ++ atNr ++ o.entryText) :: o.vendors.map Vendor.entry) ([],none,none) =
      (o.trustedKey ++ atNr ++ o.entryText,joined (o.vendors.map Vendor.entry),
        joined (o.vendors.map Vendor.key)) := by
  have hpre : (o.trustedKey ++ atNr).isPrefixOf (o.trustedKey ++ atNr ++ o.entryText) = true :=
    List.isPrefixOf_iff_prefix.mpr (List.prefix_append ..)
  rw [separate,hpre,if_pos rfl,buffer260_eq_self h.header_length]
  exact separate_others (fun v hv => (h.vendors v hv).not_isPrefixOf h.trustedKey.2)
    fun v hv => (h.vendors v hv).name

/-- The object of the New Relic entry, if the reader finds one. -/
def entryRead (o : Outbound) (nearest : ℚ≥0 → Double) : Option NrObj :=
  (pcre.tracestate (o.trustedKey ++ atNr) (o.trustedKey ++ atNr ++ o.entryText)).bind (entryObject nearest)

lemma Valid.entryRead_eq (h : o.Valid) (hread : o.ReadAs priority timestamp left)
    (nearest : ℚ≥0 → Double) :
    ∃ entry, o.entryRead nearest = some entry ∧
      EntryRead (ascii "0") o.accountId o.appId (o.entrySpanId.getD []) (o.txnId.getD []) o.flag
        timestamp entry := by
  obtain ⟨entry,hentry,hfields⟩ := entryObject_read nearest (ascii "0") (ascii "0") o.accountId
    o.appId (o.entrySpanId.getD []) (o.txnId.getD []) o.flag priority timestamp
  have hregex : pcre.tracestate (o.trustedKey ++ atNr) (o.trustedKey ++ atNr ++ o.entryText) =
      some [ascii "0",ascii "0",o.accountId,o.appId,o.entrySpanId.getD [],o.txnId.getD [],o.flag,
        priority,timestamp] := by
    rw [hread.text]
    exact pcre_tracestate (h.entryFields hread) _
  exact ⟨entry,by rw [entryRead,hregex,Option.bind_some,hentry],hfields⟩

/-- The vendors are kept, and the New Relic entry is added when it can be read. -/
theorem Valid.tracestate_eq (h : o.Valid) (nearest : ℚ≥0 → Double) (obj : NrHash) :
    (convertW3cHeadersTracestate pcre nearest obj o.tracestate (some o.trustedKey)).2 =
      (o.entryRead nearest).elim
        (setVendors obj (joined (o.vendors.map Vendor.entry)) (joined (o.vendors.map Vendor.key)))
        ((setVendors obj (joined (o.vendors.map Vendor.entry))
          (joined (o.vendors.map Vendor.key))).set (ascii "tracestate")) := by
  have hsplit : strsplit ([code ','].intercalate
      ((o.trustedKey ++ atNr ++ o.entryText) :: o.vendors.map Vendor.entry)) (code ',') =
      (o.trustedKey ++ atNr ++ o.entryText) :: o.vendors.map Vendor.entry := by
    apply strsplit_intercalate
    intro b hb
    rcases List.mem_cons.mp hb with rfl | hb
    · exact h.entry_piece
    · obtain ⟨v,hv,rfl⟩ := List.mem_map.mp hb
      exact (h.vendors v hv).piece
  rw [tracestate,h.nrEntry_eq,strAppend_joined]
  simp only [convertW3cHeadersTracestate,hsplit,h.headerKey,h.separate_eq,reduceCtorEq,if_false]
  rw [if_neg h.entry_piece.ne_nil]
  have hread : (pcre.tracestate (o.trustedKey ++ atNr) (o.trustedKey ++ atNr ++ o.entryText)).bind
      (entryObject nearest) = o.entryRead nearest := rfl
  rw [hread]
  cases o.entryRead nearest <;> rfl

lemma get?_setVendors_of_ne {key : Bytes} (htracing : key ≠ ascii "tracingVendors")
    (hraw : key ≠ ascii "rawTracingVendors") (obj : NrHash) (forwarded names : Option Bytes) :
    (setVendors obj forwarded names).get? key = obj.get? key := by
  unfold setVendors
  split_ifs
  · rfl
  · rw [NrHash.get?_setString_ne hraw,NrHash.get?_setString_ne htracing]

/-- What is found under the names of the vendors. -/
theorem get?_setVendors_names (vs : List Vendor) (obj : NrHash)
    (htracing : obj.get? (ascii "tracingVendors") = none)
    (hraw : obj.get? (ascii "rawTracingVendors") = none) :
    let obj' := setVendors obj (joined (vs.map Vendor.entry)) (joined (vs.map Vendor.key))
    obj'.get? (ascii "tracingVendors") = (joined (vs.map Vendor.key)).map .string ∧
      obj'.get? (ascii "rawTracingVendors") = (joined (vs.map Vendor.entry)).map .string := by
  cases vs with
  | nil => exact ⟨htracing,hraw⟩
  | cons v vs =>
    simp only [List.map_cons,joined_cons,setVendors,reduceCtorEq,if_false,NrHash.setString,
      Option.map_some]
    rw [NrHash.get?_set_ne (by decide),NrHash.get?_set_self (by decide),
      NrHash.get?_set_self (by decide)]
    exact ⟨rfl,rfl⟩

/-- The members of the converted headers. -/
structure Converted (o : Outbound) (entry : Option NrObj) (headers : NrObj) : Prop where
  parent : ∃ parent, headers.getHashValue "traceparent" = some parent ∧
    parent.getHashString "parent_id" = some o.spanId ∧
    parent.getHashString "trace_id" = some (formattedTraceId o.traceId)
  entry : headers.getHashValue "tracestate" = entry
  tracingVendors : headers.getHashString "tracingVendors" = joined (o.vendors.map Vendor.key)
  rawTracingVendors : headers.getHashString "rawTracingVendors" =
    joined (o.vendors.map Vendor.entry)

lemma getString_map (b : Option Bytes) : (b.map NrObj.string).bind NrObj.getString = b := by
  cases b <;> rfl

/-- The entry is added under a name of its own. -/
theorem get?_addEntry_ne {key : Bytes} (hne : key ≠ ascii "tracestate") (obj : NrHash) (entry : Option NrObj) :
    NrHash.get? (entry.elim obj (obj.set (ascii "tracestate"))) key = obj.get? key := by
  cases entry with
  | none => rfl
  | some entry => exact NrHash.get?_set_ne hne obj entry

lemma get?_addEntry_self {obj : NrHash} (hnone : obj.get? (ascii "tracestate") = none)
    (entry : Option NrObj) :
    NrHash.get? (entry.elim obj (obj.set (ascii "tracestate"))) (ascii "tracestate") = entry := by
  cases entry with
  | none => exact hnone
  | some entry => exact NrHash.get?_set_self (by decide) obj entry

lemma Valid.converted (h : o.Valid) (nearest : ℚ≥0 → Double) :
    ∃ headers, (convertW3cHeadersToObject pcre nearest o.traceparent o.tracestate
        (some o.trustedKey)).2 = some headers ∧ o.Converted (o.entryRead nearest) headers := by
  obtain ⟨parent,hparent,hids⟩ := h.parent
  have hentry := h.tracestate_eq nearest (NrHash.set [] (ascii "traceparent") parent)
  have hnames := get?_setVendors_names o.vendors (NrHash.set [] (ascii "traceparent") parent)
    (NrHash.get?_set_ne (by decide) [] parent) (NrHash.get?_set_ne (by decide) [] parent)
  simp only [convertW3cHeadersToObject,hparent]
  refine ⟨_,rfl,⟨parent,?_,hids⟩,?_,?_,?_⟩
  · simp only [NrObj.getHashValue]
    rw [hentry,get?_addEntry_ne (by decide),get?_setVendors_of_ne (by decide) (by decide),
      NrHash.get?_set_self (by decide)]
  · simp only [NrObj.getHashValue]
    rw [hentry,get?_addEntry_self]
    rw [get?_setVendors_of_ne (by decide) (by decide),NrHash.get?_set_ne (by decide)]
    rfl
  · simp only [NrObj.getHashString,NrObj.getHashValue]
    rw [hentry,get?_addEntry_ne (by decide),hnames.1,getString_map]
  · simp only [NrObj.getHashString,NrObj.getHashValue]
    rw [hentry,get?_addEntry_ne (by decide),hnames.2,getString_map]

/-- A field of the receiver that is overwritten when something was sent. -/
theorem setDtField_kept (b old : Option Bytes) :
    (if setDtField b = none then old else setDtField (setDtField b)) = (setDtField b).or old := by
  cases b with
  | none => rfl
  | some b =>
    by_cases hb : b = []
    · simp [setDtField_some,hb]
    · simp [setDtField_some,hb]

lemma setDtField_getD (b : Option Bytes) : setDtField (some (b.getD [])) = setDtField b := by
  cases b with
  | none => rfl
  | some b => rfl

lemma intercalate_ne_nil {b : Bytes} (hb : b ≠ []) (bs : List Bytes) :
    [code ','].intercalate (b :: bs) ≠ [] := by
  cases bs with
  | nil => simpa using hb
  | cons b' bs => simp [List.intercalate_cons_cons]

/-- Joined texts of which the first is not empty are a field of their own. -/
theorem setDtField_joined (bs : List Bytes) (hbs : ∀ b ∈ bs, b ≠ []) :
    setDtField (joined bs) = joined bs := by
  cases bs with
  | nil => rfl
  | cons b bs =>
    rw [joined_cons,setDtField_some,if_neg (intercalate_ne_nil (hbs b List.mem_cons_self) bs)]

lemma flag_ne_nil (o : Outbound) : o.flag ≠ [] := by
  unfold flag
  cases o.dt.sampled <;> decide

lemma strtol_flag (o : Outbound) : (toInt (strtol o.flag) ≠ 0) = (o.dt.sampled = true) := by
  unfold flag
  cases o.dt.sampled <;> decide

/-- Joined keys and joined entries are fields of their own. -/
theorem Valid.joined_vendors (h : o.Valid) :
    setDtField (joined (o.vendors.map Vendor.key)) = joined (o.vendors.map Vendor.key) ∧
      setDtField (joined (o.vendors.map Vendor.entry)) = joined (o.vendors.map Vendor.entry) := by
  refine ⟨setDtField_joined _ fun b hb => ?_,setDtField_joined _ fun b hb => ?_⟩
  · obtain ⟨v,hv,rfl⟩ := List.mem_map.mp hb
    exact (h.vendors v hv).key_ne_nil
  · obtain ⟨v,hv,rfl⟩ := List.mem_map.mp hb
    exact (h.vendors v hv).piece.ne_nil

lemma Valid.spanId_ne_nil (h : o.Valid) : o.spanId ≠ [] := by
  rw [← List.length_pos_iff,h.spanId_length]
  decide

lemma Valid.formatted_ne_nil (h : o.Valid) : formattedTraceId o.traceId ≠ [] := by
  rw [← List.length_pos_iff,h.formatted.2.1]
  decide

lemma ite_none_or (b old : Option Bytes) : (if b = none then old else b) = b.or old := by
  cases b <;> rfl

/-- Accepting the converted headers sets everything but for the timestamp as it was sent. -/
theorem Converted.accepted {headers entry : NrObj} (hconv : o.Converted (some entry) headers) (h : o.Valid)
    (hread : EntryRead (ascii "0") o.accountId o.appId (o.entrySpanId.getD []) (o.txnId.getD []) o.flag
      timestamp entry) (receiver : NrDistributedTrace) (transportType : Option Bytes) :
    ∃ dt, acceptInboundW3cPayload (some receiver) (some headers) transportType = .ok dt ∧
      o.Recovered receiver dt ∧ dt.inbound.timestamp = timestampOf (some (strtoull timestamp)) := by
  obtain ⟨parent,hparent,hspan,htrace⟩ := hconv.parent
  obtain ⟨hkeys,hentries⟩ := h.joined_vendors
  have hspanId := h.spanId_ne_nil
  simp only [acceptInboundW3cPayload,hparent,hspan,htrace,hconv.entry,Option.elim_some]
  refine ⟨_,rfl,⟨?_,?_,?_,?_,?_,?_,?_,?_,?_⟩,?_⟩
  · rw [setDtField_some,if_neg h.formatted_ne_nil,formattedTraceId_eq h.traceId_length.2]
  · simp [setDtField_some,hspanId]
  · simp only [inboundSetTransportType,acceptTracestate,hread.span,setDtField_getD]
    cases hs : o.entrySpanId with
    | none => rfl
    | some s => simp [setDtField_some,h.entrySpanId s hs,hspanId]
  · simp [inboundSetTransportType,acceptTracestate,hread.account,setDtField_some,h.accountId.2.2]
  · simp [inboundSetTransportType,acceptTracestate,hread.app,setDtField_some,h.appId.2.2]
  · simp only [inboundSetTransportType,acceptTracestate,hread.txn,setDtField_getD,setDtField_kept]
  · simp [inboundSetTransportType,acceptTracestate,hread.sampled,o.flag_ne_nil,o.strtol_flag]
  · simp only [inboundSetTransportType,acceptTracestate,hconv.rawTracingVendors,hentries,ite_none_or]
  · simp only [inboundSetTransportType,acceptTracestate,hconv.tracingVendors,hkeys,ite_none_or]
  · simp only [inboundSetTransportType,acceptTracestate,hread.timestamp]

lemma Valid.received_eq (h : o.Valid) (hread : o.ReadAs priority timestamp left)
    (nearest : ℚ≥0 → Double) (receiver : NrDistributedTrace) (transportType : Option Bytes) :
    ∃ dt, o.received nearest receiver transportType = .ok dt ∧ o.Recovered receiver dt ∧
      dt.inbound.timestamp = timestampOf (some (strtoull timestamp)) := by
  obtain ⟨headers,hheaders,hconv⟩ := h.converted nearest
  obtain ⟨entry,hentry,hfields⟩ := h.entryRead_eq hread nearest
  rw [hentry] at hconv
  rw [received,hheaders]
  exact hconv.accepted h hfields receiver transportType

/-! ### Without an entry -/

/-- The receiver had all that the New Relic entry would tell it. -/
structure Known (o : Outbound) (receiver : NrDistributedTrace) : Prop where
  trustedParentId : ∀ s ∈ o.entrySpanId, receiver.inbound.trustedParentId = some s
  accountId : receiver.inbound.accountId = some o.accountId
  appId : receiver.inbound.appId = some o.appId
  txnId : ∀ s ∈ setDtField o.txnId, receiver.inbound.txnId = some s
  sampled : receiver.sampled = o.dt.sampled
  timestamp : receiver.inbound.timestamp = o.sentTimestamp

lemma eq_or_iff (old sent : Option Bytes) : old = sent.or old ↔ ∀ s ∈ sent, old = some s := by
  cases sent <;> simp

/-- Headers without an entry leave what it is about as it was. -/
theorem Converted.accepted_none {headers : NrObj} (hconv : o.Converted none headers) (h : o.Valid)
    (receiver : NrDistributedTrace) (transportType : Option Bytes) :
    ∃ dt, acceptInboundW3cPayload (some receiver) (some headers) transportType = .ok dt ∧
      (o.Recovered receiver dt ∧ dt.inbound.timestamp = o.sentTimestamp ↔ o.Known receiver) := by
  obtain ⟨parent,hparent,hspan,htrace⟩ := hconv.parent
  obtain ⟨hkeys,hentries⟩ := h.joined_vendors
  simp only [acceptInboundW3cPayload,hparent,hspan,htrace,hconv.entry,Option.elim_none]
  refine ⟨_,rfl,?_⟩
  constructor
  · rintro ⟨hrec,htime⟩
    exact ⟨(eq_or_iff _ _).mp hrec.trustedParentId,hrec.accountId,hrec.appId,
      (eq_or_iff _ _).mp hrec.txnId,hrec.sampled,htime⟩
  · intro hknown
    refine ⟨⟨?_,?_,(eq_or_iff _ _).mpr hknown.trustedParentId,hknown.accountId,hknown.appId,
      (eq_or_iff _ _).mpr hknown.txnId,hknown.sampled,?_,?_⟩,hknown.timestamp⟩
    · rw [setDtField_some,if_neg h.formatted_ne_nil,formattedTraceId_eq h.traceId_length.2]
    · simp [setDtField_some,h.spanId_ne_nil]
    · simp only [inboundSetTransportType,hconv.rawTracingVendors,hentries,ite_none_or]
    · simp only [inboundSetTransportType,hconv.tracingVendors,hkeys,ite_none_or]

/-- The class of digits and dots has none of the characters of a priority that is not finite. -/
theorem run_priority_none {d : Double} (hd : ¬ d.IsFinite) (rest : Bytes) :
    Pattern.run (fun _ => some ()) [.field isNumeric 0 none,dash,.field Json.isDigit 1 none]
      (priorityDoubleToStr d ++ rest) = none := by
  have hstop : ∀ s : Bytes, (∀ c ∈ s.head?, isNumeric c = false) →
      (∀ s', s = code '-' :: s' → ∀ c ∈ s'.head?, Json.isDigit c = false) →
      Pattern.run (fun _ => some ()) [.field isNumeric 0 none,dash,.field Json.isDigit 1 none] s = none :=
    fun s hs hdash => Pattern.run_field_text_none (v := []) isNumeric_dash (by simp) hs
      fun s' hs' => Pattern.run_field_of_stop (by decide) (hdash s' hs')
  have hword : ∀ (negative : Bool) (c : UInt8) (w : Bytes), c ≠ code '-' → isNumeric c = false →
      Json.isDigit c = false → Pattern.run (fun _ => some ()) [.field isNumeric 0 none,dash,.field Json.isDigit 1 none]
        ((if negative then code '-' :: c :: w else c :: w) ++ rest) = none := by
    intro negative c w hne hnumeric hdigit
    cases negative with
    | true =>
      refine hstop _ (by simpa using isNumeric_dash) fun s' hs' => ?_
      cases hs'
      simpa using hdigit
    | false =>
      refine hstop _ (by simpa using hnumeric) fun s' hs' => ?_
      exact absurd (List.cons.inj hs').1 hne
  cases d with
  | finite negative magnitude => exact absurd trivial hd
  | infinite negative => exact hword negative _ _ (by decide) (by decide) (by decide)
  | nan negative => exact hword negative _ _ (by decide) (by decide) (by decide)

/-- An entry with such a priority is not found. -/
theorem Valid.entryRead_none (h : o.Valid) (hd : ¬ o.dt.priority.IsFinite) (nearest : ℚ≥0 → Double) :
    o.entryRead nearest = none := by
  have hpriority := run_priority_none hd (code '-' :: decimal (o.now / timeDivisorMs).toNat)
  have hnone := run_field_dash_none 1 isDigit_dash (show ∀ c ∈ ascii "0", Json.isDigit c by decide +kernel) <|
    run_field_dash_none 1 isDigit_dash (show ∀ c ∈ ascii "0", Json.isDigit c by decide +kernel) <|
    run_field_dash_none 1 isalnum_dash h.accountId.2.1 <| run_field_dash_none 1 isalnum_dash h.appId.2.1 <|
    run_field_dash_none 0 isalnum_dash h.alnum_span <| run_field_dash_none 0 isalnum_dash h.alnum_txn <|
    run_field_dash_none 0 isDigit_dash o.isDigit_flag hpriority
  have htext := (Pattern.run_text (o.trustedKey ++ atNr) _).trans hnone
  unfold entryRead pcre tracestateItems entryText
  simp only [dashed,List.append_assoc] at htext ⊢
  rw [htext]
  rfl

/-! ### The priority -/

/-- The digits in front of the point of a written priority. -/
def wholePart (magnitude : ℚ≥0) : ℕ := fixed 6 magnitude / 10^6

lemma readAs_of_nonneg {magnitude : ℚ≥0} (hd : o.dt.priority = .finite false magnitude) :
    o.ReadAs (priorityDoubleToStr o.dt.priority) (decimal (o.now / timeDivisorMs).toNat) [] where
  text := (List.append_nil _).symm
  priority := by
    intro c hc
    rw [hd] at hc
    rcases mem_digits 6 magnitude c hc with hc | rfl
    · simp [isNumeric,hc]
    · decide
  timestamp := ⟨Json.isDigit_decimal _,Json.decimal_ne_nil _⟩
  left := by simp

/-- Behind the sign the reader finds the digits in front of the point. -/
theorem readAs_of_neg {magnitude : ℚ≥0} (hd : o.dt.priority = .finite true magnitude) :
    o.ReadAs [] (decimal (wholePart magnitude))
      (code '.' :: padded 6 (fixed 6 magnitude % 10^6) ++
        code '-' :: decimal (o.now / timeDivisorMs).toNat) where
  text := by
    have htext : priorityDoubleToStr (.finite true magnitude) = code '-' :: (decimal (wholePart magnitude) ++
        code '.' :: padded 6 (fixed 6 magnitude % 10^6)) := rfl
    simp only [entryText,dashed,hd,htext]
    simp
  priority := by simp
  timestamp := ⟨Json.isDigit_decimal _,Json.decimal_ne_nil _⟩
  left := by
    intro c hc
    cases hc
    decide

lemma strtoull_decimal (n : ℕ) :
    strtoull (decimal n) = ((min n (2^64-1) : ℕ) : ℤ).bmod (2^64) := by
  unfold strtoull
  simp only [Json.digitsValue_decimal]

lemma toUint64_bmod {m : ℕ} (hm : m < 2^64) : toUint64 ((m : ℤ).bmod (2^64)) = m := by
  have hbmod : ((m : ℤ).bmod (2^64)) % 2^64 = (m : ℤ) % 2^64 := Int.bmod_emod
  rw [toUint64,hbmod]
  omega

lemma timestampOf_decimal (n : ℕ) :
    timestampOf (some (strtoull (decimal n))) = UInt64.ofNat (min n (2^64-1)) * timeDivisorMs := by
  have hlt : min n (2^64-1) < 2^64 := by omega
  have hmod : toUint64 (strtoull (decimal n)) = min n (2^64-1) := by
    rw [strtoull_decimal]
    generalize min n (2^64-1) = m at hlt ⊢
    exact toUint64_bmod hlt
  rw [timestampOf,Option.getD_some,hmod]

lemma timestampOf_now (now : UInt64) :
    timestampOf (some (strtoull (decimal (now / timeDivisorMs).toNat))) =
      now / timeDivisorMs * timeDivisorMs := by
  have hlt : (now / timeDivisorMs).toNat < 2^64 := UInt64.toNat_lt _
  rw [timestampOf_decimal,Nat.min_eq_left (by omega),UInt64.ofNat_toNat]

/-- The reader finds the entry and its timestamp: the priority is finite without a sign, or the digits
behind the sign happen to be read as the same time. It does not find an entry whose priority is not
finite, and misses nothing when it knew all of it. -/
def Legible (o : Outbound) (receiver : NrDistributedTrace) : Prop :=
  match o.dt.priority with
  | .finite false _ => True
  | .finite true magnitude =>
    UInt64.ofNat (min (wholePart magnitude) (2^64-1)) * timeDivisorMs = o.sentTimestamp
  | .infinite _ | .nan _ => o.Known receiver

lemma Valid.roundTrips_iff_known (h : o.Valid) (hd : ¬ o.dt.priority.IsFinite) :
    o.RoundTrips nearest receiver transportType ↔ o.Known receiver := by
  obtain ⟨headers,hheaders,hconv⟩ := h.converted nearest
  rw [h.entryRead_none hd] at hconv
  obtain ⟨dt,haccept,hiff⟩ := hconv.accepted_none h receiver transportType
  rw [← hiff,RoundTrips,received,hheaders,haccept]
  simp

/-- The headers of a valid request are recovered exactly when the entry can be read. -/
theorem roundTrips_iff (h : o.Valid) (nearest : ℚ≥0 → Double) (receiver : NrDistributedTrace)
    (transportType : Option Bytes) :
    o.RoundTrips nearest receiver transportType ↔ o.Legible receiver := by
  unfold Legible
  split
  · rename_i hd
    refine iff_of_true ?_ trivial
    obtain ⟨dt,hdt,hrecovered,htime⟩ :=
      h.received_eq (readAs_of_nonneg hd) nearest receiver transportType
    exact ⟨dt,hdt,hrecovered,htime.trans (timestampOf_now o.now)⟩
  · rename_i hd
    obtain ⟨dt,hdt,hrecovered,htime⟩ :=
      h.received_eq (readAs_of_neg hd) nearest receiver transportType
    rw [timestampOf_decimal] at htime
    constructor
    · rintro ⟨dt',hdt',-,htime'⟩
      rw [hdt,Except.ok.injEq] at hdt'
      subst hdt'
      exact htime.symm.trans htime'
    · intro hsame
      exact ⟨dt,hdt,hrecovered,htime.trans hsame⟩
  · rename_i hd
    exact h.roundTrips_iff_known (by rw [hd]; exact id)
  · rename_i hd
    exact h.roundTrips_iff_known (by rw [hd]; exact id)

/-- A request of a sampled transaction with the given priority, in a trace that another vendor has
seen before. -/
def sampled (priority : Double) : Outbound where
  dt := { create with
    accountId := some (ascii "33")
    appId := some (ascii "2827902")
    trustedKey := some (ascii "190")
    sampled := true
    priority := priority }
  trustedKey := ascii "190"
  accountId := ascii "33"
  appId := ascii "2827902"
  traceId := ascii "74BE672B84DDc4e4"
  spanId := ascii "7d3efb1b173fecfa"
  entrySpanId := some (ascii "7d3efb1b173fecfa")
  txnId := some (ascii "e8b91a159289ff74")
  vendors := [⟨ascii "congo",ascii "t61rcWkgMzE"⟩]
  now := 1518469636035123

lemma valid_sampled {d : Double} (hd : ∀ b ∈ (sampled d).nrEntry, b.length < 260) :
    (sampled d).Valid where
  trustedKey := ⟨rfl,(show ∀ c ∈ ascii "190", isalnum c by decide +kernel)⟩
  accountId := ⟨rfl,(show (∀ c ∈ ascii "33", isalnum c) ∧ ascii "33" ≠ [] by decide +kernel)⟩
  appId := ⟨rfl,(show (∀ c ∈ ascii "2827902", isalnum c) ∧ ascii "2827902" ≠ [] by decide +kernel)⟩
  traceId := show ∀ c ∈ ascii "74BE672B84DDc4e4", Json.isHex c by decide +kernel
  traceId_length := show 1 ≤ 16 ∧ 16 ≤ 32 by decide
  traceId_ne_zero := ⟨code '7',List.mem_cons_self,by decide⟩
  spanId := show ∀ c ∈ ascii "7d3efb1b173fecfa", isLowerHex c by decide +kernel
  spanId_length := rfl
  spanId_ne_zero := ⟨code '7',List.mem_cons_self,by decide⟩
  entrySpanId := by
    rintro s ⟨⟩
    rfl
  txnId := by
    rintro s ⟨⟩
    decide +kernel
  entry := hd
  vendors := by
    intro v hv
    rw [List.mem_singleton.mp hv]
    exact ⟨by decide,by decide +kernel,by decide +kernel,
      show ascii "congo" ≠ ascii "190" ++ ascii "@nr" by decide⟩

theorem roundTrips_sampled :
    (sampled (.ofRat (1/2))).RoundTrips (Double.finite false) create (some (ascii "HTTP")) :=
  (roundTrips_iff (valid_sampled (by decide +kernel)) (Double.finite false) create
    (some (ascii "HTTP"))).mpr (by
      have hd : (sampled (.ofRat (1/2))).dt.priority = .finite false (1/2) := by decide +kernel
      rw [Legible,hd]
      trivial)

/-- With a sign in front of the priority the digits behind it are read as the timestamp, also those of a
negative zero. -/
theorem not_roundTrips_negative :
    ((sampled (.finite true (3/2))).Valid ∧
      ¬(sampled (.finite true (3/2))).RoundTrips (Double.finite false) create (some (ascii "HTTP"))) ∧
    (sampled (.finite true 0)).Valid ∧
      ¬(sampled (.finite true 0)).RoundTrips (Double.finite false) create (some (ascii "HTTP")) := by
  have hlost : ∀ magnitude, (sampled (.finite true magnitude)).Valid →
      UInt64.ofNat (min (wholePart magnitude) (2^64-1)) * timeDivisorMs ≠
        (sampled (.finite true magnitude)).sentTimestamp →
      ¬(sampled (.finite true magnitude)).RoundTrips (Double.finite false) create
        (some (ascii "HTTP")) := by
    rintro magnitude hvalid hne ⟨dt',hdt',-,htime'⟩
    obtain ⟨dt,hdt,-,htime⟩ :=
      hvalid.received_eq (readAs_of_neg rfl) (Double.finite false) create (some (ascii "HTTP"))
    rw [hdt,Except.ok.injEq] at hdt'
    subst hdt'
    rw [htime',timestampOf_decimal] at htime
    exact hne htime.symm
  have hvalid : (sampled (.finite true (3/2))).Valid := valid_sampled (by decide +kernel)
  have hzero : (sampled (.finite true 0)).Valid := valid_sampled (by decide +kernel)
  exact ⟨⟨hvalid,hlost _ hvalid (by decide +kernel)⟩,hzero,hlost _ hzero (by decide +kernel)⟩

end Outbound
end NrDistributedTrace
end PhpAgent

import PhpAgent.Daemon.BuiltTables

/-! The message that goes around whatever the agent sends to the daemon, after the ends of
`nr_txndata_encode`, `nr_appinfo_create_query` and `nr_span_batch_encode`, and the batches of spans. -/
namespace PhpAgent.AgentMessage
open Flat FlatBuilder FlatBuilder.Builder BuiltTables

/-- `MESSAGE_BODY_*`. -/
inductive MessageBody
  | none | app | appReply | txn | spanBatch
deriving DecidableEq

/-- `MIN_FLATBUFFER_SIZE`. -/
def minFlatbufferSize : ℕ := 20

/-- `nr_command_is_flatbuffer_invalid`, with the subtraction of a `size_t`. -/
def isFlatbufferInvalid (msg : Bytes) : Bool :=
  (msg.length + 2 ^ 64 - minFlatbufferSize) % 2 ^ 64 ≤ readUoffset (memoryOf msg) 0

/-- What there is for the daemon. -/
inductive Transmission
  | nothing
  | failure
  | written (msg : Bytes)
deriving DecidableEq

/-- The check before a message is written. -/
def checked (msg : Bytes) : Transmission := if isFlatbufferInvalid msg then .failure else .written msg

/-- The fields of `Message` in the order in which they are written. -/
def messageFields (malloc : ℕ → ℕ) (body : ℕ) (dataType : MessageBody) (agentRunId : ℕ) : List FieldWrite :=
  [.uoffset malloc 2 body,.number malloc .u8 1 dataType.ctorIdx 0,.uoffset malloc 0 agentRunId]

/-- The message around a body. -/
def encodeMessage (malloc : ℕ → ℕ) (prependBody : Builder → Except FlatBuilder.Fault (ℕ × Builder))
    (dataType : MessageBody) (agentRunId : Option Bytes) : Except FlatBuilder.Fault Bytes := do
  let (body,fb) ← prependBody (create malloc 0)
  let (id,fb) ← fb.prependString malloc agentRunId
  let (message,fb) ← prependObject malloc 3 ((messageFields malloc body dataType id).map FieldWrite.write) fb
  let fb ← fb.finish malloc message
  return fb.used

/-! ### What is in a message -/

variable {α : Type}

/-- The fields of a message. -/
structure MessageAt (P : α → ℕ → Bytes → Prop) (body : α) (dataType : MessageBody) (agentRunId : Option Bytes)
    (root : ℕ) (msg : Bytes) : Prop where
  data : HasTable P msg root 2 (some body)
  dataType : HasNumber msg root 1 .u8 dataType.ctorIdx
  agentRunId : HasText msg root 0 agentRunId

/-- A message with the offset of its root in front. -/
structure Finished (P : α → ℕ → Bytes → Prop) (body : α) (dataType : MessageBody) (agentRunId : Option Bytes)
    (root : ℕ) (msg : Bytes) : Prop where
  small : msg.length < 2 ^ 31
  within : root ≤ msg.length
  long : minFlatbufferSize < root
  front : Lies msg msg.length (lowBytes 4 (msg.length - root))
  at_root : MessageAt P body dataType agentRunId root msg

/-- The builder stops at two gigabytes, which half of them are needed for. -/
def TooLarge (bound : ℕ) (fault : FlatBuilder.Fault) : Prop := fault = .tooLarge ∧ 2 ^ 30 ≤ bound

lemma tooLarge_of_le {bound : ℕ} (h : 2 ^ 30 ≤ bound) : TooLarge bound .tooLarge := ⟨rfl,h⟩

/-- A bound on the bytes of a message besides its body. -/
def frameCost (agentRunId : Option Bytes) : ℕ := textCost agentRunId + 59

section Encode
variable {malloc : ℕ → ℕ} {stops : FlatBuilder.Fault → Prop} {P : α → ℕ → Bytes → Prop} {body : α}
  {dataType : MessageBody} {agentRunId : Option Bytes} {prependBody : Builder → Except FlatBuilder.Fault (ℕ × Builder)}

/-- What is known before the message itself. -/
def Before (P : α → ℕ → Bytes → Prop) (body : α) (agentRunId : Option Bytes) (x id : ℕ) (used : Bytes) : Prop :=
  (x ≤ used.length ∧ 13 ≤ x ∧ P body x used) ∧ id ≤ used.length ∧ TextAt used id agentRunId

lemma lasting_before (hP : ∀ a o, Lasting (P a o)) (x id : ℕ) : Lasting (Before P body agentRunId x id) :=
  ((lasting_le_length x).and ((lasting_const _).and (hP body x))).and
    ((lasting_le_length id).and (lasting_textAt id agentRunId))

lemma leaves_message {total : ℕ} (hmalloc : EvenAddresses malloc) (hP : ∀ a o, Lasting (P a o))
    (hstops : 2 ^ 30 ≤ total → stops .tooLarge) (body : α) (dataType : MessageBody) (agentRunId : Option Bytes)
    (x id : ℕ) :
    Leaves buffered stops total 39 (Before P body agentRunId x id) (fun root used => root ≠ 0 ∧ root ≤ used.length ∧
        minFlatbufferSize < root ∧ MessageAt P body dataType agentRunId root used)
      (prependObject malloc 3 ((messageFields malloc x dataType id).map FieldWrite.write)) := by
  refine leaves_table_with hmalloc hstops 3 18 [2,1,0] (messageFields malloc x dataType id) rfl rfl (by decide) ?_
    (lasting_before hP x id) fun root used hbefore htable => ?_
  · exact List.forall_mem_cons.mpr ⟨sound_uoffset hmalloc hstops 2 fun _ h => h.1.1,
      List.forall_mem_cons.mpr ⟨sound_number hmalloc hstops .u8 1 _,
        List.forall_mem_singleton.mpr (sound_uoffset hmalloc hstops 0 fun _ h => h.2.1)⟩⟩
  · obtain ⟨⟨hx,hlong,hbody⟩,hid,htext⟩ := hbefore
    have hne : x ≠ 0 := by omega
    have hbeyond := htable.beyond 0 rfl hne
    have hsize : minFlatbufferSize = 20 := rfl
    exact ⟨by omega,⟨x,htable.leads 0 rfl,hne,hbody⟩,htable.field 1 rfl,⟨id,htable.leads 2 rfl,htext⟩⟩

/-- A body that is built is put into a message. -/
theorem encodeMessage_spec (hmalloc : EvenAddresses malloc) (bound : ℕ) (hP : ∀ a o, Lasting (P a o))
    (hstops : 2 ^ 30 ≤ bound + frameCost agentRunId → stops .tooLarge)
    (hbody : Leaves buffered stops (bound + frameCost agentRunId) bound (fun _ => True)
      (fun x used => x ≤ used.length ∧ 13 ≤ x ∧ P body x used) prependBody) :
    Ends stops (fun msg => ∃ root, Finished P body dataType agentRunId root msg)
      (encodeMessage malloc prependBody dataType agentRunId) := by
  set total := bound + frameCost agentRunId
  have htotal : total = bound + (textCost agentRunId + 59) := rfl
  have hsane : (create malloc 0).Sane := sane_create hmalloc (by decide) (by decide)
  have hlen : (buffered.used (create malloc 0)).length = 0 := rfl
  refine (hbody (create malloc 0) ⟨hsane,rfl⟩ trivial (by omega)).bind
    fun ⟨x,fb₁⟩ ⟨hok₁,_,hlen₁,hx,hlong,hat⟩ => ?_
  have hlasting : Lasting fun used : Bytes => x ≤ used.length ∧ 13 ≤ x ∧ P body x used :=
    (lasting_le_length x).and ((lasting_const _).and (hP body x))
  have htext : Leaves buffered stops total _ (fun used => x ≤ used.length ∧ 13 ≤ x ∧ P body x used) _ _ :=
    leaves_text hmalloc hstops agentRunId
  refine ((htext.keep hlasting) fb₁ hok₁ ⟨hx,hlong,hat⟩ (by dsimp only at hlen₁; omega)).bind
    fun ⟨id,fb₂⟩ ⟨hok₂,_,hlen₂,hbody₂,hid,hidAt,_⟩ => ?_
  have hmessage : Leaves _ _ _ _ _ _ _ := leaves_message hmalloc hP hstops body dataType agentRunId x id
  refine (hmessage fb₂ hok₂ ⟨hbody₂,hid,hidAt⟩ (by dsimp only at hlen₁ hlen₂; omega)).bind
    fun ⟨root,fb₃⟩ ⟨hok₃,_,hlen₃,_,hroot,hlong,hmessageAt⟩ => ?_
  have hfinish : Ends stops _ _ := finish_spec hmalloc hok₃.1 hroot fun hlarge => hstops (by
    dsimp only at hlen₁ hlen₂ hlen₃
    change 2 ^ 30 ≤ (buffered.used fb₃).length + 20 at hlarge
    omega)
  refine hfinish.bind fun fb₄ ⟨hsane₄,hsuffix,hfront⟩ => ?_
  refine ⟨root,hsane₄.fits.trans_lt hsane₄.small,hroot.trans hsuffix.length_le,hlong,hfront,?_⟩
  exact ⟨lasting_hasTable hP root 2 _ hmessageAt.data hsuffix,lasting_hasNumber root 1 _ _ hmessageAt.dataType hsuffix,
    lasting_hasText root 0 _ hmessageAt.agentRunId hsuffix⟩

end Encode

/-! ### How a message is read -/

section Read
variable {fb : Flatbuf.Runtime} (hfb : fb.Documented) {P : α → ℕ → Bytes → Prop} {body : α} {dataType : MessageBody}
  {agentRunId : Option Bytes} {root : ℕ} {msg : Bytes} (h : Finished P body dataType agentRunId root msg)
include h

/-- No message is held back by the agent. -/
theorem Finished.checked : checked msg = .written msg := by
  have hsmall := h.small
  have hwithin := h.within
  have hlong := h.long
  have hread : readUoffset (memoryOf msg) (msg.length - msg.length : ℕ) = msg.length - root :=
    (contains_memoryOf msg).readUoffset_lies (s := []) (by omega) (by rw [List.append_nil]; exact h.front)
  rw [Nat.sub_self] at hread
  have hzero : readUoffset (memoryOf msg) 0 = msg.length - root := hread
  have hsize : minFlatbufferSize = 20 := rfl
  have hvalid : isFlatbufferInvalid msg = false := by
    rw [isFlatbufferInvalid,hzero,decide_eq_false_iff_not]
    omega
  rw [AgentMessage.checked,hvalid]
  rfl

include hfb

lemma Finished.getUOffsetT : fb.getUOffsetT msg = some (msg.length - root) := by
  obtain ⟨hinside,hnumber⟩ := numberAt_lowBytes (t := []) (by rw [List.append_nil]; exact h.front)
  have hpow : (256 : ℕ) ^ 4 = 2 ^ 32 := by norm_num
  have hsmall := h.small
  rw [Nat.sub_self] at hinside hnumber
  rw [hpow,Nat.mod_eq_of_lt (by omega)] at hnumber
  rw [hfb.getUOffsetT,(Flatbuf.load_yields msg 0 4).some hinside,hnumber]

lemma Finished.getRoot : Protocol.Message.getRoot fb msg = some (tableAt msg root) := by
  rw [Protocol.Message.getRoot,h.getUOffsetT hfb]
  rfl

/-- The checks of the daemon let every message through. -/
theorem Finished.processBinary (answer : AppInfoReply) :
    processBinary fb msg answer = processMessage fb msg answer (tableAt msg root) := by
  have hwithin := h.within
  have hlong := h.long
  have hsize : minFlatbufferSize = 20 := rfl
  have hsize' : Limits.minFlatbufferSize = 12 := rfl
  unfold PhpAgent.processBinary
  rw [if_neg (by omega),h.getUOffsetT hfb,h.getRoot hfb]
  change (if ((msg.length : ℤ) - Limits.minFlatbufferSize ≤ (msg.length - root : ℕ)) then _ else _) = _
  rw [if_neg (by omega)]
  rfl

lemma Finished.readDataType :
    Protocol.Message.dataType fb (tableAt msg root) = some (wire .u8 dataType.ctorIdx) :=
  readNumber_of_has hfb h.small h.at_root.dataType

lemma Finished.readData :
    ∃ x, P body x msg ∧ Protocol.Message.data fb (tableAt msg root) = some (some (tableAt msg x)) :=
  readUnion_of_has hfb h.small h.at_root.data

lemma Finished.readAgentRunId : Protocol.Message.agentRunId fb (tableAt msg root) = some agentRunId :=
  readBytes_of_has hfb h.small h.at_root.agentRunId

end Read

end PhpAgent.AgentMessage

/-! The batches of spans that the agent sends to the daemon, after `cmd_span_batch_transmit.c`. -/
namespace PhpAgent.SpanBatchTransmit
open Flat FlatBuilder FlatBuilder.Builder BuiltTables AgentMessage

/-- `nr_span_encoding_result_t`. -/
structure EncodedBatch where
  data : Bytes
  spanCount : UInt64
deriving DecidableEq

/-- The fields of `SpanBatch` in the order in which they are written. -/
def batchFields (malloc : ℕ → ℕ) (encoded : ℕ) (spanCount : UInt64) : List FieldWrite :=
  [.uoffset malloc 1 encoded,.number malloc .u64 0 spanCount.toNat 0]

/-- `nr_span_batch_prepend_batch`. -/
def prependBatch (malloc : ℕ → ℕ) (batch : EncodedBatch) (fb : Builder) : Except FlatBuilder.Fault (ℕ × Builder) := do
  let (offset,fb) ← fb.prependBytes malloc batch.data
  prependObject malloc 2 ((batchFields malloc offset batch.spanCount).map FieldWrite.write) fb

/-- `nr_span_batch_encode`. -/
def encode (malloc : ℕ → ℕ) (agentRunId : Bytes) (batch : EncodedBatch) : Except FlatBuilder.Fault Bytes :=
  encodeMessage malloc (prependBatch malloc batch) .spanBatch (some agentRunId)

/-- `nr_cmd_span_batch_tx`, when its arguments are there. -/
def transmit (malloc : ℕ → ℕ) (agentRunId : Bytes) (batch : EncodedBatch) : Except FlatBuilder.Fault Transmission :=
  if batch.data.length = 0 ∨ batch.spanCount = 0 then .ok .nothing
  else do
    let msg ← encode malloc agentRunId batch
    return checked msg

/-- The fields of a batch. -/
structure BatchAt (batch : EncodedBatch) (o : ℕ) (used : Bytes) : Prop where
  encoded : HasText used o 1 (some batch.data)
  count : HasNumber used o 0 .u64 batch.spanCount.toNat

lemma lasting_batchAt (batch : EncodedBatch) (o : ℕ) : Lasting (BatchAt batch o) := fun _ _ h hused =>
  ⟨lasting_hasText o 1 _ h.encoded hused,lasting_hasNumber o 0 _ _ h.count hused⟩

/-- A bound on the bytes of a batch. -/
def batchCost (batch : EncodedBatch) : ℕ := batch.data.length + 51

section Transmit
variable {malloc : ℕ → ℕ} {stops : FlatBuilder.Fault → Prop} {total : ℕ}

/-- What is known before the table. -/
def Before (batch : EncodedBatch) (x : ℕ) (used : Bytes) : Prop :=
  x ≠ 0 ∧ x ≤ used.length ∧ Lies used x (lowBytes 4 batch.data.length ++ batch.data)

lemma lasting_before (batch : EncodedBatch) (x : ℕ) : Lasting (Before batch x) :=
  (lasting_const _).and ((lasting_le_length x).and (lasting_lies x _))

lemma leaves_batchTable (hmalloc : EvenAddresses malloc) (htotal : 2 ^ 30 ≤ total → stops .tooLarge)
    {batch : EncodedBatch} (hne : batch.data ≠ []) (x : ℕ) :
    Leaves buffered stops total 43 (Before batch x)
      (fun o used => o ≠ 0 ∧ o ≤ used.length ∧ 13 ≤ o ∧ BatchAt batch o used)
      (prependObject malloc 2 ((batchFields malloc x batch.spanCount).map FieldWrite.write)) := by
  refine leaves_table_with hmalloc htotal 2 24 [1,0] (batchFields malloc x batch.spanCount) rfl rfl (by decide) ?_
    (lasting_before batch x) fun o used hbefore htable => ?_
  · exact List.forall_mem_cons.mpr ⟨sound_uoffset hmalloc htotal 1 fun _ h => h.2.1,
      List.forall_mem_singleton.mpr (sound_number hmalloc htotal .u64 0 _)⟩
  · obtain ⟨hx,-,hlies⟩ := hbefore
    have hbeyond := htable.beyond 0 rfl hx
    have hpos := List.length_pos_iff.mpr hne
    have hlen := hlies.length_le
    rw [List.length_append,length_lowBytes] at hlen
    exact ⟨by omega,⟨x,htable.leads 0 rfl,hx,hlies⟩,htable.field 1 rfl⟩

lemma leaves_batch (hmalloc : EvenAddresses malloc) (htotal : 2 ^ 30 ≤ total → stops .tooLarge) {batch : EncodedBatch}
    (hne : batch.data ≠ []) :
    Leaves buffered stops total (batchCost batch) (fun _ => True)
      (fun x used => x ≤ used.length ∧ 13 ≤ x ∧ BatchAt batch x used) (prependBatch malloc batch) := by
  have hbytes : Leaves buffered stops total _ (fun _ => True) _ _ := leaves_bytes hmalloc htotal batch.data
  change Leaves buffered stops total (batch.data.length + 8 + 43) _ _ fun fb => fb.prependBytes malloc batch.data >>=
    fun r => prependObject malloc 2 ((batchFields malloc r.1 batch.spanCount).map FieldWrite.write) r.2
  refine hbytes.bind (lasting_const _) fun x => ?_
  exact (leaves_batchTable hmalloc htotal hne x).weaken le_rfl (fun _ h => h.2) fun _ _ h => h.2

/-- A batch with spans reaches the daemon as it was encoded. -/
theorem transmit_batch_read {fb : Flatbuf.Runtime} (hfb : fb.Documented) (hmalloc : EvenAddresses malloc) {batch : EncodedBatch}
    (hne : batch.data ≠ []) (hcount : batch.spanCount ≠ 0) (agentRunId : Bytes) (answer : AppInfoReply) :
    Ends (TooLarge (batchCost batch + frameCost (some agentRunId)))
      (fun outcome => ∃ msg, outcome = .written msg ∧ processBinary fb msg answer =
        if agentRunId = [] then failed "missing agent run id for span batch command"
        else some ⟨some (.incomingSpanBatch agentRunId batch.spanCount.toNat (some batch.data)),.ok none⟩)
      (transmit malloc agentRunId batch) := by
  have hlength : ¬(batch.data.length = 0 ∨ batch.spanCount = 0) := by
    rw [List.length_eq_zero_iff]
    exact not_or.mpr ⟨hne,hcount⟩
  rw [transmit,if_neg hlength]
  have hmessage : Ends (TooLarge (batchCost batch + frameCost (some agentRunId)))
      (fun msg => ∃ root, Finished BatchAt batch .spanBatch (some agentRunId) root msg) (encode malloc agentRunId batch) :=
    encodeMessage_spec hmalloc (batchCost batch) lasting_batchAt tooLarge_of_le (leaves_batch hmalloc tooLarge_of_le hne)
  refine hmessage.bind fun msg ⟨root,hmsg⟩ => ⟨msg,hmsg.checked,?_⟩
  obtain ⟨x,hat,hdata⟩ := hmsg.readData hfb
  have hcountAt : Protocol.SpanBatch.count fb (tableAt msg x) = some (wire .u64 batch.spanCount.toNat) :=
    readNumber_of_has hfb hmsg.small hat.count
  have hencoded : Protocol.SpanBatch.encodedBytes fb (tableAt msg x) = some (some batch.data) :=
    readBytes_of_has hfb hmsg.small hat.encoded
  have hwire : wire .u64 batch.spanCount.toNat = batch.spanCount.toNat :=
    wire_nat (by decide) batch.spanCount.toNat_lt
  have htype : Protocol.Message.dataType fb (tableAt msg root) = some Protocol.messageBodySpanBatch :=
    hmsg.readDataType hfb
  rw [hmsg.processBinary hfb,processMessage,htype]
  change processSpanBatch fb (tableAt msg root) = _
  rw [processSpanBatch,hdata,hmsg.readAgentRunId hfb]
  change (if agentRunId.length = 0 then _ else _) = _
  rw [hcountAt,hencoded,hwire]
  simp only [List.length_eq_zero_iff]
  rfl

/-- One span in two bytes. -/
theorem transmit_batch_read_one : Ends (TooLarge (batchCost ⟨[8,1],1⟩ + frameCost (some [114])))
    (fun outcome => ∃ msg, outcome = .written msg ∧
      processBinary Flatbuf.Runtime.reference msg ⟨false,.unknown,[],[],0,0,0⟩ =
        if ([114] : Bytes) = [] then failed "missing agent run id for span batch command"
        else some ⟨some (.incomingSpanBatch [114] (1 : UInt64).toNat (some [8,1])),.ok none⟩)
    (transmit sixteens [114] ⟨[8,1],1⟩) :=
  transmit_batch_read Flatbuf.Runtime.reference_documented evenAddresses_sixteens (by decide) (by decide) [114] _

end Transmit

end PhpAgent.SpanBatchTransmit

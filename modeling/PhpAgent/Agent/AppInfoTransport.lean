import PhpAgent.Agent.AppInfoRuns
import PhpAgent.Daemon.Processor

/-! An appinfo reply on its way from the daemon, after `commands.go` and the generated code of
`AppReply.go` and `Message.go`, to the agent. -/
namespace PhpAgent

/-! ### Writing -/

section Builder
variable (fb : Flatbuf.Runtime)

namespace AppReply

def start : Flatbuf.Slots := fb.startObject 6
def addStatus (slots : Flatbuf.Slots) (status : ℤ) := fb.prependInt8Slot slots 0 status 0
def addConnectReply (slots : Flatbuf.Slots) (b : Bytes) := fb.prependUOffsetTSlot slots 1 (.bytes b)
def addSecurityPolicies (slots : Flatbuf.Slots) (b : Bytes) := fb.prependUOffsetTSlot slots 2 (.bytes b)
def addConnectTimestamp (slots : Flatbuf.Slots) (n : ℕ) := fb.prependUint64Slot slots 3 n 0
def addHarvestFrequency (slots : Flatbuf.Slots) (n : ℕ) := fb.prependUint16Slot slots 4 n 0
def addSamplingTarget (slots : Flatbuf.Slots) (n : ℕ) := fb.prependUint16Slot slots 5 n 0

end AppReply

namespace Message

def start : Flatbuf.Slots := fb.startObject 3
def addDataType (slots : Flatbuf.Slots) (n : ℕ) := fb.prependByteSlot slots 1 n 0
def addData (slots table : Flatbuf.Slots) := fb.prependUOffsetTSlot slots 2 (.table table)

end Message

/-- The message around a reply. -/
def finishMessage (data : Flatbuf.Slots) : Option Flatbuf.Slots := do
  let msg ← Message.addDataType fb (Message.start fb) 2
  Message.addData fb msg data

namespace AppInfoReply

/-! The numbers of a reply have the widths of the struct. -/

def timestamp (reply : AppInfoReply) : ℕ := toUint64 reply.connectTimestamp
def frequency (reply : AppInfoReply) : ℕ := (reply.harvestFrequency % 2^16).toNat
def target (reply : AppInfoReply) : ℕ := reply.samplingTarget % 2^16

/-- `MarshalAppInfoReply`: the root table of the message, `none` when the builder fails. -/
def marshal (reply : AppInfoReply) : Option Flatbuf.Slots :=
  if reply.runIDValid then do
    let data ← AppReply.addStatus fb (AppReply.start fb) 4
    let msg ← Message.addDataType fb (Message.start fb) 2
    let msg ← AppReply.addConnectTimestamp fb msg reply.timestamp
    let msg ← AppReply.addHarvestFrequency fb msg reply.frequency
    let msg ← AppReply.addSamplingTarget fb msg reply.target
    Message.addData fb msg data
  else if reply.state = .connected then do
    let data ← AppReply.addStatus fb (AppReply.start fb) 3
    let data ← AppReply.addConnectReply fb data reply.connectReply
    let data ← AppReply.addSecurityPolicies fb data reply.securityPolicies
    let data ← AppReply.addConnectTimestamp fb data reply.timestamp
    let data ← AppReply.addHarvestFrequency fb data reply.frequency
    let data ← AppReply.addSamplingTarget fb data reply.target
    finishMessage fb data
  else do
    let data ← match reply.state with
      | .unknown => AppReply.addStatus fb (AppReply.start fb) 0
      | .invalidLicense => AppReply.addStatus fb (AppReply.start fb) 2
      | .disconnected => AppReply.addStatus fb (AppReply.start fb) 1
      | _ => some (AppReply.start fb)
    finishMessage fb data

end AppInfoReply

end Builder

namespace AppInfoReply

/-! ### What is written -/

/-- A number is stored unless it is zero. -/
def stored (field : ℕ → Flatbuf.Field) (n : ℕ) : Option Flatbuf.Field :=
  if n = 0 then none else some (field n)

/-- The table of a full reply. -/
def fullSlots (reply : AppInfoReply) : Flatbuf.Slots :=
  [some (.i8 3),some (.bytes reply.connectReply),some (.bytes reply.securityPolicies),
    stored .u64 reply.timestamp,stored .u16 reply.frequency,stored .u16 reply.target]

/-- The table of a reply that has a status at most; 0 is not stored. -/
def statusSlots (status : ℤ) : Flatbuf.Slots :=
  [if status = 0 then none else some (.i8 status),none,none,none,none,none]

def messageSlots (data : Flatbuf.Slots) : Flatbuf.Slots := [none,some (.u8 2),some (.table data)]

/-- The status of a reply about an application that is not connected. -/
def plainStatus : AppState → ℤ
  | .disconnected => 1
  | .invalidLicense => 2
  | _ => 0

section Documented
variable {fb : Flatbuf.Runtime} (hfb : fb.Documented) {reply : AppInfoReply}
include hfb

/-- A number goes to the message only when it is zero, and then it is not stored. -/
theorem add_message (slots : Flatbuf.Slots) (hlen : slots.length = 3) (n : ℕ) :
    AppReply.addConnectTimestamp fb slots n = (if n = 0 then some slots else none) ∧
      AppReply.addHarvestFrequency fb slots n = (if n = 0 then some slots else none) ∧
      AppReply.addSamplingTarget fb slots n = if n = 0 then some slots else none := by
  refine ⟨?_,?_,?_⟩
  · rw [AppReply.addConnectTimestamp,hfb.prependUint64Slot]
    simp [Flatbuf.Documentation.prependSlot,Flatbuf.Documentation.store,hlen]
  · rw [AppReply.addHarvestFrequency,hfb.prependUint16Slot]
    simp [Flatbuf.Documentation.prependSlot,Flatbuf.Documentation.store,hlen]
  · rw [AppReply.addSamplingTarget,hfb.prependUint16Slot]
    simp [Flatbuf.Documentation.prependSlot,Flatbuf.Documentation.store,hlen]

lemma addStatus_start (status : ℤ) :
    AppReply.addStatus fb (AppReply.start fb) status = some (statusSlots status) := by
  rw [AppReply.addStatus,AppReply.start,hfb.startObject,hfb.prependInt8Slot]
  by_cases hs : status = 0 <;>
    simp [Flatbuf.Documentation.prependSlot,Flatbuf.Documentation.store,statusSlots,List.replicate,hs]

lemma addDataType_start :
    Message.addDataType fb (Message.start fb) 2 = some [none,some (.u8 2),none] := by
  rw [Message.addDataType,Message.start,hfb.startObject,hfb.prependByteSlot]
  rfl

lemma addData_eq (data : Flatbuf.Slots) :
    Message.addData fb [none,some (.u8 2),none] data = some (messageSlots data) := by
  rw [Message.addData,hfb.prependUOffsetTSlot]
  rfl

lemma finishMessage_eq (data : Flatbuf.Slots) : finishMessage fb data = some (messageSlots data) := by
  rw [finishMessage,addDataType_start hfb,Option.bind_eq_bind,Option.bind_some,addData_eq hfb]

/-- With a valid run id the three numbers go to the table of the message, which has no slot for
them. -/
theorem marshal_runIDValid (h : reply.runIDValid = true) : reply.marshal fb =
      if reply.timestamp = 0 ∧ reply.frequency = 0 ∧ reply.target = 0 then
        some (messageSlots (statusSlots 4))
      else none := by
  have hadd := add_message hfb [none,some (.u8 2),none] rfl
  simp only [marshal,h,if_true,addStatus_start hfb,addDataType_start hfb,Option.bind_eq_bind,Option.bind_some]
  rw [(hadd _).1]
  by_cases hts : reply.timestamp = 0
  · simp only [hts,if_true,Option.bind_some,true_and]
    rw [(hadd _).2.1]
    by_cases hf : reply.frequency = 0
    · simp only [hf,if_true,Option.bind_some,true_and]
      rw [(hadd _).2.2]
      by_cases ht : reply.target = 0
      · simp only [ht,if_true,Option.bind_some]
        exact addData_eq hfb _
      · simp [ht]
    · simp [hf]
  · simp [hts]

lemma marshal_connected (h : reply.runIDValid = false) (hstate : reply.state = .connected) :
    reply.marshal fb = some (messageSlots reply.fullSlots) := by
  simp only [marshal,h,hstate,Bool.false_eq_true,if_false,if_true,addStatus_start hfb,finishMessage_eq hfb,
    AppReply.addConnectReply,AppReply.addSecurityPolicies,AppReply.addConnectTimestamp,
    AppReply.addHarvestFrequency,AppReply.addSamplingTarget,hfb.prependUOffsetTSlot,
    hfb.prependUint64Slot,hfb.prependUint16Slot]
  by_cases hts : reply.timestamp = 0 <;> by_cases hf : reply.frequency = 0 <;>
    by_cases ht : reply.target = 0 <;>
    simp [Flatbuf.Documentation.prependSlot,Flatbuf.Documentation.store,statusSlots,fullSlots,stored,hts,hf,ht]

lemma marshal_plain (h : reply.runIDValid = false) (hstate : reply.state ≠ .connected) :
    reply.marshal fb = some (messageSlots (statusSlots (plainStatus reply.state))) := by
  have hempty : AppReply.start fb = statusSlots 0 := by
    rw [AppReply.start,hfb.startObject]
    rfl
  simp only [marshal,h,hstate,Bool.false_eq_true,if_false]
  cases hs : reply.state with
  | connected => exact absurd hs hstate
  | unknown | disconnected | invalidLicense =>
    simp only [addStatus_start hfb]
    exact finishMessage_eq hfb _
  | restart | invalidSecurityPolicies =>
    simp only [hempty]
    exact finishMessage_eq hfb _

end Documented

/-! ### Reading it back -/

section Reading
variable {R T : Type} (makers : Makers R T) {fb : Flatbuf.Runtime} {data : Memory} {len : ℤ}
  {reply : AppInfoReply}

/-- What the agent makes of a JSON text. -/
def parse (json : Bytes) : Option NrObj := if json = [] then none else makers.fromJson (cstr json)

lemma createFromJson_eq {start i : ℕ} {slots : Flatbuf.Slots} {b : Bytes}
    (h : Flat.HoldsTable data start slots) (hi : slots.getD i none = some (.bytes b)) :
    NrApp.createFromJson makers (Flat.tableInit data start) i = parse makers b := by
  obtain ⟨hsmall,hlen,hempty,hbytes⟩ := h.readVector_some hi
  have hint : toInt (b.length : ℤ) = b.length := by
    unfold toInt
    apply Int.bmod_eq_of_le <;> omega
  unfold NrApp.createFromJson parse
  dsimp only
  rw [hlen,hint]
  by_cases hb : b = []
  · rw [hempty hb,if_pos hb]
  · obtain ⟨pos,hpos,hat⟩ := hbytes hb
    have hlen0 : ¬ (b.length : ℤ) ≤ 0 := by
      have : b.length ≠ 0 := by simpa using hb
      omega
    rw [hpos,if_neg hb]
    dsimp only
    rw [if_neg hlen0,Int.toNat_natCast]
    exact congrArg (fun text => makers.fromJson (cstr text)) hat

/-- A message that was made by the builder and received in full. -/
structure Delivered (fb : Flatbuf.Runtime) (reply : AppInfoReply) (data : Memory) (len : ℤ) : Prop where
  holds : ∀ slots, reply.marshal fb = some slots → Flat.Holds data 0 (.table slots)
  len : len ≠ 0

lemma processReply_message {slots : Flatbuf.Slots}
    (h : Flat.Holds data 0 (.table (messageSlots slots))) (hlen : len ≠ 0) (now : ℕ)
    (app : NrApp R T) :
    ∃ start, Flat.HoldsTable data start slots ∧
      NrApp.processReply makers (some data) len now app =
        NrApp.processStatus makers app (Flat.tableInit data start) now
          (Flat.tableReadI8 (Flat.tableInit data start) 0 0) := by
  have hroot := h.holdsTable
  have hstart : 0+Flat.readUoffset data (0 : ℕ) = Flat.readUoffset data 0 := by simp
  rw [hstart] at hroot
  obtain ⟨start,hunion,htable⟩ := hroot.readUnion_some (i := 2) rfl
  refine ⟨start,htable,?_⟩
  have htype : Flat.tableReadU8 (Flat.tableInit data (Flat.readUoffset data 0)) 1 0 = 2 :=
    hroot.readU8_some rfl 0
  have hbody : NrApp.replyBody (some data) len = some (Flat.tableInit data start) := by
    simp only [NrApp.replyBody,hlen,if_false,Flat.tableInitRoot,htype,hunion]
    simp
  simp only [NrApp.processReply,hbody]

lemma processReply_status {len status : ℤ}
    (h : Flat.Holds data 0 (.table (messageSlots (statusSlots status)))) (hlen : len ≠ 0) (now : ℕ)
    (app : NrApp R T) :
    ∃ reply, NrApp.processReply makers (some data) len now app =
      NrApp.processStatus makers app reply now status := by
  obtain ⟨start,htable,hprocess⟩ := processReply_message makers h hlen now app
  refine ⟨Flat.tableInit data start,?_⟩
  rw [hprocess]
  congr 1
  by_cases hs : status = 0
  · subst hs
    exact htable.tableRead_none Flat.readI8 rfl 0
  · exact htable.readI8_some (by simp [statusSlots,hs]) 0

/-! ### The transport -/

/-- The state a reply should give the agent's application. -/
def agentState (reply : AppInfoReply) : NrAppState :=
  if reply.runIDValid then .ok
  else
    match reply.state with
    | .connected => .ok
    | .disconnected | .invalidLicense => .invalid
    | _ => .unknown

/-- The data of a connected application are at the agent; zero stands for the agent's default. -/
structure Arrived (reply : AppInfoReply) (now : ℕ) (app : NrApp R T) : Prop where
  connectReply : ∃ obj, parse makers reply.connectReply = some obj ∧ app.connectReply = some obj
  securityPolicies : app.securityPolicies = parse makers reply.securityPolicies
  timestamp : app.harvest.connectTimestamp =
    if reply.timestamp = 0 then now else reply.timestamp*NrApp.timeDivisor
  frequency : app.harvest.frequency =
    (if reply.frequency = 0 then 60 else reply.frequency)*NrApp.timeDivisor
  target : app.harvest.targetTransactionsPerCycle =
    if reply.target = 0 then 10 else reply.target

/-- The message is made, and the agent gets from it the state, and for a connected application the
data, of the reply. -/
def Transported (fb : Flatbuf.Runtime) (reply : AppInfoReply) (data : Memory) (len : ℤ) (now : ℕ) (app : NrApp R T) :
    Prop :=
  (reply.marshal fb).isSome ∧
    (NrApp.processReply makers (some data) len now app).2.state = reply.agentState ∧
    (reply.runIDValid = false → reply.state = .connected →
      Arrived makers reply now (NrApp.processReply makers (some data) len now app).2)

/-- A reply with a valid run id has no timing; one with a connect reply has one that parses, and a
timestamp whose microseconds fit 64 bits. -/
def Carriable (reply : AppInfoReply) : Prop :=
  (reply.runIDValid = true → reply.timestamp = 0 ∧ reply.frequency = 0 ∧ reply.target = 0) ∧
    (reply.runIDValid = false → reply.state = .connected →
      (parse makers reply.connectReply).isSome ∧ reply.timestamp*NrApp.timeDivisor < 2^64)

lemma transported_runIDValid (hfb : fb.Documented)
    (hvalid : reply.runIDValid = true) (h : Delivered fb reply data len) (now : ℕ) (app : NrApp R T) :
    Transported makers fb reply data len now app ↔ Carriable makers reply := by
  have hmarshal := marshal_runIDValid hfb hvalid
  unfold Transported Carriable
  by_cases hzero : reply.timestamp = 0 ∧ reply.frequency = 0 ∧ reply.target = 0
  · rw [if_pos hzero] at hmarshal
    obtain ⟨body,hprocess⟩ := processReply_status makers (h.holds _ hmarshal) h.len now app
    simp [hmarshal,hprocess,NrApp.processStatus,agentState,hvalid,hzero]
  · rw [if_neg hzero] at hmarshal
    simp [hmarshal,hvalid,hzero]

lemma transported_plain (hfb : fb.Documented)
    (hvalid : reply.runIDValid = false) (hstate : reply.state ≠ .connected)
    (h : Delivered fb reply data len) (now : ℕ) (app : NrApp R T) :
    Transported makers fb reply data len now app ↔ Carriable makers reply := by
  have hmarshal := marshal_plain hfb hvalid hstate
  obtain ⟨body,hprocess⟩ := processReply_status makers (h.holds _ hmarshal) h.len now app
  unfold Transported Carriable
  cases hs : reply.state with
  | connected => exact absurd hs hstate
  | unknown | disconnected | restart | invalidLicense | invalidSecurityPolicies =>
    rw [hs] at hprocess hmarshal
    simp [hmarshal,hprocess,NrApp.processStatus,plainStatus,agentState,hvalid,hs]

lemma harvestInit_fields (ah : NrAppHarvest) (timestamp frequency target now : ℕ) :
    (NrApp.harvestInit ah timestamp frequency target now).connectTimestamp = timestamp ∧
      (NrApp.harvestInit ah timestamp frequency target now).frequency = frequency ∧
      (NrApp.harvestInit ah timestamp frequency target now).targetTransactionsPerCycle = target := by
  unfold NrApp.harvestInit
  split_ifs with hchanged
  · exact ⟨rfl,rfl,rfl⟩
  · rw [not_or,not_not,not_not] at hchanged
    exact ⟨hchanged.1.symm,hchanged.2.symm,rfl⟩

/-- Microseconds wrap around unless they fit. -/
theorem timestamp_eq_iff (n now : ℕ) :
    ((if n = 0 then now else n*NrApp.timeDivisor % 2^64) =
      if n = 0 then now else n*NrApp.timeDivisor) ↔ n*NrApp.timeDivisor < 2^64 := by
  by_cases hn : n = 0
  · simp [hn]
  · simp only [hn,if_false]
    exact Nat.mod_eq_iff_lt (by decide)

lemma transported_connected (hfb : fb.Documented)
    (hvalid : reply.runIDValid = false) (hstate : reply.state = .connected)
    (h : Delivered fb reply data len) (now : ℕ) (app : NrApp R T) :
    Transported makers fb reply data len now app ↔ Carriable makers reply := by
  have hmarshal := marshal_connected hfb hvalid hstate
  obtain ⟨start,htable,hprocess⟩ :=
    processReply_message makers (h.holds _ hmarshal) h.len now app
  have hstatus : Flat.tableReadI8 (Flat.tableInit data start) 0 0 = 3 := htable.readI8_some rfl 0
  have hjson : NrApp.createFromJson makers (Flat.tableInit data start) 1 =
      parse makers reply.connectReply := createFromJson_eq makers htable rfl
  have hpolicies : NrApp.createFromJson makers (Flat.tableInit data start) 2 =
      parse makers reply.securityPolicies := createFromJson_eq makers htable rfl
  have htimestamp := htable.readU64_stored (i := 3) (n := reply.timestamp) rfl 0
  have hfrequency := htable.readU16_stored (i := 4) (n := reply.frequency) rfl 60
  have htarget := htable.readU16_stored (i := 5) (n := reply.target) rfl 10
  rw [hstatus] at hprocess
  simp only [NrApp.processStatus,hjson] at hprocess
  unfold Transported Carriable
  cases hparse : parse makers reply.connectReply with
  | none =>
    constructor
    · rintro ⟨-,-,harrived⟩
      obtain ⟨obj,hobj,-⟩ := (harrived hvalid hstate).connectReply
      rw [hparse] at hobj
      cases hobj
    · rintro ⟨-,hcarries⟩
      cases (hcarries hvalid hstate).1
  | some obj =>
    simp only [hparse] at hprocess
    have hfields := harvestInit_fields app.harvest
      (if reply.timestamp = 0 then now else reply.timestamp*NrApp.timeDivisor % 2^64)
      ((if reply.frequency = 0 then 60 else reply.frequency)*NrApp.timeDivisor)
      (if reply.target = 0 then 10 else reply.target) now
    have hharvest : NrApp.processHarvestTiming (Flat.tableInit data start) now app.harvest =
        NrApp.harvestInit app.harvest
          (if reply.timestamp = 0 then now else reply.timestamp*NrApp.timeDivisor % 2^64)
          ((if reply.frequency = 0 then 60 else reply.frequency)*NrApp.timeDivisor)
          (if reply.target = 0 then 10 else reply.target) now := by
      simp only [NrApp.processHarvestTiming,htimestamp,hfrequency,htarget]
      congr 1
      by_cases hts : reply.timestamp = 0 <;> simp [hts]
    constructor
    · rintro ⟨-,-,harrived⟩
      have htime := (harrived hvalid hstate).timestamp
      rw [hprocess] at htime
      simp only [NrApp.connected,hharvest,hfields.1] at htime
      refine ⟨fun hrun => ?_,fun _ _ => ⟨rfl,(timestamp_eq_iff _ now).mp htime⟩⟩
      rw [hvalid] at hrun
      cases hrun
    · rintro ⟨-,hcarries⟩
      have hfits := (hcarries hvalid hstate).2
      rw [hprocess]
      refine ⟨by simp [hmarshal],by simp [agentState,hvalid,hstate,NrApp.connected],fun _ _ => ?_⟩
      refine ⟨⟨obj,hparse,rfl⟩,hpolicies,?_,?_,?_⟩
      · simp only [NrApp.connected,hharvest,hfields.1]
        exact (timestamp_eq_iff _ now).mpr hfits
      · simp only [NrApp.connected,hharvest,hfields.2.1]
      · simp only [NrApp.connected,hharvest,hfields.2.2]

/-- A reply of the daemon gets to the agent exactly when it is carriable. -/
theorem transported_iff (hfb : fb.Documented) (reply : AppInfoReply) (data : Memory) (len : ℤ)
    (h : Delivered fb reply data len) (now : ℕ) (app : NrApp R T) :
    Transported makers fb reply data len now app ↔ Carriable makers reply := by
  cases hvalid : reply.runIDValid with
  | true => exact transported_runIDValid makers hfb hvalid h now app
  | false =>
    by_cases hstate : reply.state = .connected
    · exact transported_connected makers hfb hvalid hstate h now app
    · exact transported_plain makers hfb hvalid hstate h now app

end Reading

/-! ### Two replies -/

def connectedReply : AppInfoReply where
  runIDValid := false
  state := .connected
  connectReply := ascii "\x7b\x7d"
  securityPolicies := ascii "\x7b\x7d"
  connectTimestamp := 5
  harvestFrequency := 30
  samplingTarget := 0

/-- The message of `connectedReply`. -/
def connectedMessage : Bytes :=
  [16,0,0,0, 10,0,12,0, 0,0,4,0,8,0, 0,0, 12,0,0,0, 2,0,0,0, 20,0,0,0,
    16,0,24,0, 4,0,8,0,12,0,16,0,6,0,0,0, 16,0,0,0, 3,0,30,0, 16,0,0,0, 20,0,0,0,
    5,0,0,0,0,0,0,0, 2,0,0,0,0x7b,0x7d,0,0, 2,0,0,0,0x7b,0x7d]

lemma fieldOffset_beyond {data : Memory} {start i : ℕ} (size : ℕ)
    (hsize : Flat.readU16 data (start-Flat.readSoffset data start) = size) (hi : size < 4+2*i+2) :
    Flat.fieldOffset data start i = 0 := by
  simp only [Flat.fieldOffset,hsize]
  rw [if_neg (by omega)]

lemma connectedMessage_reply :
    Flat.HoldsTable (Flat.memoryOf connectedMessage) 44 connectedReply.fullSlots where
  even := by decide
  absent := by
    intro i hi
    match i with
    | 0 | 1 | 2 | 3 | 4 => simp [fullSlots,stored,timestamp,frequency,toUint64,connectedReply] at hi
    | 5 => decide
    | n+6 => exact fieldOffset_beyond 16 (by decide) (by omega)
  present := by
    intro i f hi
    match i with
    | 0 | 1 | 2 | 3 | 4 => decide
    | 5 => simp [fullSlots,stored,target,connectedReply] at hi
    | n+6 => simp [fullSlots] at hi
  field := by
    intro i f hi
    match i with
    | 0 =>
      cases hi
      exact .i8 (by decide)
    | 1 =>
      cases hi
      exact @Flat.Holds.bytes _ _ 68 _ (by decide) (by decide) (by decide)
        (by decide)
    | 2 =>
      cases hi
      exact @Flat.Holds.bytes _ _ 76 _ (by decide) (by decide) (by decide)
        (by decide)
    | 3 =>
      cases hi
      exact .u64 (by decide)
    | 4 =>
      cases hi
      exact .u16 (by decide)
    | 5 => simp [fullSlots,stored,target,connectedReply] at hi
    | n+6 => simp [fullSlots] at hi

lemma connectedMessage_holds :
    Flat.Holds (Flat.memoryOf connectedMessage) 0 (.table (messageSlots connectedReply.fullSlots)) := by
  refine @Flat.Holds.table _ _ 16 _ (by decide) (by decide) ?_ ?_ ?_
  · intro i hi
    match i with
    | 0 => decide
    | 1 | 2 => cases hi
    | n+3 => exact fieldOffset_beyond 10 (by decide) (by omega)
  · intro i f hi
    match i with
    | 0 => cases hi
    | 1 | 2 => decide
    | n+3 => simp [messageSlots] at hi
  · intro i f hi
    match i with
    | 0 => cases hi
    | 1 =>
      cases hi
      exact .u8 (by decide)
    | 2 =>
      cases hi
      have hreply := connectedMessage_reply
      exact @Flat.Holds.table _ _ 44 _ (by decide) hreply.even hreply.absent hreply.present
        hreply.field
    | n+3 => simp [messageSlots] at hi

theorem transported_connectedReply :
    Transported NrApp.emptyObject .reference connectedReply (Flat.memoryOf connectedMessage) 82 7
      (NrApp.create ⟨0,0,0⟩) := by
  have hdelivered : Delivered .reference connectedReply (Flat.memoryOf connectedMessage) 82 := by
    refine ⟨?_,by decide⟩
    intro slots hslots
    rw [marshal_connected Flatbuf.Runtime.reference_documented rfl rfl] at hslots
    cases hslots
    exact connectedMessage_holds
  refine (transported_iff NrApp.emptyObject Flatbuf.Runtime.reference_documented connectedReply _ 82 hdelivered 7 _).mpr ?_
  exact ⟨by decide,fun _ _ => ⟨by decide,by decide⟩⟩

/-- The answer to a valid run id, with the harvest frequency of the application. -/
def stillValidReply : AppInfoReply where
  runIDValid := true
  state := .connected
  connectReply := []
  securityPolicies := []
  connectTimestamp := 0
  harvestFrequency := 60
  samplingTarget := 0

/-- The builder fails on it, so nothing is sent. -/
theorem stillValidReply_not_transported :
    ¬ ∀ fb : Flatbuf.Runtime, fb.Documented →
      ∀ (reply : AppInfoReply) (data : Memory) (len : ℤ), Delivered fb reply data len →
        ∀ (now : ℕ) (app : NrApp Unit Unit),
          Transported NrApp.emptyObject fb reply data len now app := by
  intro h
  have hmarshal : stillValidReply.marshal .reference = none := by
    rw [marshal_runIDValid Flatbuf.Runtime.reference_documented rfl]
    rfl
  have hdelivered : Delivered .reference stillValidReply (fun _ => 0) 1 := by
    refine ⟨?_,by decide⟩
    intro slots hslots
    rw [hmarshal] at hslots
    cases hslots
  have hsome := (h _ Flatbuf.Runtime.reference_documented stillValidReply _ 1 hdelivered 0 (NrApp.create ⟨0,0,0⟩)).1
  rw [hmarshal] at hsome
  cases hsome

end AppInfoReply
end PhpAgent

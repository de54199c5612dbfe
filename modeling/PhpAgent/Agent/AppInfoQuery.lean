import PhpAgent.Agent.Labels
import PhpAgent.Agent.Messages

/-! The application query that the agent sends to the daemon, after `nr_appinfo_create_query` of
`cmd_appinfo_transmit.c`. -/
namespace PhpAgent.AppInfoQuery
open Flat FlatBuilder FlatBuilder.Builder BuiltTables AgentMessage

/-- `nr_app_info_t`. -/
structure NrAppInfo where
  highSecurity : ℤ
  license : Option Bytes
  settings : Option NrObj
  environment : Option NrObj
  labels : Option NrObj
  metadata : Option NrObj
  hostDisplayName : Option Bytes
  lang : Option Bytes
  version : Option Bytes
  appname : Option Bytes
  redirectCollector : Option Bytes
  securityPoliciesToken : Option Bytes
  supportedSecurityPolicies : Option NrObj
  traceObserverHost : Option Bytes
  traceObserverPort : UInt16
  spanQueueSize : UInt64
  spanEventsMaxSamplesStored : UInt64
  logEventsMaxSamplesStored : UInt64
  customEventsMaxSamplesStored : UInt64
  dockerId : Option Bytes

/-! ### Texts -/

/-- `convert_appenv` for each entry. -/
def convertAppenv (environment : NrObj) : NrObj :=
  .array ((Labels.hashEntries environment).map fun e => .array [.string e.1,e.2])

/-- `nro_to_json`. -/
def toJson : Option NrObj → Bytes
  | none => ascii "null"
  | some obj => obj.toJson

/-- The texts of a query in the order in which they are written. -/
inductive AppText
  | displayHost | labels | settings | environment | redirectCollector | agentVersion | agentLanguage | appname
  | license | securityPolicyToken | host | traceObserverHost | supportedSecurityPolicies | dockerId | metadata
deriving DecidableEq

namespace AppText

def all : List AppText :=
  [displayHost,labels,settings,environment,redirectCollector,agentVersion,agentLanguage,appname,license,
    securityPolicyToken,host,traceObserverHost,supportedSecurityPolicies,dockerId,metadata]

lemma getElem?_all (t : AppText) : all[t.ctorIdx]? = some t := by
  cases t <;> rfl

/-- A text that is not there is not written. -/
def of (info : NrAppInfo) (systemHostName : Option Bytes) : AppText → Option Bytes
  | displayHost => info.hostDisplayName
  | labels => info.labels.map fun obj => (Labels.connectorFormat (some obj)).toJson
  | settings => info.settings.map NrObj.toJson
  | environment => info.environment.map fun obj => (convertAppenv obj).toJson
  | redirectCollector => info.redirectCollector
  | agentVersion => info.version
  | agentLanguage => info.lang
  | appname => info.appname
  | license => info.license
  | securityPolicyToken => info.securityPoliciesToken
  | host => systemHostName
  | traceObserverHost => info.traceObserverHost
  | supportedSecurityPolicies => some (toJson info.supportedSecurityPolicies)
  | dockerId => info.dockerId
  | metadata => info.metadata.map NrObj.toJson

end AppText

/-! ### The query -/

/-- The fields of `App`. -/
inductive AppField
  | license | appname | agentLanguage | agentVersion | highSecurity | redirectCollector | environment | settings
  | labels | displayHost | securityPolicyToken | supportedSecurityPolicies | host | traceObserverHost
  | traceObserverPort | spanQueueSize | spanEventsMaxSamplesStored | metadata | logEventsMaxSamplesStored
  | customEventsMaxSamplesStored | dockerId

def AppText.field : AppText → AppField
  | displayHost => .displayHost
  | labels => .labels
  | settings => .settings
  | environment => .environment
  | redirectCollector => .redirectCollector
  | agentVersion => .agentVersion
  | agentLanguage => .agentLanguage
  | appname => .appname
  | license => .license
  | securityPolicyToken => .securityPolicyToken
  | host => .host
  | traceObserverHost => .traceObserverHost
  | supportedSecurityPolicies => .supportedSecurityPolicies
  | dockerId => .dockerId
  | metadata => .metadata

/-- The fields of `App` in the order in which they are written, from the offsets of the texts. -/
def appFields (malloc : ℕ → ℕ) (info : NrAppInfo) (offset : AppText → ℕ) : List FieldWrite :=
  let number := fun k (i : AppField) (y : ℤ) => FieldWrite.number malloc k i.ctorIdx y 0
  let text := fun t : AppText => FieldWrite.uoffset malloc t.field.ctorIdx (offset t)
  [number .u64 .spanQueueSize info.spanQueueSize.toNat,
    number .u64 .spanEventsMaxSamplesStored info.spanEventsMaxSamplesStored.toNat,
    number .u64 .customEventsMaxSamplesStored info.customEventsMaxSamplesStored.toNat,
    number .u64 .logEventsMaxSamplesStored info.logEventsMaxSamplesStored.toNat,
    number .u16 .traceObserverPort info.traceObserverPort.toNat,
    text .traceObserverHost,text .host,text .supportedSecurityPolicies,text .metadata,text .securityPolicyToken,
    text .displayHost,text .labels,text .settings,text .environment,text .redirectCollector,
    .bool malloc AppField.highSecurity.ctorIdx info.highSecurity 0,
    text .agentVersion,text .agentLanguage,text .appname,text .license,text .dockerId]

/-- The body of `nr_appinfo_create_query`. -/
def prependApp (malloc : ℕ → ℕ) (systemHostName : Option Bytes) (info : NrAppInfo) (fb : Builder) :
    Except FlatBuilder.Fault (ℕ × Builder) := do
  let (offsets,fb) ← forEach (fun t fb => fb.prependString malloc (AppText.of info systemHostName t)) AppText.all fb
  prependObject malloc 21 ((appFields malloc info fun t => offsets.getD t.ctorIdx 0).map FieldWrite.write) fb

/-- `nr_appinfo_create_query`. An empty run id is left out. -/
def createQuery (malloc : ℕ → ℕ) (agentRunId systemHostName : Option Bytes) (info : NrAppInfo) :
    Except FlatBuilder.Fault Bytes :=
  encodeMessage malloc (prependApp malloc systemHostName info) .app (agentRunId.filter (· ≠ []))

/-- The query that `nr_cmd_appinfo_tx` writes. -/
def transmit (malloc : ℕ → ℕ) (agentRunId systemHostName : Option Bytes) (info : NrAppInfo) :
    Except FlatBuilder.Fault Transmission := do
  let query ← createQuery malloc agentRunId systemHostName info
  return checked query

/-! ### What the daemon sees -/

/-- The application as the daemon is to see it. -/
def shown (info : NrAppInfo) (systemHostName : Option Bytes) : FlatAppInfo :=
  let text := AppText.of info systemHostName
  { supportedPolicies := text .supportedSecurityPolicies
    license := stringOf (text .license)
    appname := stringOf (text .appname)
    agentLanguage := stringOf (text .agentLanguage)
    agentVersion := stringOf (text .agentVersion)
    redirectCollector := stringOf (text .redirectCollector)
    environment := text .environment
    labels := text .labels
    metadata := text .metadata
    hostname := stringOf (text .host)
    hostDisplayName := stringOf (text .displayHost)
    securityPolicyToken := stringOf (text .securityPolicyToken)
    traceObserverHost := stringOf (text .traceObserverHost)
    traceObserverPort := info.traceObserverPort.toNat
    spanQueueSize := info.spanQueueSize.toNat
    highSecurity := info.highSecurity ≠ 0
    dockerId := stringOf (text .dockerId)
    settings := text .settings
    spanEventLimit := intOfUint64 info.spanEventsMaxSamplesStored.toNat
    logEventLimit := intOfUint64 info.logEventsMaxSamplesStored.toNat
    customEventLimit := intOfUint64 info.customEventsMaxSamplesStored.toNat }

/-- The fields of an application. -/
structure AppAt (app : NrAppInfo × Option Bytes) (o : ℕ) (used : Bytes) : Prop where
  texts : ∀ t : AppText, HasText used o t.field.ctorIdx (AppText.of app.1 app.2 t)
  spanQueueSize : HasNumber used o AppField.spanQueueSize.ctorIdx .u64 app.1.spanQueueSize.toNat
  spanEvents : HasNumber used o AppField.spanEventsMaxSamplesStored.ctorIdx .u64 app.1.spanEventsMaxSamplesStored.toNat
  customEvents :
    HasNumber used o AppField.customEventsMaxSamplesStored.ctorIdx .u64 app.1.customEventsMaxSamplesStored.toNat
  logEvents : HasNumber used o AppField.logEventsMaxSamplesStored.ctorIdx .u64 app.1.logEventsMaxSamplesStored.toNat
  traceObserverPort : HasNumber used o AppField.traceObserverPort.ctorIdx .u16 app.1.traceObserverPort.toNat
  highSecurity : HasNumber used o AppField.highSecurity.ctorIdx .u8 (truth app.1.highSecurity)

lemma lasting_appAt (app : NrAppInfo × Option Bytes) (o : ℕ) : Lasting (AppAt app o) := by
  intro used used' h hused
  exact ⟨fun t => lasting_hasText o _ _ (h.texts t) hused,lasting_hasNumber o _ _ _ h.spanQueueSize hused,
    lasting_hasNumber o _ _ _ h.spanEvents hused,lasting_hasNumber o _ _ _ h.customEvents hused,
    lasting_hasNumber o _ _ _ h.logEvents hused,lasting_hasNumber o _ _ _ h.traceObserverPort hused,
    lasting_hasNumber o _ _ _ h.highSecurity hused⟩

/-- A bound on the bytes of the query without its message. -/
def appCost (info : NrAppInfo) (systemHostName : Option Bytes) : ℕ :=
  (AppText.all.map fun t => textCost (AppText.of info systemHostName t)).sum + 247

section Transmit
variable {malloc : ℕ → ℕ} {stops : FlatBuilder.Fault → Prop} {total : ℕ}

/-- What is known before the table. -/
def Before (info : NrAppInfo) (systemHostName : Option Bytes) (offset : AppText → ℕ) (used : Bytes) : Prop :=
  ∀ t, offset t ≤ used.length ∧ TextAt used (offset t) (AppText.of info systemHostName t) ∧
    (AppText.of info systemHostName t ≠ none → 5 ≤ offset t)

lemma lasting_before (info : NrAppInfo) (systemHostName : Option Bytes) (offset : AppText → ℕ) :
    Lasting (Before info systemHostName offset) := fun _ _ h hused t =>
  ⟨(h t).1.trans hused.length_le,lasting_textAt _ _ (h t).2.1 hused,(h t).2.2⟩

lemma inlineBytes_appFields (malloc : ℕ → ℕ) (info : NrAppInfo) (offset : AppText → ℕ) :
    inlineBytes (appFields malloc info offset) = 190 := by
  simp only [inlineBytes,appFields,FieldWrite.number,FieldWrite.uoffset,FieldWrite.bool,Kind.size,List.map_cons,
    List.map_nil,List.sum_cons,List.sum_nil,Nat.reduceMul,Nat.reduceAdd]

lemma leaves_appTable (hmalloc : EvenAddresses malloc) (htotal : 2 ^ 30 ≤ total → stops .tooLarge)
    (info : NrAppInfo) (systemHostName : Option Bytes) (offset : AppText → ℕ) :
    Leaves buffered stops total 247 (Before info systemHostName offset)
      (fun o used => o ≠ 0 ∧ o ≤ used.length ∧ 13 ≤ o ∧ AppAt (info,systemHostName) o used)
      (prependObject malloc 21 ((appFields malloc info offset).map FieldWrite.write)) := by
  have htext : ∀ t : AppText, (FieldWrite.uoffset malloc t.field.ctorIdx (offset t)).Sound stops total
      (Before info systemHostName offset) := fun t => sound_uoffset hmalloc htotal _ fun _ h => (h t).1
  refine leaves_table_with hmalloc htotal 21 190 [15,16,19,18,14,13,12,11,17,10,9,8,7,6,5,4,3,2,1,0,20]
    (appFields malloc info offset) rfl (inlineBytes_appFields malloc info offset) (by decide) ?_ (lasting_before info systemHostName offset)
    fun o used hbefore htable => ?_
  · simp only [appFields,List.forall_mem_cons,List.not_mem_nil,false_imp_iff,implies_true,and_true]
    exact ⟨sound_number hmalloc htotal _ _ _,sound_number hmalloc htotal _ _ _,sound_number hmalloc htotal _ _ _,
      sound_number hmalloc htotal _ _ _,sound_number hmalloc htotal _ _ _,htext _,htext _,htext _,htext _,htext _,
      htext _,htext _,htext _,htext _,htext _,sound_bool hmalloc htotal _ _,htext _,htext _,htext _,htext _,htext _⟩
  · have hat : ∀ (t : AppText) (n : ℕ), (fieldsOf (appFields malloc info offset))[n]? =
        some (t.field.ctorIdx,fun used place => OffsetAt used place (offset t)) →
        HasText used o t.field.ctorIdx (AppText.of info systemHostName t) := fun t n hn =>
      ⟨offset t,htable.leads n hn,(hbefore t).2.1⟩
    have hpolicies : 5 ≤ offset .supportedSecurityPolicies :=
      (hbefore .supportedSecurityPolicies).2.2 (Option.some_ne_none _)
    have hbeyond : offset .supportedSecurityPolicies + 8 ≤ o := htable.beyond 7 rfl (by omega)
    refine ⟨by omega,fun t => ?_,htable.field 0 rfl,htable.field 1 rfl,htable.field 2 rfl,htable.field 3 rfl,
      htable.field 4 rfl,htable.field 15 rfl⟩
    cases t with
    | traceObserverHost => exact hat _ 5 rfl
    | host => exact hat _ 6 rfl
    | supportedSecurityPolicies => exact hat _ 7 rfl
    | metadata => exact hat _ 8 rfl
    | securityPolicyToken => exact hat _ 9 rfl
    | displayHost => exact hat _ 10 rfl
    | labels => exact hat _ 11 rfl
    | settings => exact hat _ 12 rfl
    | environment => exact hat _ 13 rfl
    | redirectCollector => exact hat _ 14 rfl
    | agentVersion => exact hat _ 16 rfl
    | agentLanguage => exact hat _ 17 rfl
    | appname => exact hat _ 18 rfl
    | license => exact hat _ 19 rfl
    | dockerId => exact hat _ 20 rfl

lemma leaves_app (hmalloc : EvenAddresses malloc) (htotal : 2 ^ 30 ≤ total → stops .tooLarge) (info : NrAppInfo)
    (systemHostName : Option Bytes) :
    Leaves buffered stops total (appCost info systemHostName) (fun _ => True)
      (fun x used => x ≤ used.length ∧ 13 ≤ x ∧ AppAt (info,systemHostName) x used)
      (prependApp malloc systemHostName info) := by
  have htexts : Leaves buffered stops total _ (fun _ => True) _ _ := Leaves.forEach (lasting_const _)
    (fun t x => (lasting_le_length x).and ((lasting_textAt x _).and (lasting_const _)))
    fun t (_ : t ∈ AppText.all) => leaves_text hmalloc htotal (AppText.of info systemHostName t)
  change Leaves buffered stops total (_ + 247) _ _ fun fb => forEach _ AppText.all fb >>=
    fun r => prependObject malloc 21 ((appFields malloc info fun t => r.1.getD t.ctorIdx 0).map FieldWrite.write) r.2
  refine htexts.bind (lasting_const _) fun offsets => ?_
  refine (leaves_appTable hmalloc htotal info systemHostName fun t => offsets.getD t.ctorIdx 0).weaken le_rfl
    (fun used ⟨_,hall⟩ t => ?_) fun _ _ h => h.2
  obtain ⟨x,hx,hat⟩ := forall₂_getElem? hall.flip (AppText.getElem?_all t)
  have hget : offsets.getD t.ctorIdx 0 = x := by rw [List.getD_eq_getElem?_getD,hx,Option.getD_some]
  dsimp only
  rwa [hget]

/-- The daemon reads the application that the agent has described. -/
theorem unmarshalAppInfo_of_at {fb : Flatbuf.Runtime} (hfb : fb.Documented) {info : NrAppInfo}
    {systemHostName : Option Bytes} {x : ℕ} {msg : Bytes} (hsmall : msg.length < 2 ^ 31)
    (h : AppAt (info,systemHostName) x msg) :
    unmarshalAppInfo fb (tableAt msg x) = some (shown info systemHostName) := by
  have text : ∀ t : AppText, Flatbuf.readBytes fb (tableAt msg x) (4 + 2 * t.field.ctorIdx) =
      some (AppText.of info systemHostName t) := fun t => readBytes_of_has hfb hsmall (h.texts t)
  have u64 : ∀ {i : AppField} {n : UInt64}, HasNumber msg x i.ctorIdx .u64 n.toNat →
      Flatbuf.readNumber fb 8 (tableAt msg x) (4 + 2 * i.ctorIdx) = some n.toNat := by
    intro i n hn
    have hread := readNumber_of_has hfb hsmall hn
    rwa [wire_nat (by decide) n.toNat_lt] at hread
  have hport := readNumber_of_has hfb hsmall h.traceObserverPort
  rw [wire_nat (by decide) info.traceObserverPort.toNat_lt] at hport
  have hsecurity := readNumber_of_has hfb hsmall h.highSecurity
  have hpolicies : Protocol.App.supportedSecurityPolicies fb (tableAt msg x) = _ := text .supportedSecurityPolicies
  have hlicense : Protocol.App.license fb (tableAt msg x) = _ := text .license
  have happname : Protocol.App.appName fb (tableAt msg x) = _ := text .appname
  have hlanguage : Protocol.App.agentLanguage fb (tableAt msg x) = _ := text .agentLanguage
  have hversion : Protocol.App.agentVersion fb (tableAt msg x) = _ := text .agentVersion
  have hredirect : Protocol.App.redirectCollector fb (tableAt msg x) = _ := text .redirectCollector
  have henvironment : Protocol.App.environment fb (tableAt msg x) = _ := text .environment
  have hlabels : Protocol.App.labels fb (tableAt msg x) = _ := text .labels
  have hmetadata : Protocol.App.metadata fb (tableAt msg x) = _ := text .metadata
  have hhost : Protocol.App.host fb (tableAt msg x) = _ := text .host
  have hdisplay : Protocol.App.displayHost fb (tableAt msg x) = _ := text .displayHost
  have htoken : Protocol.App.securityPolicyToken fb (tableAt msg x) = _ := text .securityPolicyToken
  have hobserver : Protocol.App.traceObserverHost fb (tableAt msg x) = _ := text .traceObserverHost
  have hobserverPort : Protocol.App.traceObserverPort fb (tableAt msg x) = _ := hport
  have hqueue : Protocol.App.spanQueueSize fb (tableAt msg x) = _ := u64 h.spanQueueSize
  have hhigh : Protocol.App.highSecurity fb (tableAt msg x) = _ := hsecurity
  have hdocker : Protocol.App.dockerId fb (tableAt msg x) = _ := text .dockerId
  have hsettings : Protocol.App.settings fb (tableAt msg x) = _ := text .settings
  have hspan : Protocol.App.spanEventsMaxSamplesStored fb (tableAt msg x) = _ := u64 h.spanEvents
  have hlog : Protocol.App.logEventsMaxSamplesStored fb (tableAt msg x) = _ := u64 h.logEvents
  have hcustom : Protocol.App.customEventsMaxSamplesStored fb (tableAt msg x) = _ := u64 h.customEvents
  rw [unmarshalAppInfo,hpolicies,hlicense,happname,hlanguage,hversion,hredirect,henvironment,hlabels,hmetadata,hhost,
    hdisplay,htoken,hobserver,hobserverPort,hqueue,hhigh,hdocker,hsettings,hspan,hlog,hcustom]
  simp only [Option.bind_eq_bind,Option.bind_some,boolOfByte_wire]
  rfl

/-- The query reaches the daemon with everything in it. -/
theorem transmit_query_read {fb : Flatbuf.Runtime} (hfb : fb.Documented) (hmalloc : EvenAddresses malloc)
    (agentRunId systemHostName : Option Bytes) (info : NrAppInfo) (answer : AppInfoReply) :
    Ends (TooLarge (appCost info systemHostName + frameCost (agentRunId.filter (· ≠ []))))
      (fun outcome => ∃ query, outcome = .written query ∧ processBinary fb query answer = (answer.marshal fb).map fun reply =>
        ⟨some (.incomingAppInfo (agentRunId.filter (· ≠ [])) (shown info systemHostName)),.ok (some reply)⟩)
      (transmit malloc agentRunId systemHostName info) := by
  set id := agentRunId.filter (· ≠ []) with hid
  have hmessage : Ends (TooLarge (appCost info systemHostName + frameCost id))
      (fun msg => ∃ root, Finished AppAt (info,systemHostName) .app id root msg)
      (createQuery malloc agentRunId systemHostName info) :=
    encodeMessage_spec hmalloc (appCost info systemHostName) lasting_appAt tooLarge_of_le
      (leaves_app hmalloc tooLarge_of_le info systemHostName)
  refine hmessage.bind fun query ⟨root,hquery⟩ => ⟨query,hquery.checked,?_⟩
  obtain ⟨x,hat,hdata⟩ := hquery.readData hfb
  have htype : Protocol.Message.dataType fb (tableAt query root) = some Protocol.messageBodyApp :=
    hquery.readDataType hfb
  rw [hquery.processBinary hfb,processMessage,htype]
  change processApp fb answer (tableAt query root) = _
  rw [processApp,hdata]
  change (unmarshalAppInfo fb (tableAt query x) >>= fun info => _) = _
  rw [unmarshalAppInfo_of_at hfb hquery.small hat,hquery.readAgentRunId hfb]
  cases answer.marshal fb with
  | none => rfl
  | some reply => rfl

/-- An application with labels and without a host. -/
def labelled : NrAppInfo where
  highSecurity := 1
  license := some (ascii "0123")
  settings := some (.hash [])
  environment := some (.hash [(ascii "PHP",.array [.int 8])])
  labels := some (.hash [(ascii "team",.string (ascii "web"))])
  metadata := none
  hostDisplayName := none
  lang := some (ascii "php")
  version := some (ascii "1")
  appname := some (ascii "app")
  redirectCollector := none
  securityPoliciesToken := some []
  supportedSecurityPolicies := none
  traceObserverHost := none
  traceObserverPort := 443
  spanQueueSize := 1000
  spanEventsMaxSamplesStored := 2000
  logEventsMaxSamplesStored := 0
  customEventsMaxSamplesStored := 30
  dockerId := none

theorem transmit_query_read_labelled : Ends (TooLarge (appCost labelled none + frameCost ((some []).filter (· ≠ []))))
    (fun outcome => ∃ query, outcome = .written query ∧
      processBinary Flatbuf.Runtime.reference query ⟨false,.unknown,[],[],0,0,0⟩ =
        (AppInfoReply.marshal .reference ⟨false,.unknown,[],[],0,0,0⟩).map fun reply =>
          ⟨some (.incomingAppInfo ((some []).filter (· ≠ [])) (shown labelled none)),.ok (some reply)⟩)
    (transmit sixteens (some []) none labelled) :=
  transmit_query_read Flatbuf.Runtime.reference_documented evenAddresses_sixteens (some []) none labelled _

end Transmit

end PhpAgent.AppInfoQuery

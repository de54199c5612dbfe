import PhpAgent.Daemon.EventData

/-! When the harvest settings of a connect reply are usable: limits within their bounds, default limits
where the collector sent none, and tickers that do not panic. -/
namespace PhpAgent

open Json

inductive EventKind
  | error
  | analytic
  | custom
  | span
  | log
deriving DecidableEq

namespace EventKind

def config (configs : EventConfigs) : EventKind → EventConfig
  | error => configs.errorEventConfig
  | analytic => configs.analyticEventConfig
  | custom => configs.customEventConfig
  | span => configs.spanEventConfig
  | log => configs.logEventConfig

/-- The maximum, which is also the default. -/
def maxLimit : EventKind → ℤ
  | error => Limits.maxErrorEvents
  | analytic => Limits.maxTxnEvents
  | custom => Limits.maxCustomMaxEvents
  | span => Limits.maxSpanMaxEvents
  | log => Limits.maxLogMaxEvents

def raw (limits : RawHarvestLimits) : EventKind → Option ℤ
  | error => limits.errorEventData
  | analytic => limits.analyticEventData
  | custom => limits.customEventData
  | span => limits.spanEventData
  | log => limits.logEventData

end EventKind

/-! ### What the collector sent -/

def defaultReportPeriodMS : ℕ := 60000

/-- The raw configuration in the last value of `event_harvest_config`. -/
def rawEventHarvestConfig (text : Bytes) : Option RawEventHarvestConfig :=
  (lastValue (ascii "event_harvest_config") text).bind fun v =>
    decodeStruct RawEventHarvestConfig.fields v ⟨defaultReportPeriodMS,{}⟩

/-- The raw configuration in the last value of `span_event_harvest_config`; a limit that is missing, but
not null, is the default one. -/
def rawSpanEventHarvestConfig (text : Bytes) : Option RawSpanEventHarvestConfig :=
  (lastValue (ascii "span_event_harvest_config") text).bind fun v =>
    decodeStruct RawSpanEventHarvestConfig.fields v ⟨defaultReportPeriodMS,some Limits.maxSpanMaxEvents⟩

/-- The limit that the collector sent for a kind of event. Span events have an object of their own. -/
def sentLimit (text : Bytes) : EventKind → Option ℤ
  | .span =>
    (lastValue (ascii "span_event_harvest_config") text).bind fun v =>
      (lastValue (ascii "harvest_limit") v).bind fun x => (decodeIntPtr x).join
  | kind => (rawEventHarvestConfig text).bind fun raw => kind.raw raw.harvestLimits

/-- The milliseconds that apply to a kind of event; none when its limit is not sent or null. -/
def sentPeriod (text : Bytes) : EventKind → Option ℕ
  | .span => (rawSpanEventHarvestConfig text).bind fun raw =>
    if raw.spanEventData.isSome then some raw.reportPeriodMS else none
  | kind => (rawEventHarvestConfig text).bind fun raw =>
    if (kind.raw raw.harvestLimits).isSome then some raw.reportPeriodMS else none

/-! ### The properties -/

/-- What the rest of the daemon needs of the result. -/
structure Usable (text : Bytes) (config : EventHarvestConfig) : Prop where
  bounds : ∀ kind : EventKind,
    0 ≤ (kind.config config.eventConfigs).limit ∧ (kind.config config.eventConfigs).limit ≤ kind.maxLimit
  default : ∀ kind : EventKind, sentLimit text kind = none →
    (kind.config config.eventConfigs).limit = kind.maxLimit
  tickers : ∀ period ∈ triggerPeriods config, 0 < period

/-- Both objects are there, and no report period wraps around to a negative duration. -/
structure Complete (text : Bytes) : Prop where
  events : (lastValue (ascii "event_harvest_config") text).isSome
  span : (lastValue (ascii "span_event_harvest_config") text).isSome
  periods : ∀ kind ms, sentPeriod text kind = some ms → ms*10^6 % 2^64 < 2^63

/-! ### One configuration -/

lemma durationToMilliseconds_default :
    durationToMilliseconds Limits.defaultReportPeriod = some defaultReportPeriodMS := by decide

lemma bmod_nonneg (n : ℕ) : (0 : ℤ) ≤ (n : ℤ).bmod (2^64) ↔ n % 2^64 < 2^63 := by
  rw [Int.bmod_def]
  split_ifs with h
  · omega
  · omega

lemma ofMilliseconds_nonneg (ms : ℕ) : 0 ≤ ofMilliseconds ms ↔ ms*10^6 % 2^64 < 2^63 := by
  have hcast : (ms : ℤ)*millisecond = ((ms*10^6 : ℕ) : ℤ) := by
    rw [millisecond]
    norm_cast
  rw [ofMilliseconds,hcast]
  exact bmod_nonneg (ms*10^6)

/-- The default is used for a limit that was not sent. -/
theorem getEventConfig_spec {rawLimit : Option ℤ} {rate defaultRate : Duration} {max : ℤ}
    {config : EventConfig} (hmax : 0 ≤ max) (h : getEventConfig rawLimit rate max defaultRate = some config) :
    0 ≤ config.limit ∧ config.limit ≤ max ∧ (rawLimit = none → config.limit = max) ∧
      config.reportPeriod = if rawLimit.isSome then rate else defaultRate := by
  cases rawLimit with
  | none =>
    obtain rfl := Option.some.inj h
    exact ⟨hmax,le_rfl,fun _ => rfl,rfl⟩
  | some limit =>
    simp only [getEventConfig] at h
    split_ifs at h with hneg
    obtain rfl := Option.some.inj h
    exact ⟨le_min (not_lt.mp hneg) hmax,min_le_right _ _,nofun,rfl⟩

lemma unmarshalJSON_event {v : Bytes} {config : EventHarvestConfig}
    (h : EventHarvestConfig.unmarshalJSON v = some config) :
    ∃ raw, decodeStruct RawEventHarvestConfig.fields v ⟨defaultReportPeriodMS,{}⟩ = some raw ∧
      config.reportPeriod = collectorPeriod raw.reportPeriodMS ∧
      ∀ kind : EventKind, getEventConfig (kind.raw raw.harvestLimits) (collectorPeriod raw.reportPeriodMS)
        kind.maxLimit Limits.defaultReportPeriod = some (kind.config config.eventConfigs) := by
  unfold EventHarvestConfig.unmarshalJSON at h
  rw [durationToMilliseconds_default] at h
  simp only [Option.bind_eq_bind,Option.bind_some,Option.bind_eq_some_iff] at h
  obtain ⟨raw,hraw,error,herror,analytic,hanalytic,custom,hcustom,span,hspan,log,hlog,hconfig⟩ := h
  obtain rfl := Option.some.inj hconfig
  refine ⟨raw,hraw,rfl,?_⟩
  intro kind
  cases kind with
  | error => exact herror
  | analytic => exact hanalytic
  | custom => exact hcustom
  | span => exact hspan
  | log => exact hlog

lemma unmarshalJSON_span {v : Bytes} {config : SpanEventHarvestConfig}
    (h : SpanEventHarvestConfig.unmarshalJSON v = some config) :
    ∃ raw, decodeStruct RawSpanEventHarvestConfig.fields v
        ⟨defaultReportPeriodMS,some Limits.maxSpanMaxEvents⟩ = some raw ∧
      getEventConfig raw.spanEventData (collectorPeriod raw.reportPeriodMS) Limits.maxSpanMaxEvents
        Limits.defaultReportPeriod = some config.spanEventConfig := by
  unfold SpanEventHarvestConfig.unmarshalJSON at h
  rw [durationToMilliseconds_default] at h
  simp only [Option.bind_eq_bind,Option.bind_some,Option.bind_eq_some_iff] at h
  obtain ⟨raw,hraw,event,hevent,hconfig⟩ := h
  obtain rfl := Option.some.inj hconfig
  exact ⟨raw,hraw,hevent⟩

/-! ### The fields of the reply -/

/-- A field that sets another part. -/
theorem get_of_map {σ β γ : Type} {get : σ → γ} {x : Option β} {g : β → σ} {s s' : σ}
    (h : x.map g = some s') (hget : ∀ y, get (g y) = get s) : get s' = get s := by
  obtain ⟨y,_,rfl⟩ := Option.map_eq_some_iff.mp h
  exact hget y

lemma sets_event : Sets RawConnectReply.eventHarvestConfig EventHarvestConfig.unmarshalJSON
    RawConnectReply.fields (ascii "event_harvest_config") := by
  refine ⟨⟨_,List.getElem_mem (n := 4) (by decide),rfl⟩,?_⟩
  intro f hf v s s' hset
  simp only [RawConnectReply.fields,List.mem_cons,List.not_mem_nil,or_false] at hf
  rcases hf with rfl | rfl | rfl | rfl | rfl | rfl | rfl | rfl
  · rw [if_neg (by decide)]
    exact get_of_map hset fun _ => rfl
  · rw [if_neg (by decide),Option.some.inj hset]
  · rw [if_neg (by decide)]
    exact get_of_map hset fun _ => rfl
  · rw [if_neg (by decide)]
    exact get_of_map hset fun _ => rfl
  · obtain ⟨x,hx,rfl⟩ := Option.map_eq_some_iff.mp hset
    rw [if_pos rfl]
    exact hx
  · rw [if_neg (by decide)]
    exact get_of_map hset fun _ => rfl
  · rw [if_neg (by decide)]
    obtain ⟨_,hset⟩ := Option.ite_none_right_eq_some.mp hset
    rw [Option.some.inj hset]
  · rw [if_neg (by decide)]
    exact get_of_map hset fun _ => rfl

lemma sets_span : Sets RawConnectReply.spanEventHarvestConfig SpanEventHarvestConfig.unmarshalJSON
    RawConnectReply.fields (ascii "span_event_harvest_config") := by
  refine ⟨⟨_,List.getElem_mem (n := 5) (by decide),rfl⟩,?_⟩
  intro f hf v s s' hset
  simp only [RawConnectReply.fields,List.mem_cons,List.not_mem_nil,or_false] at hf
  rcases hf with rfl | rfl | rfl | rfl | rfl | rfl | rfl | rfl
  · rw [if_neg (by decide)]
    exact get_of_map hset fun _ => rfl
  · rw [if_neg (by decide),Option.some.inj hset]
  · rw [if_neg (by decide)]
    exact get_of_map hset fun _ => rfl
  · rw [if_neg (by decide)]
    exact get_of_map hset fun _ => rfl
  · rw [if_neg (by decide)]
    exact get_of_map hset fun _ => rfl
  · obtain ⟨x,hx,rfl⟩ := Option.map_eq_some_iff.mp hset
    rw [if_pos rfl]
    exact hx
  · rw [if_neg (by decide)]
    obtain ⟨_,hset⟩ := Option.ite_none_right_eq_some.mp hset
    rw [Option.some.inj hset]
  · rw [if_neg (by decide)]
    exact get_of_map hset fun _ => rfl

lemma sets_harvestLimit : Sets RawSpanEventHarvestConfig.spanEventData decodeIntPtr
    RawSpanEventHarvestConfig.fields (ascii "harvest_limit") := by
  refine ⟨⟨_,List.mem_cons_of_mem _ List.mem_cons_self,rfl⟩,?_⟩
  intro f hf v s s' hset
  have hperiod : ¬ foldName (ascii "report_period_ms") = foldName (ascii "harvest_limit") := by
    decide
  rcases List.mem_cons.mp hf with rfl | hf
  · obtain ⟨x,_,rfl⟩ := Option.map_eq_some_iff.mp hset
    rw [if_neg hperiod]
  · obtain rfl := List.mem_singleton.mp hf
    obtain ⟨x,hx,rfl⟩ := Option.map_eq_some_iff.mp hset
    rw [if_pos rfl]
    exact hx

/-! ### The result -/

lemma config_combine_span (ehc : EventHarvestConfig) (sehc : SpanEventHarvestConfig) :
    EventKind.span.config (combineEventConfig ehc sehc).eventConfigs = sehc.spanEventConfig := rfl

variable {kind : EventKind}

lemma config_combine (hkind : kind ≠ .span) (ehc : EventHarvestConfig) (sehc : SpanEventHarvestConfig) :
    kind.config (combineEventConfig ehc sehc).eventConfigs = kind.config ehc.eventConfigs := by
  cases kind with
  | span => exact absurd rfl hkind
  | error => rfl
  | analytic => rfl
  | custom => rfl
  | log => rfl

/-- Each part of the result is what its object says, or zero. -/
theorem parseConnectReply_says {text : Bytes} {c : RawConnectReply} (h : parseConnectReply text = .ok c) :
    ∃ ehc sehc, c.eventHarvestConfig = combineEventConfig ehc sehc ∧
      Says EventHarvestConfig.unmarshalJSON (lastValue (ascii "event_harvest_config") text)
        EventHarvestConfig.zero ehc ∧
      Says SpanEventHarvestConfig.unmarshalJSON (lastValue (ascii "span_event_harvest_config") text)
        ⟨EventConfig.zero⟩ sehc := by
  unfold parseConnectReply at h
  simp only at h
  split at h
  · cases h
  · rename_i reply hreply
    split_ifs at h with hid
    obtain rfl := Except.ok.inj h
    exact ⟨reply.eventHarvestConfig,reply.spanEventHarvestConfig,rfl,sets_event.decodeStruct hreply,
      sets_span.decodeStruct hreply⟩

lemma maxLimit_pos (kind : EventKind) : 0 < kind.maxLimit := by
  cases kind <;> decide

/-- What an object says of a kind of event. -/
structure Follows (text : Bytes) (kind : EventKind) (config : EventConfig) : Prop where
  nonneg : 0 ≤ config.limit
  le_max : config.limit ≤ kind.maxLimit
  default : sentLimit text kind = none → config.limit = kind.maxLimit
  period : config.reportPeriod = ((sentPeriod text kind).map collectorPeriod).getD Limits.defaultReportPeriod

lemma follows_event {text v : Bytes} {ehc : EventHarvestConfig} (hkind : kind ≠ .span)
    (hv : lastValue (ascii "event_harvest_config") text = some v)
    (h : EventHarvestConfig.unmarshalJSON v = some ehc) : Follows text kind (kind.config ehc.eventConfigs) := by
  obtain ⟨raw,hraw,_,hkinds⟩ := unmarshalJSON_event h
  have hrawText : rawEventHarvestConfig text = some raw := by
    rw [rawEventHarvestConfig,hv]
    exact hraw
  have hlimit : sentLimit text kind = kind.raw raw.harvestLimits := by
    cases kind with
    | span => exact absurd rfl hkind
    | _ =>
      simp only [sentLimit]
      rw [hrawText]
      rfl
  have hperiod : sentPeriod text kind =
      if (kind.raw raw.harvestLimits).isSome then some raw.reportPeriodMS else none := by
    cases kind with
    | span => exact absurd rfl hkind
    | _ =>
      simp only [sentPeriod]
      rw [hrawText]
      rfl
  obtain ⟨hnonneg,hle,hdefault,hreport⟩ := getEventConfig_spec (maxLimit_pos kind).le (hkinds kind)
  refine ⟨hnonneg,hle,?_,?_⟩
  · intro hnone
    exact hdefault (hlimit.symm.trans hnone)
  · rw [hreport,hperiod]
    split_ifs <;> rfl

lemma follows_span {text v : Bytes} {sehc : SpanEventHarvestConfig}
    (hv : lastValue (ascii "span_event_harvest_config") text = some v)
    (h : SpanEventHarvestConfig.unmarshalJSON v = some sehc) : Follows text .span sehc.spanEventConfig := by
  obtain ⟨raw,hraw,hconfig⟩ := unmarshalJSON_span h
  have hrawText : rawSpanEventHarvestConfig text = some raw := by
    rw [rawSpanEventHarvestConfig,hv]
    exact hraw
  have hperiod : sentPeriod text .span =
      if raw.spanEventData.isSome then some raw.reportPeriodMS else none := by
    simp only [sentPeriod]
    rw [hrawText]
    rfl
  have hstates := sets_harvestLimit.decodeStruct hraw
  obtain ⟨hnonneg,hle,hdefault,hreport⟩ := getEventConfig_spec (maxLimit_pos .span).le hconfig
  refine ⟨hnonneg,hle,?_,?_⟩
  · intro hnone
    simp only [sentLimit] at hnone
    rw [hv,Option.bind_some] at hnone
    cases hlast : lastValue (ascii "harvest_limit") v with
    | none =>
      -- the initial value of the raw configuration is the default limit itself
      rw [hlast] at hstates
      have hspan : raw.spanEventData = some Limits.maxSpanMaxEvents := hstates
      rw [hspan] at hconfig
      rw [← Option.some.inj hconfig]
      rfl
    | some x =>
      rw [hlast] at hstates hnone
      have hread : decodeIntPtr x = some raw.spanEventData := hstates
      rw [Option.bind_some,hread] at hnone
      exact hdefault hnone
  · rw [hreport,hperiod]
    split_ifs <;> rfl

lemma follows {text v w : Bytes} {ehc : EventHarvestConfig} {sehc : SpanEventHarvestConfig}
    (hv : lastValue (ascii "event_harvest_config") text = some v)
    (hevent : EventHarvestConfig.unmarshalJSON v = some ehc)
    (hw : lastValue (ascii "span_event_harvest_config") text = some w)
    (hspan : SpanEventHarvestConfig.unmarshalJSON w = some sehc) (kind : EventKind) :
    Follows text kind (kind.config (combineEventConfig ehc sehc).eventConfigs) := by
  by_cases hkind : kind = .span
  · rw [hkind,config_combine_span]
    exact follows_span hw hspan
  · rw [config_combine hkind]
    exact follows_event hkind hv hevent

/-! ### Tickers -/

lemma collectorPeriod_nonneg (ms : ℕ) : 0 ≤ collectorPeriod ms ↔ ms*10^6 % 2^64 < 2^63 := by
  unfold collectorPeriod
  split_ifs with h
  · rw [h]
    decide
  · exact ofMilliseconds_nonneg ms

lemma reportPeriod_of_isHarvestAll {config : EventHarvestConfig} (h : config.isHarvestAll = true)
    (kind : EventKind) : (kind.config config.eventConfigs).reportPeriod = Limits.defaultReportPeriod := by
  unfold EventHarvestConfig.isHarvestAll at h
  simp only at h
  split_ifs at h with hall
  push Not at hall
  obtain ⟨herror,hanalytic,hcustom,hspan,hlog⟩ := hall
  have hdefault : config.reportPeriod = Limits.defaultReportPeriod := beq_iff_eq.mp h
  cases kind with
  | error => exact herror.trans hdefault
  | analytic => exact hanalytic.trans hdefault
  | custom => exact hcustom.trans hdefault
  | span => exact hspan.trans hdefault
  | log => exact hlog.trans hdefault

lemma tickers_iff (config : EventHarvestConfig) :
    (∀ period ∈ triggerPeriods config, 0 < period) ↔
      ∀ kind : EventKind, 0 ≤ (kind.config config.eventConfigs).reportPeriod := by
  have hdefault := HarvestTrigger.defaultReportPeriod_pos
  unfold triggerPeriods EventHarvestConfig.trigger
  split_ifs with hall
  · constructor
    · intro _ kind
      rw [reportPeriod_of_isHarvestAll hall kind]
      exact hdefault.le
    · intro _ period hperiod
      rw [List.mem_singleton.mp hperiod]
      exact hdefault
  · simp only [EventHarvestConfig.customTriggerBuilder,HarvestTrigger.TriggerFunc.tickers,List.map_cons,
      List.map_nil,List.forall_mem_cons,HarvestTrigger.checkReportPeriod_pos]
    constructor
    · rintro ⟨_,hanalytic,hcustom,herror,hspan,hlog,_⟩ kind
      cases kind with
      | error => exact herror
      | analytic => exact hanalytic
      | custom => exact hcustom
      | span => exact hspan
      | log => exact hlog
    · intro h
      exact ⟨hdefault,h .analytic,h .custom,h .error,h .span,h .log,nofun⟩

lemma follows_period {text : Bytes} {config : EventConfig} (h : Follows text kind config) :
    0 ≤ config.reportPeriod ↔ ∀ ms, sentPeriod text kind = some ms → ms*10^6 % 2^64 < 2^63 := by
  rw [h.period]
  cases sentPeriod text kind with
  | none => exact ⟨fun _ => nofun,fun _ => by decide⟩
  | some ms =>
    refine (collectorPeriod_nonneg ms).trans ⟨?_,fun hms => hms ms rfl⟩
    rintro hlt _ ⟨rfl⟩
    exact hlt

/-- An accepted reply is usable exactly when it has both objects and no period that wraps around. -/
theorem parseConnectReply_usable_iff (text : Bytes) (c : RawConnectReply)
    (h : parseConnectReply text = .ok c) : Usable text c.eventHarvestConfig ↔ Complete text := by
  obtain ⟨ehc,sehc,hconfig,hehc,hsehc⟩ := parseConnectReply_says h
  rw [hconfig]
  constructor
  · intro husable
    have hevents : (lastValue (ascii "event_harvest_config") text).isSome := by
      by_contra hnone
      rw [Option.not_isSome_iff_eq_none] at hnone
      rw [hnone] at hehc
      obtain rfl : ehc = EventHarvestConfig.zero := hehc
      have hsent : sentLimit text .error = none := by
        simp only [sentLimit,rawEventHarvestConfig]
        rw [hnone]
        rfl
      exact (maxLimit_pos .error).ne (husable.default .error hsent)
    have hspan : (lastValue (ascii "span_event_harvest_config") text).isSome := by
      by_contra hnone
      rw [Option.not_isSome_iff_eq_none] at hnone
      rw [hnone] at hsehc
      obtain rfl : sehc = ⟨EventConfig.zero⟩ := hsehc
      have hsent : sentLimit text .span = none := by
        simp only [sentLimit]
        rw [hnone]
        rfl
      exact (maxLimit_pos .span).ne (husable.default .span hsent)
    refine ⟨hevents,hspan,?_⟩
    obtain ⟨v,hv⟩ := Option.isSome_iff_exists.mp hevents
    obtain ⟨w,hw⟩ := Option.isSome_iff_exists.mp hspan
    rw [hv] at hehc
    rw [hw] at hsehc
    intro kind
    exact (follows_period (follows hv hehc hw hsehc kind)).mp ((tickers_iff _).mp husable.tickers kind)
  · intro hcomplete
    obtain ⟨v,hv⟩ := Option.isSome_iff_exists.mp hcomplete.events
    obtain ⟨w,hw⟩ := Option.isSome_iff_exists.mp hcomplete.span
    rw [hv] at hehc
    rw [hw] at hsehc
    have hfollows := follows hv hehc hw hsehc
    refine ⟨?_,?_,?_⟩
    · intro kind
      exact ⟨(hfollows kind).nonneg,(hfollows kind).le_max⟩
    · intro kind
      exact (hfollows kind).default
    · rw [tickers_iff]
      intro kind
      exact (follows_period (hfollows kind)).mpr (hcomplete.periods kind)

/-- The period of log events wraps around. -/
def wrappingReply : Bytes :=
  ascii "\x7b\"agent_run_id\":\"1\",\"event_harvest_config\":\x7b\"report_period_ms\":9300000000000," ++
  ascii "\"harvest_limits\":\x7b\"log_event_data\":1\x7d\x7d,\"span_event_harvest_config\":null\x7d"

theorem not_usable_wrappingReply :
    ∃ c, parseConnectReply wrappingReply = .ok c ∧ ¬ Usable wrappingReply c.eventHarvestConfig := by
  have hok : (parseConnectReply wrappingReply).isOk := by decide +kernel
  cases hparse : parseConnectReply wrappingReply with
  | error e =>
    rw [hparse] at hok
    cases hok
  | ok c =>
    refine ⟨c,rfl,?_⟩
    rw [parseConnectReply_usable_iff wrappingReply c hparse]
    intro hcomplete
    have hsent : sentPeriod wrappingReply .log = some 9300000000000 := by decide +kernel
    exact absurd (hcomplete.periods .log _ hsent) (by decide)

/-- Without the objects every limit is zero, though the collector sent none. -/
def bareReply : Bytes := ascii "\x7b\"agent_run_id\":\"1\"\x7d"

theorem not_parseConnectReply_usable :
    ¬ ∀ text c, parseConnectReply text = .ok c → Usable text c.eventHarvestConfig := by
  intro h
  have hbare := h bareReply _ rfl
  have hsent : sentLimit bareReply .error = none := by decide
  have hlimit := hbare.default .error hsent
  revert hlimit
  decide

end PhpAgent

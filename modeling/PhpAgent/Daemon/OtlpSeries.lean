import PhpAgent.Daemon.OtlpMetrics

/-! The time series that the exported data points belong to. -/
namespace PhpAgent
namespace Otlp
variable {F : Type} {r r' : MetricRecord F}

/-- Points that a backend cannot tell apart. -/
def SamePoint (m m' : Metric F) : Prop :=
  m.name = m'.name ∧ m.attributes = m'.attributes ∧ m.timestamp = m'.timestamp

/-- A part of a name, unless it is empty. -/
def nonEmpty (part : Option Bytes) : Option Bytes := part.filter fun s => s ≠ []

/-- The system, collection, operation and instance in the name of a database metric. -/
def databaseParts (name : Bytes) :
    Option (Option Bytes × Option Bytes × Option Bytes × Option Bytes) :=
  match kind name with
  | some .operation =>
    let parts := (trimPrefix name "Datastore/operation/").splitOn slash
    some (nonEmpty parts[0]?,none,nonEmpty parts[1]?,none)
  | some .statement =>
    let parts := (trimPrefix name "Datastore/statement/").splitOn slash
    some (nonEmpty parts[0]?,nonEmpty parts[1]?,nonEmpty parts[2]?,none)
  | some .inst =>
    let parts := (trimPrefix name "Datastore/instance/").splitOn slash
    some (nonEmpty parts[0]?,none,none,nonEmpty parts[1]?)
  | _ => none

/-- The second of at least three parts. -/
def cpuState (name : Bytes) : Option Bytes :=
  match splitThree name with
  | [_,state,_] => some state
  | _ => none

/-- Records that are exported to one series. The scope never counts. -/
inductive SharesSeries (r r' : MetricRecord F) : Prop
  | web (h : kind r.name = some .webTransaction) (h' : kind r'.name = some .webTransaction)
  | other (h : kind r.name = some .otherTransaction) (h' : kind r'.name = some .otherTransaction)
  | external (h : kind r.name = some .external) (hname : r'.name = r.name)
  | database (h : (databaseParts r.name).isSome)
      (hparts : databaseParts r'.name = databaseParts r.name)
  | cpu (h : kind r.name = some .cpu) (h' : kind r'.name = some .cpu)
      (hstate : cpuState r'.name = cpuState r.name) (hcount : r'.count = r.count)
  | memory (h : kind r.name = some .memoryPhysical) (h' : kind r'.name = some .memoryPhysical)
      (htotal : r'.total = r.total)
  | reporting (h : kind r.name = some .instanceReporting)
      (h' : kind r'.name = some .instanceReporting) (htotal : r'.total = r.total)
  | apdex (h : kind r.name = some .apdex) (h' : kind r'.name = some .apdex)
      (hcount : r'.count = r.count) (htotal : r'.total = r.total)
      (hexclusive : r'.exclusive = r.exclusive) (hmin : r'.min = r.min)
  | gauge (h : kind r.name ∈ [none,some .custom,some .supportability]) (hname : r'.name = r.name)
      (htotal : r'.total = r.total)

/-! ### The series of a record -/

inductive Series (F : Type)
  | web
  | other
  | external (name : Bytes)
  | database (parts : Option Bytes × Option Bytes × Option Bytes × Option Bytes)
  | cpu (state : Option Bytes) (count : F)
  | memory (total : F)
  | reporting (total : F)
  | apdex (satisfied tolerated failed threshold : F)
  | custom (name : Bytes) (total : F)
  | supportability (name : Bytes) (total : F)
  | fallback (name : Bytes) (total : F)

def series (r : MetricRecord F) : Series F :=
  match kind r.name,databaseParts r.name with
  | some .webTransaction, _ => .web
  | some .otherTransaction, _ => .other
  | some .external, _ => .external r.name
  | some .cpu, _ => .cpu (cpuState r.name) r.count
  | some .memoryPhysical, _ => .memory r.total
  | some .instanceReporting, _ => .reporting r.total
  | some .apdex, _ => .apdex r.count r.total r.exclusive r.min
  | some .custom, _ => .custom (trimPrefix r.name "Custom/") r.total
  | some .supportability, _ => .supportability (trimPrefix r.name "Supportability/") r.total
  | _, some parts => .database parts
  | _, none => .fallback r.name r.total

/-- How a record comes to its series. -/
inductive HasSeries (r : MetricRecord F) : Series F → Prop
  | web (h : kind r.name = some .webTransaction) : HasSeries r .web
  | other (h : kind r.name = some .otherTransaction) : HasSeries r .other
  | external (h : kind r.name = some .external) : HasSeries r (.external r.name)
  | database {parts : Option Bytes × Option Bytes × Option Bytes × Option Bytes}
      (h : databaseParts r.name = some parts) : HasSeries r (.database parts)
  | cpu (h : kind r.name = some .cpu) : HasSeries r (.cpu (cpuState r.name) r.count)
  | memory (h : kind r.name = some .memoryPhysical) : HasSeries r (.memory r.total)
  | reporting (h : kind r.name = some .instanceReporting) : HasSeries r (.reporting r.total)
  | apdex (h : kind r.name = some .apdex) :
      HasSeries r (.apdex r.count r.total r.exclusive r.min)
  | custom (h : kind r.name = some .custom) :
      HasSeries r (.custom (trimPrefix r.name "Custom/") r.total)
  | supportability (h : kind r.name = some .supportability) :
      HasSeries r (.supportability (trimPrefix r.name "Supportability/") r.total)
  | fallback (h : kind r.name = none) : HasSeries r (.fallback r.name r.total)

lemma hasSeries (r : MetricRecord F) : HasSeries r (series r) := by
  unfold series
  cases hk : kind r.name with
  | none =>
    have hparts : databaseParts r.name = none := by simp only [databaseParts,hk]
    rw [hparts]
    exact .fallback hk
  | some k =>
    cases k with
    | webTransaction => exact .web hk
    | otherTransaction => exact .other hk
    | external => exact .external hk
    | operation =>
      simp only [databaseParts,hk]
      exact .database (by simp only [databaseParts,hk])
    | statement =>
      simp only [databaseParts,hk]
      exact .database (by simp only [databaseParts,hk])
    | inst =>
      simp only [databaseParts,hk]
      exact .database (by simp only [databaseParts,hk])
    | cpu => exact .cpu hk
    | memoryPhysical => exact .memory hk
    | instanceReporting => exact .reporting hk
    | apdex => exact .apdex hk
    | custom => exact .custom hk
    | supportability => exact .supportability hk

/-- The text in front can be put back. -/
theorem eq_of_trimPrefix {s s' : Bytes} {start : String} (h : hasPrefix s start)
    (h' : hasPrefix s' start) (heq : trimPrefix s' start = trimPrefix s start)
    (hlen : (ascii start).length = start.length) : s' = s := by
  unfold hasPrefix at h h'
  obtain ⟨t,rfl⟩ := List.isPrefixOf_iff_prefix.mp h
  obtain ⟨t',rfl⟩ := List.isPrefixOf_iff_prefix.mp h'
  simp only [trimPrefix,hasPrefix,h,h',if_true,← hlen,List.drop_left] at heq
  rw [heq]

lemma ite_some_ne {c : Prop} [Decidable c] {k k' : Kind} {rest : Option Kind} (hk : k ≠ k')
    (hrest : rest ≠ some k') : (if c then some k else rest) ≠ some k' := by
  split
  · simpa using hk
  · exact hrest

lemma hasPrefix_of_custom {name : Bytes} (h : kind name = some .custom) :
    hasPrefix name "Custom/" = true := by
  by_contra hnot
  simp only [kind,hnot,if_false] at h
  refine absurd h ?_
  repeat refine ite_some_ne (by decide) ?_
  exact nofun

lemma hasPrefix_of_supportability {name : Bytes} (h : kind name = some .supportability) :
    hasPrefix name "Supportability/" = true := by
  by_contra hnot
  simp only [kind,hnot,if_false] at h
  refine absurd h ?_
  repeat refine ite_some_ne (by decide) ?_
  exact nofun

lemma sharesSeries_of_eq (h : series r' = series r) : SharesSeries r r' := by
  have hr := hasSeries r
  have hr' := hasSeries r'
  rw [h] at hr'
  generalize series r = s at hr hr'
  -- the two records have come to the series in the same way
  cases hr with
  | web hk =>
    cases hr' with
    | web hk' => exact .web hk hk'
  | other hk =>
    cases hr' with
    | other hk' => exact .other hk hk'
  | external hk =>
    generalize hn : r.name = n at hr'
    cases hr' with
    | external hk' => exact .external hk hn.symm
  | database hparts =>
    cases hr' with
    | database hparts' => exact .database (by rw [hparts]; rfl) (hparts'.trans hparts.symm)
  | cpu hk =>
    generalize hs : cpuState r.name = state at hr'
    generalize hc : r.count = count at hr'
    cases hr' with
    | cpu hk' => exact .cpu hk hk' hs.symm hc.symm
  | memory hk =>
    generalize ht : r.total = total at hr'
    cases hr' with
    | memory hk' => exact .memory hk hk' ht.symm
  | reporting hk =>
    generalize ht : r.total = total at hr'
    cases hr' with
    | reporting hk' => exact .reporting hk hk' ht.symm
  | apdex hk =>
    generalize hc : r.count = count at hr'
    generalize ht : r.total = total at hr'
    generalize he : r.exclusive = exclusive at hr'
    generalize hm : r.min = min at hr'
    cases hr' with
    | apdex hk' => exact .apdex hk hk' hc.symm ht.symm he.symm hm.symm
  | custom hk =>
    generalize hn : trimPrefix r.name "Custom/" = n at hr'
    generalize ht : r.total = total at hr'
    cases hr' with
    | custom hk' =>
      have hname := eq_of_trimPrefix (hasPrefix_of_custom hk) (hasPrefix_of_custom hk') hn.symm rfl
      exact .gauge (by simp [hk]) hname ht.symm
  | supportability hk =>
    generalize hn : trimPrefix r.name "Supportability/" = n at hr'
    generalize ht : r.total = total at hr'
    cases hr' with
    | supportability hk' =>
      have hname := eq_of_trimPrefix (hasPrefix_of_supportability hk)
        (hasPrefix_of_supportability hk') hn.symm rfl
      exact .gauge (by simp [hk]) hname ht.symm
  | fallback hk =>
    generalize hn : r.name = n at hr'
    generalize ht : r.total = total at hr'
    cases hr' with
    | fallback hk' => exact .gauge (by simp [hk]) hn.symm ht.symm

lemma databaseParts_of_kind {name : Bytes}
    (h : kind name ∈ [none,some .custom,some .supportability]) : databaseParts name = none := by
  simp only [List.mem_cons,List.not_mem_nil,or_false] at h
  rcases h with h | h | h <;> simp only [databaseParts,h]

lemma series_of_databaseParts {r : MetricRecord F}
    {parts : Option Bytes × Option Bytes × Option Bytes × Option Bytes}
    (h : databaseParts r.name = some parts) : series r = .database parts := by
  have hr := hasSeries r
  cases hs : series r with
  | database parts' =>
    rw [hs] at hr
    cases hr with
    | database h' =>
      rw [h] at h'
      cases h'
      rfl
  | _ =>
    rw [hs] at hr
    cases hr
    rename_i hk
    simp only [databaseParts,hk] at h
    cases h

lemma SharesSeries.eq (h : SharesSeries r r') : series r' = series r := by
  cases h with
  | web h h' => simp only [series,h,h']
  | other h h' => simp only [series,h,h']
  | external h hname => simp only [series,hname,h]
  | database h hparts =>
    obtain ⟨parts,h⟩ := Option.isSome_iff_exists.mp h
    rw [series_of_databaseParts h,series_of_databaseParts (hparts.trans h)]
  | cpu h h' hstate hcount => simp only [series,h,h',hstate,hcount]
  | memory h h' htotal => simp only [series,h,h',htotal]
  | reporting h h' htotal => simp only [series,h,h',htotal]
  | apdex h h' hcount htotal hexclusive hmin =>
    simp only [series,h,h',hcount,htotal,hexclusive,hmin]
  | gauge h hname htotal =>
    have hparts := databaseParts_of_kind h
    simp only [List.mem_cons,List.not_mem_nil,or_false] at h
    rcases h with h | h | h <;> simp only [series,hname,htotal,h,hparts]

section Naming
variable [Float64 F] [DecidableEq F]

def putOption (attrs : Attributes F) (key : String) : Option Bytes → Attributes F
  | some s => putStr attrs key s
  | none => attrs

/-- The name of the metric of a series. -/
def Series.name : Series F → Bytes
  | .web => ascii "http.server.request.duration"
  | .other => ascii "http.server.request.duration"
  | .external _ => ascii "http.client.request.duration"
  | .database _ => ascii "db.client.operation.duration"
  | .cpu _ _ => ascii "process.cpu.time"
  | .memory _ => ascii "process.memory.usage"
  | .reporting _ => ascii "process.uptime"
  | .apdex _ _ _ _ => ascii "apdex"
  | .custom name _ => ascii "custom." ++ name
  | .supportability name _ => ascii "agent.supportability." ++ name
  | .fallback name _ => ascii "newrelic." ++ name

/-- The attribute that a number gives unless it is zero. -/
def putNonzero (key : String) (x : F) : Attributes F := if x ≠ 0 then putDouble ∅ key x else ∅

def Series.attributes : Series F → Attributes F
  | .web => ∅
  | .other => putStr ∅ "rpc.system" (ascii "php-cli")
  | .external name => externalAttrs name ∅
  | .database (system,collection,operation,inst) =>
    putOption (putOption (putOption (putOption ∅ "db.system" system) "db.collection" collection)
      "db.operation" operation) "db.instance" inst
  | .cpu (some state) count =>
    putStr (putStr (putNonzero "newrelic.count" count) "state" state) "mode" (ascii "cpu")
  | .cpu none count => putNonzero "newrelic.count" count
  | .memory total => putNonzero "newrelic.total" total
  | .reporting total => putNonzero "newrelic.total" total
  | .apdex satisfied tolerated failed threshold =>
    putDouble (putDouble (putDouble (putDouble ∅ "apdex.satisfied" satisfied) "apdex.tolerated"
      tolerated) "apdex.failed" failed) "apdex.threshold_seconds" threshold
  | .custom _ total => putNonzero "newrelic.total" total
  | .supportability _ total => putNonzero "newrelic.total" total
  | .fallback _ total => putNonzero "newrelic.total" total

omit [Float64 F] [DecidableEq F] in
lemma putPart_eq (attrs : Attributes F) (key : String) (part : Option Bytes) :
    putPart attrs key part = putOption attrs key (nonEmpty part) := by
  cases part with
  | none => rfl
  | some s =>
    by_cases hs : s = []
    · subst hs
      rfl
    · simp [putPart,nonEmpty,Option.filter,hs,putOption]

lemma cpuAttrs_eq (name : Bytes) (count : F) :
    cpuAttrs name (putNonzero "newrelic.count" count) = (Series.cpu (cpuState name) count).attributes := by
  unfold cpuAttrs cpuState
  rcases splitThree name with _ | ⟨a,_ | ⟨b,_ | ⟨c,_ | ⟨d,rest⟩⟩⟩⟩ <;> rfl

/-- The name, the attributes and the time of the point of a record. -/
structure PointOf (ts : Time) (r : MetricRecord F) (m : Metric F) : Prop where
  name : m.name = (series r).name
  attributes : m.attributes = (series r).attributes
  timestamp : m.timestamp = timestampFromTime ts

/-! ### A point gives its series away -/

section Lookup
variable (attrs : Attributes F) (key k : String)

omit [Float64 F] [DecidableEq F] in
@[simp] lemma lookup_putStr (s : Bytes) :
    (putStr attrs k s).lookup key = if key = k then some (.str s) else attrs.lookup key := by
  unfold putStr
  split_ifs with h
  · subst h
    exact Finmap.lookup_insert attrs
  · exact Finmap.lookup_insert_of_ne attrs h

omit [Float64 F] [DecidableEq F] in
@[simp] lemma lookup_putDouble (x : F) :
    (putDouble attrs k x).lookup key = if key = k then some (.double x) else attrs.lookup key := by
  unfold putDouble
  split_ifs with h
  · subst h
    exact Finmap.lookup_insert attrs
  · exact Finmap.lookup_insert_of_ne attrs h

omit [Float64 F] [DecidableEq F] in
@[simp] lemma lookup_putOption (o : Option Bytes) : (putOption attrs k o).lookup key =
    if key = k then (o.map .str).or (attrs.lookup key) else attrs.lookup key := by
  cases o with
  | none => simp [putOption]
  | some s => simp [putOption]

@[simp] lemma lookup_putNonzero (x : F) : (putNonzero k x).lookup key =
    if key = k ∧ x ≠ 0 then some (.double x) else none := by
  unfold putNonzero
  by_cases hx : x = 0
  · simp [hx]
  · simp [hx]

end Lookup

lemma nonzero_injective {x y : F} (h : (if x ≠ 0 then some (AttributeValue.double x) else none) =
    if y ≠ 0 then some (.double y) else none) : x = y := by
  split_ifs at h with hx hy hy
  · simpa using h
  · rw [not_not.mp hx,not_not.mp hy]

lemma putNonzero_injective {k : String} {x y : F} (h : putNonzero k x = putNonzero k y) : x = y := by
  have hlookup := congrArg (Finmap.lookup k) h
  simp only [lookup_putNonzero,true_and] at hlookup
  exact nonzero_injective hlookup

lemma lookup_cpu_state (state : Option Bytes) (count : F) :
    (Series.cpu state count).attributes.lookup "state" = state.map .str := by
  cases state with
  | none => simp [Series.attributes]
  | some s => simp [Series.attributes]

lemma lookup_cpu_count (state : Option Bytes) (count : F) :
    (Series.cpu state count).attributes.lookup "newrelic.count" =
      if count ≠ 0 then some (.double count) else none := by
  cases state with
  | none => simp [Series.attributes]
  | some s => simp [Series.attributes]

omit [Float64 F] [DecidableEq F] in
lemma option_str_injective {o o' : Option Bytes}
    (h : o.map (AttributeValue.str (F := F)) = o'.map .str) : o = o' :=
  Option.map_injective (fun _ _ h => by cases h; rfl) h

omit [Float64 F] [DecidableEq F] in
lemma lookup_externalAttrs (name : Bytes) :
    (externalAttrs (F := F) name ∅).lookup "php.metric.name" = some (.str name) := by
  unfold externalAttrs
  simp only [putPart_eq]
  split_ifs <;> simp

/-- A number for the name of a metric. -/
def nameTag (name : Bytes) : ℕ :=
  if name.take 6 = ascii "http.s" then 0
  else if name.take 6 = ascii "http.c" then 1
  else if name.take 6 = ascii "db.cli" then 2
  else if name.take 9 = ascii "process.c" then 3
  else if name.take 9 = ascii "process.m" then 4
  else if name.take 9 = ascii "process.u" then 5
  else if name.take 6 = ascii "apdex" then 6
  else if name.take 6 = ascii "custom" then 7
  else if name.take 6 = ascii "agent." then 8
  else 9

def Series.tag : Series F → ℕ
  | .web => 0
  | .other => 0
  | .external _ => 1
  | .database _ => 2
  | .cpu _ _ => 3
  | .memory _ => 4
  | .reporting _ => 5
  | .apdex _ _ _ _ => 6
  | .custom _ _ => 7
  | .supportability _ _ => 8
  | .fallback _ _ => 9

omit [Float64 F] [DecidableEq F] in
lemma Series.nameTag_name (s : Series F) : nameTag s.name = s.tag := by
  cases s <;> rfl

lemma Series.eq_of_name_of_attributes {s s' : Series F} (hname : s.name = s'.name)
    (hattrs : s.attributes = s'.attributes) : s = s' := by
  have htag : s.tag = s'.tag := by rw [← nameTag_name,← nameTag_name,hname]
  have hlookup : ∀ key, s.attributes.lookup key = s'.attributes.lookup key := by
    intro key
    rw [hattrs]
  cases s with
  | web =>
    cases s' <;> cases htag
    · rfl
    · have := hlookup "rpc.system"
      simp [attributes] at this
  | other =>
    cases s' <;> cases htag
    · have := hlookup "rpc.system"
      simp [attributes] at this
    · rfl
  | external name =>
    cases s' <;> cases htag
    have := hlookup "php.metric.name"
    simp only [attributes,lookup_externalAttrs,Option.some.injEq,AttributeValue.str.injEq] at this
    rw [this]
  | database parts =>
    cases s' <;> cases htag
    rename_i parts'
    obtain ⟨system,collection,operation,inst⟩ := parts
    obtain ⟨system',collection',operation',inst'⟩ := parts'
    have hsystem := hlookup "db.system"
    have hcollection := hlookup "db.collection"
    have hoperation := hlookup "db.operation"
    have hinst := hlookup "db.instance"
    simp only [attributes,lookup_putOption,Finmap.lookup_empty,Option.or_none,
      String.reduceEq,if_false,if_true] at hsystem hcollection hoperation hinst
    rw [option_str_injective hsystem,option_str_injective hcollection,
      option_str_injective hoperation,option_str_injective hinst]
  | cpu state count =>
    cases s' <;> cases htag
    rename_i state' count'
    have hstate := hlookup "state"
    have hcount := hlookup "newrelic.count"
    simp only [lookup_cpu_state,lookup_cpu_count] at hstate hcount
    rw [option_str_injective hstate,nonzero_injective hcount]
  | memory total =>
    cases s' <;> cases htag
    rw [putNonzero_injective hattrs]
  | reporting total =>
    cases s' <;> cases htag
    rw [putNonzero_injective hattrs]
  | apdex satisfied tolerated failed threshold =>
    cases s' <;> cases htag
    have hsatisfied := hlookup "apdex.satisfied"
    have htolerated := hlookup "apdex.tolerated"
    have hfailed := hlookup "apdex.failed"
    have hthreshold := hlookup "apdex.threshold_seconds"
    simp [attributes] at hsatisfied htolerated hfailed hthreshold
    rw [hsatisfied,htolerated,hfailed,hthreshold]
  | custom name total =>
    cases s' <;> cases htag
    rw [putNonzero_injective hattrs,List.append_cancel_left hname]
  | supportability name total =>
    cases s' <;> cases htag
    rw [putNonzero_injective hattrs,List.append_cancel_left hname]
  | fallback name total =>
    cases s' <;> cases htag
    rw [putNonzero_injective hattrs,List.append_cancel_left hname]

variable [DecidableLT F] [DecidableLE F]

/-- Each record is exported as one point. -/
theorem emitRecord_point {ts : Time} {r : MetricRecord F}
    (hts : r.timestamp = Time.zero ∨ r.timestamp = ts) :
    ∃ m, PointOf ts r m ∧ ∀ dest, emitRecord ts dest r = dest ++ [m] := by
  have htime : (if r.timestamp = Time.zero then ts else r.timestamp) = ts := by
    rcases hts with h | h
    · rw [if_pos h]
    · rw [h,ite_self]
  unfold emitRecord emitMetricRecord
  simp only [htime]
  have hdb : databaseParts r.name = databaseParts r.name := rfl
  conv at hdb => rhs; unfold databaseParts
  cases hk : kind r.name with
  | none =>
    simp only [hk] at hdb
    exact ⟨_,⟨by simp only [series,hk,hdb]; rfl,by simp only [series,hk,hdb]; rfl,rfl⟩,fun _ => rfl⟩
  | some k =>
    cases k with
    | operation =>
      simp only [hk] at hdb
      refine ⟨_,⟨?_,?_,rfl⟩,fun _ => rfl⟩
      · simp only [series,hk,hdb]
        rfl
      · simp only [series,hk,hdb,operationAttrs,putPart_eq]
        rfl
    | statement =>
      simp only [hk] at hdb
      refine ⟨_,⟨?_,?_,rfl⟩,fun _ => rfl⟩
      · simp only [series,hk,hdb]
        rfl
      · simp only [series,hk,hdb,statementAttrs,putPart_eq]
        rfl
    | inst =>
      simp only [hk] at hdb
      refine ⟨_,⟨?_,?_,rfl⟩,fun _ => rfl⟩
      · simp only [series,hk,hdb]
        rfl
      · simp only [series,hk,hdb,instanceAttrs,putPart_eq]
        rfl
    | cpu =>
      refine ⟨_,⟨?_,?_,rfl⟩,fun _ => rfl⟩
      · simp only [series,hk]
        rfl
      · simp only [series,hk]
        exact cpuAttrs_eq r.name r.count
    | _ => exact ⟨_,⟨by simp only [series,hk]; rfl,by simp only [series,hk]; rfl,rfl⟩,fun _ => rfl⟩

end Naming

lemma SharesSeries.symm (h : SharesSeries r r') : SharesSeries r' r :=
  sharesSeries_of_eq h.eq.symm

lemma pairwise_forall₂ {α β : Type} {R : α → α → Prop} {S : β → β → Prop} {T : α → β → Prop}
    (h : ∀ {a a' b b'}, T a b → T a' b' → (R a a' ↔ S b b')) {as : List α} {bs : List β}
    (hT : List.Forall₂ T as bs) : as.Pairwise R ↔ bs.Pairwise S := by
  induction hT with
  | nil => simp
  | @cons a b as bs hab htail ih =>
    rw [List.pairwise_cons,List.pairwise_cons,ih]
    have hall : ∀ {as bs}, List.Forall₂ T as bs → ((∀ a' ∈ as, R a a') ↔ ∀ b' ∈ bs, S b b') := by
      intro as bs hT
      induction hT with
      | nil => simp
      | cons hab' _ ih => simp only [List.forall_mem_cons,h hab hab',ih]
    rw [hall htail]

section Points
variable [Float64 F] [DecidableEq F]

lemma PointOf.samePoint_iff {ts : Time} {r r' : MetricRecord F} {m m' : Metric F}
    (h : PointOf ts r m) (h' : PointOf ts r' m') : SamePoint m m' ↔ SharesSeries r r' := by
  constructor
  · rintro ⟨hname,hattrs,-⟩
    apply sharesSeries_of_eq
    apply Series.eq_of_name_of_attributes
    · rw [← h.name,← h'.name,hname]
    · rw [← h.attributes,← h'.attributes,hattrs]
  · intro hshares
    have heq := hshares.eq
    refine ⟨?_,?_,?_⟩
    · rw [h.name,h'.name,heq]
    · rw [h.attributes,h'.attributes,heq]
    · rw [h.timestamp,h'.timestamp]

variable [DecidableLT F] [DecidableLE F]

/-- The points of the records, in their order. -/
theorem foldl_emitRecord {ts : Time} (records : List (MetricRecord F))
    (hts : ∀ r ∈ records, r.timestamp = Time.zero ∨ r.timestamp = ts) (dest : List (Metric F)) :
    ∃ ms, records.foldl (emitRecord ts) dest = dest ++ ms ∧ List.Forall₂ (PointOf ts) records ms := by
  induction records generalizing dest with
  | nil => exact ⟨[],(List.append_nil dest).symm,.nil⟩
  | cons r records ih =>
    obtain ⟨m,hm,hemit⟩ := emitRecord_point (hts r List.mem_cons_self)
    obtain ⟨ms,hms,hpoints⟩ := ih (fun r hr => hts r (List.mem_cons_of_mem _ hr)) (dest ++ [m])
    refine ⟨m :: ms,?_,.cons hm hpoints⟩
    rw [List.foldl_cons,hemit,hms,List.append_assoc,List.singleton_append]

/-- The exported metrics, if there are any. -/
def exported (cfg : Config) (records : List (MetricRecord F)) (now : Time) : List (Metric F) :=
  ((buildMetrics cfg records now).map Metrics.metrics).getD []

lemma exported_points (cfg : Config) {records : List (MetricRecord F)} {t : Time}
    (ht : ∀ r ∈ records, r.timestamp = t) (now : Time) :
    ∃ ts, List.Forall₂ (PointOf ts) records (exported cfg records now) := by
  refine ⟨metricsTimestamp records now,?_⟩
  have hts : ∀ r ∈ records, r.timestamp = Time.zero ∨ r.timestamp = metricsTimestamp records now := by
    intro r hr
    by_cases hzero : r.timestamp = Time.zero
    · exact .inl hzero
    · right
      unfold metricsTimestamp
      cases hfind : records.find? fun r => r.timestamp ≠ Time.zero with
      | none =>
        have := List.find?_eq_none.mp hfind r hr
        simp [hzero] at this
      | some r' =>
        rw [ht r hr]
        exact (ht r' (List.mem_of_find?_eq_some hfind)).symm
  obtain ⟨ms,hms,hpoints⟩ := foldl_emitRecord records hts []
  unfold exported buildMetrics
  cases records with
  | nil => exact .nil
  | cons r records =>
    rw [if_neg (by simp)]
    simp only [Option.map_some,Option.getD_some,hms,List.nil_append]
    exact hpoints

/-- No two exported points of a table are of one series and one time exactly when no two of its
metrics share a series. -/
theorem exported_unique_iff (cfg : Config) (mt : MetricTable (MetricData F)) (harvestStart now : Time)
    {order : List MetricID} (horder : order.Perm mt.metrics.keys) :
    (exported cfg (metricTableRecords mt harvestStart order) now).Pairwise
        (fun m m' => ¬ SamePoint m m') ↔
      ∀ id id' m m', mt.metrics.lookup id = some m → mt.metrics.lookup id' = some m' → id ≠ id' →
        ¬ SharesSeries (tableRecord harvestStart id m) (tableRecord harvestStart id' m') := by
  have htime : ∀ r ∈ metricTableRecords mt harvestStart order, r.timestamp = harvestStart := by
    intro r hr
    obtain ⟨id,-,hid⟩ := List.mem_filterMap.mp hr
    obtain ⟨m,-,rfl⟩ := Option.map_eq_some_iff.mp hid
    rfl
  obtain ⟨ts,hpoints⟩ := exported_points cfg htime now
  have hpairs := pairwise_forall₂ (R := fun r r' => ¬ SharesSeries r r')
    (S := fun m m' => ¬ SamePoint m m') (fun h h' => not_congr (h.samePoint_iff h').symm) hpoints
  rw [← hpairs,metricTableRecords,List.pairwise_filterMap]
  have hmem : ∀ {id m}, mt.metrics.lookup id = some m → id ∈ order := by
    intro id m hid
    rw [horder.mem_iff]
    exact AList.lookup_isSome.mp (by rw [hid]; rfl)
  constructor
  · intro hpair id id' m m' hid hid' hne
    have hsymm : Std.Symm fun a b => ∀ r, (mt.metrics.lookup a).map (tableRecord harvestStart a) = some r →
        ∀ r', (mt.metrics.lookup b).map (tableRecord harvestStart b) = some r' → ¬ SharesSeries r r' :=
      ⟨fun a b h r hr r' hr' hs => h r' hr' r hr hs.symm⟩
    have := hpair.forall (hmem hid) (hmem hid') hne
    exact this _ (by rw [hid]; rfl) _ (by rw [hid']; rfl)
  · intro hall
    have hnodup : order.Nodup := horder.nodup_iff.mpr mt.metrics.nodupKeys
    refine hnodup.imp_of_mem ?_
    intro id id' _ _ hne r hr r' hr'
    obtain ⟨m,hm,rfl⟩ := Option.map_eq_some_iff.mp hr
    obtain ⟨m',hm',rfl⟩ := Option.map_eq_some_iff.mp hr'
    exact hall id id' m m' hm hm' hne

end Points

/-- A route and a metric of the application. -/
def routeAndCustom : MetricTable (MetricData ℚ) :=
  ((MetricTable.new 2000 0).addValue (ascii "WebTransaction/Uri/a") [] 1 .forced).addValue
    (ascii "Custom/b") [] 2 .forced

theorem exported_unique_routeAndCustom :
    (exported ⟨[],[],[]⟩ (metricTableRecords routeAndCustom 1 routeAndCustom.metrics.keys) 2).Pairwise
      (fun m m' => ¬ SamePoint m m') := by
  rw [exported_unique_iff _ _ _ _ (.refl _)]
  have hkeys : routeAndCustom.metrics.keys =
      [⟨ascii "Custom/b",[]⟩,⟨ascii "WebTransaction/Uri/a",[]⟩] := by decide
  have hmem : ∀ {id m}, routeAndCustom.metrics.lookup id = some m →
      id = ⟨ascii "Custom/b",[]⟩ ∨ id = ⟨ascii "WebTransaction/Uri/a",[]⟩ := by
    intro id m hid
    have : id ∈ routeAndCustom.metrics.keys := AList.lookup_isSome.mp (by rw [hid]; rfl)
    simpa [hkeys] using this
  have hcustom : kind (ascii "Custom/b") = some .custom := by decide
  have hweb : kind (ascii "WebTransaction/Uri/a") = some .webTransaction := by decide
  intro id id' m m' hid hid' hne hshares
  have heq := hshares.eq
  rcases hmem hid with rfl | rfl
  · rcases hmem hid' with rfl | rfl
    · exact hne rfl
    · simp [series,tableRecord,hcustom,hweb] at heq
  · rcases hmem hid' with rfl | rfl
    · simp [series,tableRecord,hcustom,hweb] at heq
    · exact hne rfl

/-- Two routes. -/
def twoRoutes : MetricTable (MetricData ℚ) :=
  ((MetricTable.new 2000 0).addValue (ascii "WebTransaction/Uri/a") [] 1 .forced).addValue
    (ascii "WebTransaction/Uri/b") [] 2 .forced

/-- The points of two routes cannot be told apart. -/
theorem twoRoutes_not_unique :
    ¬ (exported ⟨[],[],[]⟩ (metricTableRecords twoRoutes 1 twoRoutes.metrics.keys) 2).Pairwise
      (fun m m' => ¬ SamePoint m m') := by
  have hlen : (exported ⟨[],[],[]⟩ (metricTableRecords twoRoutes 1 twoRoutes.metrics.keys) 2).map
      (fun m => (m.name,m.attributes,m.timestamp)) =
        [(ascii "http.server.request.duration",∅,1),(ascii "http.server.request.duration",∅,1)] := by
    decide
  intro hpair
  have hmap : ((exported ⟨[],[],[]⟩ (metricTableRecords twoRoutes 1 twoRoutes.metrics.keys) 2).map
      fun m => (m.name,m.attributes,m.timestamp)).Pairwise (· ≠ ·) := by
    apply List.Pairwise.map _ _ hpair
    intro m m' hdiffer heq
    simp only [Prod.mk.injEq] at heq
    exact hdiffer heq
  rw [hlen] at hmap
  simp at hmap

end Otlp
end PhpAgent

import PhpAgent.Agent.AttributeStore

/-! The two attribute sets of a segment, after `nr_segment.c`. -/
namespace PhpAgent

/-- What the functions here read and write of a segment: its transaction with the attribute
configuration, either of which may be NULL, the two sets and the priority. -/
structure SegmentAttributes where
  txn : Option (Option NrAttributeConfig)
  attributes : Option NrAttributes
  attributesTxnEvent : Option NrAttributes
  priority : ℕ

/-- `nr_segment_cloud_attrs_t`. -/
structure CloudAttrs where
  cloudRegion : Option Bytes
  cloudAccountId : Option Bytes
  cloudResourceId : Option Bytes
  awsOperation : Option Bytes
  cloudPlatform : Option Bytes

namespace SegmentAttributes

/-- `NR_SEGMENT_PRIORITY_ATTR`. -/
def priorityAttr : ℕ := 1 <<< 13

/-- `NR_CLOUD_AGENT_ATTRIBUTE_DESTINATION`: transaction trace, error, transaction event and span. -/
def cloudDestination : Destinations := 2 ||| 4 ||| 1 ||| 16

section Hash
variable (hash : Bytes → UInt32)

/-- `nr_segment_attributes_user_add`. A value that is there but is no object is `some none`. The name
leaves the other set whether or not the addition succeeded. -/
def userAdd (segment : Option SegmentAttributes) (destination : Destinations) (name : Option Bytes)
    (value : Option (Option NrObj)) : Option SegmentAttributes × Bool :=
  match segment, name, value with
  | some segment, some name, some value =>
    match segment.txn with
    | none => (some segment,false)
    | some config =>
      let (attributes,status) := (segment.attributes.getD (.create config)).userAdd hash destination
        (some name) value
      (some { segment with
        attributes := some attributes
        attributesTxnEvent :=
          segment.attributesTxnEvent.map (·.removeAttribute hash (some name) true)
        priority := segment.priority ||| priorityAttr },status)
  | segment, _, _ => (segment,false)

/-- `nr_attributes_user_exists`. -/
def userExists (attributes : Option NrAttributes) (key : Bytes) : Bool :=
  attributes.elim false fun ats => ats.userAttributeList.any fun a => strcmp a.key key = .eq

/-- `nr_segment_attributes_user_txn_event_add`. -/
def userTxnEventAdd (segment : Option SegmentAttributes) (destination : Destinations)
    (name : Option Bytes) (value : Option (Option NrObj)) : Option SegmentAttributes × Bool :=
  match segment, name, value with
  | some segment, some name, some value =>
    match segment.txn with
    | none => (some segment,false)
    | some config =>
      let ats := segment.attributesTxnEvent.getD (.create config)
      if userExists segment.attributes name then
        (some { segment with attributesTxnEvent := some ats },false)
      else
        let (ats,status) := ats.userAdd hash destination (some name) value
        (some { segment with
          attributesTxnEvent := some ats
          priority := segment.priority ||| priorityAttr },status)
  | segment, _, _ => (segment,false)

/-- One attribute of `nr_segment_traces_add_cloud_attributes`, which is not added when it is empty. -/
def addCloudAttribute (ats : NrAttributes) (a : String × Option Bytes) : NrAttributes :=
  if a.2.getD [] = [] then ats
  else (ats.agentAddString hash cloudDestination (some (ascii a.1)) a.2).1

/-- `nr_segment_traces_add_cloud_attributes`; the segment has a transaction. -/
def addCloudAttributes (segment : Option SegmentAttributes) (cloudAttrs : Option CloudAttrs) :
    Option SegmentAttributes :=
  match cloudAttrs, segment with
  | some cloudAttrs, some segment =>
    some { segment with
      attributes := some ([("cloud.region",cloudAttrs.cloudRegion),
          ("cloud.account.id",cloudAttrs.cloudAccountId),
          ("cloud.resource_id",cloudAttrs.cloudResourceId),
          ("aws.operation",cloudAttrs.awsOperation),
          ("cloud.platform",cloudAttrs.cloudPlatform)].foldl (addCloudAttribute hash)
        (segment.attributes.getD (.create segment.txn.join))) }
  | _, segment => segment

end Hash

/-! ### Runs -/

/-- The calls that change the sets of a segment. -/
inductive AttributeCall
  | userAdd (destination : Destinations) (name : Option Bytes) (value : Option (Option NrObj))
  | userTxnEventAdd (destination : Destinations) (name : Option Bytes)
      (value : Option (Option NrObj))
  | addCloudAttributes (cloudAttrs : Option CloudAttrs)

/-- The segment after a call and what an addition of the user returned. -/
def exec (hash : Bytes → UInt32) (segment : Option SegmentAttributes) :
    AttributeCall → Option SegmentAttributes × Option Bool
  | .userAdd d name value => (userAdd hash segment d name value).map id some
  | .userTxnEventAdd d name value => (userTxnEventAdd hash segment d name value).map id some
  | .addCloudAttributes cloudAttrs => (addCloudAttributes hash segment cloudAttrs,none)

/-- The segment after a sequence of calls. -/
def after (hash : Bytes → UInt32) (segment : Option SegmentAttributes) (calls : List AttributeCall) :
    Option SegmentAttributes :=
  calls.foldl (fun segment call => (exec hash segment call).1) segment

/-- A segment of a transaction before its first attribute. -/
def start (txn : Option (Option NrAttributeConfig)) : SegmentAttributes := ⟨txn,none,none,0⟩

/-- What is in a set, the attributes of the user and those of the agent; one that was not created is
empty. -/
def contents (ats : Option NrAttributes) : List NrAttribute × List NrAttribute :=
  ats.elim ([],[]) fun ats => (ats.userAttributeList,ats.agentAttributeList)

/-- The names of the user's attributes in a set. -/
def names (ats : Option NrAttributes) : List Bytes := (contents ats).1.map NrAttribute.key

/-- Both sets of a segment. -/
def sets (segment : Option SegmentAttributes) :
    (List NrAttribute × List NrAttribute) × (List NrAttribute × List NrAttribute) :=
  (contents (segment.bind attributes),contents (segment.bind attributesTxnEvent))

/-- In the run of the calls every addition that fails leaves both sets, and no name is ever in both. -/
structure Steadfast (hash : Bytes → UInt32) (segment : Option SegmentAttributes)
    (calls : List AttributeCall) : Prop where
  unchanged : ∀ done call, done ++ [call] <+: calls →
    (exec hash (after hash segment done) call).2 = some false →
      sets (exec hash (after hash segment done) call).1 = sets (after hash segment done)
  apart : ∀ done, done <+: calls →
    (names ((after hash segment done).bind attributes)).Disjoint
      (names ((after hash segment done).bind attributesTxnEvent))

/-! ### Names in one set -/

variable {hash : Bytes → UInt32} {ats : NrAttributes} {segment : Option SegmentAttributes}

lemma mem_names_some (ats : NrAttributes) (name : Bytes) :
    name ∈ names (some ats) ↔ ats.value? true (some name) ≠ none := ats.mem_keys_iff name

/-- A set that is created for a call holds what the set held before. -/
theorem contents_getD_create (ats : Option NrAttributes) (config : Option NrAttributeConfig) :
    contents (some (ats.getD (.create config))) = contents ats := by
  cases ats <;> rfl

lemma wellFormed_getD_create {ats : Option NrAttributes}
    (h : ∀ a ∈ ats, NrAttributes.WellFormed hash a) (config : Option NrAttributeConfig) :
    NrAttributes.WellFormed hash (ats.getD (.create config)) := by
  cases ats with
  | none => exact NrAttributes.wellFormed_create hash config
  | some ats => exact h ats rfl

lemma wellFormed_userAdd (h : ats.WellFormed hash) (d : Destinations) (key : Option Bytes)
    (value : Option NrObj) : NrAttributes.WellFormed hash (ats.userAdd hash d key value).1 :=
  (h.exec_spec (.userAdd d key value)).1

/-- An addition that succeeds adds its name. -/
theorem names_userAdd (h : ats.WellFormed hash) {d : Destinations} {key : Bytes}
    {value : Option NrObj} (hadd : (ats.userAdd hash d (some key) value).2 = true) (name : Bytes) :
    name ∈ names (some (ats.userAdd hash d (some key) value).1) ↔
      name = key ∨ name ∈ names (some ats) := by
  have hvalue : ∃ v, value = some v := by
    cases value with
    | none => cases hadd
    | some v => exact ⟨v,rfl⟩
  obtain ⟨v,rfl⟩ := hvalue
  have hstep := (h.exec_spec (.userAdd d (some key) (some v))).2
    true (some name)
  change (ats.userAdd hash d (some key) (some v)).1.value? true (some name) =
    (if some (ats.userAdd hash d (some key) (some v)).2 = some true then fun user k =>
      if user = true ∧ k = some key then some (NrAttributes.keptValue v) else ats.value? user k
    else ats.value?) true (some name) at hstep
  rw [mem_names_some,mem_names_some,hstep,hadd,if_pos rfl]
  by_cases hname : name = key <;> simp [hname]

lemma userAdd_of_refuses (h : ats.WellFormed hash) {d : Destinations} {key : Bytes}
    {value : Option NrObj} (hrefuses : ats.Refuses hash d key value) :
    ats.userAdd hash d (some key) value = (ats,false) := by
  have hfail := (h.userAdd_snd_iff d key value).mpr hrefuses
  have hsame : (ats.exec hash (.userAdd d (some key) value)).1 = ats :=
    h.exec_of_failure (congrArg some hfail)
  exact Prod.ext hsame hfail

/-- A removal takes its name out of the set. -/
theorem names_removeAttribute (h : ats.WellFormed hash) (key name : Bytes) :
    name ∈ names (some (ats.removeAttribute hash (some key) true)) ↔
      name ≠ key ∧ name ∈ names (some ats) := by
  rw [mem_names_some,mem_names_some]
  change (ats.removeDuplicate key (hash key) true).value? true (some name) ≠ none ↔ _
  rw [h.value?_removeDuplicate]
  by_cases hname : name = key <;> simp [hname]

/-- A removal that changes a set removes its name. -/
theorem contents_removeAttribute_iff (h : ats.WellFormed hash) (key : Bytes) :
    contents (some (ats.removeAttribute hash (some key) true)) = contents (some ats) ↔
      key ∉ names (some ats) := by
  constructor
  · intro hsame hmem
    have hnames : names (some (ats.removeAttribute hash (some key) true)) = names (some ats) :=
      congrArg (fun c => c.1.map NrAttribute.key) hsame
    rw [← hnames,names_removeAttribute h] at hmem
    exact hmem.1 rfl
  · intro hmem
    rw [mem_names_some,not_not] at hmem
    rw [show ats.removeAttribute hash (some key) true = ats from h.removeDuplicate_of_absent hmem]

lemma userExists_iff (ats : Option NrAttributes) (key : Bytes) :
    userExists ats key = true ↔ key ∈ names ats := by
  cases ats with
  | none => simp [userExists,names,contents]
  | some ats => simp [userExists,names,contents,strcmp_eq_iff]

/-! ### The cloud attributes -/

/-- The attributes of the agent are kept apart from those of the user. -/
theorem addCloudAttribute_spec (h : ats.WellFormed hash) (a : String × Option Bytes) :
    (addCloudAttribute hash ats a).WellFormed hash ∧
      ∀ name, name ∈ names (some (addCloudAttribute hash ats a)) ↔ name ∈ names (some ats) := by
  unfold addCloudAttribute
  split_ifs with hempty
  · exact ⟨h,fun _ => Iff.rfl⟩
  · have hstep := h.exec_spec
      (.agentAddString cloudDestination (some (ascii a.1)) a.2)
    refine ⟨hstep.1,fun name => ?_⟩
    have hvalue : (ats.agentAddString hash cloudDestination (some (ascii a.1)) a.2).1.value? true
        (some name) = ats.value? true (some name) := by
      refine (hstep.2 true (some name)).trans ?_
      simp only [NrAttributes.noteCall,NrAttributes.Call.addition]
      split_ifs <;> simp
    rw [mem_names_some,mem_names_some,hvalue]

lemma foldl_addCloudAttribute_spec (l : List (String × Option Bytes)) (h : ats.WellFormed hash) :
    (l.foldl (addCloudAttribute hash) ats).WellFormed hash ∧
      ∀ name, name ∈ names (some (l.foldl (addCloudAttribute hash) ats)) ↔
        name ∈ names (some ats) := by
  induction l generalizing ats with
  | nil => exact ⟨h,fun _ => Iff.rfl⟩
  | cons a l ih =>
    obtain ⟨hwf,hnames⟩ := addCloudAttribute_spec h a
    obtain ⟨hwf',hnames'⟩ := ih hwf
    exact ⟨hwf',fun name => (hnames' name).trans (hnames name)⟩

/-! ### One call -/

/-- The sets are as `nr_attributes.c` keeps them and have no name in common. -/
structure Separate (hash : Bytes → UInt32) (segment : Option SegmentAttributes) : Prop where
  attributes : ∀ ats ∈ segment.bind SegmentAttributes.attributes, NrAttributes.WellFormed hash ats
  attributesTxnEvent :
    ∀ ats ∈ segment.bind SegmentAttributes.attributesTxnEvent, NrAttributes.WellFormed hash ats
  apart : (names (segment.bind SegmentAttributes.attributes)).Disjoint
    (names (segment.bind SegmentAttributes.attributesTxnEvent))

/-- A call that takes its name out of the set of the transaction event and is then refused. -/
def Loses (hash : Bytes → UInt32) (segment : Option SegmentAttributes) : AttributeCall → Prop
  | .userAdd d (some name) (some value) => ∃ s config, segment = some s ∧ s.txn = some config ∧
      name ∈ names s.attributesTxnEvent ∧
      (s.attributes.getD (.create config)).Refuses hash d name value
  | _ => False

/-- What a call does to separate sets. -/
structure CallSpec (hash : Bytes → UInt32) (segment : Option SegmentAttributes)
    (call : AttributeCall) : Prop where
  separate : Separate hash (exec hash segment call).1
  unchanged_iff : ((exec hash segment call).2 = some false →
    sets (exec hash segment call).1 = sets segment) ↔ ¬Loses hash segment call

/-- A call that leaves the segment. -/
theorem CallSpec.of_eq (h : Separate hash segment)
    {call : AttributeCall} (hsame : (exec hash segment call).1 = segment)
    (hkeeps : ¬Loses hash segment call) : CallSpec hash segment call := by
  refine ⟨?_,fun _ => hkeeps,fun _ _ => ?_⟩
  · rw [hsame]
    exact h
  · rw [hsame]

lemma userAdd_spec {s : SegmentAttributes} (h : Separate hash (some s)) {config : Option NrAttributeConfig}
    (htxn : s.txn = some config) (d : Destinations) (name : Bytes) (value : Option NrObj) :
    CallSpec hash (some s) (.userAdd d (some name) (some value)) := by
  obtain ⟨hats,hevent,hapart⟩ := h
  simp only [Option.bind_some] at hats hevent hapart
  have hwf := wellFormed_getD_create hats config
  have hcontents := contents_getD_create s.attributes config
  have hnames : names (some (s.attributes.getD (.create config))) = names s.attributes :=
    congrArg (fun c => c.1.map NrAttribute.key) hcontents
  have hexec : exec hash (some s) (.userAdd d (some name) (some value)) =
      (some { s with
        attributes := some ((s.attributes.getD (.create config)).userAdd hash d (some name) value).1
        attributesTxnEvent := s.attributesTxnEvent.map (·.removeAttribute hash (some name) true)
        priority := s.priority ||| priorityAttr },
      some ((s.attributes.getD (.create config)).userAdd hash d (some name) value).2) := by
    simp only [exec,userAdd,htxn]
    rfl
  -- The name is gone from the other set in any case.
  have hremoved : ∀ other, other ∈ names (s.attributesTxnEvent.map
      (·.removeAttribute hash (some name) true)) ↔
      other ≠ name ∧ other ∈ names s.attributesTxnEvent := by
    intro other
    cases hset : s.attributesTxnEvent with
    | none => simp [names,contents]
    | some ats => exact names_removeAttribute (hevent ats hset) name other
  have hwfEvent : ∀ ats ∈ s.attributesTxnEvent.map (·.removeAttribute hash (some name) true),
      NrAttributes.WellFormed hash ats := by
    intro ats hmem
    obtain ⟨ats',hset,rfl⟩ := Option.mem_map.mp hmem
    exact (hevent ats' hset).removeDuplicate name true
  have hsame : contents (s.attributesTxnEvent.map (·.removeAttribute hash (some name) true)) =
      contents s.attributesTxnEvent ↔ name ∉ names s.attributesTxnEvent := by
    cases hset : s.attributesTxnEvent with
    | none => simp [names,contents]
    | some ats => exact contents_removeAttribute_iff (hevent ats hset) name
  have hloses : Loses hash (some s) (.userAdd d (some name) (some value)) ↔
      name ∈ names s.attributesTxnEvent ∧
        (s.attributes.getD (.create config)).Refuses hash d name value := by
    constructor
    · rintro ⟨s',config',hs,htxn',hmem⟩
      cases hs
      cases htxn.symm.trans htxn'
      exact hmem
    · exact fun hmem => ⟨s,config,rfl,htxn,hmem⟩
  refine ⟨?_,?_⟩
  · rw [hexec]
    refine ⟨?_,hwfEvent,?_⟩
    · rintro ats ⟨⟩
      exact wellFormed_userAdd hwf d (some name) value
    · intro other hin hout
      obtain ⟨hne,hout⟩ := (hremoved other).mp hout
      apply hapart _ hout
      rw [← hnames]
      by_cases hadd : ((s.attributes.getD (.create config)).userAdd hash d (some name) value).2 = true
      · exact ((names_userAdd hwf hadd other).mp hin).resolve_left hne
      · have hrefuses := (hwf.userAdd_snd_iff d name value).mp (Bool.eq_false_iff.mpr hadd)
        simpa only [Option.bind_some,userAdd_of_refuses hwf hrefuses] using hin
  · rw [hexec,hloses,Option.some.injEq,hwf.userAdd_snd_iff]
    simp only [sets,Option.bind_some,Prod.mk.injEq]
    rw [hsame]
    constructor
    · rintro hkeeps ⟨hmem,hrefuses⟩
      exact (hkeeps hrefuses).2 hmem
    · intro hkeeps hrefuses
      rw [userAdd_of_refuses hwf hrefuses]
      exact ⟨hcontents,fun hmem => hkeeps ⟨hmem,hrefuses⟩⟩

lemma userTxnEventAdd_spec {s : SegmentAttributes} (h : Separate hash (some s))
    {config : Option NrAttributeConfig} (htxn : s.txn = some config) (d : Destinations)
    (name : Bytes) (value : Option NrObj) :
    CallSpec hash (some s) (.userTxnEventAdd d (some name) (some value)) := by
  obtain ⟨hats,hevent,hapart⟩ := h
  simp only [Option.bind_some] at hats hevent hapart
  have hwf := wellFormed_getD_create hevent config
  have hcontents := contents_getD_create s.attributesTxnEvent config
  have hnames : names (some (s.attributesTxnEvent.getD (.create config))) =
      names s.attributesTxnEvent := congrArg (fun c => c.1.map NrAttribute.key) hcontents
  have hkeeps : ¬Loses hash (some s) (.userTxnEventAdd d (some name) (some value)) := id
  by_cases hexists : userExists s.attributes name = true
  · have hexec : exec hash (some s) (.userTxnEventAdd d (some name) (some value)) =
        (some { s with attributesTxnEvent := some (s.attributesTxnEvent.getD (.create config)) },
          some false) := by
      simp only [exec,userTxnEventAdd,htxn,hexists,if_true]
      rfl
    refine ⟨?_,fun _ => hkeeps,fun _ _ => ?_⟩
    · rw [hexec]
      refine ⟨hats,?_,?_⟩
      · rintro ats ⟨⟩
        exact hwf
      · exact hnames ▸ hapart
    · rw [hexec]
      exact congrArg (Prod.mk _) hcontents
  · have hexec : exec hash (some s) (.userTxnEventAdd d (some name) (some value)) =
        (some { s with
          attributesTxnEvent :=
            some ((s.attributesTxnEvent.getD (.create config)).userAdd hash d (some name) value).1
          priority := s.priority ||| priorityAttr },
        some ((s.attributesTxnEvent.getD (.create config)).userAdd hash d (some name) value).2) := by
      simp only [exec,userTxnEventAdd,htxn,hexists]
      rfl
    rw [userExists_iff] at hexists
    refine ⟨?_,fun _ => hkeeps,fun _ hfail => ?_⟩
    · rw [hexec]
      refine ⟨hats,?_,?_⟩
      · rintro ats ⟨⟩
        exact wellFormed_userAdd hwf d (some name) value
      · intro other hin hout
        by_cases hadd :
          ((s.attributesTxnEvent.getD (.create config)).userAdd hash d (some name) value).2 = true
        · obtain rfl | hold := (names_userAdd hwf hadd other).mp hout
          · exact hexists hin
          · exact hapart hin (hnames ▸ hold)
        · have hrefuses := (hwf.userAdd_snd_iff d name value).mp (Bool.eq_false_iff.mpr hadd)
          apply hapart hin
          rw [← hnames]
          simpa only [Option.bind_some,userAdd_of_refuses hwf hrefuses] using hout
    · rw [hexec] at hfail ⊢
      have hrefuses := (hwf.userAdd_snd_iff d name value).mp (Option.some.inj hfail)
      simp only [sets,Option.bind_some,userAdd_of_refuses hwf hrefuses,hcontents]

lemma addCloudAttributes_spec (h : Separate hash segment)
    (cloudAttrs : Option CloudAttrs) : CallSpec hash segment (.addCloudAttributes cloudAttrs) := by
  cases cloudAttrs with
  | none => exact .of_eq h rfl id
  | some cloudAttrs =>
    cases segment with
    | none => exact .of_eq h rfl id
    | some s =>
      refine ⟨⟨?_,h.attributesTxnEvent,?_⟩,fun _ => id,fun _ hfail => nomatch hfail⟩
      · rintro ats ⟨⟩
        exact (foldl_addCloudAttribute_spec _ (wellFormed_getD_create h.attributes _)).1
      · intro other hin
        apply h.apart
        have hmem := ((foldl_addCloudAttribute_spec _
          (wellFormed_getD_create h.attributes s.txn.join)).2 other).mp hin
        rwa [names,contents_getD_create] at hmem

/-- Every call keeps the sets separate, and one that fails leaves them unless it loses a name. -/
theorem exec_spec (h : Separate hash segment) (call : AttributeCall) : CallSpec hash segment call := by
  cases call with
  | addCloudAttributes cloudAttrs => exact addCloudAttributes_spec h cloudAttrs
  | userAdd d name value =>
    match segment, name, value with
    | none, some name, some value => exact .of_eq h rfl (by rintro ⟨_,_,⟨⟩,_⟩)
    | none, none, _ => exact .of_eq h rfl id
    | none, some name, none => exact .of_eq h rfl id
    | some s, some name, none => exact .of_eq h rfl id
    | some s, none, _ => exact .of_eq h rfl id
    | some s, some name, some value =>
      cases htxn : s.txn with
      | none =>
        refine .of_eq h ?_ ?_
        · simp [exec,userAdd,htxn]
        · rintro ⟨s',config,⟨⟩,htxn',-⟩
          cases htxn.symm.trans htxn'
      | some config => exact userAdd_spec h htxn d name value
  | userTxnEventAdd d name value =>
    match segment, name, value with
    | none, _, _ => exact .of_eq h rfl id
    | some s, none, _ => exact .of_eq h rfl id
    | some s, some name, none => exact .of_eq h rfl id
    | some s, some name, some value =>
      cases htxn : s.txn with
      | none => exact .of_eq h (by simp [exec,userTxnEventAdd,htxn]) id
      | some config => exact userTxnEventAdd_spec h htxn d name value

/-! ### Whole runs -/

lemma separate_start (hash : Bytes → UInt32) (txn : Option (Option NrAttributeConfig)) :
    Separate hash (some (start txn)) where
  attributes := fun _ h => nomatch h
  attributesTxnEvent := fun _ h => nomatch h
  apart := fun _ h => nomatch h

lemma Separate.after (calls : List AttributeCall)
    (h : Separate hash segment) : Separate hash (SegmentAttributes.after hash segment calls) := by
  induction calls generalizing segment with
  | nil => exact h
  | cons call calls ih => exact ih (exec_spec h call).separate

/-- From a new segment no sequence of calls ever brings a name into both sets, and every addition that
fails leaves both sets exactly when no addition of the run loses a name: the name is in the set of the
transaction event, and its key, its value, the configuration or the limit keeps it out of the other. -/
theorem run_steadfast_iff (hash : Bytes → UInt32) (txn : Option (Option NrAttributeConfig))
    (calls : List AttributeCall) :
    Steadfast hash (some (start txn)) calls ↔
      ∀ done call, done ++ [call] <+: calls → ¬Loses hash (after hash (some (start txn)) done) call := by
  have hspec : ∀ done call, CallSpec hash (after hash (some (start txn)) done) call :=
    fun done call => exec_spec ((separate_start hash txn).after done) call
  constructor
  · intro h done call hinitial
    exact (hspec done call).unchanged_iff.mp (h.unchanged done call hinitial)
  · intro h
    exact
      { unchanged := fun done call hinitial => (hspec done call).unchanged_iff.mpr (h done call hinitial)
        apart := fun done _ => ((separate_start hash txn).after done).apart }

/-- An attribute of the transaction event is lost by an addition that the type of its value
refuses. -/
theorem not_run_steadfast :
    ¬∀ (hash : Bytes → UInt32) (txn : Option (Option NrAttributeConfig)) (calls : List AttributeCall),
      Steadfast hash (some (start txn)) calls := by
  intro h
  have hsame := (h (fun _ => 0) (some none) [.userTxnEventAdd 16 (some [0x61]) (some (some (.int 1))),
    .userAdd 16 (some [0x61]) (some (some (.array [])))]).unchanged
    [.userTxnEventAdd 16 (some [0x61]) (some (some (.int 1)))]
    (.userAdd 16 (some [0x61]) (some (some (.array [])))) List.prefix_rfl rfl
  have hlength := congrArg (fun s => s.2.1.length) hsame
  exact absurd hlength (by decide)

end SegmentAttributes
end PhpAgent

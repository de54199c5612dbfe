import PhpAgent.Segment.TraceText

/-! When the text of a transaction trace is JSON: always inside the segments, and for the whole
document when at most one emitted segment has no emitted ancestor. -/
namespace PhpAgent
open Json

/-! ### The text of one segment -/

lemma plain_of_forall {b : Bytes}
    (h : ∀ c ∈ b, ¬ c < 0x20 ∧ c ≠ code '"' ∧ c ≠ code '\\') : Plain b := by
  induction b with
  | nil => exact .nil
  | cons c b ih =>
    have hc := h c List.mem_cons_self
    exact (plain_byte hc.1 hc.2.1 hc.2.2).append (ih fun d hd => h d (List.mem_cons_of_mem _ hd))

/-- The same for a text that is evaluated. -/
theorem plain_of_all {b : Bytes} (h : (b.all fun c => 0x20 ≤ c && c != code '"' && c != code '\\') = true) :
    Plain b := by
  apply plain_of_forall
  intro c hc
  have hbyte := List.all_eq_true.mp h c hc
  simp only [Bool.and_eq_true,decide_eq_true_eq,bne_iff_ne] at hbyte
  exact ⟨UInt8.not_lt.mpr hbyte.1.1,hbyte.1.2,hbyte.2⟩

section Members
variable {s : State} {stack : List Frame} {b : Bytes}

lemma inside_keyValue (h : Inside s stack b) {key : String} (hkey : Plain (ascii key))
    {value : Option Bytes} {rawJson : Bool}
    (hraw : rawJson = true → ∀ v, value = some v → accepts v = true) :
    Inside s stack (addHashKeyValueToBuffer b key value rawJson) := by
  cases value with
  | none => exact h
  | some value =>
    apply h.members
    apply content_member hkey
    cases rawJson with
    | true => exact hraw rfl value rfl
    | false => exact accepts_jsonEscape value

lemma inside_keyValueInt (h : Inside s stack b) {key : String} (hkey : Plain (ascii key))
    (value : ℕ) : Inside s stack (addHashKeyValueToBufferInt b key value) :=
  h.members (content_member hkey (accepts_decimal value))

lemma inside_attributeHash (h : Inside s stack b) {attributes : Option NrHash}
    (hprint : ∀ a, attributes = some a → MembersPrintable a) :
    Inside s stack (addAttributeHashToBuffer b attributes) := by
  cases attributes with
  | none => exact h
  | some a =>
    have hinner : (NrObj.hash a).toJson.tail.dropLast = [code ','].intercalate (membersToJson a) := by
      simp [NrObj.toJson]
    simp only [addAttributeHashToBuffer,hinner]
    split_ifs with hlong
    · apply h.members
      rcases content_of_forall (content_membersToJson a (hprint a rfl)) with hnil | hcontent
      · simp [NrObj.toJson,hnil] at hlong
      · exact hcontent
    · exact h

end Members

/-- The raw texts among the data of a segment are JSON. -/
def TypedAttributes.Printable : TypedAttributes → Prop
  | .datastore d => ∀ raw ∈ [d.backtraceJson,d.explainPlanJson,d.inputQueryJson],
      ∀ v, raw = some v → accepts v = true
  | _ => True

def Attributes.Printable (a : Attributes) : Prop :=
  ∀ x ∈ a.agentAttributeList ++ a.userAttributeList, x.value.Printable

structure Segment.Printable (s : Segment) : Prop where
  typed : ∀ a, s.typedAttributes = some a → a.Printable
  attributes : ∀ a, s.attributes = some a → a.Printable

lemma membersPrintable_iff {h : NrHash} :
    MembersPrintable h ↔ ∀ e ∈ h, e.2.Printable := by
  induction h with
  | nil => simp [MembersPrintable]
  | cons e h ih => simp [MembersPrintable,ih]

lemma MembersPrintable.set {h : NrHash} (hh : MembersPrintable h) (key : Bytes) {value : NrObj}
    (hv : value.Printable) : MembersPrintable (h.set key value) := by
  rw [membersPrintable_iff] at hh ⊢
  unfold NrHash.set
  split_ifs with hk hmem
  · exact hh
  · intro e he
    obtain ⟨e',he',rfl⟩ := List.mem_map.mp he
    split_ifs
    · exact hv
    · exact hh e' he'
  · intro e he
    rcases List.mem_append.mp he with he | he
    · exact hh e he
    · rw [List.mem_singleton.mp he]
      exact hv

lemma Attributes.toObj_printable {as : List Attribute} (h : ∀ x ∈ as, x.value.Printable)
    (destination : ℕ) : ∀ a, Attributes.toObj as destination = some a → MembersPrintable a := by
  have hfold : ∀ (as : List Attribute) (acc : NrHash), (∀ x ∈ as, x.value.Printable) →
      MembersPrintable acc → MembersPrintable (as.foldl (fun (h : NrHash) a =>
        if a.destinations &&& destination = 0 then h else h.set a.key a.value) acc) := by
    intro as
    induction as with
    | nil => exact fun acc _ hacc => hacc
    | cons a as ih =>
      intro acc hall hacc
      apply ih _ fun x hx => hall x (List.mem_cons_of_mem _ hx)
      simp only
      split_ifs
      · exact hacc
      · exact hacc.set a.key (hall a List.mem_cons_self)
  intro a ha
  unfold Attributes.toObj at ha
  split_ifs at ha
  cases ha
  exact hfold as [] h trivial

section Params
variable {s : State} {stack : List Frame} {b : Bytes} {x : Segment}

lemma inside_raw (h : Inside s stack b) {key : String} (hkey : Plain (ascii key))
    {value : Option Bytes} (hraw : ∀ v, value = some v → accepts v = true) :
    Inside s stack (addHashKeyValueToBuffer b key value true) :=
  inside_keyValue h hkey fun _ => hraw

lemma inside_text (h : Inside s stack b) {key : String} (hkey : Plain (ascii key))
    (value : Option Bytes) : Inside s stack (addHashKeyValueToBuffer b key value false) :=
  inside_keyValue h hkey fun h => by cases h

lemma inside_typedAttributes (h : Inside s stack b) (hx : x.Printable) :
    Inside s stack (addTypedAttributesToBuffer b x) := by
  unfold addTypedAttributesToBuffer
  split
  · rename_i data _ htyped
    have hraw := hx.typed _ htyped
    have h := inside_text h (plain_of_all (b := ascii "host") rfl) data.inst.host
    have h := inside_text h (plain_of_all (b := ascii "database_name") rfl)
      data.inst.databaseName
    have h := inside_text h (plain_of_all (b := ascii "port_path_or_id") rfl)
      data.inst.portPathOrId
    have h := inside_raw h (plain_of_all (b := ascii "backtrace") rfl)
      (hraw data.backtraceJson (by simp))
    have h := inside_raw h (plain_of_all (b := ascii "explain_plan") rfl)
      (hraw data.explainPlanJson (by simp))
    have h := inside_text h (plain_of_all (b := ascii "sql") rfl) data.sql
    have h := inside_text h (plain_of_all (b := ascii "sql_obfuscated") rfl)
      data.sqlObfuscated
    exact inside_raw h (plain_of_all (b := ascii "input_query") rfl)
      (hraw data.inputQueryJson (by simp))
  · rename_i ext _ _
    have h := inside_text h (plain_of_all (b := ascii "uri") rfl) ext.uri
    have h := inside_text h (plain_of_all (b := ascii "library") rfl) ext.library
    have h := inside_text h (plain_of_all (b := ascii "procedure") rfl) ext.procedure
    have h := inside_text h (plain_of_all (b := ascii "transaction_guid") rfl)
      ext.transactionGuid
    exact inside_keyValueInt h (plain_of_all (b := ascii "status") rfl) ext.status
  · rename_i message _ _
    have h := inside_text h (plain_of_all (b := ascii "destination_name") rfl)
      message.destinationName
    have h := inside_text h (plain_of_all (b := ascii "messaging_system") rfl)
      message.messagingSystem
    have h := inside_text h (plain_of_all (b := ascii "server_address") rfl)
      message.serverAddress
    have h := inside_text h
      (plain_of_all (b := ascii "messaging_destination_publish_name") rfl)
      message.messagingDestinationPublishName
    have h := inside_text h
      (plain_of_all (b := ascii "messaging_destination_routing_key") rfl)
      message.messagingDestinationRoutingKey
    by_cases hport : message.serverPort ≠ 0
    · simp only [if_pos hport]
      exact inside_keyValueInt h (plain_of_all (b := ascii "server_port") rfl)
        message.serverPort
    · simp only [if_neg hport]
      exact h
  · exact h

lemma inside_attributes (hb : Inside s stack b) (hx : x.Printable) :
    Inside s stack (match x.attributes with
      | none => b
      | some attributes => addAttributeHashToBuffer (addAttributeHashToBuffer b
          (attributes.userToObj Attributes.destinationTxnTrace))
          (attributes.agentToObj Attributes.destinationTxnTrace)) := by
  cases hattr : x.attributes with
  | none => exact hb
  | some attributes =>
    have hprint := hx.attributes attributes hattr
    refine inside_attributeHash (inside_attributeHash hb ?_) ?_
    · exact Attributes.toObj_printable (fun a ha => hprint a (List.mem_append_right _ ha)) _
    · exact Attributes.toObj_printable (fun a ha => hprint a (List.mem_append_left _ ha)) _

lemma inside_segmentParams (h : Inside s stack b) (hx : x.Printable)
    (traceStrings segmentNames : StringPool) :
    Inside s stack (addSegmentParams b x traceStrings segmentNames).1 := by
  have htyped := inside_typedAttributes h hx
  unfold addSegmentParams
  by_cases hctx : x.asyncContext ≠ 0
  · simp only [if_pos hctx,addAsyncAttributeToBuffer]
    exact inside_attributes
      (inside_text htyped (plain_of_all (b := ascii "async_context") rfl) _) hx
  · simp only [if_neg hctx]
    exact inside_attributes htyped hx

end Params

/-- A number behind an opening bracket, and one behind a comma. -/
theorem run_open_decimal (n : ℕ) (stack : List Frame) : ∃ m : Mode, m.done = true ∧
    run ⟨.value,stack⟩ (code '[' :: decimal n) = some ⟨m,.arr :: stack⟩ := by
  obtain ⟨m,hm,hrun⟩ := run_of_accepts (accepts_decimal n) (.arr :: stack)
  have hopen : step (code '[') ⟨.value,stack⟩ = some ⟨.element,.arr :: stack⟩ := rfl
  exact ⟨m,hm,run_cons hopen (run_opened (f := .arr) hrun hm)⟩

lemma run_comma_decimal (n : ℕ) {m : Mode} (hm : m.done = true) (stack : List Frame) :
    ∃ m' : Mode, m'.done = true ∧
      run ⟨m,.arr :: stack⟩ (code ',' :: decimal n) = some ⟨m',.arr :: stack⟩ := by
  obtain ⟨m',hm',hrun⟩ := run_of_accepts (accepts_decimal n) (.arr :: stack)
  refine ⟨m',hm',run_cons ?_ hrun⟩
  rw [step_of_done hm (.inl rfl)]
  exact next_comma .arr stack

/-- The index of a name, as the text of a string. -/
theorem run_comma_index (n : ℕ) {m : Mode} (hm : m.done = true) (stack : List Frame) :
    run ⟨m,.arr :: stack⟩ (code ',' :: code '"' :: code '`' :: decimal n) =
      some ⟨.str false,.arr :: stack⟩ := by
  have hcomma : step (code ',') ⟨m,.arr :: stack⟩ = some ⟨.value,.arr :: stack⟩ := by
    rw [step_of_done hm (.inl rfl)]
    exact next_comma .arr stack
  refine run_cons hcomma (run_cons rfl (run_cons rfl ?_))
  exact plain_of_digits (isDigit_decimal n) false _

lemma Txn.opens_segmentOpening {t : Txn} {p : SegPtr}
    (h : ∀ s, t.segs p = some s → s.Printable) (names : StringPool) :
    Opens (t.segmentOpening p names).1 := by
  have hx : ((t.segs p).getD .zero).Printable := by
    cases hs : t.segs p with
    | none => exact ⟨fun a ha => by (cases ha),fun a ha => by (cases ha)⟩
    | some s => exact h s hs
  unfold Txn.segmentOpening
  generalize (t.segs p).getD .zero = x at hx
  unfold Txn.addSegmentToBuffer
  simp only [List.nil_append]
  generalize (names.add (nameOr t.traceStrings x.name)).2 = names'
  generalize (names.add (nameOr t.traceStrings x.name)).1-1 = idx
  generalize max (x.startTime/1000) (x.stopTime/1000) = stopMs
  generalize x.startTime/1000 = startMs
  have hinside : ∀ stack, Inside ⟨.value,stack⟩ (.arr :: stack)
      ((code '[' :: decimal startMs) ++ (code ',' :: decimal stopMs) ++
        (code ',' :: code '"' :: code '`' :: decimal idx) ++ [code '"',code ',',0x7b]) := by
    intro stack
    obtain ⟨m,hm,hrun⟩ := run_open_decimal startMs stack
    obtain ⟨m',hm',hrun'⟩ := run_comma_decimal stopMs hm stack
    refine .inl ⟨?_,run_trans (run_trans (run_trans hrun hrun') (run_comma_index idx hm' stack)) rfl⟩
    rw [List.getLast?_append_of_ne_nil _ (by simp)]
    rfl
  have happends := appends_segmentParams x t.traceStrings names'
  obtain ⟨hcut,-⟩ := happends [code '['] (decimal startMs ++ (code ',' :: decimal stopMs) ++
    (code ',' :: code '"' :: code '`' :: decimal idx) ++ [code '"',code ',',0x7b]) (by simp)
  simp only [List.cons_append,List.nil_append] at hcut hinside ⊢
  rw [hcut,List.cons_append]
  refine ⟨_,rfl,fun stack => ?_⟩
  have hclose := (inside_segmentParams (hinside stack) hx t.traceStrings names').close
  rw [hcut] at hclose
  have hrest : run ⟨.element,.arr :: stack⟩ ((addSegmentParams (decimal startMs ++
      code ',' :: decimal stopMs ++ code ',' :: code '"' :: code '`' :: decimal idx ++
        [code '"',code ',',0x7b]) x t.traceStrings names').1 ++ [0x7d]) =
      some ⟨.after,.arr :: stack⟩ := hclose
  have htail : run ⟨.after,.arr :: stack⟩ [code ',',code '['] =
      some ⟨.element,.arr :: .arr :: stack⟩ := rfl
  have hall := run_trans hrest htail
  simpa only [List.append_assoc,List.cons_append,List.nil_append] using hall

end PhpAgent

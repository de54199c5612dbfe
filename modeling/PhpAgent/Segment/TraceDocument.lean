import PhpAgent.Segment.EndRuns
import PhpAgent.Segment.Finalise
import PhpAgent.Segment.TraceJson

/-! The whole transaction trace: the emitted segments, each in the array of its nearest emitted
ancestor, and when the text of it is JSON. -/
namespace PhpAgent
open Json

namespace Txn
open PointerTree Forest
variable {t : Txn} {p : SegPtr} {w : Txn × SegmentUserdata} {mark : SegmentColor}
  {sample : Option (Finset SegPtr)} {keep : SegPtr → Bool} {f : Forest SegPtr} {r : SegPtr}

/-! ### Nearest ancestors -/

/-- The nearest proper ancestor that is kept, if there is one. -/
inductive NearestUp (t : Txn) (keep : SegPtr → Bool) : SegPtr → Option SegPtr → Prop
  | top {q : SegPtr} {s : Segment} : t.segs q = some s → s.parent = none → NearestUp t keep q none
  | here {q a : SegPtr} {s : Segment} : t.segs q = some s → s.parent = some a → keep a = true →
      NearestUp t keep q (some a)
  | up {q a : SegPtr} {s : Segment} {o : Option SegPtr} : t.segs q = some s → s.parent = some a →
      keep a = false → NearestUp t keep a o → NearestUp t keep q o

lemma NearestUp.unique {o o' : Option SegPtr} (h : NearestUp t keep p o)
    (h' : NearestUp t keep p o') : o = o' := by
  induction h with
  | top hs hpar =>
    cases h' with
    | top => rfl
    | here hs' hpar' => simp_all
    | up hs' hpar' => simp_all
  | here hs hpar hkeep =>
    cases h' with
    | top hs' hpar' => simp_all
    | here hs' hpar' => simp_all
    | up hs' hpar' hkeep' => simp_all
  | up hs hpar hkeep _ ih =>
    cases h' with
    | top hs' hpar' => simp_all
    | here hs' hpar' hkeep' => simp_all
    | up hs' hpar' hkeep' hup =>
      rw [hs,Option.some_inj] at hs'
      subst hs'
      rw [hpar,Option.some_inj] at hpar'
      subst hpar'
      exact ih hup

/-- In the pruned forest every node is below its nearest kept ancestor. -/
theorem nearestUp_of_parents (h : Inv t) {ps : List SegPtr}
    (hspan : Spans t.kids ps f) {o : Option SegPtr} (hup : ∀ q ∈ ps, NearestUp t keep q o) :
    ∀ e ∈ (f.prune keep).parents o, NearestUp t keep e.1 e.2 := by
  induction hspan generalizing o with
  | nil =>
    intro e he
    cases he
  | @node p ks ps f g hks _ _ ihk ihr =>
    obtain ⟨s,hs,rfl⟩ := Option.map_eq_some_iff.mp hks
    have hupp := hup p List.mem_cons_self
    have hupr : ∀ q ∈ ps, NearestUp t keep q o := fun q hq => hup q (List.mem_cons_of_mem _ hq)
    cases hkeep : keep p with
    | true =>
      have hupk : ∀ q ∈ s.children.elements, NearestUp t keep q (some p) := by
        intro q hq
        obtain ⟨x,hx,hpar⟩ := h.child_live hs hq
        exact .here hx hpar hkeep
      intro e he
      simp only [prune,hkeep,if_true,parents,List.mem_cons,List.mem_append] at he
      rcases he with rfl | he | he
      · exact hupp
      · exact ihk hupk e he
      · exact ihr hupr e he
    | false =>
      have hupk : ∀ q ∈ s.children.elements, NearestUp t keep q o := by
        intro q hq
        obtain ⟨x,hx,hpar⟩ := h.child_live hs hq
        exact .up hx hpar hkeep hupp
      intro e he
      simp only [prune,hkeep,Bool.false_eq_true,if_false,parents_append,List.mem_append] at he
      rcases he with he | he
      · exact ihk hupk e he
      · exact ihr hupr e he

/-! ### Success -/

/-- The segment did not stop before it started. -/
def fine (t : Txn) (q : SegPtr) : Bool := (t.segs q).all fun s => s.startTime ≤ s.stopTime

lemma Labelled.fine_eq {t' : Txn} (h : Labelled t t') {s' : Segment} (hs' : t'.segs p = some s') :
    t.fine p = decide (s'.startTime ≤ s'.stopTime) := by
  obtain ⟨s,hs,hbare⟩ := h.back hs'
  rw [fine,hs,Option.all_some]
  exact (Segment.eq_of_bare (fun s => decide (s.startTime ≤ s.stopTime)) (fun _ => rfl) hbare).symm

/-- The walk returns, and it succeeds when no segment stops before it starts. -/
theorem walk_success (mark : SegmentColor) (hl : t.ParentsLive) (hlab : Labelled t w.1)
    (hlive : ∀ q ∈ f.toList, ∃ s, t.segs q = some s) :
    ∃ w', walk stot mark f w = some w' ∧ Labelled t w'.1 ∧
      w'.2.success = (w.2.success && f.toList.all t.fine) := by
  induction f generalizing w with
  | nil => exact ⟨w,rfl,hlab,by simp [toList]⟩
  | node p kids rest ihk ihr =>
    obtain ⟨s,hs⟩ := hlive p List.mem_cons_self
    have hlivek : ∀ q ∈ kids.toList, ∃ s, t.segs q = some s :=
      fun q hq => hlive q (mem_kids hq)
    have hliver : ∀ q ∈ rest.toList, ∃ s, t.segs q = some s :=
      fun q hq => hlive q (mem_rest hq)
    obtain ⟨s₀,hs₀,-⟩ := hlab.live hs
    obtain ⟨t₁,hupd,hs₁,hl₁⟩ := update_labelled hs₀ (f := fun s => { s with color := mark }) rfl
      (fun _ hid => hid)
    have hlab₁ := hlab.trans hl₁
    have hfine := hlab₁.fine_eq hs₁
    have hstot : ∃ post w₂, stot p (t₁,w.2) = some (post,w₂) ∧ Labelled t w₂.1 ∧
        w₂.2.success = (w.2.success && t.fine p) ∧ (post = none ∨ post = some stotPost) := by
      rcases stot_spec (w := (t₁,w.2)) (hlab₁.parentsLive hl) hs₁ with
        ⟨-,heq⟩ | ⟨hlt,t₂,spans,heq,hl₂,-,-⟩
      · exact ⟨none,_,heq,hlab₁,by rw [hfine],.inl rfl⟩
      · refine ⟨_,_,heq,hlab₁.trans hl₂,?_,.inr rfl⟩
        rw [hfine]
        have hle : decide (s₀.startTime ≤ s₀.stopTime) = true := decide_eq_true hlt.le
        rw [hle,Bool.and_true]
        unfold tracedUserdata passTrace
        simp only
        split
        · rfl
        · split
          · rfl
          · rfl
    obtain ⟨post,w₂,hw₂,hlab₂,hsucc₂,hpost⟩ := hstot
    obtain ⟨w₃,hw₃,hlab₃,hsucc₃⟩ := ihk hlab₂ hlivek
    have hrun : ∃ w₄, runPost post p w₃ = some w₄ ∧ w₄.1 = w₃.1 ∧ w₄.2.success = w₃.2.success := by
      rcases hpost with rfl | rfl
      · exact ⟨w₃,rfl,rfl,rfl⟩
      · exact ⟨_,rfl,rfl,rfl⟩
    obtain ⟨w₄,hw₄,ht₄,hsucc₄⟩ := hrun
    obtain ⟨w₅,hw₅,hlab₅,hsucc₅⟩ := ihr (w := w₄) (ht₄ ▸ hlab₃) hliver
    refine ⟨w₅,?_,hlab₅,?_⟩
    · simp only [walk,hupd,hw₂,hw₃,hw₄,hw₅,Option.bind_eq_bind,Option.bind_some]
    · rw [hsucc₅,hsucc₄,hsucc₃,hsucc₂]
      simp [toList,Bool.and_assoc]

/-! ### The document -/

/-- The hash of the trace as a whole is JSON inside. -/
structure AttributesPrintable (agentAttributes userAttributes : Option NrHash) (intrinsics : NrHash) :
    Prop where
  agent : ∀ a, agentAttributes = some a → MembersPrintable a
  user : ∀ a, userAttributes = some a → MembersPrintable a
  intrinsics : MembersPrintable intrinsics

lemma AttributesPrintable.members {agentAttributes userAttributes : Option NrHash}
    {intrinsics : NrHash} (h : AttributesPrintable agentAttributes userAttributes intrinsics) :
    MembersPrintable (traceAttributes agentAttributes userAttributes intrinsics) := by
  have hset : ∀ {o : Option NrHash} {hash : NrHash} {key : Bytes}, MembersPrintable hash →
      (∀ a, o = some a → MembersPrintable a) →
      MembersPrintable ((o.map fun a => hash.set key (.hash a)).getD hash) := by
    intro o hash key hhash ho
    cases o with
    | none => exact hhash
    | some a => exact hhash.set key (ho a rfl)
  have hnil : MembersPrintable [] := trivial
  unfold traceAttributes
  exact (hset (hset hnil h.agent) h.user).set _ h.intrinsics

lemma run_traceHeader (duration : ℕ) : run ⟨.value,[]⟩ (traceHeader duration) =
    some ⟨.element,[.arr,.arr,.arr,.arr]⟩ := by
  have hstart : run ⟨.value,[]⟩ (ascii "[[0,\x7b\x7d,\x7b\x7d,[0,") =
      some ⟨.value,[.arr,.arr,.arr]⟩ := by rfl
  obtain ⟨m,hm,hrun⟩ := run_of_accepts (accepts_decimal (duration/1000)) [.arr,.arr,.arr]
  refine run_trans (run_trans hstart hrun) ?_
  have hcomma : step (code ',') ⟨m,[.arr,.arr,.arr]⟩ = some ⟨.value,[.arr,.arr,.arr]⟩ := by
    rw [step_of_done hm (.inl rfl)]
    rfl
  exact run_cons hcomma rfl

/-- After the segments the document goes on the same way, whether there were any or not. -/
theorem run_footer {b : Bytes} {m : Mode} (hm : m = .element ∨ m = .after)
    (hb : run ⟨.value,[]⟩ b = some ⟨m,[.arr,.arr,.arr,.arr]⟩) {attributes : NrHash}
    (hattr : MembersPrintable attributes) (names : StringPool) :
    accepts (addTraceFooter b attributes names) = true := by
  have hopen : Inside ⟨.value,[]⟩ [.arr,.arr] (b ++ ascii "]],\x7b") := by
    refine .inl ⟨?_,run_trans hb ?_⟩
    · rw [List.getLast?_append_of_ne_nil _ (by decide)]
      rfl
    · rcases hm with rfl | rfl
      · rfl
      · rfl
  have hsome : ∀ a, some attributes = some a → MembersPrintable a :=
    fun a ha => Option.some_inj.mp ha ▸ hattr
  have hclose := (inside_attributeHash hopen hsome).close
  obtain ⟨m',hm',hnames⟩ := run_of_accepts names.accepts_toJson [.arr]
  have hend : run ⟨m',[.arr]⟩ [code ']'] = some ⟨.after,[]⟩ := by
    refine run_cons ?_ rfl
    rw [step_of_done hm' (.inr (.inl rfl))]
    rfl
  have htail : run ⟨.after,[.arr,.arr]⟩ [code ']',code ','] = some ⟨.value,[.arr]⟩ := rfl
  have hall := run_trans (run_trans (run_trans hclose htail) hnames) hend
  have htext : addTraceFooter b attributes names =
      addAttributeHashToBuffer (b ++ ascii "]],\x7b") (some attributes) ++ [0x7d] ++
        [code ']',code ','] ++ names.toJson ++ [code ']'] := by
    have hcut : ascii "\x7d]," = [0x7d] ++ [code ']',code ','] := rfl
    have hlast : ascii "]" = [code ']'] := rfl
    rw [addTraceFooter,hcut,hlast]
    simp only [List.append_assoc]
  rw [htext]
  exact accepts_of_run rfl hall

lemma not_accepts_of_run_none {a b : Bytes} (h : run ⟨.value,[]⟩ a = none) :
    accepts (a ++ b) = false := by
  simp [accepts,run_append,h]

/-! ### The second pass as a walk -/

/-- A transaction in order, whose tree has one colour. -/
structure OneColour (t : Txn) (r : SegPtr) : Prop where
  inv : Inv t
  root : t.segmentRoot = some r
  tree : ∃ x, t.segs r = some x ∧ x.parent = none ∧ ∀ q, t.InTree r q → t.color q = some x.color

/-- The second pass has something to write: there are segments and time was spent, the sample is not
too large, and no segment stops before it starts. -/
def Written (t : Txn) (r : SegPtr) (sample : Option (Finset SegPtr)) (duration : ℕ) : Prop :=
  t.segmentCount ≠ 0 ∧ duration ≠ 0 ∧ (sample.map Finset.card).getD 0 ≤ maxTraceSegments ∧
    ∀ q s, t.InTree r q → t.segs q = some s → s.startTime ≤ s.stopTime

/-- The userdata the pass starts with. -/
def passUserdata (metadata : SamplingMetadata) (duration : ℕ) (createTrace createSpans : Bool) :
    SegmentUserdata where
  segmentNames := []
  success := true
  trace := ⟨if createTrace then some (traceHeader duration) else none,metadata.traceSet,.init 12,∅⟩
  spans := ⟨if createSpans then some [] else none,metadata.spanSet,.init 12⟩

/-- The forest of the tree, with what the walks need of it. -/
structure TreeForest (t : Txn) (r : SegPtr) (f : Forest SegPtr) : Prop where
  spans : Spans t.kids [r] f
  nodup : f.toList.Nodup
  mem_iff : ∀ q, q ∈ f.toList ↔ t.InTree r q
  live : ∀ q ∈ f.toList, ∃ s, t.segs q = some s

lemma OneColour.exists_forest (h : OneColour t r) : ∃ f mark, TreeForest t r f ∧
    ∀ u, t.iterate t.segmentRoot stot u = walk stot mark f (t,u) := by
  obtain ⟨x,hx,hpar,hcol⟩ := h.tree
  obtain ⟨f,hspan,hdepth,hnd,hmem⟩ := h.inv.exists_tree hx hpar
  refine ⟨f,x.color.toggle,⟨hspan,hnd,hmem,?_⟩,?_⟩
  · intro q hq
    obtain ⟨ks,hks⟩ := hspan.live hq
    obtain ⟨s,hs,-⟩ := Option.map_eq_some_iff.mp hks
    exact ⟨s,hs⟩
  · intro u
    rw [h.root]
    exact iterate_eq_walk stot_frame hx hspan hdepth hnd (fun q hq => hcol q ((hmem q).mp hq)) u

lemma TreeForest.all_fine (h : TreeForest t r f) : f.toList.all t.fine = true ↔
      ∀ q s, t.InTree r q → t.segs q = some s → s.startTime ≤ s.stopTime := by
  rw [List.all_eq_true]
  constructor
  · intro hall q s hq hs
    have := hall q ((h.mem_iff q).mpr hq)
    rw [fine,hs,Option.all_some,decide_eq_true_eq] at this
    exact this
  · intro hall q hq
    obtain ⟨s,hs⟩ := h.live q hq
    rw [fine,hs,Option.all_some,decide_eq_true_eq]
    exact hall q s ((h.mem_iff q).mp hq) hs

/-- `nr_segment_traces_create_data` is one walk, and its output is what the walk left. -/
theorem createData_walk (h : OneColour t r) {mark : SegmentColor}
    (hf : TreeForest t r f) (hwalk : ∀ u, t.iterate t.segmentRoot stot u = walk stot mark f (t,u))
    (duration : ℕ) (metadata : SamplingMetadata) (agentAttributes userAttributes : Option NrHash)
    (intrinsics : NrHash) (createTrace createSpans : Bool)
    (hwant : createTrace = true ∨ createSpans = true) (out : TxnFinal) :
    ∃ w', walk stot mark f (t,passUserdata metadata duration createTrace createSpans) = some w' ∧
      Labelled t w'.1 ∧
      (t.Written r metadata.traceSet duration →
        t.createData duration metadata agentAttributes userAttributes intrinsics createTrace
          createSpans out = some (w'.1,{ out with
            traceJson := w'.2.trace.buf.map fun buf => addTraceFooter buf
              (traceAttributes agentAttributes userAttributes intrinsics) w'.2.segmentNames
            spanEvents := w'.2.spans.events })) ∧
      (¬ t.Written r metadata.traceSet duration → ∃ t',
        t.createData duration metadata agentAttributes userAttributes intrinsics createTrace
          createSpans out = some (t',out)) := by
  obtain ⟨w',hw',hlab,hsucc⟩ := walk_success mark (w := (t,passUserdata metadata duration
    createTrace createSpans)) h.inv.parentsLive (.refl t) hf.live
  refine ⟨w',hw',hlab,?_⟩
  have hsucc' : w'.2.success = true ↔
      ∀ q s, t.InTree r q → t.segs q = some s → s.startTime ≤ s.stopTime := by
    rw [← hf.all_fine,hsucc]
    simp [passUserdata]
  have hprint : t.jsonPrintSegments (if createTrace then some (traceHeader duration) else none)
      (if createSpans then some [] else none) metadata.traceSet metadata.spanSet t.segmentRoot [] =
        some (w'.2.success,w'.1,w'.2) := by
    have hsome : ¬ ((if createTrace then some (traceHeader duration) else none) = none ∧
        (if createSpans then some ([] : List SpanEvent) else none).isNone = true) := by
      rcases hwant with rfl | rfl
      · simp
      · simp
    have hroot : t.segmentRoot ≠ none := by rw [h.root]; simp
    simp only [jsonPrintSegments,if_neg hsome,if_neg hroot]
    rw [hwalk]
    simp only [passUserdata] at hw'
    rw [hw']
    rfl
  by_cases hguard : t.segmentCount = 0 ∨ duration = 0 ∨
      maxTraceSegments < (metadata.traceSet.map Finset.card).getD 0
  · refine ⟨fun hwritten => ?_,fun _ => ⟨t,by rw [createData,if_pos hguard]⟩⟩
    obtain ⟨hcount,hdur,hcard,-⟩ := hwritten
    rcases hguard with hguard | hguard | hguard
    · exact absurd hguard hcount
    · exact absurd hguard hdur
    · omega
  · have heq : t.createData duration metadata agentAttributes userAttributes intrinsics createTrace
        createSpans out = if w'.2.success then
          some (w'.1,{ out with
            traceJson := w'.2.trace.buf.map fun buf => addTraceFooter buf
              (traceAttributes agentAttributes userAttributes intrinsics) w'.2.segmentNames
            spanEvents := w'.2.spans.events }) else some (w'.1,out) := by
      simp only [createData,if_neg hguard,hprint,Option.bind_eq_bind,Option.bind_some]
      rfl
    rw [heq]
    constructor
    · intro hwritten
      rw [if_pos (hsucc'.mpr hwritten.2.2.2)]
    · intro hwritten
      rw [not_or,not_or,not_lt] at hguard
      have hfail : ¬ w'.2.success = true :=
        fun hs => hwritten ⟨hguard.1,hguard.2.1,hguard.2.2,hsucc'.mp hs⟩
      exact ⟨w'.1,by rw [if_neg hfail]⟩

/-! ### The trace is JSON -/

/-- The text of a trace in order: JSON, with every emitted segment once, in the array of its nearest
emitted ancestor, and single commas between siblings. -/
structure TraceDocument (t : Txn) (r : SegPtr) (sample : Option (Finset SegPtr)) (duration : ℕ)
    (attributes : NrHash) (text : Bytes) : Prop where
  json : accepts text = true
  nested : ∃ g : Forest SegPtr, g.toList.Nodup ∧
    (∀ q, q ∈ g.toList ↔ t.InTree r q ∧ t.emitted sample q = true) ∧
    (∀ e ∈ g.parents none, t.NearestUp (t.emitted sample) e.1 e.2) ∧
    text = addTraceFooter
      (traceHeader duration ++ [code ','].intercalate (g.texts t.segmentOpening []).1) attributes
      (g.texts t.segmentOpening []).2

/-- At most one emitted segment has no emitted ancestor. -/
def OneTopmost (t : Txn) (r : SegPtr) (sample : Option (Finset SegPtr)) : Prop :=
  ∀ p q, t.InTree r p → t.InTree r q → t.emitted sample p = true → t.emitted sample q = true →
    t.NearestUp (t.emitted sample) p none → t.NearestUp (t.emitted sample) q none → p = q

section Pruned
variable {r : SegPtr} {f : Forest SegPtr}

lemma TreeForest.mem_prune (hf : TreeForest t r f) (q : SegPtr) :
    q ∈ (f.prune (t.emitted sample)).toList ↔ t.InTree r q ∧ t.emitted sample q = true := by
  rw [toList_prune,List.mem_filter,hf.mem_iff]

lemma TreeForest.prune_nodup (hf : TreeForest t r f) :
    (f.prune (t.emitted sample)).toList.Nodup := by
  rw [toList_prune]
  exact hf.nodup.filter _

lemma TreeForest.nearestUp (hf : TreeForest t r f) (h : OneColour t r) :
    ∀ e ∈ (f.prune (t.emitted sample)).parents none, t.NearestUp (t.emitted sample) e.1 e.2 := by
  obtain ⟨x,hx,hpar,-⟩ := h.tree
  apply nearestUp_of_parents h.inv hf.spans
  intro q hq
  rw [List.mem_singleton.mp hq]
  exact .top hx hpar

lemma roots_sublist (f : Forest SegPtr) : f.roots.Sublist f.toList := by
  induction f with
  | nil => exact .slnil
  | node a kids rest _ ih => exact (ih.trans (List.sublist_append_right _ _)).cons_cons a

/-- The trees of the pruned forest stand for the emitted segments without emitted ancestor. -/
theorem TreeForest.mem_roots (hf : TreeForest t r f) (h : OneColour t r) (q : SegPtr) :
    q ∈ (f.prune (t.emitted sample)).roots ↔ (t.InTree r q ∧ t.emitted sample q = true) ∧
      t.NearestUp (t.emitted sample) q none := by
  rw [mem_roots_iff,← hf.mem_prune]
  constructor
  · intro hq
    refine ⟨?_,hf.nearestUp h _ hq⟩
    rw [← map_fst_parents none]
    exact List.mem_map_of_mem hq
  · rintro ⟨hq,hup⟩
    rw [← map_fst_parents none] at hq
    obtain ⟨⟨q',o⟩,he,rfl⟩ := List.mem_map.mp hq
    have ho : o = none := (hf.nearestUp h _ he).unique hup
    exact ho ▸ he

lemma TreeForest.oneTopmost_iff (hf : TreeForest t r f) (h : OneColour t r) :
    t.OneTopmost r sample ↔ (f.prune (t.emitted sample)).roots.length ≤ 1 := by
  have hnd : (f.prune (t.emitted sample)).roots.Nodup := (roots_sublist _).nodup hf.prune_nodup
  have hmem : ∀ q, q ∈ (f.prune (t.emitted sample)).roots ↔ _ := hf.mem_roots h
  constructor
  · intro hone
    match hroots : (f.prune (t.emitted sample)).roots with
    | [] => simp
    | [a] => simp
    | a :: b :: rest =>
      rw [hroots] at hnd hmem
      obtain ⟨⟨ha,ha'⟩,haup⟩ := (hmem a).mp (by simp)
      obtain ⟨⟨hb,hb'⟩,hbup⟩ := (hmem b).mp (by simp)
      have hab := hone a b ha hb ha' hb' haup hbup
      simp [hab] at hnd
  · intro hlen p q hp hq hp' hq' hpup hqup
    have hpr := (hmem p).mpr ⟨⟨hp,hp'⟩,hpup⟩
    have hqr := (hmem q).mpr ⟨⟨hq,hq'⟩,hqup⟩
    match hroots : (f.prune (t.emitted sample)).roots with
    | [] =>
      rw [hroots] at hpr
      cases hpr
    | [a] =>
      rw [hroots,List.mem_singleton] at hpr hqr
      rw [hpr,hqr]
    | a :: b :: rest =>
      rw [hroots] at hlen
      simp at hlen

end Pruned

/-- The text of the trees without commas is JSON exactly when there is at most one tree. -/
theorem accepts_flatten_iff {g : Forest SegPtr}
    (hopens : ∀ q ∈ g.toList, ∀ names, Opens (t.segmentOpening q names).1) (duration : ℕ)
    {attributes : NrHash} (hattr : MembersPrintable attributes) :
    accepts (addTraceFooter (traceHeader duration ++ (g.texts t.segmentOpening []).1.flatten)
      attributes (g.texts t.segmentOpening []).2) = true ↔ g.roots.length ≤ 1 := by
  have hrun := run_flatten (isArray_texts hopens []) [.arr,.arr,.arr]
  rw [texts_length] at hrun
  have hall : run ⟨.value,[]⟩ (traceHeader duration ++ (g.texts t.segmentOpening []).1.flatten) =
      (elementsRead g.roots.length).map fun m => ⟨m,[.arr,.arr,.arr,.arr]⟩ := by
    rw [run_append,run_traceHeader,Option.bind_some,hrun]
  match hlen : g.roots.length with
  | 0 =>
    rw [hlen] at hall
    exact iff_of_true (run_footer (.inl rfl) hall hattr _) (by simp)
  | 1 =>
    rw [hlen] at hall
    exact iff_of_true (run_footer (.inr rfl) hall hattr _) (by simp)
  | n+2 =>
    rw [hlen] at hall
    refine iff_of_false ?_ (by simp)
    unfold addTraceFooter
    obtain ⟨x,hx⟩ : ∃ x, addAttributeHashToBuffer (traceHeader duration ++
        (g.texts t.segmentOpening []).1.flatten ++ ascii "]],\x7b") (some attributes) =
        traceHeader duration ++ (g.texts t.segmentOpening []).1.flatten ++ x :=
      ⟨_,(appends_attributeHash (some attributes) _ (ascii "]],\x7b") (by decide)).1⟩
    rw [hx,List.append_assoc,List.append_assoc,List.append_assoc,not_accepts_of_run_none hall]
    simp

/-- The second pass returns, and the text it writes is that of the pruned forest without commas between
the trees. -/
theorem createData_text (h : OneColour t r) {mark : SegmentColor}
    (hf : TreeForest t r f) (hwalk : ∀ u, t.iterate t.segmentRoot stot u = walk stot mark f (t,u))
    (duration : ℕ) (metadata : SamplingMetadata) (agentAttributes userAttributes : Option NrHash)
    (intrinsics : NrHash) (createSpans : Bool) (out : TxnFinal) :
    ∃ t' out', t.createData duration metadata agentAttributes userAttributes intrinsics true
        createSpans out = some (t',out') ∧
      (¬ t.Written r metadata.traceSet duration → out' = out) ∧
      (t.Written r metadata.traceSet duration → out'.traceJson = some (addTraceFooter
        (traceHeader duration ++
          ((f.prune (t.emitted metadata.traceSet)).texts t.segmentOpening []).1.flatten)
        (traceAttributes agentAttributes userAttributes intrinsics)
        ((f.prune (t.emitted metadata.traceSet)).texts t.segmentOpening []).2)) := by
  obtain ⟨w',hw',-,hyes,hno⟩ := createData_walk h hf hwalk duration metadata agentAttributes
    userAttributes intrinsics true createSpans (.inl rfl) out
  have hat : TraceAt t metadata.traceSet (traceHeader duration) [] ∅ []
      (t,passUserdata metadata duration true createSpans) :=
    ⟨.refl t,rfl,rfl,rfl,rfl,rfl⟩
  obtain ⟨w₁,anc,hw₁,htext,-⟩ := walk_text mark h.inv.parentsLive hat hf.live hf.nodup
    (fun _ _ => List.not_mem_nil) (fun q _ => Finset.notMem_empty q)
  rw [hw',Option.some_inj] at hw₁
  subst hw₁
  by_cases hwritten : t.Written r metadata.traceSet duration
  · refine ⟨_,_,hyes hwritten,fun hnot => absurd hwritten hnot,fun _ => ?_⟩
    rw [htext.buf,htext.names]
    rw [show siblingLead [] ∅ = [] from rfl,show siblingSep [] = [] from rfl,joinWith_nil_nil]
    rfl
  · obtain ⟨t',heq⟩ := hno hwritten
    exact ⟨t',out,heq,fun _ => rfl,fun hw => absurd hw hwritten⟩

/-- The second pass returns. What it writes as a transaction trace is in order if and only if at most
one emitted segment has no emitted ancestor. -/
theorem createData_document_iff {r : SegPtr} (h : OneColour t r)
    (hprint : ∀ q s, t.InTree r q → t.segs q = some s → s.Printable)
    {agentAttributes userAttributes : Option NrHash} {intrinsics : NrHash}
    (hattr : AttributesPrintable agentAttributes userAttributes intrinsics) (duration : ℕ)
    (metadata : SamplingMetadata) (createSpans : Bool) (out : TxnFinal) :
    ∃ t' out', t.createData duration metadata agentAttributes userAttributes intrinsics true
        createSpans out = some (t',out') ∧
      (¬ t.Written r metadata.traceSet duration → out' = out) ∧
      (t.Written r metadata.traceSet duration → ∃ text, out'.traceJson = some text ∧
        (TraceDocument t r metadata.traceSet duration
          (traceAttributes agentAttributes userAttributes intrinsics) text ↔
        t.OneTopmost r metadata.traceSet)) := by
  obtain ⟨f,mark,hf,hwalk⟩ := h.exists_forest
  obtain ⟨t',out',heq,hno,hyes⟩ := createData_text h hf hwalk duration metadata agentAttributes
    userAttributes intrinsics createSpans out
  refine ⟨t',out',heq,hno,fun hwritten => ⟨_,hyes hwritten,?_⟩⟩
  rw [hf.oneTopmost_iff h]
  have hopens : ∀ q ∈ (f.prune (t.emitted metadata.traceSet)).toList, ∀ names,
      Opens (t.segmentOpening q names).1 := by
    intro q hq names
    exact opens_segmentOpening (fun s hs => hprint q s ((hf.mem_prune q).mp hq).1 hs) names
  have hjson := accepts_flatten_iff hopens duration hattr.members
  constructor
  · exact fun hdoc => hjson.mp hdoc.json
  · intro hlen
    refine ⟨hjson.mpr hlen,_,hf.prune_nodup,hf.mem_prune,hf.nearestUp h,?_⟩
    have hcount : ((f.prune (t.emitted metadata.traceSet)).texts t.segmentOpening []).1.length =
        (f.prune (t.emitted metadata.traceSet)).roots.length := texts_length _ _
    rw [← hcount] at hlen
    match hpieces : ((f.prune (t.emitted metadata.traceSet)).texts t.segmentOpening []).1 with
    | [] => rfl
    | [a] => simp
    | a :: b :: rest =>
      rw [hpieces] at hlen
      simp at hlen

/-- A root with two children in contexts of their own, all of them from 0 to 5000 microseconds. -/
def alikeTxn : Option Txn := do
  let t ← begin 1 0 0 ⟨10,false,0,false,false⟩ none false (fun _ => [])
  let (_,t) ← t.start 0 (some 1) (some (ascii "a"))
  let (_,t) ← t.start 0 (some 1) (some (ascii "b"))
  let t ← t.endSegment 5000 2
  let t ← t.endSegment 5000 3
  t.endSegment 5000 1

/-- The data of one segment of it. -/
def alikeSegment (parent : Option SegPtr) (s : Segment) : Prop :=
  s.parent = parent ∧ s.startTime = 0 ∧ s.stopTime = 5000 ∧ s.color = .white ∧
    s.typedAttributes = none ∧ s.attributes = none

lemma exists_alikeTxn : ∃ t x y z, alikeTxn = some t ∧ Inv t ∧ t.segmentRoot = some 1 ∧
    t.segmentCount = 3 ∧ t.slab.next = 4 ∧ t.segs 0 = none ∧ t.segs 1 = some x ∧ t.segs 2 = some y ∧
    t.segs 3 = some z ∧ alikeSegment none x ∧ alikeSegment (some 1) y ∧ alikeSegment (some 1) z := by
  have hrun : ∃ t₀ t js x y z, begin 1 0 0 ⟨10,false,0,false,false⟩ none false (fun _ => []) = some t₀ ∧
      EndOp.Run (fun t op => op.Parented t) t₀ [] [.start 0 (some 1) (some (ascii "a")),
        .start 0 (some 1) (some (ascii "b")),.finish 5000 2,.finish 5000 3,.finish 5000 1] t js ∧
      alikeTxn = some t ∧ t.segmentCount = 3 ∧ t.slab.next = 4 ∧ t.segs 0 = none ∧ t.segs 1 = some x ∧
      t.segs 2 = some y ∧ t.segs 3 = some z ∧ alikeSegment none x ∧ alikeSegment (some 1) y ∧
      alikeSegment (some 1) z := by
    refine ⟨_,_,_,_,_,_,rfl,.cons ?_ ?_ rfl (.cons ?_ ?_ rfl (.cons ⟨⟨_,rfl⟩,?_⟩ trivial rfl
      (.cons ⟨⟨_,rfl⟩,?_⟩ trivial rfl (.cons ⟨⟨_,rfl⟩,?_⟩ trivial rfl (.nil _ _))))),rfl,rfl,rfl,rfl,
      rfl,rfl,rfl,⟨rfl,rfl,rfl,rfl,rfl,rfl⟩,⟨rfl,rfl,rfl,rfl,rfl,rfl⟩,⟨rfl,rfl,rfl,rfl,rfl,rfl⟩⟩
    · intro q hq
      cases hq
      exact ⟨_,rfl⟩
    · exact Option.some_ne_none 1
    · intro q hq
      cases hq
      exact ⟨_,rfl⟩
    · exact Option.some_ne_none 1
    · decide
    · decide
    · decide
  obtain ⟨t₀,t,js,x,y,z,hbegin,hrun,ht,hcount,hnext,h0,h1,h2,h3,hx,hy,hz⟩ := hrun
  have hend := hrun.ending (by decide) (begin_ending (by decide) hbegin)
  exact ⟨t,x,y,z,ht,hend.toInv,hend.isRoot,hcount,hnext,h0,h1,h2,h3,hx,hy,hz⟩

/-- The tree of it has one colour, its texts are JSON, and the root is above the other segments. -/
theorem alikeTxn_oneColour {t : Txn} (h : alikeTxn = some t) : OneColour t 1 ∧
    t.segmentCount = 3 ∧ (∀ q s, t.InTree 1 q → t.segs q = some s → s.Printable) ∧
    (∀ q s, t.segs q = some s → s.startTime = 0 ∧ s.stopTime = 5000) ∧
    ∀ q s, t.segs q = some s → q ≠ 1 → s.parent = some 1 := by
  obtain ⟨t',x,y,z,ht',hinv,hroot,hcount,hnext,h0,h1,h2,h3,hx,hy,hz⟩ := exists_alikeTxn
  rw [h,Option.some_inj] at ht'
  subst ht'
  have hall : ∀ q s, t.segs q = some s → q = 1 ∧ alikeSegment none s ∨
      q ≠ 1 ∧ alikeSegment (some 1) s := by
    intro q s hq
    have hlt := hinv.live_lt hq
    rw [hnext] at hlt
    interval_cases q
    · rw [h0] at hq
      cases hq
    · rw [h1,Option.some_inj] at hq
      exact .inl ⟨rfl,hq ▸ hx⟩
    · rw [h2,Option.some_inj] at hq
      exact .inr ⟨by decide,hq ▸ hy⟩
    · rw [h3,Option.some_inj] at hq
      exact .inr ⟨by decide,hq ▸ hz⟩
  refine ⟨⟨hinv,hroot,x,h1,hx.1,?_⟩,hcount,?_,?_,?_⟩
  · intro q hq
    obtain ⟨s,hs⟩ := hq.live h1
    rw [color,hs,Option.map_some,hx.2.2.2.1]
    rcases hall q s hs with ⟨-,hseg⟩ | ⟨-,hseg⟩
    · rw [hseg.2.2.2.1]
    · rw [hseg.2.2.2.1]
  · intro q s _ hs
    have hnone : s.typedAttributes = none ∧ s.attributes = none := by
      rcases hall q s hs with ⟨-,hseg⟩ | ⟨-,hseg⟩
      · exact hseg.2.2.2.2
      · exact hseg.2.2.2.2
    constructor
    · intro a ha
      rw [hnone.1] at ha
      cases ha
    · intro a ha
      rw [hnone.2] at ha
      cases ha
  · intro q s hs
    rcases hall q s hs with ⟨-,hseg⟩ | ⟨-,hseg⟩
    · exact ⟨hseg.2.1,hseg.2.2.1⟩
    · exact ⟨hseg.2.1,hseg.2.2.1⟩
  · intro q s hs hq
    rcases hall q s hs with ⟨hone,-⟩ | ⟨-,hseg⟩
    · exact absurd hone hq
    · exact hseg.1

/-- Without a sample the root is there, and the trace is in order. -/
theorem createData_document_iff_alike : ∃ t t' out text, alikeTxn = some t ∧
    t.createData 5000 ⟨none,none⟩ none none [] true false ⟨none,none,0⟩ = some (t',out) ∧
    out.traceJson = some text ∧
    TraceDocument t 1 none 5000 (traceAttributes none none []) text := by
  obtain ⟨t,-,-,-,ht,-⟩ := exists_alikeTxn
  obtain ⟨hone,hcount,hprint,htimes,hparent⟩ := alikeTxn_oneColour ht
  have hattr : AttributesPrintable none none [] :=
    ⟨fun a ha => by (cases ha),fun a ha => by (cases ha),trivial⟩
  obtain ⟨t',out,heq,-,hyes⟩ := createData_document_iff hone hprint hattr 5000 ⟨none,none⟩ false
    ⟨none,none,0⟩
  have hwritten : t.Written 1 none 5000 := by
    refine ⟨by omega,by decide,by decide,fun q s _ hs => ?_⟩
    obtain ⟨hstart,hstop⟩ := htimes q s hs
    omega
  obtain ⟨text,htext,hiff⟩ := hyes hwritten
  refine ⟨t,t',out,text,ht,heq,htext,hiff.mpr ?_⟩
  obtain ⟨x,hx,-⟩ := hone.tree
  have hemit : t.emitted none 1 = true := by
    obtain ⟨hstart,hstop⟩ := htimes 1 x hx
    exact (emitted_iff hx).mpr ⟨by omega,rfl⟩
  have htop : ∀ q, t.InTree 1 q → t.NearestUp (t.emitted none) q none → q = 1 := by
    intro q hq hup
    obtain ⟨s,hs⟩ := hq.live hx
    by_contra hne
    cases hup.unique (.here hs (hparent q s hs hne) hemit)
  intro p q hp hq _ _ hpup hqup
  rw [htop p hp hpup,htop q hq hqup]

/-- With the limit 2 the root is not sampled, and its two children stand side by side without a
comma. -/
theorem finalise_trace_not_json : ∃ t t' out text, alikeTxn = some t ∧ OneColour t 1 ∧
    t.finalise 2 1 none = some (t',out) ∧ out.traceJson = some text ∧ accepts text = false := by
  obtain ⟨t,-,-,-,ht,-⟩ := exists_alikeTxn
  have hbad : ((alikeTxn.bind (·.finalise 2 1 none)).map fun r => r.2.traceJson.map accepts) =
      some (some false) := by decide +kernel
  rw [ht,Option.bind_some,Option.map_eq_some_iff] at hbad
  obtain ⟨⟨t',out⟩,heq,hjson⟩ := hbad
  obtain ⟨text,htext,hfalse⟩ := Option.map_eq_some_iff.mp hjson
  exact ⟨t,t',out,text,ht,(alikeTxn_oneColour ht).1,heq,htext,hfalse⟩

end Txn
end PhpAgent

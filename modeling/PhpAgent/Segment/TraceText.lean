import PhpAgent.Lib.ForestText
import PhpAgent.Segment.TracesWalk

/-! The text a walk of the second pass appends to its buffer: the texts of the emitted segments,
with commas between siblings unless they have no emitted ancestor. -/
namespace PhpAgent
open Json

namespace Txn
open Forest
variable {t : Txn} {p : SegPtr} {w w' : Txn × SegmentUserdata} {mark : SegmentColor}
  {sample : Option (Finset SegPtr)} {b : Bytes} {path : List SegPtr} {ancestors : Finset SegPtr}
  {names : StringPool} {s : Segment} {ancestors' : Finset SegPtr}

/-- What the pass has written so far, and where it is. -/
structure TraceAt (t : Txn) (sample : Option (Finset SegPtr)) (b : Bytes) (path : List SegPtr)
    (ancestors : Finset SegPtr) (names : StringPool) (w : Txn × SegmentUserdata) : Prop where
  labelled : Labelled t w.1
  buf : w.2.trace.buf = some b
  sampled : w.2.trace.sample = sample
  path : w.2.trace.currentPath.elements = path
  ancestors : w.2.trace.sampledAncestorsWithChild = ancestors
  names : w.2.segmentNames = names

/-- What stands between two siblings. -/
def siblingSep (path : List SegPtr) : Bytes := if path = [] then [] else [code ',']

/-- What stands before the next sibling. -/
def siblingLead (path : List SegPtr) (ancestors : Finset SegPtr) : Bytes :=
  match path with
  | [] => []
  | parent :: _ => if parent ∈ ancestors then [code ','] else []

/-- The ancestors with a child once there is one below `path`. -/
def withChild (path : List SegPtr) (ancestors : Finset SegPtr) : Finset SegPtr :=
  match path with
  | [] => ancestors
  | parent :: _ => insert parent ancestors

lemma siblingLead_withChild (path : List SegPtr) (ancestors : Finset SegPtr) :
    siblingLead path (withChild path ancestors) = siblingSep path := by
  cases path with
  | nil => rfl
  | cons parent path => simp [siblingLead,withChild,siblingSep]

lemma mem_withChild {q : SegPtr} : q ∈ withChild path ancestors ↔
    q ∈ ancestors ∨ path.head? = some q := by
  cases path with
  | nil => simp [withChild]
  | cons parent path =>
    simp only [withChild,Finset.mem_insert,List.head?_cons,Option.some_inj]
    rw [or_comm,eq_comm]

/-! ### One segment -/

lemma TraceAt.update (mark : SegmentColor) (h : TraceAt t sample b path ancestors names w)
    (hs : w.1.segs p = some s) : ∃ t', w.1.update p (fun s => { s with color := mark }) = some t' ∧
      TraceAt t sample b path ancestors names (t',w.2) := by
  obtain ⟨t',hupd,-,hl⟩ := update_labelled hs (f := fun s => { s with color := mark }) rfl
    (fun _ hid => hid)
  exact ⟨t',hupd,h.labelled.trans hl,h.buf,h.sampled,h.path,h.ancestors,h.names⟩

lemma emitted_iff (hs : t.segs p = some s) : t.emitted sample p = true ↔
    s.startTime < s.stopTime ∧ isSampled p sample = true := by
  simp [emitted,Txn.shown,hs]

/-- The callback on a segment that is not emitted. -/
theorem TraceAt.stot_skip (h : TraceAt t sample b path ancestors names w) (hl : t.ParentsLive)
    (hs : t.segs p = some s) (hskip : t.emitted sample p = false) :
    ∃ post w', stot p w = some (post,w') ∧ TraceAt t sample b path ancestors names w' ∧
      (post = none ∨ post = some stotPost) := by
  obtain ⟨s',hs',hbare⟩ := h.labelled.live hs
  have hshown : (s'.startTime < s'.stopTime ∧ isSampled p sample = true) ↔ False := by
    have hshow := h.labelled.shown p
    rw [← emitted_iff hs',emitted,hshow,← emitted,hskip]
    simp
  obtain ⟨t,u⟩ := w
  rcases stot_spec (h.labelled.parentsLive hl) hs' with ⟨-,heq⟩ | ⟨hlt,t',spans,heq,hlab,-,-⟩
  · exact ⟨none,_,heq,⟨h.labelled,h.buf,h.sampled,h.path,h.ancestors,h.names⟩,.inl rfl⟩
  · have hunsampled : isSampled p u.trace.sample = false := by
      have hsampled : u.trace.sample = sample := h.sampled
      rw [hsampled]
      cases hp : isSampled p sample with
      | false => rfl
      | true => exact (hshown.mp ⟨hlt,hp⟩).elim
    refine ⟨_,_,heq,?_,.inr rfl⟩
    have hbuf : u.trace.buf = some b := h.buf
    simp only [tracedUserdata,hbuf,passTrace,hunsampled,Bool.false_eq_true,if_false]
    exact ⟨h.labelled.trans hlab,h.buf,h.sampled,h.path,h.ancestors,h.names⟩

/-- The callback on a segment that is emitted. -/
theorem TraceAt.stot_emit (h : TraceAt t sample b path ancestors names w) (hl : t.ParentsLive)
    (hs : t.segs p = some s) (hemit : t.emitted sample p = true) :
    ∃ w', stot p w = some (some stotPost,w') ∧
      TraceAt t sample (b ++ siblingLead path ancestors ++ (t.segmentOpening p names).1) (p :: path)
        (withChild path ancestors) (t.segmentOpening p names).2 w' := by
  obtain ⟨s',hs',hbare⟩ := h.labelled.live hs
  have hshown : s'.startTime < s'.stopTime ∧ isSampled p sample = true := by
    rw [← emitted_iff hs',emitted,h.labelled.shown p,← emitted]
    exact hemit
  obtain ⟨t₀,u⟩ := w
  rcases stot_spec (h.labelled.parentsLive hl) hs' with ⟨hlt,-⟩ | ⟨-,t',spans,heq,hlab,-,-⟩
  · exact absurd hshown.1 hlt
  · refine ⟨_,heq,?_⟩
    have hbuf : u.trace.buf = some b := h.buf
    have hsampled : isSampled p u.trace.sample = true := by
      rw [show u.trace.sample = sample from h.sampled]
      exact hshown.2
    have hpath : u.trace.currentPath.get 0 = path.head? := by
      rw [NrVector.get,show u.trace.currentPath.elements = path from h.path,List.head?_eq_getElem?]
    have hanc : u.trace.sampledAncestorsWithChild = ancestors := h.ancestors
    have hnames : u.segmentNames = names := h.names
    obtain ⟨s'',hs'',hbare'⟩ := hlab.live hs'
    have htext : ∀ buf, t'.addSegmentToBuffer buf s' names =
        (buf ++ (t.segmentOpening p names).1,(t.segmentOpening p names).2) := by
      intro buf
      rw [← (h.labelled.trans hlab).segmentOpening,← addSegmentToBuffer_eq hs'' buf names]
      exact (Segment.eq_of_bare (fun s => t'.addSegmentToBuffer buf s names) (fun _ => rfl)
        hbare').symm
    simp only [tracedUserdata,hbuf,passTrace,hsampled,if_true,hpath,hanc,hnames]
    cases path with
    | nil =>
      simp only [List.head?_nil,htext,siblingLead,withChild,List.append_nil]
      refine ⟨h.labelled.trans hlab,rfl,h.sampled,?_,rfl,rfl⟩
      rw [NrVector.elements_pushFront]
      exact congrArg (p :: ·) h.path
    | cons parent path =>
      simp only [List.head?_cons,htext,siblingLead,withChild]
      refine ⟨h.labelled.trans hlab,?_,h.sampled,?_,rfl,rfl⟩
      · by_cases hmem : parent ∈ ancestors
        · simp [hmem]
        · simp [hmem]
      · rw [NrVector.elements_pushFront]
        exact congrArg (p :: ·) h.path

/-- Going up from a segment that was emitted. -/
theorem TraceAt.post_emit (h : TraceAt t sample b (p :: path) ancestors names w) :
    ∃ w', stotPost p w = some w' ∧
      TraceAt t sample (b ++ [code ']',code ']']) path ancestors names w' := by
  obtain ⟨t₀,u⟩ := w
  refine ⟨_,rfl,?_⟩
  have hbuf : u.trace.buf = some b := h.buf
  have helem : u.trace.currentPath.elements = p :: path := h.path
  have hpath : u.trace.currentPath.get 0 = some p := by rw [NrVector.get,helem]; rfl
  simp only [hbuf,hpath,if_true]
  refine ⟨h.labelled,rfl,h.sampled,?_,h.ancestors,h.names⟩
  simp [helem]

/-- Going up from a segment that was not. -/
theorem TraceAt.post_skip (h : TraceAt t sample b path ancestors names w)
    (hp : path.head? ≠ some p) {post : Option (PostIter SegmentUserdata)}
    (hpost : post = none ∨ post = some stotPost) :
    ∃ w', runPost post p w = some w' ∧ TraceAt t sample b path ancestors names w' := by
  obtain ⟨t₀,u⟩ := w
  rcases hpost with rfl | rfl
  · exact ⟨_,rfl,h⟩
  · refine ⟨_,rfl,?_⟩
    have hbuf : u.trace.buf = some b := h.buf
    have hpath : u.trace.currentPath.get 0 ≠ some p := by
      rw [NrVector.get,show u.trace.currentPath.elements = path from h.path,← List.head?_eq_getElem?]
      exact hp
    simp only [hbuf,if_neg hpath]
    exact ⟨h.labelled,h.buf,h.sampled,h.path,h.ancestors,h.names⟩

/-! ### The walk -/

/-- What stands before the next sibling depends on the ancestors through the parent only. -/
theorem siblingLead_congr (h : ∀ q, path.head? = some q → (q ∈ ancestors' ↔ q ∈ ancestors)) :
    siblingLead path ancestors' = siblingLead path ancestors := by
  cases path with
  | nil => rfl
  | cons parent path => simp [siblingLead,h parent rfl]

/-- Behind a segment that was emitted there is a comma. -/
lemma siblingLead_emitted (h : ∀ q ∈ path, q ∈ ancestors' ↔ q ∈ withChild path ancestors) :
    siblingLead path ancestors' = siblingSep path := by
  rw [← siblingLead_withChild path ancestors]
  apply siblingLead_congr
  intro q hq
  exact h q (List.mem_of_head? hq)

/-- Behind one that was not there is a comma when something below it was. -/
lemma siblingLead_skipped {kids : Forest SegPtr} {openings : SegPtr → StringPool → Bytes × StringPool}
    (h : ∀ q, path.head? = some q → (q ∈ ancestors' ↔ q ∈ ancestors ∨ kids ≠ .nil)) :
    siblingLead path ancestors' = if (kids.texts openings names).1 = [] then
      siblingLead path ancestors else siblingSep path := by
  split_ifs with hnil
  · apply siblingLead_congr
    intro q hq
    rw [h q hq]
    simp [texts_eq_nil.mp hnil]
  · rw [← siblingLead_withChild path ancestors]
    apply siblingLead_congr
    intro q hq
    rw [h q hq,mem_withChild]
    have hne : kids ≠ .nil := fun heq => hnil (texts_eq_nil.mpr heq)
    simp [hne,hq]

/-- A walk over a forest appends the texts of its emitted segments. -/
theorem walk_text (mark : SegmentColor) (hl : t.ParentsLive) {f : Forest SegPtr}
    (h : TraceAt t sample b path ancestors names w) (hlive : ∀ q ∈ f.toList, ∃ s, t.segs q = some s)
    (hnd : f.toList.Nodup) (hpath : ∀ q ∈ f.toList, q ∉ path)
    (hanc : ∀ q ∈ f.toList, q ∉ ancestors) :
    ∃ w' ancestors', walk stot mark f w = some w' ∧
      TraceAt t sample (b ++ joinWith (siblingLead path ancestors) (siblingSep path)
          ((f.prune (t.emitted sample)).texts t.segmentOpening names).1) path ancestors'
        ((f.prune (t.emitted sample)).texts t.segmentOpening names).2 w' ∧
      ∀ q, q ∉ f.toList → (q ∈ ancestors' ↔
        q ∈ ancestors ∨ path.head? = some q ∧ f.prune (t.emitted sample) ≠ .nil) := by
  induction f generalizing w b path ancestors names with
  | nil =>
    refine ⟨w,ancestors,rfl,?_,fun q _ => by simp [prune]⟩
    simpa [prune,texts,joinWith] using h
  | node p kids rest ihk ihr =>
    obtain ⟨hpnot,hnd⟩ := List.nodup_cons.mp hnd
    rw [List.mem_append,not_or] at hpnot
    obtain ⟨hndk,hndr,hdisj⟩ := List.nodup_append.mp hnd
    have hpp : p ∉ path := hpath p List.mem_cons_self
    have hmemk : ∀ {q}, q ∈ kids.toList → q ∈ (Forest.node p kids rest).toList :=
      fun hq => mem_kids hq
    have hmemr : ∀ {q}, q ∈ rest.toList → q ∈ (Forest.node p kids rest).toList :=
      fun hq => mem_rest hq
    obtain ⟨s,hs⟩ := hlive p List.mem_cons_self
    obtain ⟨s₀,hs₀,-⟩ := h.labelled.live hs
    obtain ⟨t₁,hupd,h₁⟩ := h.update mark hs₀
    have hhead : ∀ {q}, q ∉ path → path.head? ≠ some q :=
      fun hq hh => hq (List.mem_of_head? hh)
    cases hemit : t.emitted sample p with
    | true =>
      obtain ⟨w₂,hw₂,h₂⟩ := h₁.stot_emit hl hs hemit
      have hfresh : ∀ q ∈ (Forest.node p kids rest).toList, q ∉ withChild path ancestors := by
        intro q hq
        rw [mem_withChild,not_or]
        exact ⟨hanc q hq,hhead (hpath q hq)⟩
      obtain ⟨w₃,anc₃,hw₃,h₃,hanc₃⟩ := ihk h₂ (fun q hq => hlive q (hmemk hq)) hndk
        (fun q hq hmem => (List.mem_cons.mp hmem).elim (fun heq => hpnot.1 (heq ▸ hq))
          (hpath q (hmemk hq))) (fun q hq => hfresh q (hmemk hq))
      have hlead : siblingLead (p :: path) (withChild path ancestors) = [] := by
        simp [siblingLead,hfresh p List.mem_cons_self]
      have hsep : siblingSep (p :: path) = [code ','] := rfl
      rw [hlead,hsep,joinWith_nil] at h₃
      obtain ⟨w₄,hw₄,h₄⟩ := h₃.post_emit
      have hout : ∀ q, q ∉ kids.toList → q ≠ p → (q ∈ anc₃ ↔ q ∈ withChild path ancestors) := by
        intro q hq hqp
        rw [hanc₃ q hq,List.head?_cons,Option.some_inj]
        simp [Ne.symm hqp]
      obtain ⟨w₅,anc₅,hw₅,h₅,hanc₅⟩ := ihr h₄ (fun q hq => hlive q (hmemr hq)) hndr
        (fun q hq => hpath q (hmemr hq)) (fun q hq hmem => by
          have hqp : q ≠ p := fun heq => hpnot.2 (heq ▸ hq)
          have hqk : q ∉ kids.toList := fun hk => hdisj q hk q hq rfl
          exact hfresh q (hmemr hq) ((hout q hqk hqp).mp hmem))
      have hnext : siblingLead path anc₃ = siblingSep path := siblingLead_emitted fun q hq =>
        hout q (fun hk => hpath q (hmemk hk) hq) (fun heq => hpp (heq ▸ hq))
      rw [hnext] at h₅
      refine ⟨w₅,anc₅,?_,?_,?_⟩
      · simp only [walk,hupd,hw₂,hw₃,hw₅,runPost,hw₄,Option.bind_eq_bind,Option.bind_some]
      · simp only [prune,hemit,if_true,texts,joinWith]
        simpa only [List.append_assoc] using h₅
      · intro q hq
        rw [toList,List.mem_cons,List.mem_append,not_or,not_or] at hq
        rw [hanc₅ q hq.2.2,hout q hq.2.1 hq.1,mem_withChild]
        simp only [prune,hemit,if_true,ne_eq,reduceCtorEq,not_false_eq_true,and_true]
        tauto
    | false =>
      obtain ⟨post,w₂,hw₂,h₂,hpost⟩ := h₁.stot_skip hl hs hemit
      obtain ⟨w₃,anc₃,hw₃,h₃,hanc₃⟩ := ihk h₂ (fun q hq => hlive q (hmemk hq)) hndk
        (fun q hq => hpath q (hmemk hq)) (fun q hq => hanc q (hmemk hq))
      obtain ⟨w₄,hw₄,h₄⟩ := h₃.post_skip (hhead hpp) hpost
      obtain ⟨w₅,anc₅,hw₅,h₅,hanc₅⟩ := ihr h₄ (fun q hq => hlive q (hmemr hq)) hndr
        (fun q hq => hpath q (hmemr hq)) (fun q hq hmem => by
          have hqk : q ∉ kids.toList := fun hk => hdisj q hk q hq rfl
          rcases (hanc₃ q hqk).mp hmem with hmem | ⟨hmem,-⟩
          · exact hanc q (hmemr hq) hmem
          · exact hhead (hpath q (hmemr hq)) hmem)
      have hnext : siblingLead path anc₃ =
          if ((kids.prune (t.emitted sample)).texts t.segmentOpening names).1 = [] then
            siblingLead path ancestors else siblingSep path := by
        refine siblingLead_skipped fun q hq => ?_
        rw [hanc₃ q (fun hk => hpath q (hmemk hk) (List.mem_of_head? hq))]
        simp [hq]
      rw [hnext] at h₅
      refine ⟨w₅,anc₅,?_,?_,?_⟩
      · simp only [walk,hupd,hw₂,hw₃,hw₄,hw₅,Option.bind_eq_bind,Option.bind_some]
      · simp only [prune,hemit,Bool.false_eq_true,if_false,texts_append,joinWith_append]
        simpa only [List.append_assoc] using h₅
      · intro q hq
        rw [toList,List.mem_cons,List.mem_append,not_or,not_or] at hq
        rw [hanc₅ q hq.2.2,hanc₃ q hq.2.1]
        simp only [prune,hemit,Bool.false_eq_true,if_false,append_eq_nil,ne_eq]
        tauto

end Txn
end PhpAgent

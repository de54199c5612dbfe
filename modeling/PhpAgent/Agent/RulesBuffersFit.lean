import PhpAgent.Agent.RulesBuffers

/-! When the rules stay in their buffers. -/
namespace PhpAgent

/-! ### What one rule writes -/

/-- The last byte is a terminator. -/
def EndsInZero (mem : Bytes) : Prop := mem.length = nruleBufSize ∧ mem.getLast? = some 0

structure Buffers.Sound (b : Buffers) : Prop where
  str : EndsInZero b.str
  work : EndsInZero b.work
  repl : EndsInZero b.repl

variable {mem : Bytes}

lemma EndsInZero.zero_mem (h : EndsInZero mem) : (0 : UInt8) ∈ mem :=
  List.mem_of_getLast? h.2

lemma EndsInZero.isString (h : EndsInZero mem) : IsString mem := ⟨h.1,h.zero_mem⟩

lemma Buffers.Sound.terminated {b : Buffers} (h : b.Sound) : b.Terminated :=
  ⟨h.str.isString,h.work.isString,h.repl.isString⟩

lemma EndsInZero.ne_nil (h : EndsInZero mem) : mem ≠ [] := by
  rintro rfl
  cases h.2

lemma length_cstr_lt (h : (0 : UInt8) ∈ mem) : (cstr mem).length < mem.length := by
  apply lt_of_le_of_ne (cstr_initial mem).length_le
  intro heq
  have hsame := (cstr_initial mem).eq_of_length heq
  apply zero_not_mem_cstr mem
  rw [hsame]
  exact h

lemma readString_of_mem (h : (0 : UInt8) ∈ mem) : readString mem = .ok (cstr mem) :=
  if_pos h

lemma EndsInZero.readString (h : EndsInZero mem) :
    PhpAgent.readString mem = .ok (cstr mem) ∧ (cstr mem).length < nruleBufSize := by
  refine ⟨readString_of_mem h.zero_mem,?_⟩
  rw [← h.1]
  exact length_cstr_lt h.zero_mem

/-- A text that fits is written, with its terminator. -/
theorem EndsInZero.put (h : EndsInZero mem) {pos : ℕ} {text : Bytes}
    (hfits : pos+text.length < nruleBufSize) :
    ∃ mem', PhpAgent.put mem pos (text ++ [0]) = .ok mem' ∧ EndsInZero mem' := by
  have hbound : pos+(text ++ [(0 : UInt8)]).length ≤ mem.length := by
    rw [h.1,List.length_append,List.length_singleton]
    omega
  refine ⟨_,put_of_le hbound,(length_splice hbound).trans h.1,getLast?_splice h.2 ?_⟩
  rw [List.getLast?_append]
  rfl

lemma EndsInZero.put_outside (h : EndsInZero mem) {pos : ℕ} {text : Bytes}
    (hfits : ¬pos+text.length < nruleBufSize) :
    PhpAgent.put mem pos (text ++ [0]) = .error .outside := by
  apply put_of_lt
  rw [h.1,List.length_append,List.length_singleton]
  omega

/-- A slash behind a segment becomes a terminator. -/
theorem EndsInZero.set (h : EndsInZero mem) (i : ℕ) : EndsInZero (mem.set i 0) := by
  refine ⟨(List.length_set ..).trans h.1,?_⟩
  have hlast := h.2
  rw [List.getLast?_eq_getElem?] at hlast ⊢
  rw [List.length_set,List.getElem?_set]
  split_ifs with hi hlt
  · rfl
  · rw [List.getElem?_eq_none (by omega)] at hlast
    cases hlast
  · exact hlast

lemma copyBack_of_sound {b : Buffers} (h : b.Sound) :
    ∃ b', Rule.copyBack b = .ok b' ∧ b'.Sound := by
  obtain ⟨hread,hlen⟩ := h.work.readString
  have hfits : 0+(cstr b.work).length < nruleBufSize := by omega
  obtain ⟨str,hput,hstr⟩ := h.str.put hfits
  refine ⟨{b with str := str},?_,hstr,h.work,h.repl⟩
  rw [Rule.copyBack,hread,ok_bind,hput]
  rfl

namespace Rule
variable {rule : Rule} {m : Match} {subject repl : Bytes} {b : Buffers} {fuel fuel' : ℕ} {changed : Bool}
  {result : RulesResult} {rules : List Rule}

lemma replacedIn_of_not_fills (hrepl : EndsInZero repl)
    (h : ¬rule.Fills m subject) : ∃ text repl', rule.replacedIn m subject repl = .ok (text,repl') ∧
      text.map List.length = rule.room m subject ∧ EndsInZero repl' := by
  by_cases hcaptures : rule.hasCaptures = true
  · have hfills : ¬FillsUp m subject rule.replacement repl.length := by
      rw [hrepl.1]
      exact fun hf => h ⟨hcaptures,hf⟩
    obtain ⟨repl',hrun,hlen,hzero,hlast,hinit⟩ := replaceStringIn_of_not_fills hrepl.ne_nil hfills
    have hsound : EndsInZero repl' := ⟨hlen.trans hrepl.1,hlast hrepl.2⟩
    rw [replacedIn,if_pos hcaptures,nrRuleReplaceString,if_neg hrepl.ne_nil,hrun,ok_bind,room,
      if_pos hcaptures]
    rw [hrepl.1] at hinit ⊢
    by_cases hall : (expansion m subject (pieces m none (cstr rule.replacement))).length < nruleBufSize
    · -- the expansion is what is read back
      obtain ⟨tail,htail⟩ := hinit hall
      have htext : cstr repl' = expansion m subject (pieces m none (cstr rule.replacement)) := by
        rw [← htail,List.take_zero,List.nil_append,List.append_assoc]
        apply cstr_append_zero
        intro hmem
        obtain ⟨p,hp,hmem⟩ := List.mem_flatMap.mp hmem
        apply zero_notMem_text (p := p) _ hmem
        rintro ch rfl
        exact literal_ne_zero hp
      refine ⟨some (cstr repl'),repl',?_,?_,hsound⟩
      · rw [decide_eq_true hall]
        simp only [if_true,readString_of_mem hzero,ok_bind]
        rfl
      · simp only [if_pos hall,htext,Option.map_some]
    · refine ⟨none,repl',?_,?_,hsound⟩
      · rw [decide_eq_false hall]
        rfl
      · simp only [if_neg hall,Option.map_none]
  · refine ⟨some (cstr rule.replacement),repl,?_,?_,hrepl⟩
    · rw [replacedIn,if_neg hcaptures]
      rfl
    · rw [room,if_neg hcaptures,Option.map_some]

/-- When the expansion fills `repl` up, a byte behind it is written or there is no terminator in it. -/
theorem replacedIn_of_fills (hrepl : EndsInZero repl)
    (h : rule.Fills m subject) : rule.replacedIn m subject repl = .error .outside ∨
      ∃ repl', rule.replacedIn m subject repl = .ok (none,repl') ∧ ¬IsString repl' := by
  obtain ⟨hcaptures,hfills⟩ := h
  rw [← hrepl.1] at hfills
  have hnot := replaceStringIn_of_fills hfills
  rw [replacedIn,if_pos hcaptures,nrRuleReplaceString,if_neg hrepl.ne_nil]
  cases hrun : replaceStringIn m subject none (cstr rule.replacement) repl 0 repl.length with
  | error stop =>
    rw [hrun] at hnot
    cases stop with
    | outside => exact .inl rfl
    | fuel => exact absurd trivial hnot
  | ok r =>
    obtain ⟨ok,repl'⟩ := r
    have hzero : (0 : UInt8) ∉ repl' := by
      rw [hrun] at hnot
      exact hnot
    cases ok with
    | true =>
      refine .inl ?_
      simp only [ok_bind,if_true,readString,if_neg hzero]
      rfl
    | false => exact .inr ⟨repl',rfl,fun hterminated => hzero hterminated.2⟩

/-- A replacement that is not built again is the one in `repl`. -/
def NeedOk (rule : Rule) (need : Bool) (repl : Bytes) : Prop :=
  need = false → rule.hasCaptures = false ∧ cstr repl = cstr rule.replacement

lemma nextReplacement_of_fits {need : Bool} (hrepl : EndsInZero repl)
    (hneed : rule.NeedOk need repl) (hfills : ¬rule.Fills m subject)
    (hroom : ∀ n, rule.room m subject = some n → n < nruleBufSize) :
    ∃ text repl', rule.nextReplacement need m subject repl = .ok (text,repl') ∧
      text.map List.length = rule.room m subject ∧ EndsInZero repl' ∧
      rule.NeedOk (need && (rule.hasAlts || rule.hasCaptures)) repl' := by
  cases need with
  | true =>
    rw [nextReplacement,if_pos rfl]
    by_cases hcaptures : rule.hasCaptures = true
    · obtain ⟨text,repl',hrun,htext,hrepl'⟩ := replacedIn_of_not_fills hrepl hfills
      refine ⟨text,repl',?_,htext,hrepl',?_⟩
      · rw [if_pos hcaptures,hrun]
      · intro hdone
        rw [hcaptures,Bool.or_true] at hdone
        cases hdone
    · have hlen := hroom _ (if_neg hcaptures)
      rw [← Nat.zero_add (cstr rule.replacement).length] at hlen
      obtain ⟨repl',hput,hrepl'⟩ := hrepl.put hlen
      have hcopied : cstr repl' = cstr rule.replacement := by
        have hbound : 0+(cstr rule.replacement ++ [(0 : UInt8)]).length ≤ repl.length := by
          rw [List.length_append,List.length_singleton,hrepl.1]
          omega
        have hsplice := put_of_le hbound
        rw [hput] at hsplice
        cases hsplice
        rw [splice,List.take_zero,List.nil_append,List.append_assoc]
        exact cstr_append_zero (zero_not_mem_cstr _) _
      refine ⟨some (cstr rule.replacement),repl',?_,?_,hrepl',?_⟩
      · rw [if_neg hcaptures,hput,ok_bind,hrepl'.readString.1,ok_bind,hcopied]
        rfl
      · rw [room,if_neg hcaptures,Option.map_some]
      · exact fun _ => ⟨Bool.eq_false_iff.mpr hcaptures,hcopied⟩
  | false =>
    obtain ⟨hcaptures,hcopied⟩ := hneed rfl
    refine ⟨some (cstr repl),repl,?_,?_,hrepl,hneed⟩
    · rw [nextReplacement,if_neg Bool.false_ne_true,hrepl.readString.1]
      rfl
    · rw [room,hcaptures,if_neg Bool.false_ne_true,hcopied,Option.map_some]

/-- When the replacement does not fit `repl`, a byte behind it is written or there is no terminator
in it. -/
theorem nextReplacement_of_not_fits {need : Bool} (hrepl : EndsInZero repl) (hneed : rule.NeedOk need repl)
    (h : rule.Fills m subject ∨ ∃ n, rule.room m subject = some n ∧ ¬n < nruleBufSize) :
    rule.nextReplacement need m subject repl = .error .outside ∨
      ∃ repl', rule.nextReplacement need m subject repl = .ok (none,repl') ∧ ¬IsString repl' := by
  have hbuilt : need = true := by
    cases need with
    | true => rfl
    | false =>
      obtain ⟨hcaptures,hcopied⟩ := hneed rfl
      obtain hfills | ⟨n,hroom,hlen⟩ := h
      · have htrue := hfills.1
        rw [hcaptures] at htrue
        cases htrue
      · rw [room,hcaptures,if_neg Bool.false_ne_true,← hcopied] at hroom
        cases hroom
        exact absurd hrepl.readString.2 hlen
  rw [nextReplacement,if_pos hbuilt]
  obtain hfills | ⟨n,hroom,hlen⟩ := h
  · rw [if_pos hfills.1]
    exact replacedIn_of_fills hrepl hfills
  · have hcaptures : ¬rule.hasCaptures = true := by
      intro hcaptures
      rw [room,if_pos hcaptures] at hroom
      simp only at hroom
      split_ifs at hroom with hfits
      cases hroom
      exact hlen hfits
    rw [room,if_neg hcaptures] at hroom
    cases hroom
    rw [if_neg hcaptures,hrepl.put_outside (by rwa [Nat.zero_add])]
    exact .inl rfl

lemma Round.unique {wp : ℕ} {rest : Bytes} {q q' : ℕ × Bytes} (h : rule.Round (wp,rest) q)
    (h' : rule.Round (wp,rest) q') : q = q' := by
  cases h with
  | step hfind hroom =>
    cases h' with
    | step hfind' hroom' =>
      rw [hfind] at hfind'
      cases hfind'
      rw [hroom] at hroom'
      cases hroom'
      rfl

/-- A round that finds a match and has room for what stands in front of it. -/
theorem applyAllIn_found {wp : ℕ} {rest work : Bytes} (need changed : Bool) (fuel : ℕ)
    (hfind : rule.regex.find rest 0 = some m) (hput : put b.work wp (rest.take m.start ++ [0]) = .ok work) :
    rule.applyAllIn (fuel+1) wp rest need changed b = (do
      let (text,repl) ← rule.nextReplacement need m rest b.repl
      match text with
      | none => return (.unchanged,⟨b.str,work,repl⟩)
      | some text =>
        let work ← put work (wp+(rest.take m.start).length) (text ++ [0])
        rule.applyAllIn fuel (wp+(rest.take m.start).length+text.length) (rest.drop m.stop)
          (need && (rule.hasAlts || rule.hasCaptures)) true ⟨b.str,work,repl⟩) := by
  rw [applyAllIn,hfind]
  simp only
  rw [hput]
  rfl

section Within
variable {post : Buffers → Prop} (hsound : ∀ b, b.Sound → post b) (hpost : ∀ b, post b → b.Terminated)
  {b : Buffers}
include hsound hpost

lemma applyOnceIn_stays_iff (hb : b.Sound) :
    Stays (fun r => post r.2) (rule.applyOnceIn b) ↔ rule.OnceFits (cstr b.str) := by
  obtain ⟨hread,hlen⟩ := hb.str.readString
  generalize cstr b.str = s at hread hlen ⊢
  rw [applyOnceIn,hread,ok_bind,OnceFits]
  cases hfind : rule.regex.find s 0 with
  | none =>
    constructor
    · intro _ m hm
      cases hm
    · intro _
      exact hsound b hb
  | some m =>
    simp only [Option.some.injEq,forall_eq']
    by_cases hignore : rule.ignore = true
    · rw [if_pos hignore]
      constructor
      · intro _ hnot
        rw [hignore] at hnot
        cases hnot
      · intro _
        exact hsound b hb
    · rw [if_neg hignore]
      simp only [Bool.eq_false_iff.mpr hignore,forall_const]
      have hfront : 0+(s.take m.start).length < nruleBufSize := by
        rw [List.length_take]
        omega
      obtain ⟨work,hput,hwork⟩ := hb.work.put hfront
      rw [hput,ok_bind]
      by_cases hfills : rule.Fills m s
      · constructor
        · intro hstays
          obtain hrun | ⟨repl,hrun,hrepl⟩ := replacedIn_of_fills hb.repl hfills
          · rw [hrun] at hstays
            exact hstays.elim
          · rw [hrun] at hstays
            exact absurd (hpost _ hstays).2.2 hrepl
        · intro hfit
          exact absurd hfills hfit.1
      · obtain ⟨text,repl,hrun,htext,hrepl⟩ := replacedIn_of_not_fills hb.repl hfills
        rw [hrun,← htext]
        simp only [ok_bind]
        cases text with
        | none =>
          constructor
          · intro _
            exact ⟨hfills,fun n hn => by cases hn⟩
          · intro _
            exact hsound _ ⟨hb.str,hwork,hrepl⟩
        | some text =>
          simp only [Option.map_some,Option.some.injEq,forall_eq']
          rw [← Nat.min_comm,← List.length_take (l := text)]
          generalize text.take (nruleBufSize-1) = text
          by_cases hmiddle : (s.take m.start).length+text.length < nruleBufSize
          · obtain ⟨work₁,hput₁,hwork₁⟩ := hwork.put hmiddle
            rw [hput₁,ok_bind]
            by_cases hall : (s.take m.start).length+text.length+(s.drop m.stop).length < nruleBufSize
            · obtain ⟨work₂,hput₂,hwork₂⟩ := hwork₁.put hall
              obtain ⟨b',hcopy,hb'⟩ :=
                copyBack_of_sound (b := ⟨b.str,work₂,repl⟩) ⟨hb.str,hwork₂,hrepl⟩
              rw [hput₂,ok_bind,hcopy]
              exact ⟨fun _ => ⟨hfills,hall⟩,fun _ => hsound b' hb'⟩
            · rw [hwork₁.put_outside hall]
              exact ⟨fun hstays => hstays.elim,fun hfit => absurd hfit.2 hall⟩
          · rw [hwork.put_outside hmiddle]
            refine ⟨fun hstays => hstays.elim,fun hfit => absurd hfit.2 ?_⟩
            omega

lemma applySegmentsIn_stays_iff (segs : List Bytes) (segstart : ℕ) {wp : ℕ} (changed : Bool) (hb : b.Sound) :
    Stays (fun r => post r.2) (rule.applySegmentsIn segstart wp changed segs b) ↔
      rule.SegmentsFit wp segs := by
  induction segs generalizing segstart wp changed b with
  | nil =>
    obtain ⟨b',hcopy,hb'⟩ := copyBack_of_sound hb
    rw [applySegmentsIn,hcopy]
    exact ⟨fun _ => trivial,fun _ => hsound b' hb'⟩
  | cons segment segs ih =>
    rw [applySegmentsIn,SegmentsFit]
    have hstr : EndsInZero (if segs = [] then b.str else b.str.set (segstart+segment.length) 0) := by
      split_ifs with hlast
      · exact hb.str
      · exact hb.str.set _
    generalize (if segs = [] then b.str else b.str.set (segstart+segment.length) 0) = str at hstr ⊢
    by_cases hslash : wp+[slash].length < nruleBufSize
    · obtain ⟨work,hput,hwork⟩ := hb.work.put hslash
      have hput' : put b.work wp [slash,0] = .ok work := hput
      rw [hput',ok_bind]
      cases hfind : rule.regex.find segment 0 with
      | none =>
        simp only
        by_cases hfits : wp+1+segment.length < nruleBufSize
        · obtain ⟨work₁,hput₁,hwork₁⟩ := hwork.put hfits
          have hnext : Buffers.Sound ⟨str,work₁,b.repl⟩ := ⟨hstr,hwork₁,hb.repl⟩
          rw [hput₁,ok_bind,ih _ _ hnext]
          exact ⟨fun hrest => ⟨hfits,hrest⟩,fun hfit => hfit.2⟩
        · rw [hwork.put_outside hfits]
          exact ⟨fun hstays => hstays.elim,fun hfit => absurd hfit.1 hfits⟩
      | some m =>
        simp only
        by_cases hfills : rule.Fills m segment
        · constructor
          · intro hstays
            obtain hrun | ⟨repl,hrun,hrepl⟩ := replacedIn_of_fills hb.repl hfills
            · rw [hrun] at hstays
              exact hstays.elim
            · rw [hrun] at hstays
              exact absurd (hpost _ hstays).2.2 hrepl
          · intro hfit
            exact absurd hfills hfit.2.1
        · obtain ⟨text,repl,hrun,htext,hrepl⟩ := replacedIn_of_not_fills hb.repl hfills
          rw [hrun,← htext]
          simp only [ok_bind]
          cases text with
          | none =>
            constructor
            · intro _
              exact ⟨hslash,hfills,fun n hn => by cases hn⟩
            · intro _
              exact hsound _ ⟨hstr,hwork,hrepl⟩
          | some text =>
            simp only [Option.map_some,Option.some.injEq,forall_eq']
            by_cases hfits : wp+1+text.length < nruleBufSize
            · obtain ⟨work₁,hput₁,hwork₁⟩ := hwork.put hfits
              have hnext : Buffers.Sound ⟨str,work₁,repl⟩ := ⟨hstr,hwork₁,hrepl⟩
              rw [hput₁,ok_bind,ih _ _ hnext]
              exact ⟨fun hrest => ⟨hslash,hfills,hfits,hrest⟩,fun hfit => hfit.2.2.2⟩
            · rw [hwork.put_outside hfits]
              exact ⟨fun hstays => hstays.elim,fun hfit => absurd hfit.2.2.1 hfits⟩
    · have hput : put b.work wp [slash,0] = .error .outside := hb.work.put_outside hslash
      rw [hput]
      refine ⟨fun hstays => hstays.elim,fun hfit => ?_⟩
      cases hfind : rule.regex.find segment 0 with
      | none =>
        rw [hfind] at hfit
        exact hslash (lt_of_le_of_lt (Nat.le_add_right _ _) hfit.1)
      | some m =>
        rw [hfind] at hfit
        exact absurd hfit.1 hslash

/-- One round of the loop of `replace_all` leaves the buffers, or it fits them; then it returns or goes
on with the next round. -/
theorem applyAllIn_succ {wp : ℕ} {rest : Bytes} {need : Bool} (changed : Bool)
    (hb : b.Sound) (hneed : rule.NeedOk need b.repl) :
    (¬rule.RoundFits wp rest ∧
      ∀ fuel, ¬Stays (fun r => post r.2) (rule.applyAllIn (fuel+1) wp rest need changed b)) ∨
    (rule.RoundFits wp rest ∧ (∀ q, ¬rule.Round (wp,rest) q) ∧
      ∀ fuel, Stays (fun r => post r.2) (rule.applyAllIn (fuel+1) wp rest need changed b)) ∨
    (rule.RoundFits wp rest ∧ ∃ wp' rest' need' b', rule.Round (wp,rest) (wp',rest') ∧
      b'.Sound ∧ rule.NeedOk need' b'.repl ∧ ∀ fuel,
        rule.applyAllIn (fuel+1) wp rest need changed b =
          rule.applyAllIn fuel wp' rest' need' true b') := by
  cases hfind : rule.regex.find rest 0 with
  | none =>
    have hlast : ∀ q, ¬rule.Round (wp,rest) q := by
      intro q hq
      cases hq with
      | step hfind' _ =>
        rw [hfind] at hfind'
        cases hfind'
    by_cases hfits : wp+rest.length < nruleBufSize
    · refine .inr (.inl ⟨?_,hlast,fun fuel => ?_⟩)
      · rw [RoundFits,hfind]
        exact hfits
      · obtain ⟨work,hput,hwork⟩ := hb.work.put hfits
        have hnext : Buffers.Sound {b with work := work} := ⟨hb.str,hwork,hb.repl⟩
        obtain ⟨b',hcopy,hb'⟩ := copyBack_of_sound hnext
        rw [applyAllIn,hfind]
        simp only
        rw [hput,ok_bind,hcopy]
        exact hsound b' hb'
    · refine .inl ⟨?_,fun fuel => ?_⟩
      · rw [RoundFits,hfind]
        exact hfits
      · rw [applyAllIn,hfind]
        simp only
        rw [hb.work.put_outside hfits]
        exact id
  | some m =>
    by_cases hfront : wp+(rest.take m.start).length < nruleBufSize
    · obtain ⟨work,hput,hwork⟩ := hb.work.put hfront
      have hrun := fun fuel => applyAllIn_found need changed fuel hfind hput
      by_cases hnot : rule.Fills m rest ∨ ∃ n, rule.room m rest = some n ∧ ¬n < nruleBufSize
      · refine .inl ⟨?_,fun fuel hstays => ?_⟩
        · rw [RoundFits,hfind]
          rintro ⟨-,hfills,hroom⟩
          obtain hf | ⟨n,hn,hlen⟩ := hnot
          · exact hfills hf
          · have hall := hroom n hn
            omega
        · rw [hrun] at hstays
          obtain hnext | ⟨repl,hnext,hrepl⟩ := nextReplacement_of_not_fits hb.repl hneed hnot
          · rw [hnext] at hstays
            exact hstays
          · rw [hnext] at hstays
            exact hrepl (hpost _ hstays).2.2
      · obtain ⟨hfills,hroom⟩ := not_or.mp hnot
        have hroom' : ∀ n, rule.room m rest = some n → n < nruleBufSize := by
          intro n hn
          by_contra hlen
          exact hroom ⟨n,hn,hlen⟩
        obtain ⟨text,repl,hnext,htext,hrepl,hneed'⟩ :=
          nextReplacement_of_fits hb.repl hneed hfills hroom'
        cases text with
        | none =>
          refine .inr (.inl ⟨?_,fun q hq => ?_,fun fuel => ?_⟩)
          · rw [RoundFits,hfind]
            refine ⟨hfront,hfills,fun n hn => ?_⟩
            rw [← htext] at hn
            cases hn
          · cases hq with
            | step hfind' hn =>
              rw [hfind] at hfind'
              cases hfind'
              rw [← htext] at hn
              cases hn
          · rw [hrun,hnext]
            exact hsound _ ⟨hb.str,hwork,hrepl⟩
        | some text =>
          by_cases hfits : wp+(rest.take m.start).length+text.length < nruleBufSize
          · obtain ⟨work₁,hput₁,hwork₁⟩ := hwork.put hfits
            refine .inr (.inr ⟨?_,_,_,_,⟨b.str,work₁,repl⟩,.step hfind htext.symm,
              ⟨hb.str,hwork₁,hrepl⟩,hneed',fun fuel => ?_⟩)
            · rw [RoundFits,hfind]
              refine ⟨hfront,hfills,fun n hn => ?_⟩
              rw [← htext] at hn
              cases hn
              exact hfits
            · rw [hrun,hnext]
              simp only [ok_bind]
              rw [hput₁,ok_bind]
          · refine .inl ⟨?_,fun fuel => ?_⟩
            · rw [RoundFits,hfind]
              rintro ⟨-,-,hroom⟩
              exact hfits (hroom _ htext.symm)
            · rw [hrun,hnext]
              simp only [ok_bind]
              rw [hwork.put_outside hfits]
              exact id
    · refine .inl ⟨?_,fun fuel => ?_⟩
      · rw [RoundFits,hfind]
        exact fun hfit => hfront hfit.1
      · rw [applyAllIn,hfind]
        simp only
        rw [hb.work.put_outside hfront]
        exact id

lemma applyAllIn_stays_iff {wp : ℕ} {rest : Bytes} {need : Bool} (changed : Bool)
    (hb : b.Sound) (hneed : rule.NeedOk need b.repl) :
    (∀ fuel, Stays (fun r => post r.2) (rule.applyAllIn fuel wp rest need changed b)) ↔
      rule.AllFit wp rest := by
  constructor
  · intro hstays wp' rest' hreach
    generalize hq : (wp,rest) = q at hreach
    induction hreach using Relation.ReflTransGen.head_induction_on
      generalizing wp rest need changed b with
    | refl =>
      cases hq
      obtain ⟨-,hnot⟩ | ⟨hfits,-,-⟩ | ⟨hfits,-⟩ := applyAllIn_succ hsound hpost changed hb hneed
      · exact absurd (hstays 1) (hnot 0)
      · exact hfits
      · exact hfits
    | head hround _ ih =>
      subst hq
      obtain ⟨-,hnot⟩ | ⟨-,hlast,-⟩ | ⟨-,wp₁,rest₁,need₁,b₁,hround₁,hb₁,hneed₁,hnext⟩ :=
        applyAllIn_succ hsound hpost changed hb hneed
      · exact absurd (hstays 1) (hnot 0)
      · exact absurd hround (hlast _)
      · refine ih true hb₁ hneed₁ (fun fuel => ?_) (hround₁.unique hround)
        rw [← hnext]
        exact hstays (fuel+1)
  · intro hfit fuel
    induction fuel generalizing wp rest need changed b with
    | zero => trivial
    | succ fuel ih =>
      obtain ⟨hnot,-⟩ | ⟨-,-,hstays⟩ | ⟨-,wp',rest',need',b',hround,hb',hneed',hnext⟩ :=
        @applyAllIn_succ rule post hsound hpost b wp rest need changed hb hneed
      · exact absurd (hfit wp rest .refl) hnot
      · exact hstays fuel
      · rw [hnext]
        exact ih true hb' hneed' fun wp'' rest'' hreach => hfit wp'' rest'' (.head hround hreach)

/-- One rule stays in the buffers, whatever the fuel, exactly when what it makes of the string fits. -/
theorem applyIn_stays_iff (hb : b.Sound) :
    (∀ fuel, Stays (fun r => post r.2) (rule.applyIn fuel b)) ↔ rule.Fits b.str := by
  have hzero : 0+([] : Bytes).length < nruleBufSize := by decide
  obtain ⟨work,hput,hwork⟩ := hb.work.put hzero
  have hput' : put b.work 0 [0] = .ok work := hput
  have hb' : Buffers.Sound {b with work := work} := ⟨hb.str,hwork,hb.repl⟩
  simp only [applyIn,Fits,hput',ok_bind]
  split_ifs with honce heach
  · have hiff := @applyOnceIn_stays_iff rule post hsound hpost _ hb'
    exact ⟨fun h => hiff.mp (h 0),fun h _ => hiff.mpr h⟩
  · have hdrop : (0 : UInt8) ∈ b.str.drop 1 := by
      apply List.mem_of_getLast?
      rw [List.getLast?_drop,if_neg]
      · exact hb.str.2
      · rw [hb.str.1]
        decide
    rw [readString_of_mem hdrop,ok_bind]
    have hiff := @applySegmentsIn_stays_iff rule post hsound hpost _ (segments b.str) 1 0 false hb'
    exact ⟨fun h => hiff.mp (h 0),fun h _ => hiff.mpr h⟩
  · rw [hb.str.readString.1]
    simp only [ok_bind]
    exact applyAllIn_stays_iff hsound hpost false hb' fun hneed => by cases hneed

end Within

/-! ### The rules one after another -/

lemma applyAllIn_mono (hle : fuel ≤ fuel') {wp : ℕ} {rest : Bytes} {need changed : Bool}
    (h : rule.applyAllIn fuel wp rest need changed b ≠ .error .fuel) :
    rule.applyAllIn fuel' wp rest need changed b = rule.applyAllIn fuel wp rest need changed b := by
  induction fuel generalizing fuel' wp rest need changed b with
  | zero => exact absurd rfl h
  | succ fuel ih =>
    obtain ⟨more,rfl⟩ := Nat.exists_eq_add_of_lt hle
    have hle' : fuel ≤ fuel+more := Nat.le_add_right _ _
    rw [applyAllIn] at h ⊢
    rw [applyAllIn]
    cases hfind : rule.regex.find rest 0 with
    | none => rfl
    | some m =>
      simp only [hfind] at h ⊢
      cases hput : put b.work wp (rest.take m.start ++ [0]) with
      | error stop => rfl
      | ok work =>
        simp only [hput,ok_bind] at h ⊢
        cases hnext : rule.nextReplacement need m rest b.repl with
        | error stop => rfl
        | ok r =>
          obtain ⟨text,repl⟩ := r
          cases text with
          | none => rfl
          | some text =>
            simp only [hnext,ok_bind] at h ⊢
            cases hput' : put work (wp+(rest.take m.start).length) (text ++ [0]) with
            | error stop => rfl
            | ok work =>
              simp only [hput',ok_bind] at h ⊢
              exact ih hle' h

lemma applyIn_mono (hle : fuel ≤ fuel')
    (h : rule.applyIn fuel b ≠ .error .fuel) : rule.applyIn fuel' b = rule.applyIn fuel b := by
  unfold applyIn at h ⊢
  cases hput : put b.work 0 [0] with
  | error stop => rfl
  | ok work =>
    simp only [hput,ok_bind] at h ⊢
    split_ifs at h ⊢ with honce heach
    · rfl
    · rfl
    · cases hread : readString b.str with
      | error stop => rfl
      | ok s =>
        simp only [hread,ok_bind] at h ⊢
        exact applyAllIn_mono hle h

lemma applyFromIn_mono (hle : fuel ≤ fuel') (rules : List Rule)
    (h : applyFromIn fuel rules changed b ≠ .error .fuel) :
    applyFromIn fuel' rules changed b = applyFromIn fuel rules changed b := by
  induction rules generalizing changed b with
  | nil => rfl
  | cons rule rules ih =>
    unfold applyFromIn at h ⊢
    cases happly : rule.applyIn fuel b with
    | error stop =>
      have hne : rule.applyIn fuel b ≠ .error .fuel := by
        rw [happly] at h ⊢
        intro heq
        rw [heq] at h
        exact h rfl
      rw [applyIn_mono hle hne,happly]
      rfl
    | ok r =>
      have hne : rule.applyIn fuel b ≠ .error .fuel := by
        rw [happly]
        exact nofun
      rw [applyIn_mono hle hne]
      simp only [happly,ok_bind] at h ⊢
      obtain ⟨result,b'⟩ := r
      cases result with
      | ignore => rfl
      | changed =>
        simp only at h ⊢
        split_ifs at h ⊢
        · rfl
        · exact ih h
      | unchanged => exact ih h

/-- The rules that are reached, with the strings they find; at the end there is none. -/
inductive Reached : List Rule → Buffers → List Rule → Buffers → Prop
  | refl {rules : List Rule} {b : Buffers} : Reached rules b rules b
  | step {rule : Rule} {rules rules' : List Rule} {b b₁ b' : Buffers} {fuel : ℕ} {result : RulesResult}
      (happly : rule.applyIn fuel b = .ok (result,b₁)) (hgoes : rule.GoesOn result)
      (hrest : Reached rules b₁ rules' b') : Reached (rule :: rules) b rules' b'

/-- The rules stay in the buffers: at every return, and at each rule that is reached. -/
def Within (rules : List Rule) (changed : Bool) (b : Buffers) : Prop :=
  (∀ fuel, Stays (fun r => r.2.2.Terminated) (applyFromIn fuel rules changed b)) ∧
    ∀ rest b', Reached rules b rest b' → b'.Terminated

lemma sound_of_fits {b b' : Buffers} (hb : b.Sound) (h : rule.Fits b.str) {fuel : ℕ}
    (happly : rule.applyIn fuel b = .ok (result,b')) : b'.Sound := by
  have hstays := (@applyIn_stays_iff rule Buffers.Sound (fun _ => id) (fun _ h => h.terminated) b hb).mpr
    h fuel
  rw [happly] at hstays
  exact hstays

lemma applyFromIn_of_goesOn (rules : List Rule) (changed : Bool) (b : Buffers) {b' : Buffers}
    (hgoes : rule.GoesOn result) :
    ∃ changed', ∀ fuel, rule.applyIn fuel b = .ok (result,b') →
      applyFromIn fuel (rule :: rules) changed b = applyFromIn fuel rules changed' b' := by
  obtain rfl | ⟨rfl,hterminate⟩ := hgoes
  · refine ⟨changed,fun fuel happly => ?_⟩
    rw [applyFromIn,happly]
    rfl
  · refine ⟨true,fun fuel happly => ?_⟩
    rw [applyFromIn,happly]
    simp only [ok_bind,hterminate,Bool.false_eq_true,if_false]

/-- The last rule that is applied. -/
theorem applyFromIn_stays_of_last (rules : List Rule) (changed : Bool) {b b' : Buffers} {fuel : ℕ}
    (happly : rule.applyIn fuel b = .ok (result,b'))
    (hlast : ¬rule.GoesOn result) :
    Stays (fun r => r.2.2.Terminated) (applyFromIn fuel (rule :: rules) changed b) ↔ b'.Terminated := by
  rw [applyFromIn,happly]
  simp only [ok_bind]
  cases result with
  | ignore => rfl
  | unchanged => exact absurd (.inl rfl) hlast
  | changed =>
    have hterminate : rule.terminate = true := by
      by_contra hnot
      exact hlast (.inr ⟨rfl,Bool.eq_false_iff.mpr hnot⟩)
    simp only [hterminate,if_true]
    by_cases hzero : (0 : UInt8) ∈ b'.str
    · rw [readString_of_mem hzero]
      rfl
    · rw [readString,if_neg hzero]
      exact ⟨False.elim,fun h => absurd h.1.2 hzero⟩

/-- The first of some rules that stay in the buffers. -/
theorem Within.fits (hb : b.Sound) (h : Within (rule :: rules) changed b) : rule.Fits b.str := by
  apply (@applyIn_stays_iff rule Buffers.Terminated (fun _ h => h.terminated) (fun _ => id) b hb).mp
  intro fuel
  have hstays := h.1 fuel
  cases happly : rule.applyIn fuel b with
  | error stop =>
    rw [applyFromIn,happly] at hstays
    cases stop with
    | outside => exact hstays
    | fuel => trivial
  | ok r =>
    obtain ⟨result,b'⟩ := r
    by_cases hgoes : rule.GoesOn result
    · exact h.2 rules b' (.step happly hgoes .refl)
    · exact (applyFromIn_stays_of_last rules changed happly hgoes).mp hstays

lemma Within.next {b b' : Buffers} (h : Within (rule :: rules) changed b) {fuel : ℕ}
    (happly : rule.applyIn fuel b = .ok (result,b')) (hgoes : rule.GoesOn result) :
    ∃ changed', Within rules changed' b' := by
  obtain ⟨changed',hnext⟩ := @applyFromIn_of_goesOn rule result rules changed b b' hgoes
  refine ⟨changed',fun fuel' => ?_,fun rest b'' hreach => h.2 rest b'' (.step happly hgoes hreach)⟩
  -- with fuel enough for both the rule gives the same result
  have hne : rule.applyIn fuel b ≠ .error .fuel := by
    rw [happly]
    exact nofun
  have hsame := applyIn_mono (Nat.le_max_left fuel fuel') hne
  rw [happly] at hsame
  have hstays := h.1 (max fuel fuel')
  rw [hnext _ hsame] at hstays
  by_cases hfuel : applyFromIn fuel' rules changed' b' = .error .fuel
  · rw [hfuel]
    trivial
  · rw [applyFromIn_mono (Nat.le_max_right fuel fuel') rules hfuel] at hstays
    exact hstays

/-- A run of rules stays in the buffers exactly when what each rule that is reached makes of the string
it finds fits. -/
theorem within_iff (hb : b.Sound) : Within rules changed b ↔
      ∀ rule rest b', Reached rules b (rule :: rest) b' → rule.Fits b'.str := by
  induction rules generalizing changed b with
  | nil =>
    constructor
    · intro _ rule rest b' hreach
      cases hreach
    · intro _
      constructor
      · intro fuel
        cases changed with
        | false => exact hb.terminated
        | true =>
          rw [applyFromIn,if_pos rfl,hb.str.readString.1]
          exact hb.terminated
      · intro rest b' hreach
        cases hreach
        exact hb.terminated
  | cons first rules ih =>
    constructor
    · intro h rule rest b' hreach
      have hfits := h.fits hb
      cases hreach with
      | refl => exact hfits
      | step happly hgoes hrest =>
        obtain ⟨changed',hnext⟩ := h.next happly hgoes
        exact (ih (sound_of_fits hb hfits happly)).mp hnext rule rest b' hrest
    · intro h
      have hfits := h first rules b .refl
      have hrest : ∀ {fuel result b'}, first.applyIn fuel b = .ok (result,b') →
          first.GoesOn result → ∀ changed', Within rules changed' b' := by
        intro fuel result b' happly hgoes changed'
        exact (ih (sound_of_fits hb hfits happly)).mpr fun rule rest b'' hreach =>
          h rule rest b'' (.step happly hgoes hreach)
      constructor
      · intro fuel
        have hstays := (@applyIn_stays_iff first Buffers.Terminated (fun _ h => h.terminated)
          (fun _ => id) b hb).mpr hfits fuel
        cases happly : first.applyIn fuel b with
        | error stop =>
          rw [happly] at hstays
          rw [applyFromIn,happly]
          cases stop with
          | outside => exact hstays
          | fuel => trivial
        | ok r =>
          obtain ⟨result,b'⟩ := r
          by_cases hgoes : first.GoesOn result
          · obtain ⟨changed',hnext⟩ := @applyFromIn_of_goesOn first result rules changed b b' hgoes
            rw [hnext fuel happly]
            exact (hrest happly hgoes changed').1 fuel
          · exact (applyFromIn_stays_of_last rules changed happly hgoes).mpr
              (sound_of_fits hb hfits happly).terminated
      · intro rest b' hreach
        cases hreach with
        | refl => exact hb.terminated
        | step happly hgoes hreach => exact (hrest happly hgoes true).2 rest b' hreach

lemma sound_initial (name : Bytes) : (initialBuffers name).Sound := by
  have hzeros : EndsInZero (List.replicate nruleBufSize 0) := by
    refine ⟨List.length_replicate,?_⟩
    rw [List.getLast?_replicate]
    rfl
  have hcut : ((cstr name).take (nruleBufSize-1)).length < nruleBufSize := by
    rw [List.length_take]
    exact lt_of_le_of_lt (Nat.min_le_left _ _) (by decide)
  refine ⟨⟨?_,?_⟩,hzeros,hzeros⟩
  · rw [initialBuffers,initial,List.length_append,List.length_replicate]
    omega
  · rw [initialBuffers,initial,List.getLast?_append,List.getLast?_replicate,if_neg (by omega)]
    rfl

/-- `nr_rule_replace_string` stays in `dest` exactly when no literal fills it up, and `nr_rules_apply`
stays in its strings exactly when what each rule makes of the name fits. -/
theorem applyRules_within_iff (m : Match) (subject repl dest : Bytes) (rules : List Rule)
    (name : Bytes) :
    (Stays (fun r => r.2.length = dest.length ∧ (dest ≠ [] → (0 : UInt8) ∈ r.2))
      (nrRuleReplaceString m subject repl dest) ↔ ¬FillsUp m subject repl dest.length) ∧
    (((∀ fuel, Stays (fun r => r.2.2.Terminated) (applyRulesIn fuel rules name)) ∧
        ∀ rest b, Reached rules (initialBuffers name) rest b → b.Terminated) ↔
      ∀ rule rest b, Reached rules (initialBuffers name) (rule :: rest) b → rule.Fits b.str) :=
  ⟨nrRuleReplaceString_stays_iff m subject repl dest,within_iff (sound_initial name)⟩

/-- A reply that asks for one match of `x+` to be replaced by a text. -/
def replaceOnce (text : Bytes) : NrObj :=
  .hash [(ascii "match_expression",.string (ascii "x+")),(ascii "replacement",.string text)]

def replacing (text : Bytes) : Rule :=
  ⟨false,false,false,false,false,false,defaultOrder,ascii "x+",text,xPlus⟩

/-- A text that fills a string up to its terminator. -/
def longText : Bytes := List.replicate (nruleBufSize-1) 0x61

lemma firstReference_replicate (n : ℕ) : firstReference (List.replicate n 0x61) = false := by
  induction n with
  | zero => rfl
  | succ n ih => exact ih

lemma process_replaceOnce {text : Bytes} (h : firstReference text = false) :
    process compileX (replaceOnce text) = some (replacing text) := by
  have hrun : process compileX (replaceOnce text) =
      some {replacing text with hasCaptures := (some text).any firstReference} := rfl
  rw [hrun,Option.any_some,h]
  rfl

/-- A replacement of 2047 bytes behind a slash leaves the work string, and one byte fills up a `dest` of
one byte. -/
theorem applyRules_leaves_buffers : process compileX (replaceOnce longText) = some (replacing longText) ∧
    ¬((∀ fuel, Stays (fun r => r.2.2.Terminated)
        (applyRulesIn fuel [replacing longText] (ascii "/x"))) ∧
      ∀ rest b, Reached [replacing longText] (initialBuffers (ascii "/x")) rest b → b.Terminated) ∧
    ¬Stays (fun r => r.2.length = 1 ∧ (0 : UInt8) ∈ r.2)
      (nrRuleReplaceString ⟨0,0,[]⟩ [] (ascii "a") [0]) := by
  refine ⟨process_replaceOnce (firstReference_replicate _),?_,id⟩
  intro h
  have hfits := Within.fits (sound_initial _) h
  have hstr : cstr (initialBuffers (ascii "/x")).str = ascii "/x" :=
    cstr_append_zero (by decide) (List.replicate 2045 0)
  have honce : (replacing longText).OnceFits (ascii "/x") := by
    rw [← hstr]
    exact hfits
  have hroom : (replacing longText).room ⟨1,2,[]⟩ (ascii "/x") = some (nruleBufSize-1) := by
    have hcstr : cstr longText = longText := by
      apply List.takeWhile_eq_self_iff.mpr
      intro c hc
      rw [List.eq_of_mem_replicate hc]
      rfl
    have hrepl : (replacing longText).room ⟨1,2,[]⟩ (ascii "/x") = some (cstr longText).length := rfl
    rw [hrepl,hcstr,longText,List.length_replicate]
  have hlen := (honce ⟨1,2,[]⟩ (by decide) rfl).2 _ hroom
  revert hlen
  decide

end Rule
end PhpAgent

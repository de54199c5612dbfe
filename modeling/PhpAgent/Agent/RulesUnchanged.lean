import PhpAgent.Agent.RulesTermination

/-! What a rule leaves of the string when it reports that it did not change it. -/
namespace PhpAgent

namespace Rule
variable {rule : Rule} {segs : List Bytes} {str str' : Bytes}

/-- The segments of a string, behind its first byte. -/
def segments (str : Bytes) : List Bytes := (cstr (str.drop 1)).splitOn slash

/-- Some segment matches. -/
def MatchesSegment (rule : Rule) (str : Bytes) : Prop :=
  ∃ segment ∈ segments str, (rule.regex.find segment 0).isSome

/-- The string is as it was when the rule has not changed it: it starts with a slash if no segment
matches, and has no other one if the replacement of a match cannot be built. -/
def Restores (rule : Rule) (str : Bytes) : Prop :=
  rule.ignore = false → rule.eachSegment = true →
    (rule.MatchesSegment str → slash ∉ (cstr str).tail) ∧
    (¬ rule.MatchesSegment str → (cstr str).head? = some slash)

lemma applySegments_no_match (str : Bytes) (segstart : ℕ) (work : Bytes) (changed : Bool)
    (h : ∀ segment ∈ segs, rule.regex.find segment 0 = none) :
    ∃ str', rule.applySegments str segstart work changed segs =
      (if changed then .changed else .unchanged,strcpy str' (work ++ segs.flatMap (slash :: ·))) := by
  induction segs generalizing str segstart work with
  | nil => exact ⟨str,by simp [applySegments]⟩
  | cons segment segs ih =>
    obtain ⟨str',hrest⟩ := ih (if segs = [] then str else str.set (segstart+segment.length) 0)
      (segstart+segment.length+1) (work ++ slash :: segment)
      fun s hs => h s (List.mem_cons_of_mem _ hs)
    refine ⟨str',?_⟩
    simp only [applySegments,h segment List.mem_cons_self,hrest,List.flatMap_cons,List.append_assoc,
      List.cons_append]

/-- After a match, `UNCHANGED` comes from the return in the middle of the loop, which has written
to the string from `segstart` on only. -/
theorem applySegments_early {segstart : ℕ} {work : Bytes} {changed : Bool}
    (h : rule.applySegments str segstart work changed segs = (.unchanged,str'))
    (hmatch : changed = true ∨ ∃ segment ∈ segs, (rule.regex.find segment 0).isSome) :
    str'.take segstart = str.take segstart := by
  induction segs generalizing str segstart work changed with
  | nil =>
    obtain rfl : changed = true := by simpa using hmatch
    simp [applySegments] at h
  | cons segment segs ih =>
    have hset : ∀ {str'' : Bytes},
        str''.take (segstart+segment.length+1) =
          (if segs = [] then str else str.set (segstart+segment.length) 0).take
            (segstart+segment.length+1) → str''.take segstart = str.take segstart := by
      intro str'' heq
      have hle : segstart ≤ segstart+segment.length+1 := by omega
      have htake := congrArg (List.take segstart) heq
      rw [List.take_take,List.take_take,Nat.min_eq_left hle] at htake
      rw [htake]
      split_ifs
      · rfl
      · exact List.take_set_of_le (Nat.le_add_right _ _)
    unfold applySegments at h
    cases hfind : rule.regex.find segment 0 with
    | none =>
      simp only [hfind] at h
      refine hset (ih h ?_)
      rcases hmatch with hc | ⟨s,hs,hsome⟩
      · exact .inl hc
      · rcases List.mem_cons.mp hs with rfl | hs
        · rw [hfind] at hsome
          cases hsome
        · exact .inr ⟨s,hs,hsome⟩
    | some m =>
      simp only [hfind] at h
      cases hrepl : rule.replaced m segment with
      | none =>
        simp only [hrepl,Prod.mk.injEq,true_and] at h
        exact hset (by rw [← h])
      | some repl =>
        simp only [hrepl] at h
        exact hset (ih h (.inl rfl))

lemma flatMap_slash (h : segs ≠ []) : segs.flatMap (slash :: ·) = slash :: [slash].intercalate segs := by
  induction segs with
  | nil => exact absurd rfl h
  | cons segment segs ih =>
    cases segs with
    | nil => simp [List.intercalate]
    | cons s segs =>
      rw [List.flatMap_cons,ih (by simp)]
      simp [List.intercalate]

/-- Without a match the segments are put together again, behind a slash. -/
theorem applySegments_unmatched (h : rule.applySegments str 1 [] false (segments str) = (.unchanged,str'))
    (hmatch : ¬ rule.MatchesSegment str) : cstr str' = slash :: cstr (str.drop 1) := by
  have hnone : ∀ segment ∈ segments str, rule.regex.find segment 0 = none := by
    intro segment hsegment
    by_contra hsome
    exact hmatch ⟨segment,hsegment,Option.isSome_iff_ne_none.mpr hsome⟩
  obtain ⟨str'',heq⟩ := applySegments_no_match str 1 [] false hnone
  rw [heq,List.nil_append,segments,flatMap_slash (List.splitOn_ne_nil _ _),List.intercalate_splitOn] at h
  cases h
  apply cstr_strcpy
  have hne : (0 : UInt8) ≠ slash := by decide
  simp [hne,zero_not_mem_cstr]

/-- The first round, when a slash follows. -/
theorem applySegments_first {str str' segment : Bytes} (hsegs : segs ≠ [])
    (h : rule.applySegments str 1 [] false (segment :: segs) = (.unchanged,str'))
    (hmatch : ∃ s ∈ segment :: segs, (rule.regex.find s 0).isSome) :
    str'.take (1+segment.length+1) = (str.set (1+segment.length) 0).take (1+segment.length+1) := by
  unfold applySegments at h
  simp only [hsegs,if_false] at h
  cases hfind : rule.regex.find segment 0 with
  | none =>
    simp only [hfind] at h
    refine applySegments_early h (.inr ?_)
    obtain ⟨s,hs,hsome⟩ := hmatch
    rcases List.mem_cons.mp hs with rfl | hs
    · rw [hfind] at hsome
      cases hsome
    · exact ⟨s,hs,hsome⟩
  | some m =>
    simp only [hfind] at h
    cases hrepl : rule.replaced m segment with
    | none =>
      simp only [hrepl,Prod.mk.injEq,true_and] at h
      rw [← h]
    | some repl =>
      simp only [hrepl] at h
      exact applySegments_early h (.inl rfl)

/-- With a match, the first slash behind the first byte has been overwritten. -/
theorem applySegments_matched (h : rule.applySegments str 1 [] false (segments str) = (.unchanged,str'))
    (hmatch : rule.MatchesSegment str) :
    cstr str' = cstr str ↔ slash ∉ (cstr str).tail := by
  have htake := applySegments_early h (.inr hmatch)
  cases str with
  | nil =>
    have hnil : str' = [] := by
      cases str' with
      | nil => rfl
      | cons d str' => simp at htake
    simp [hnil,cstr]
  | cons c mem =>
    obtain ⟨mem',rfl⟩ : ∃ mem', str' = c :: mem' := by
      cases str' with
      | nil => simp at htake
      | cons d str' =>
        obtain rfl : d = c := by simpa using htake
        exact ⟨str',rfl⟩
    by_cases hc : c = 0
    · simp [hc,cstr]
    · rw [cstr_cons hc,cstr_cons hc,List.tail_cons]
      by_cases hslash : slash ∈ cstr mem
      · simp only [hslash,not_true_eq_false,iff_false]
        obtain ⟨seg,behind,hsplit,hseg⟩ := List.eq_append_cons_of_mem hslash
        have hsegs : segments (c :: mem) = seg :: behind.splitOn slash := by
          unfold segments
          rw [List.drop_one,List.tail_cons,hsplit,List.splitOn_append_cons_self_of_not_mem hseg]
        obtain ⟨rest,hmem⟩ := cstr_initial mem
        rw [hsegs] at h
        unfold MatchesSegment at hmatch
        rw [hsegs] at hmatch
        have hfirst := applySegments_first (List.splitOn_ne_nil _ _) h hmatch
        have hset : ((c :: mem).set (1+seg.length) 0).take (1+seg.length+1) = c :: (seg ++ [0]) := by
          rw [← hmem,hsplit,Nat.add_comm 1]
          simp [List.take_length_add_append]
        have hzero : (0 : UInt8) ∉ seg := by
          intro hmem0
          exact zero_not_mem_cstr mem (by rw [hsplit]; exact List.mem_append_left _ hmem0)
        have hcstr : cstr mem' = seg := by
          rw [hset,Nat.add_comm 1,List.take_succ_cons] at hfirst
          have hpre : mem'.take (seg.length+1) = seg ++ [0] := by simpa using hfirst
          rw [← List.take_append_drop (seg.length+1) mem',hpre,List.append_assoc]
          exact cstr_append_zero hzero _
        rw [hcstr,hsplit]
        simp
      · simp only [hslash,not_false_eq_true,iff_true]
        have hsegs : segments (c :: mem) = [cstr mem] := List.splitOn_eq_singleton hslash
        obtain ⟨segment,hsegment,hsome⟩ := hmatch
        rw [hsegs,List.mem_singleton] at hsegment
        subst hsegment
        obtain ⟨m,hm⟩ := Option.isSome_iff_exists.mp hsome
        rw [hsegs] at h
        simp only [applySegments,hm,if_true] at h
        cases hrepl : rule.replaced m (cstr mem) with
        | none =>
          simp only [hrepl,Prod.mk.injEq,true_and,List.cons.injEq] at h
          rw [h]
        | some repl => simp [hrepl] at h

/-- A loop over all matches that reports no change has written the same string, or nothing. -/
theorem applyAll_unchanged {fuel : ℕ} {rest work repl : Bytes} {need changed : Bool}
    (h : rule.applyAll str fuel rest work repl need changed = some (.unchanged,str'))
    (hrest : changed = false → work ++ rest = cstr str) : cstr str' = cstr str := by
  induction fuel generalizing rest work repl need changed with
  | zero => cases h
  | succ fuel ih =>
    unfold applyAll at h
    cases hfind : rule.regex.find rest 0 with
    | none =>
      simp only [hfind,Option.some.injEq,Prod.mk.injEq] at h
      cases changed with
      | true => cases h.1
      | false =>
        rw [← h.2,hrest rfl]
        exact cstr_strcpy (zero_not_mem_cstr str) str
    | some m =>
      simp only [hfind] at h
      cases htext : (if need then rule.replaced m rest else some repl) with
      | none =>
        simp only [htext,Option.some.injEq,Prod.mk.injEq,true_and] at h
        rw [h]
      | some text =>
        simp only [htext] at h
        exact ih h fun hfalse => by cases hfalse

lemma applyOnce_unchanged (h : rule.applyOnce str = (.unchanged,str')) : str' = str := by
  unfold applyOnce at h
  cases hfind : rule.regex.find (cstr str) 0 with
  | none =>
    simp only [hfind,Prod.mk.injEq,true_and] at h
    exact h.symm
  | some m =>
    simp only [hfind] at h
    by_cases hignore : rule.ignore = true
    · simp [hignore] at h
    · rw [if_neg hignore] at h
      cases hrepl : rule.replaced m (cstr str) with
      | none =>
        simp only [hrepl,Prod.mk.injEq,true_and] at h
        exact h.symm
      | some repl => simp [hrepl] at h

/-- A rule that reports no change hands on the string it was given exactly under this condition. -/
theorem apply_unchanged_iff {fuel : ℕ} {str str' : Bytes}
    (h : rule.apply fuel str = some (.unchanged,str')) :
    cstr str' = cstr str ↔ rule.Restores str := by
  unfold apply at h
  split_ifs at h with honce heach
  · have hsame := applyOnce_unchanged (Option.some.inj h)
    simp only [hsame,true_iff]
    intro hignore heach
    rcases honce with honce | honce
    · rw [honce] at hignore
      cases hignore
    · rw [honce.1] at heach
      cases heach
  · rw [not_or] at honce
    have hignore : rule.ignore = false := by simpa using honce.1
    have hseg := Option.some.inj h
    unfold Restores
    simp only [hignore,heach,forall_const]
    by_cases hmatch : rule.MatchesSegment str
    · rw [applySegments_matched hseg hmatch]
      simp [hmatch]
    · rw [applySegments_unmatched hseg hmatch]
      simp only [hmatch,not_false_eq_true,forall_const,false_imp_iff,true_and]
      cases str with
      | nil => simp [cstr]
      | cons c mem =>
        by_cases hc : c = 0
        · simp [hc,cstr]
        · rw [cstr_cons hc]
          simp [eq_comm]
  · have hsame := applyAll_unchanged h (fun _ => List.nil_append _)
    simp only [hsame,true_iff]
    intro _ htrue
    exact absurd htrue heach

/-- A reply for a rule on each segment, with the whole match `n` times in place of the match. -/
def repeatSegment (n : ℕ) : NrObj :=
  .hash [(ascii "match_expression",.string (ascii "x+")),
    (ascii "replacement",.string ((List.replicate n (ascii "\\0")).flatten)),
    (ascii "each_segment",.boolean true)]

/-- The rule of that reply. -/
def repeating (n : ℕ) : Rule :=
  ⟨true,false,false,false,false,true,defaultOrder,ascii "x+",
    (List.replicate n (ascii "\\0")).flatten,xPlus⟩

theorem apply_unchanged_repeating :
    ∃ str', (repeating 2).apply 0 (initial (ascii "/ab//c")) = some (.unchanged,str') ∧
      (cstr str' = cstr (initial (ascii "/ab//c")) ↔ (repeating 2).Restores (initial (ascii "/ab//c"))) := by
  have hresult : ((repeating 2).applySegments (initial (ascii "/ab//c")) 1 [] false
      (segments (initial (ascii "/ab//c")))).1 = .unchanged := by decide
  have happly : (repeating 2).apply 0 (initial (ascii "/ab//c")) = some (.unchanged,
      ((repeating 2).applySegments (initial (ascii "/ab//c")) 1 [] false
        (segments (initial (ascii "/ab//c")))).2) := by
    rw [← hresult]
    rfl
  exact ⟨_,happly,apply_unchanged_iff happly⟩

/-- The path of a segment of 64 bytes and another one. -/
def longSegment : Bytes := slash :: List.replicate 64 0x78 ++ ascii "/b"

/-- The replacement of the first segment is too long, and the string has lost the second one. -/
theorem repeating_truncates : process compileX (repeatSegment 32) = some (repeating 32) ∧
    ((repeating 32).apply 0 (initial longSegment)).map (fun r => (r.1,cstr r.2)) =
      some (.unchanged,slash :: List.replicate 64 0x78) ∧
    cstr (initial longSegment) = longSegment := by
  refine ⟨?_,by decide,by decide⟩
  rfl

end Rule
end PhpAgent

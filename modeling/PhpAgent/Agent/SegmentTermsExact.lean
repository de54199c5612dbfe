import Mathlib.Data.List.DropRight
import PhpAgent.Agent.SegmentTerms

/-! When segment terms keep exactly the segments that are terms. The expression of a rule is bound to
the start of a segment, but not to its end. -/
namespace PhpAgent
namespace SegmentTerms

open Json (code)
open Collapse (texts collapse Agree Alone)

/-! ### Segments -/

lemma slash_not_mem_splitOn {b s : Bytes} (hs : s ∈ b.splitOn slash) : slash ∉ s := by
  induction b generalizing s with
  | nil =>
    rw [List.splitOn_nil] at hs
    rw [List.mem_singleton.mp hs]
    exact List.not_mem_nil
  | cons c b ih =>
    rw [List.splitOn_cons_eq_if_modifyHead] at hs
    split_ifs at hs with hc
    · obtain rfl | hrest := List.mem_cons.mp hs
      · exact List.not_mem_nil
      · exact ih hrest
    · obtain ⟨t,ts,hsplit⟩ := List.exists_cons_of_ne_nil (List.splitOn_ne_nil slash b)
      rw [hsplit,List.modifyHead_cons] at hs
      rw [hsplit] at ih
      obtain rfl | hrest := List.mem_cons.mp hs
      · intro hmem
        obtain heq | htail := List.mem_cons.mp hmem
        · exact hc (beq_iff_eq.mpr heq.symm)
        · exact ih List.mem_cons_self htail
      · exact ih (List.mem_cons_of_mem t hrest)

lemma mem_of_mem_strip {b : Bytes} {c : UInt8} (h : c ∈ strip b) : c ∈ b := by
  have htrim : c ∈ b.dropWhile isspace := by
    have hreverse := (List.dropWhile_sublist isspace).subset (List.mem_reverse.mp h)
    exact List.mem_reverse.mp hreverse
  exact (List.dropWhile_sublist isspace).subset htrim

@[simp] lemma strip_strip (b : Bytes) : strip (strip b) = strip b := by
  have hfirst : (strip b).dropWhile isspace = strip b := by
    obtain ⟨t,ht⟩ := List.rdropWhile_prefix isspace (l := b.dropWhile isspace)
    change strip b ++ t = b.dropWhile isspace at ht
    have hhead := List.head?_dropWhile_not isspace b
    rw [← ht] at hhead
    cases hstrip : strip b with
    | nil => rfl
    | cons c u =>
      rw [hstrip] at hhead
      have hc : isspace c = false := hhead
      simp [hc]
  have hrest : strip (strip b) = ((strip b).dropWhile isspace).rdropWhile isspace := rfl
  rw [hrest,hfirst]
  exact List.rdropWhile_idempotent isspace (b.dropWhile isspace)

/-- `segments`, with blanks stripped, are what the rule goes through. -/
theorem strsplitEmpty_eq {rest : Bytes} (h : rest ≠ []) :
    strsplitEmpty rest slash = (segments rest).map strip := by
  rw [strsplitEmpty,segments,if_neg h,if_neg h]

/-! ### The loop -/

variable {engine : Regex.Engine} {rule : NrSegmentTermsRule} {terms : List NrObj} {name : Bytes}
  {segs : List Bytes}

/-- What the rule does with a segment. -/
def label (rule : NrSegmentTermsRule) (s : Bytes) : Option Bytes :=
  if rule.matched (strip s) then some (strip s) else none

lemma applySegments_true (rule : NrSegmentTermsRule) (b : Bool) (segs : List Bytes) :
    rule.applySegments true b (segs.map strip) =
      (texts [code '*'] (collapse b (segs.map (label rule)))).flatMap (slash :: ·) := by
  induction segs generalizing b with
  | nil => simp [NrSegmentTermsRule.applySegments]
  | cons s segs ih =>
    by_cases hmatched : rule.matched (strip s) = true
    · simp [NrSegmentTermsRule.applySegments,label,hmatched,ih]
    · cases b <;> simp [NrSegmentTermsRule.applySegments,label,hmatched,ih]

lemma intercalate_cons (t : Bytes) (ts : List Bytes) :
    [slash].intercalate (t :: ts) = t ++ ts.flatMap (slash :: ·) := by
  induction ts generalizing t with
  | nil => simp
  | cons t' ts ih => rw [List.intercalate_cons_cons,ih,List.flatMap_cons]; simp

lemma applySegments_false (rule : NrSegmentTermsRule) (segs : List Bytes) :
    rule.applySegments false false (segs.map strip) =
      [slash].intercalate (texts [code '*'] (collapse false (segs.map (label rule)))) := by
  cases segs with
  | nil => rfl
  | cons s segs =>
    by_cases hmatched : rule.matched (strip s) = true
    · simp [NrSegmentTermsRule.applySegments,label,hmatched,applySegments_true,intercalate_cons]
    · simp [NrSegmentTermsRule.applySegments,label,hmatched,applySegments_true,intercalate_cons]

/-- A name with the start of the rule is its start and what becomes of its segments. -/
theorem apply_of_hasPrefix (h : rule.hasPrefix name) :
    rule.apply name = some (name.take rule.rulePrefix.length ++ [slash].intercalate
      (texts [code '*'] (collapse false
        ((segments (name.drop rule.rulePrefix.length)).map (label rule))))) := by
  have hne : name ≠ [] := by
    rintro rfl
    have hpos : rule.rulePrefix ≠ [] := by
      intro hnil
      have hslash := rule.getLast_slash
      rw [hnil] at hslash
      cases hslash
    exact hpos (List.eq_nil_of_length_eq_zero (Nat.le_zero.mp h.1))
  unfold NrSegmentTermsRule.apply
  rw [if_neg hne,if_neg (not_not.mpr h)]
  dsimp only
  split_ifs with hrest
  · rw [hrest,segments,if_pos rfl]
    have htake := List.take_append_drop rule.rulePrefix.length name
    rw [hrest,List.append_nil] at htake
    simp [htake]
  · rw [strsplitEmpty_eq hrest,applySegments_false]

lemma apply_of_not_hasPrefix (h : ¬rule.hasPrefix name) : rule.apply name = none := by
  unfold NrSegmentTermsRule.apply
  split_ifs
  · rfl
  · rfl

/-! ### Applying twice -/

/-- The texts of the segments, as they are kept or replaced. -/
def labelled (rule : NrSegmentTermsRule) (segs : List Bytes) : List Bytes :=
  texts [code '*'] (collapse false (segs.map (label rule)))

lemma mem_labelled {t : Bytes} (h : t ∈ labelled rule segs) :
    t = [code '*'] ∨ ∃ s ∈ segs, label rule s = some t := by
  obtain ⟨x,hx,rfl⟩ := List.mem_map.mp h
  cases x with
  | none => exact .inl rfl
  | some t =>
    obtain ⟨s,hs,hlabel⟩ := List.mem_map.mp (Collapse.mem_collapse.mp hx)
    exact .inr ⟨s,hs,hlabel⟩

lemma strip_of_mem_labelled {t : Bytes} (h : t ∈ labelled rule segs) : strip t = t := by
  obtain rfl | ⟨s,-,hlabel⟩ := mem_labelled h
  · decide
  · unfold label at hlabel
    split_ifs at hlabel
    cases hlabel
    exact strip_strip s

lemma slash_not_mem_labelled {t rest : Bytes} (h : t ∈ labelled rule (segments rest)) :
    slash ∉ t := by
  obtain rfl | ⟨s,hs,hlabel⟩ := mem_labelled h
  · decide
  · unfold label at hlabel
    split_ifs at hlabel
    cases hlabel
    intro hmem
    unfold segments at hs
    split_ifs at hs
    · cases hs
    · exact slash_not_mem_splitOn hs (mem_of_mem_strip hmem)

lemma labelled_labelled (rule : NrSegmentTermsRule) (segs : List Bytes) :
    labelled rule (labelled rule segs) = labelled rule segs := by
  apply Collapse.texts_again
  · unfold label
    have hstar : strip [code '*'] = [code '*'] := by decide
    rw [hstar]
    split_ifs
    · exact .inr rfl
    · exact .inl rfl
  · intro t ht
    obtain ⟨s,-,hlabel⟩ := List.mem_map.mp ht
    unfold label at hlabel ⊢
    split_ifs at hlabel with hmatched
    cases hlabel
    rw [strip_strip,if_pos hmatched]

lemma segments_intercalate {ts : List Bytes} (hslash : ∀ t ∈ ts, slash ∉ t)
    (h : [slash].intercalate ts ≠ []) : segments ([slash].intercalate ts) = ts := by
  have hne : ts ≠ [] := by
    rintro rfl
    exact h rfl
  rw [segments,if_neg h]
  exact List.splitOn_intercalate slash hslash hne

/-- Putting the segments together and applying the rule once more changes nothing. -/
theorem intercalate_labelled (rule : NrSegmentTermsRule) (rest : Bytes) :
    [slash].intercalate (labelled rule (segments
        ([slash].intercalate (labelled rule (segments rest))))) =
      [slash].intercalate (labelled rule (segments rest)) := by
  by_cases hnil : [slash].intercalate (labelled rule (segments rest)) = []
  · rw [hnil]
    rfl
  · rw [segments_intercalate (fun t ht => slash_not_mem_labelled ht) hnil,labelled_labelled]

/-- What a rule makes of a name with its start. -/
def applied (rule : NrSegmentTermsRule) (name : Bytes) : Bytes :=
  name.take rule.rulePrefix.length ++
    [slash].intercalate (labelled rule (segments (name.drop rule.rulePrefix.length)))

lemma length_take_of_hasPrefix (h : rule.hasPrefix name) :
    (name.take rule.rulePrefix.length).length = rule.rulePrefix.length := by
  rw [List.length_take]
  exact min_eq_left h.1

lemma take_applied (h : rule.hasPrefix name) :
    (applied rule name).take rule.rulePrefix.length = name.take rule.rulePrefix.length := by
  exact List.take_left' (length_take_of_hasPrefix h)

lemma hasPrefix_applied (h : rule.hasPrefix name) : rule.hasPrefix (applied rule name) := by
  refine ⟨?_,?_⟩
  · rw [applied,List.length_append,length_take_of_hasPrefix h]
    omega
  · rw [take_applied h]
    exact h.2

lemma applied_applied (h : rule.hasPrefix name) : applied rule (applied rule name) = applied rule name := by
  have hdrop : (applied rule name).drop rule.rulePrefix.length =
      [slash].intercalate (labelled rule (segments (name.drop rule.rulePrefix.length))) :=
    List.drop_left' (length_take_of_hasPrefix h)
  unfold applied at hdrop ⊢
  rw [hdrop,intercalate_labelled]
  congr 1
  exact take_applied h

/-! ### The rule that applies -/

lemma tolower_eq_slash {c : UInt8} : tolower c = slash ↔ c = slash := by
  have hall : ∀ n : Fin 256, tolower (UInt8.ofFin n) = slash ↔ UInt8.ofFin n = slash := by
    decide +kernel
  exact hall c.toFin

lemma count_slash_map (b : Bytes) : (b.map tolower).count slash = b.count slash := by
  induction b with
  | nil => rfl
  | cons c b ih =>
    rw [List.map_cons,List.count_cons,List.count_cons,ih]
    simp only [beq_iff_eq,tolower_eq_slash]

lemma eq_of_count_slash {a b : Bytes} (h : a <+: b) (hb : b.getLast? = some slash)
    (hcount : a.count slash = b.count slash) : a = b := by
  obtain ⟨t,rfl⟩ := h
  cases t using List.reverseRecOn with
  | nil => simp
  | append_singleton t c =>
    rw [← List.append_assoc,List.getLast?_concat,Option.some_inj] at hb
    subst hb
    simp at hcount

/-- Two rules whose starts begin the same name have starts of the same length, for both end with the
second slash of the name. -/
theorem length_rulePrefix_eq {rule rule' : NrSegmentTermsRule}
    (h : rule.hasPrefix name) (h' : rule'.hasPrefix name) :
    rule.rulePrefix.length = rule'.rulePrefix.length := by
  have hstart : ∀ {r : NrSegmentTermsRule}, r.hasPrefix name →
      r.rulePrefix.map tolower <+: name.map tolower := by
    intro r hr
    rw [← hr.2]
    exact (List.take_prefix _ _).map tolower
  have hlast : ∀ r : NrSegmentTermsRule, (r.rulePrefix.map tolower).getLast? = some slash := by
    intro r
    rw [List.getLast?_map,r.getLast_slash]
    decide
  have hcount : ∀ r : NrSegmentTermsRule, (r.rulePrefix.map tolower).count slash = 2 := fun r =>
    (count_slash_map r.rulePrefix).trans r.count_slash
  have hsame : rule.rulePrefix.map tolower = rule'.rulePrefix.map tolower := by
    obtain hle | hle := List.prefix_or_prefix_of_prefix (hstart h) (hstart h')
    · exact eq_of_count_slash hle (hlast rule') ((hcount rule).trans (hcount rule').symm)
    · exact (eq_of_count_slash hle (hlast rule) ((hcount rule').trans (hcount rule).symm)).symm
  simpa using congrArg List.length hsame

variable {st : NrSegmentTerms} {before after : List NrSegmentTermsRule} {start : Option Bytes}

lemma apply_eq_applied (hrules : st.rules = before ++ rule :: after)
    (h : rule.hasPrefix name) (hlast : ∀ r ∈ after, ¬r.hasPrefix name) :
    st.apply (some name) = some (applied rule name) := by
  have hne : name ≠ [] := by
    rintro rfl
    have happly := apply_of_hasPrefix h
    simp [NrSegmentTermsRule.apply] at happly
  have hnone : after.reverse.findSome? (fun r => r.apply name) = none := by
    rw [List.findSome?_eq_none_iff]
    intro r hr
    exact apply_of_not_hasPrefix (hlast r (List.mem_reverse.mp hr))
  unfold NrSegmentTerms.apply
  dsimp only
  rw [if_neg hne,hrules,List.reverse_append,List.reverse_cons,List.append_assoc,
    List.findSome?_append,hnone,Option.none_or,List.singleton_append,List.findSome?_cons,
    apply_of_hasPrefix h]
  rfl

/-- Applying the terms to a result changes nothing. -/
theorem apply_applied (hrules : st.rules = before ++ rule :: after)
    (h : rule.hasPrefix name) (hlast : ∀ r ∈ after, ¬r.hasPrefix name) :
    st.apply (some (applied rule name)) = some (applied rule name) := by
  have hlast' : ∀ r ∈ after, ¬r.hasPrefix (applied rule name) := by
    intro r hr hstart
    have hlength := length_rulePrefix_eq (hasPrefix_applied h) hstart
    apply hlast r hr
    refine ⟨hlength ▸ h.1,?_⟩
    have hsame := hstart.2
    rwa [← hlength,take_applied h,hlength] at hsame
  rw [apply_eq_applied hrules (hasPrefix_applied h) hlast',applied_applied h]

/-! ### Exactly the terms -/

/-- What the expression of the terms finds: something that begins with a term. When the first entry of
the list is left out, that is everything but the empty segment. -/
def Begun (terms : List NrObj) (s : Bytes) : Prop :=
  s ≠ [] ∧ (FirstSkipped terms ∨
    ∃ term ∈ whitelist terms, term.map tolower <+: s.map tolower)

instance (terms : List NrObj) (s : Bytes) : Decidable (Begun terms s) :=
  inferInstanceAs (Decidable (_ ∧ (_ ∨ ∃ _ ∈ _, _)))

/-- The terms are told from the other segments. A segment is a term without blanks around it, or is
neither a term nor begun by one, or is a star between terms, which stays what it is. -/
def Told (terms : List NrObj) (segs : List Bytes) : Prop :=
  ∀ before s after, segs = before ++ s :: after →
    (IsTerm terms s ∧ strip s = s) ∨ (¬IsTerm terms s ∧ ¬Begun terms (strip s)) ∨
      (¬IsTerm terms s ∧ Begun terms (strip s) ∧ strip s = [code '*'] ∧
        (∀ s' ∈ before.getLast?, IsTerm terms s') ∧ ∀ s' ∈ after.head?, IsTerm terms s')

/-- A name is made of the segments that are terms, and doing it again changes nothing. -/
structure Exact (st : NrSegmentTerms) (terms : List NrObj) (n : ℕ) (name : Bytes) : Prop where
  apply : st.apply (some name) = some (whitelisted terms n name)
  idempotent : ∀ result, st.apply (some name) = some result → st.apply (some result) = some result

lemma IsTerm.begun {s : Bytes} (h : IsTerm terms s) : Begun terms s := by
  obtain ⟨term,hterm,heq⟩ := h
  refine ⟨?_,.inr ⟨term,hterm,heq ▸ List.prefix_rfl⟩⟩
  rintro rfl
  have hne : term ≠ [] := by simpa using (List.mem_filter.mp hterm).2
  exact hne (List.map_eq_nil_iff.mp heq)

/-- A created rule keeps what its expression finds. -/
theorem label_of_create (hengine : engine.Documented tolower)
    (h : NrSegmentTermsRule.create engine start (some (.array terms)) = some rule) (s : Bytes) :
    label rule s = if Begun terms (strip s) then some (strip s) else none := by
  obtain ⟨re,hread,hfinds⟩ := compile_buildRegex terms
  obtain ⟨pattern,hpattern,hcompile⟩ := Option.bind_eq_some_iff.mp hread
  obtain ⟨found,hfound,hmatch⟩ := hengine pattern re hcompile
  have hre : (NrSegmentTermsRule.buildRegex (some (.array terms))).bind engine = some found := by
    rw [hpattern,Option.bind_some,hfound]
  have hrule : rule.re = found := by
    unfold NrSegmentTermsRule.create at h
    cases start with
    | none => cases h
    | some start =>
      rw [hre] at h
      dsimp only at h
      split_ifs at h
      cases h
      rfl
  have hmatched : rule.matched (strip s) = true ↔ Begun terms (strip s) := by
    unfold NrSegmentTermsRule.matched Begun
    rw [decide_eq_true_eq,hrule,hmatch,hfinds]
  unfold label
  by_cases hbegun : Begun terms (strip s)
  · rw [if_pos (hmatched.mpr hbegun),if_pos hbegun]
  · rw [if_neg (mt hmatched.mp hbegun),if_neg hbegun]

/-- The segments are told apart when every one is kept as it should be, or is a star that stands
alone. -/
theorem told_iff_agree (hengine : engine.Documented tolower)
    (h : NrSegmentTermsRule.create engine start (some (.array terms)) = some rule) (segs : List Bytes) :
    Told terms segs ↔ Agree (label rule) (keep terms) [code '*'] false segs := by
  have hsome : ∀ s, (keep terms s).isSome = true ↔ IsTerm terms s := by
    intro s
    unfold keep
    split_ifs with hterm <;> simp [hterm]
  have hsame : ∀ s, label rule s = keep terms s ↔
      (IsTerm terms s ∧ strip s = s) ∨ (¬IsTerm terms s ∧ ¬Begun terms (strip s)) := by
    intro s
    rw [label_of_create hengine h,keep]
    by_cases hterm : IsTerm terms s
    · by_cases hbegun : Begun terms (strip s)
      · simp [hterm,hbegun]
      · have hstrip : strip s ≠ s := fun heq => hbegun (heq.symm ▸ hterm.begun)
        simp [hterm,hbegun,hstrip]
    · by_cases hbegun : Begun terms (strip s) <;> simp [hterm,hbegun]
  have halone : ∀ before s after, Alone (label rule) (keep terms) [code '*'] false before s after ↔
      ¬IsTerm terms s ∧ Begun terms (strip s) ∧ strip s = [code '*'] ∧
        (∀ s' ∈ before.getLast?, IsTerm terms s') ∧ ∀ s' ∈ after.head?, IsTerm terms s' := by
    intro before s after
    have hlabel : label rule s = some [code '*'] ↔
        Begun terms (strip s) ∧ strip s = [code '*'] := by
      rw [label_of_create hengine h]
      split_ifs with hbegun <;> simp [hbegun]
    have hnone : keep terms s = none ↔ ¬IsTerm terms s := by
      unfold keep
      split_ifs with hterm <;> simp [hterm]
    unfold Alone
    simp only [hlabel,hnone,hsome]
    tauto
  unfold Told Agree
  simp only [hsame,halone,or_assoc]

/-- The segments, as they should be kept or replaced. -/
def kept (terms : List NrObj) (segs : List Bytes) : List Bytes :=
  texts [code '*'] (collapse false (segs.map (keep terms)))

lemma slash_not_mem_kept {t rest : Bytes} (h : t ∈ kept terms (segments rest)) : slash ∉ t := by
  obtain ⟨x,hx,rfl⟩ := List.mem_map.mp h
  cases x with
  | none => decide
  | some t =>
    obtain ⟨s,hs,hkeep⟩ := List.mem_map.mp (Collapse.mem_collapse.mp hx)
    unfold keep at hkeep
    split_ifs at hkeep
    cases hkeep
    unfold segments at hs
    split_ifs at hs
    · cases hs
    · exact slash_not_mem_splitOn hs

/-- The results are the same when the segments are. -/
theorem applied_eq_whitelisted_iff : applied rule name = whitelisted terms rule.rulePrefix.length name ↔
      labelled rule (segments (name.drop rule.rulePrefix.length)) =
        kept terms (segments (name.drop rule.rulePrefix.length)) := by
  unfold applied whitelisted
  rw [List.append_cancel_left_eq]
  constructor
  · intro h
    by_cases hnil : segments (name.drop rule.rulePrefix.length) = []
    · rw [hnil]
      rfl
    · have hlabelled : labelled rule (segments (name.drop rule.rulePrefix.length)) ≠ [] := fun heq =>
        Collapse.collapse_ne_nil (by simpa using hnil) (List.map_eq_nil_iff.mp heq)
      have hkept : kept terms (segments (name.drop rule.rulePrefix.length)) ≠ [] := fun heq =>
        Collapse.collapse_ne_nil (by simpa using hnil) (List.map_eq_nil_iff.mp heq)
      have hsplit := congrArg (List.splitOn slash) h
      rw [List.splitOn_intercalate slash (fun t ht => slash_not_mem_labelled ht) hlabelled] at hsplit
      rw [hsplit]
      exact List.splitOn_intercalate slash (fun t ht => slash_not_mem_kept ht) hkept
  · intro h
    exact congrArg _ h

/-- Where the segments come out alike, what should be kept is kept. -/
theorem label_eq_or_keep_eq_none (hengine : engine.Documented tolower)
    (h : NrSegmentTermsRule.create engine start (some (.array terms)) = some rule)
    (heq : labelled rule segs = kept terms segs) :
    ∀ s ∈ segs, label rule s = keep terms s ∨ keep terms s = none := by
  intro s hs
  unfold keep
  split_ifs with hterm
  · left
    have hmem : s ∈ labelled rule segs := by
      have hcollapse : some s ∈ collapse false (segs.map (keep terms)) :=
        Collapse.mem_collapse.mpr (List.mem_map.mpr ⟨s,hs,if_pos hterm⟩)
      rw [heq]
      exact List.mem_map.mpr ⟨some s,hcollapse,rfl⟩
    have hstrip := strip_of_mem_labelled hmem
    rw [label_of_create hengine h,hstrip,if_pos hterm.begun]
  · exact .inr rfl

/-- A rule made of a list of terms, where it is the one that applies, keeps exactly the segments that
are terms and replaces every run of others by a star, if and only if the terms are told from the other
segments. -/
theorem exact_iff_told (hengine : engine.Documented tolower) {start : Option Bytes}
    (hcreate : NrSegmentTermsRule.create engine start (some (.array terms)) = some rule)
    (hrules : st.rules = before ++ rule :: after) {name : Bytes} (hname : rule.hasPrefix name)
    (hlast : ∀ r ∈ after, ¬r.hasPrefix name) :
    Exact st terms rule.rulePrefix.length name ↔
      Told terms (segments (name.drop rule.rulePrefix.length)) := by
  have hresult := apply_eq_applied hrules hname hlast
  rw [told_iff_agree hengine hcreate]
  constructor
  · intro h
    have hsame := applied_eq_whitelisted_iff.mp (Option.some.inj (hresult.symm.trans h.apply))
    exact (Collapse.texts_collapse_eq_iff (label_eq_or_keep_eq_none hengine hcreate hsame) false).mp hsame
  · intro hagree
    have hle : ∀ s ∈ segments (name.drop rule.rulePrefix.length),
        label rule s = keep terms s ∨ keep terms s = none := by
      intro s hs
      obtain ⟨l,r,hsplit⟩ := List.append_of_mem hs
      obtain hsame | halone := hagree l s r hsplit
      · exact .inl hsame
      · exact .inr halone.2.1
    have hsame := (Collapse.texts_collapse_eq_iff hle false).mpr hagree
    refine ⟨?_,?_⟩
    · rw [hresult]
      exact congrArg some (applied_eq_whitelisted_iff.mpr hsame)
    · intro result happly
      rw [hresult] at happly
      cases happly
      exact apply_applied hrules hname hlast

/-- The rule of the term `a` for names that begin with `Foo/Bar`. -/
theorem exact_iff_told_a :
    ∃ rule, NrSegmentTermsRule.create (.reference tolower) (some (ascii "Foo/Bar"))
        (some (.array [.string (ascii "a")])) = some rule ∧
      (Exact ⟨1,[rule],le_rfl⟩ [.string (ascii "a")] rule.rulePrefix.length (ascii "Foo/Bar/a/b") ↔
        Told [.string (ascii "a")] [ascii "a",ascii "b"]) := by
  refine ⟨_,rfl,?_⟩
  have hcreate : NrSegmentTermsRule.create (.reference tolower) (some (ascii "Foo/Bar"))
      (some (.array [.string (ascii "a")])) = some _ := rfl
  have hlast : ∀ r ∈ ([] : List NrSegmentTermsRule), ¬r.hasPrefix (ascii "Foo/Bar/a/b") :=
    fun _ h => absurd h List.not_mem_nil
  exact exact_iff_told (Regex.Engine.reference_documented tolower) hcreate (List.nil_append _).symm
    (by decide) hlast

/-- A segment that begins with a term is kept. -/
theorem not_forall_exact :
    ¬∀ (engine : Regex.Engine) (st : NrSegmentTerms) (before after : List NrSegmentTermsRule) (rule : NrSegmentTermsRule)
      (start : Option Bytes) (terms : List NrObj) (name : Bytes),
      engine.Documented tolower →
      NrSegmentTermsRule.create engine start (some (.array terms)) = some rule →
      st.rules = before ++ rule :: after → rule.hasPrefix name →
      (∀ r ∈ after, ¬r.hasPrefix name) → Exact st terms rule.rulePrefix.length name := by
  intro h
  have hexact := (h (.reference tolower) ⟨1,[_],le_rfl⟩ [] [] _ (some (ascii "Foo/Bar"))
    [.string (ascii "a")] (ascii "Foo/Bar/ab") (Regex.Engine.reference_documented tolower) rfl rfl (by decide) (fun _ hr => absurd hr List.not_mem_nil)).apply
  revert hexact
  decide

end SegmentTerms
end PhpAgent

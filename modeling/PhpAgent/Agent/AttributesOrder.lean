import PhpAgent.Agent.Attributes
import PhpAgent.Lib.SortedMerge

/-! How the destinations of an attribute depend on the order of the configuration. The rules of the
user are sorted and merged, whatever their order is; the rule that finalizes logs is put among them
when it is first needed, and stays. -/
namespace PhpAgent

open NrAttributeDestinationModifier (createInternal)

/-! ### Rules in order -/

/-- A rule of the user, with the text of a wildcard cut. -/
structure AttributeRule where
  text : Bytes
  wildcard : Bool
  includeDestinations : Destinations
  excludeDestinations : Destinations

namespace AttributeRule

/-- Rules are sorted by their texts, a wildcard before the exact rule of the same text. -/
def rank (r : AttributeRule) : List ℕ ×ₗ Bool := toLex (r.text.map UInt8.toNat,!r.wildcard)

def combine (r r' : AttributeRule) : AttributeRule :=
  { r with
    includeDestinations := r.includeDestinations ||| r'.includeDestinations
    excludeDestinations := r.excludeDestinations ||| r'.excludeDestinations }

/-- The rule as the configuration has it. -/
def toModifier (hash : Bytes → UInt32) (r : AttributeRule) : NrAttributeDestinationModifier :=
  ⟨r.wildcard,false,r.text,hash r.text,r.includeDestinations,r.excludeDestinations⟩

lemma rank_eq_iff {r r' : AttributeRule} :
    r.rank = r'.rank ↔ r.text = r'.text ∧ r.wildcard = r'.wildcard := by
  have hinj : Function.Injective (List.map UInt8.toNat) :=
    List.map_injective_iff.mpr fun _ _ => UInt8.toNat_inj.mp
  unfold rank
  rw [EmbeddingLike.apply_eq_iff_eq,Prod.mk.injEq,hinj.eq_iff]
  simp

lemma isCombine : SortedMerge.IsCombine rank combine where
  rank_combine _ _ := rfl
  comm := by
    intro r r' h
    obtain ⟨htext,hwildcard⟩ := rank_eq_iff.mp h
    simp [combine,htext,hwildcard,BitVec.or_comm]
  right_comm := by
    intro r r' r'' _ _
    simp [combine,BitVec.or_assoc,BitVec.or_comm r'.includeDestinations,
      BitVec.or_comm r'.excludeDestinations]

end AttributeRule

lemma compare_toModifier (hash : Bytes → UInt32) (r r' : AttributeRule) :
    ((r.toModifier hash).compare (r'.toModifier hash) < 0 ↔ r.rank < r'.rank) ∧
      ((r.toModifier hash).compare (r'.toModifier hash) = 0 ↔ r.rank = r'.rank) := by
  have hspec := strcmp_spec r.text r'.text
  rw [AttributeRule.rank_eq_iff]
  unfold NrAttributeDestinationModifier.compare AttributeRule.rank AttributeRule.toModifier
  rw [Prod.Lex.toLex_lt_toLex]
  cases hcmp : strcmp r.text r'.text with
  | lt =>
    rw [hcmp] at hspec
    have hne : r.text ≠ r'.text := fun heq => by simp [heq] at hspec
    simpa [hcmp,hne] using .inl hspec
  | gt =>
    rw [hcmp] at hspec
    have hne : r.text ≠ r'.text := fun heq => by simp [heq] at hspec
    have hnot : ¬(r.text.map UInt8.toNat < r'.text.map UInt8.toNat) := not_lt_of_gt hspec
    have hneMap : ¬(r.text.map UInt8.toNat = r'.text.map UInt8.toNat) := fun heq =>
      lt_irrefl _ (heq ▸ hspec)
    simp [hne,hnot,hneMap]
  | eq =>
    rw [hcmp] at hspec
    have htext : r.text = r'.text := hspec
    cases hw : r.wildcard <;> cases hw' : r'.wildcard <;> simp [htext]

/-- A call of `nr_attribute_config_modify_destinations`. -/
structure AttributeConfigCall where
  text : Bytes
  text_ne : text ≠ []
  includeDestinations : Destinations
  excludeDestinations : Destinations

def AttributeConfigCall.toRule (call : AttributeConfigCall) : AttributeRule where
  text := if call.text.getLast? = some asterisk then call.text.dropLast else call.text
  wildcard := call.text.getLast? = some asterisk
  includeDestinations := call.includeDestinations
  excludeDestinations := call.excludeDestinations

lemma createInternal_call (hash : Bytes → UInt32) (call : AttributeConfigCall) :
    createInternal hash call.text call.includeDestinations call.excludeDestinations false =
      call.toRule.toModifier hash := by
  simp [createInternal,AttributeConfigCall.toRule,AttributeRule.toModifier]

namespace AttributeRule

/-- The rule of `*`. -/
def everything : AttributeRule := ⟨[],true,0,logDestination⟩

def IsStar (r : AttributeRule) : Prop := r.rank = everything.rank

instance (r : AttributeRule) : Decidable r.IsStar := inferInstanceAs (Decidable (_ = _))

lemma isStar_iff {r : AttributeRule} : r.IsStar ↔ r.text = [] ∧ r.wildcard = true := rank_eq_iff

lemma rank_everything_le (r : AttributeRule) : everything.rank ≤ r.rank := by
  unfold rank everything
  rw [Prod.Lex.toLex_le_toLex]
  cases h : r.text with
  | nil => exact .inr ⟨rfl,Bool.false_le _⟩
  | cons b bs => exact .inl (List.nil_lt_cons _ _)

lemma rank_everything_lt {r : AttributeRule} (h : ¬r.IsStar) : everything.rank < r.rank :=
  lt_of_le_of_ne r.rank_everything_le (Ne.symm h)

/-- The rule includes logs. -/
def IncludesLog (r : AttributeRule) : Bool := r.includeDestinations &&& logDestination ≠ 0

/-- The rule excludes logs. -/
def ExcludesLog (r : AttributeRule) : Bool := r.excludeDestinations &&& logDestination ≠ 0

end AttributeRule

open AttributeRule (everything toModifier rank combine isCombine isStar_iff)

/-- The rules of a sequence of calls, without the finalizing rule. -/
def userRules (calls : List AttributeConfigCall) : List AttributeRule :=
  (calls.map AttributeConfigCall.toRule).foldl
    (fun rules r => SortedMerge.insert rank combine r rules) []

/-! ### The finalizing rule among the others -/

/-- The finalizing rule is not there, or it stands before the rule of `*`, or after it. -/
inductive FinalizePlace
  | absent
  | before
  | after
deriving DecidableEq

def finalizeRule (hash : Bytes → UInt32) : NrAttributeDestinationModifier :=
  createInternal hash [asterisk] 0 logDestination true

/-- The list of a configuration. -/
def modifiersAt (hash : Bytes → UInt32) : FinalizePlace → List AttributeRule →
    List NrAttributeDestinationModifier
  | .absent, rules => rules.map (toModifier hash)
  | .before, rules => finalizeRule hash :: rules.map (toModifier hash)
  | .after, [] => [finalizeRule hash]
  | .after, r :: rules =>
    r.toModifier hash :: finalizeRule hash :: rules.map (toModifier hash)

/-- A finalizing rule is needed. -/
def NeedsFinalize (rules : List AttributeRule) : Prop :=
  (∃ r ∈ rules, r.IncludesLog) ∧ ¬∃ r ∈ rules, r.IsStar ∧ r.IncludesLog

instance (rules : List AttributeRule) : Decidable (NeedsFinalize rules) :=
  inferInstanceAs (Decidable (_ ∧ _))

/-- Where the finalizing rule is after a call that led to these rules. -/
def FinalizePlace.next (place : FinalizePlace) (rules : List AttributeRule) : FinalizePlace :=
  if place = .absent ∧ NeedsFinalize rules then
    if ∃ r ∈ rules, r.IsStar then .after else .before
  else place

variable {hash : Bytes → UInt32} {rules : List AttributeRule} {place : FinalizePlace} {r : AttributeRule}
  {calls : List AttributeConfigCall}

lemma finalizeRule_compare (r : AttributeRule) :
    ((finalizeRule hash).compare (r.toModifier hash) < 0 ↔ everything.rank < r.rank) ∧
      ((finalizeRule hash).compare (r.toModifier hash) = 0 ↔ everything.rank = r.rank) :=
  compare_toModifier hash everything r

lemma compare_finalizeRule (r : AttributeRule) :
    ((r.toModifier hash).compare (finalizeRule hash) < 0 ↔ r.rank < everything.rank) ∧
      ((r.toModifier hash).compare (finalizeRule hash) = 0 ↔ r.rank = everything.rank) :=
  compare_toModifier hash r everything

open NrAttributeConfig (insertModifier addFinalizeRule)

/-- Among the rules of the user an insertion is one into a sorted list. -/
theorem insertModifier_map (hash : Bytes → UInt32) (r : AttributeRule)
    (rules : List AttributeRule) :
    insertModifier (r.toModifier hash) (rules.map (toModifier hash)) =
      (SortedMerge.insert rank combine r rules).map
        (toModifier hash) := by
  induction rules with
  | nil => rfl
  | cons r' rules ih =>
    obtain ⟨hlt,heq⟩ := compare_toModifier hash r r'
    have hkind : (r.toModifier hash).isFinalizeRule = (r'.toModifier hash).isFinalizeRule := rfl
    rw [List.map_cons,insertModifier,SortedMerge.insert]
    simp only [hlt,heq,hkind,and_true]
    split_ifs with h₁ h₂
    · rfl
    · rfl
    · rw [ih,List.map_cons]

/-- A rule of the user passes the finalizing rule. -/
theorem insertModifier_cons_finalizeRule (r : AttributeRule)
    (rest : List NrAttributeDestinationModifier) :
    insertModifier (r.toModifier hash) (finalizeRule hash :: rest) =
      finalizeRule hash :: insertModifier (r.toModifier hash) rest := by
  have hnot : ¬(r.toModifier hash).compare (finalizeRule hash) < 0 := by
    rw [(compare_finalizeRule r).1]
    exact not_lt.mpr r.rank_everything_le
  have hkind : (r.toModifier hash).isFinalizeRule ≠ (finalizeRule hash).isFinalizeRule :=
    Bool.false_ne_true
  rw [insertModifier,if_neg hnot,if_neg fun h => hkind h.2]

/-- The first rule is that of `*`, if there is one. -/
theorem head_of_isStar (hsorted : SortedMerge.Sorted rank rules)
    (hr : r ∈ rules) (hstar : r.IsStar) : ∃ rest, rules = r :: rest := by
  cases rules with
  | nil => simp at hr
  | cons r' rest =>
    rcases List.mem_cons.mp hr with rfl | hmem
    · exact ⟨rest,rfl⟩
    · have hlt := (List.pairwise_cons.mp hsorted).1 r hmem
      exact absurd r'.rank_everything_le (not_le_of_gt (hstar ▸ hlt))

/-- The finalizing rule stands after the rule of `*` only if there is such a rule. -/
def FinalizePlace.Valid (place : FinalizePlace) (rules : List AttributeRule) : Prop :=
  place = .after → ∃ r rest, rules = r :: rest ∧ r.IsStar

lemma insertModifier_modifiersAt (hvalid : place.Valid rules) (r : AttributeRule) :
    insertModifier (r.toModifier hash) (modifiersAt hash place rules) = modifiersAt hash place
      (SortedMerge.insert rank combine r rules) := by
  cases place with
  | absent => exact insertModifier_map hash r rules
  | before =>
    rw [modifiersAt,insertModifier_cons_finalizeRule,insertModifier_map]
    rfl
  | after =>
    obtain ⟨s,rest,rfl,hs⟩ := hvalid rfl
    obtain ⟨hlt,heq⟩ := compare_toModifier hash r s
    have hnot : ¬r.rank < s.rank := not_lt.mpr (hs ▸ r.rank_everything_le)
    have hkind : (r.toModifier hash).isFinalizeRule = (s.toModifier hash).isFinalizeRule := rfl
    rw [modifiersAt,insertModifier,SortedMerge.insert]
    simp only [hlt,heq,hkind,and_true,if_neg hnot]
    split_ifs with hsame
    · rfl
    · rw [insertModifier_cons_finalizeRule,insertModifier_map]
      rfl

/-- The finalizing rule in a list where it is not yet. -/
theorem insertModifier_finalizeRule_absent (hsorted : SortedMerge.Sorted rank rules) :
    insertModifier (finalizeRule hash) (rules.map (toModifier hash)) =
      modifiersAt hash (if ∃ r ∈ rules, r.IsStar then .after else .before) rules := by
  have hfront (rules : List AttributeRule) (h : ∀ r ∈ rules.head?, everything.rank < r.rank) :
      insertModifier (finalizeRule hash) (rules.map (toModifier hash)) =
        finalizeRule hash :: rules.map (toModifier hash) := by
    cases rules with
    | nil => rfl
    | cons r rules => rw [List.map_cons,insertModifier,if_pos ((finalizeRule_compare r).1.mpr (h r rfl))]
  split_ifs with hstar
  · obtain ⟨s,hs,hstar⟩ := hstar
    obtain ⟨rest,rfl⟩ := head_of_isStar hsorted hs hstar
    have hrest : ∀ r ∈ rest.head?, everything.rank < r.rank := by
      intro r hr
      have hlt := (List.pairwise_cons.mp hsorted).1 r (List.mem_of_mem_head? hr)
      rwa [show s.rank = everything.rank from hstar] at hlt
    have hnot : ¬(finalizeRule hash).compare (s.toModifier hash) < 0 := by
      rw [(finalizeRule_compare s).1]
      exact (show s.rank = everything.rank from hstar).not_gt
    have hkind : (finalizeRule hash).isFinalizeRule ≠ (s.toModifier hash).isFinalizeRule :=
      Bool.false_ne_true.symm
    rw [List.map_cons,insertModifier,if_neg hnot,if_neg fun h => hkind h.2,hfront rest hrest]
    rfl
  · apply hfront
    intro r hr
    exact AttributeRule.rank_everything_lt fun h => hstar ⟨r,List.mem_of_mem_head? hr,h⟩

/-- The finalizing rule merges with itself. -/
theorem insertModifier_finalizeRule_self (rest : List NrAttributeDestinationModifier) :
    insertModifier (finalizeRule hash) (finalizeRule hash :: rest) = finalizeRule hash :: rest := by
  have heq : (finalizeRule hash).compare (finalizeRule hash) = 0 := rfl
  rw [insertModifier,if_neg (heq ▸ lt_irrefl _),if_pos ⟨heq,rfl⟩,BitVec.or_self,BitVec.or_self]

lemma insertModifier_finalizeRule_present (hvalid : place.Valid rules) (hplace : place ≠ .absent) :
    insertModifier (finalizeRule hash) (modifiersAt hash place rules) =
      modifiersAt hash place rules := by
  cases place with
  | absent => exact absurd rfl hplace
  | before => exact insertModifier_finalizeRule_self _
  | after =>
    obtain ⟨s,rest,rfl,hs⟩ := hvalid rfl
    have hnot : ¬(finalizeRule hash).compare (s.toModifier hash) < 0 := by
      rw [(finalizeRule_compare s).1]
      exact (show s.rank = everything.rank from hs).not_gt
    have hkind : (finalizeRule hash).isFinalizeRule ≠ (s.toModifier hash).isFinalizeRule :=
      Bool.false_ne_true.symm
    rw [modifiersAt,insertModifier,if_neg hnot,if_neg fun h => hkind h.2,
      insertModifier_finalizeRule_self]

/-! ### Runs -/

lemma addFinalizeRule_map (hash : Bytes → UInt32) (rules : List AttributeRule) (add : Bool) :
    addFinalizeRule (rules.map (toModifier hash)) add = true ↔
      (add = true ∨ ∃ r ∈ rules, r.IncludesLog) ∧ ¬∃ r ∈ rules, r.IsStar ∧ r.IncludesLog := by
  induction rules generalizing add with
  | nil => simp [addFinalizeRule]
  | cons r rules ih =>
    have hlog : r.IncludesLog = true ↔
        (r.toModifier hash).includeDestinations &&& logDestination ≠ 0 := decide_eq_true_iff
    have hstar : r.IsStar ↔
        (r.toModifier hash).hasWildcardSuffix ∧ (r.toModifier hash).text.length = 0 := by
      rw [isStar_iff,List.length_eq_zero_iff,and_comm]
      rfl
    rw [List.map_cons,addFinalizeRule]
    simp only [← hlog,← hstar,List.exists_mem_cons_iff]
    by_cases h₁ : r.IncludesLog <;> by_cases h₂ : r.IsStar <;> simp [h₁,h₂,ih]

/-- The search for a need of the finalizing rule passes that rule. -/
theorem addFinalizeRule_modifiersAt (hash : Bytes → UInt32) (place : FinalizePlace)
    (rules : List AttributeRule) : addFinalizeRule (modifiersAt hash place rules) false =
      addFinalizeRule (rules.map (toModifier hash)) false := by
  have hskip (rest : List NrAttributeDestinationModifier) (add : Bool) :
      addFinalizeRule (finalizeRule hash :: rest) add = addFinalizeRule rest add := by
    have hnone : ¬(finalizeRule hash).includeDestinations &&& logDestination ≠ 0 := by
      change ¬(0 : Destinations) &&& logDestination ≠ 0
      decide
    rw [addFinalizeRule,if_neg hnone]
  cases place with
  | absent => rfl
  | before => exact hskip _ _
  | after =>
    cases rules with
    | nil => exact hskip _ _
    | cons r rules =>
      rw [modifiersAt,List.map_cons]
      unfold addFinalizeRule
      rw [hskip,hskip]

lemma mem_modifiersAt {m : NrAttributeDestinationModifier} (h : m ∈ modifiersAt hash place rules) :
    m = finalizeRule hash ∨ ∃ r ∈ rules, r.toModifier hash = m := by
  cases place with
  | absent => exact .inr (List.mem_map.mp h)
  | before => exact (List.mem_cons.mp h).imp_right List.mem_map.mp
  | after =>
    cases rules with
    | nil => exact .inl (List.mem_singleton.mp h)
    | cons r rules =>
      simp only [modifiersAt,List.mem_cons,List.mem_map] at h ⊢
      rcases h with rfl | h | ⟨r',hr',rfl⟩
      · exact .inr ⟨r,.inl rfl,rfl⟩
      · exact .inl h
      · exact .inr ⟨r',.inr hr',rfl⟩

/-- Nothing is ever removed: the finalizing rule includes nothing. -/
theorem filter_modifiersAt (hash : Bytes → UInt32) (place : FinalizePlace)
    (rules : List AttributeRule) : ((modifiersAt hash place rules).filter fun cur =>
      ¬(cur.isFinalizeRule ∧ cur.includeDestinations &&& logDestination ≠ 0)) =
        modifiersAt hash place rules := by
  have hfinal : ¬((finalizeRule hash).isFinalizeRule ∧
      (finalizeRule hash).includeDestinations &&& logDestination ≠ 0) := by
    rintro ⟨-,h⟩
    exact h (by change (0 : Destinations) &&& logDestination = 0; decide)
  have huser (r : AttributeRule) : ¬((r.toModifier hash).isFinalizeRule ∧
      (r.toModifier hash).includeDestinations &&& logDestination ≠ 0) := by
    rintro ⟨h,-⟩
    exact Bool.false_ne_true h
  apply List.filter_eq_self.mpr
  intro m hm
  rw [decide_eq_true_eq]
  rcases mem_modifiersAt hm with rfl | ⟨r,-,rfl⟩
  · exact hfinal
  · exact huser r

open NrAttributeConfig (create modifyDestinations)

/-- The configuration after a sequence of calls. -/
def configOf (hash : Bytes → UInt32) (calls : List AttributeConfigCall) : NrAttributeConfig :=
  calls.foldl (fun config call => config.modifyDestinations hash call.text
    call.includeDestinations call.excludeDestinations) create

/-- Where the finalizing rule is after a sequence of calls, the last one first. -/
def finalizePlaceRev : List AttributeConfigCall → FinalizePlace
  | [] => .absent
  | call :: calls => (finalizePlaceRev calls).next (userRules (call :: calls).reverse)

/-- Where the finalizing rule is after a sequence of calls. -/
def finalizePlace (calls : List AttributeConfigCall) : FinalizePlace :=
  finalizePlaceRev calls.reverse

lemma finalizePlace_concat (calls : List AttributeConfigCall) (call : AttributeConfigCall) :
    finalizePlace (calls ++ [call]) = (finalizePlace calls).next (userRules (calls ++ [call])) := by
  simp [finalizePlace,finalizePlaceRev]

lemma userRules_concat (calls : List AttributeConfigCall) (call : AttributeConfigCall) :
    userRules (calls ++ [call]) =
      SortedMerge.insert rank combine call.toRule (userRules calls) := by
  simp [userRules]

lemma sorted_userRules (calls : List AttributeConfigCall) :
    SortedMerge.Sorted rank (userRules calls) :=
  SortedMerge.sorted_foldl_insert isCombine _

/-- A property of rules by their rank and a flag that merging joins. -/
theorem exists_userRules (Q : List ℕ ×ₗ Bool → Prop) (f : AttributeRule → Bool)
    (hf : ∀ r r', f (r.combine r') = (f r || f r')) (calls : List AttributeConfigCall) :
    (∃ r ∈ userRules calls, Q r.rank ∧ f r = true) ↔
      ∃ call ∈ calls, Q call.toRule.rank ∧ f call.toRule = true := by
  unfold userRules
  rw [SortedMerge.exists_mem_foldl_insert isCombine Q f hf]
  simp

/-- The bit of logs. -/
theorem logs_iff (d : Destinations) : d &&& logDestination ≠ 0 ↔ d.getLsbD 5 = true := by
  have hlog : logDestination = BitVec.twoPow 32 5 := by decide
  rw [hlog,BitVec.and_twoPow]
  split_ifs with h
  · exact iff_of_true (by decide) h
  · exact iff_of_false (fun hne => hne rfl) h

lemma logs_or (d d' : Destinations) : (decide ((d ||| d') &&& logDestination ≠ 0)) =
    (decide (d &&& logDestination ≠ 0) || decide (d' &&& logDestination ≠ 0)) := by
  simp only [logs_iff,BitVec.getLsbD_or,Bool.decide_eq_true]

lemma exists_isStar (calls : List AttributeConfigCall) :
    (∃ r ∈ userRules calls, r.IsStar) ↔ ∃ call ∈ calls, call.toRule.IsStar := by
  unfold AttributeRule.IsStar
  simpa using exists_userRules (· = everything.rank) (fun _ => true) (fun _ _ => rfl) calls

lemma exists_isStar_includesLog (calls : List AttributeConfigCall) :
    (∃ r ∈ userRules calls, r.IsStar ∧ r.IncludesLog) ↔
      ∃ call ∈ calls, call.toRule.IsStar ∧ call.toRule.IncludesLog :=
  exists_userRules (· = everything.rank) AttributeRule.IncludesLog (fun _ _ => logs_or _ _) calls

lemma exists_isStar_excludesLog (calls : List AttributeConfigCall) :
    (∃ r ∈ userRules calls, r.IsStar ∧ r.ExcludesLog) ↔
      ∃ call ∈ calls, call.toRule.IsStar ∧ call.toRule.ExcludesLog :=
  exists_userRules (· = everything.rank) AttributeRule.ExcludesLog (fun _ _ => logs_or _ _) calls

lemma exists_not_isStar_includesLog (calls : List AttributeConfigCall) :
    (∃ r ∈ userRules calls, ¬r.IsStar ∧ r.IncludesLog) ↔
      ∃ call ∈ calls, ¬call.toRule.IsStar ∧ call.toRule.IncludesLog :=
  exists_userRules (· ≠ everything.rank) AttributeRule.IncludesLog (fun _ _ => logs_or _ _) calls

lemma valid_finalizePlace (calls : List AttributeConfigCall) :
    (finalizePlace calls).Valid (userRules calls) := by
  intro hafter
  have hstar : ∃ r ∈ userRules calls, r.IsStar := by
    induction calls using List.reverseRecOn with
    | nil => simp [finalizePlace,finalizePlaceRev] at hafter
    | append_singleton calls call ih =>
      rw [exists_isStar]
      rw [finalizePlace_concat,FinalizePlace.next] at hafter
      split_ifs at hafter with hnext hstar
      · exact (exists_isStar _).mp hstar
      · obtain ⟨c,hc,hstar⟩ := (exists_isStar calls).mp (ih hafter)
        exact ⟨c,List.mem_append_left _ hc,hstar⟩
  obtain ⟨r,hr,hstar⟩ := hstar
  obtain ⟨rest,hrest⟩ := head_of_isStar (sorted_userRules calls) hr hstar
  exact ⟨r,rest,hrest,hstar⟩

/-- The configuration is made of the rules of the user and the finalizing rule. -/
theorem configOf_eq (hash : Bytes → UInt32) (calls : List AttributeConfigCall) :
    configOf hash calls = ⟨0,modifiersAt hash (finalizePlace calls) (userRules calls)⟩ := by
  induction calls using List.reverseRecOn with
  | nil => rfl
  | append_singleton calls call ih =>
    have hinsert : insertModifier (call.toRule.toModifier hash)
        (modifiersAt hash (finalizePlace calls) (userRules calls)) =
          modifiersAt hash (finalizePlace calls)
            (SortedMerge.insert rank combine call.toRule
              (userRules calls)) :=
      insertModifier_modifiersAt (valid_finalizePlace calls) call.toRule
    rw [← userRules_concat] at hinsert
    have hneeds : addFinalizeRule (modifiersAt hash (finalizePlace calls)
        (userRules (calls ++ [call]))) false = true ↔ NeedsFinalize (userRules (calls ++ [call])) := by
      rw [addFinalizeRule_modifiersAt,addFinalizeRule_map]
      simp [NeedsFinalize]
    have hmodify : configOf hash (calls ++ [call]) = (configOf hash calls).modifyDestinations hash
        call.text call.includeDestinations call.excludeDestinations := by
      simp [configOf]
    rw [hmodify,ih,modifyDestinations,createInternal_call]
    simp only [hinsert,NrAttributeConfig.finalizeLogDestination,filter_modifiersAt,hneeds]
    rw [finalizePlace_concat,FinalizePlace.next]
    by_cases habsent : finalizePlace calls = .absent
    · rw [habsent]
      by_cases hneed : NeedsFinalize (userRules (calls ++ [call]))
      · rw [if_pos hneed,if_pos ⟨rfl,hneed⟩]
        exact congrArg (NrAttributeConfig.mk 0)
          (insertModifier_finalizeRule_absent (sorted_userRules _))
      · rw [if_neg hneed,if_neg fun h => hneed h.2]
    · have hplace : finalizePlace (calls ++ [call]) = finalizePlace calls := by
        rw [finalizePlace_concat,FinalizePlace.next,if_neg fun h => habsent h.1]
      have hvalid := valid_finalizePlace (calls ++ [call])
      rw [hplace] at hvalid
      change (if _ then NrAttributeConfig.mk 0 (insertModifier (finalizeRule hash) _) else _) = _
      rw [insertModifier_finalizeRule_present hvalid habsent,ite_self,if_neg fun h => habsent h.1]

lemma not_needsFinalize_of_absent (h : finalizePlace calls = .absent) : ¬NeedsFinalize (userRules calls) := by
  induction calls using List.reverseRecOn with
  | nil => simp [NeedsFinalize,userRules]
  | append_singleton calls call _ =>
    intro hneed
    rw [finalizePlace_concat,FinalizePlace.next] at h
    by_cases habsent : finalizePlace calls = .absent
    · rw [if_pos ⟨habsent,hneed⟩] at h
      split_ifs at h
    · rw [if_neg fun hand => habsent hand.1] at h
      exact habsent h

lemma includesLog_of_ne_absent (h : finalizePlace calls ≠ .absent) :
    ∃ call ∈ calls, ¬call.toRule.IsStar ∧ call.toRule.IncludesLog := by
  induction calls using List.reverseRecOn with
  | nil => exact absurd rfl h
  | append_singleton calls call ih =>
    rw [finalizePlace_concat,FinalizePlace.next] at h
    by_cases hnext : finalizePlace calls = .absent ∧ NeedsFinalize (userRules (calls ++ [call]))
    · obtain ⟨⟨r,hr,hlog⟩,hstar⟩ := hnext.2
      exact (exists_not_isStar_includesLog _).mp ⟨r,hr,fun hs => hstar ⟨r,hr,hs,hlog⟩,hlog⟩
    · rw [if_neg hnext] at h
      obtain ⟨c,hc,hspec⟩ := ih h
      exact ⟨c,List.mem_append_left _ hc,hspec⟩

/-- The finalizing rule comes after the rule of `*` only when that one did not include logs. -/
theorem not_includesLog_of_after (h : finalizePlace calls = .after) :
    ∃ call ∈ calls, call.toRule.IsStar ∧ ¬call.toRule.IncludesLog := by
  induction calls using List.reverseRecOn with
  | nil => simp [finalizePlace,finalizePlaceRev] at h
  | append_singleton calls call ih =>
    rw [finalizePlace_concat,FinalizePlace.next] at h
    by_cases hnext : finalizePlace calls = .absent ∧ NeedsFinalize (userRules (calls ++ [call]))
    · rw [if_pos hnext] at h
      split_ifs at h with hstar
      obtain ⟨c,hc,hstar⟩ := (exists_isStar _).mp hstar
      exact ⟨c,hc,hstar,fun hlog =>
        hnext.2.2 ((exists_isStar_includesLog _).mpr ⟨c,hc,hstar,hlog⟩)⟩
    · rw [if_neg hnext] at h
      obtain ⟨c,hc,hspec⟩ := ih h
      exact ⟨c,List.mem_append_left _ hc,hspec⟩

lemma finalizePlace_after_append (h : finalizePlace calls = .after) (rest : List AttributeConfigCall) :
    finalizePlace (calls ++ rest) = .after := by
  induction rest using List.reverseRecOn with
  | nil => rwa [List.append_nil]
  | append_singleton rest call ih =>
    rw [← List.append_assoc,finalizePlace_concat,FinalizePlace.next,ih]
    exact if_neg fun hand => by simp at hand

/-- A rule of `*` that includes logs at the start keeps the finalizing rule out. -/
theorem finalizePlace_cons_absent {call : AttributeConfigCall} (hstar : call.toRule.IsStar)
    (hlog : call.toRule.IncludesLog) (rest : List AttributeConfigCall) :
    finalizePlace (call :: rest) = .absent := by
  have hnone (rest : List AttributeConfigCall) : ¬NeedsFinalize (userRules (call :: rest)) :=
    fun hneed => hneed.2 ((exists_isStar_includesLog _).mpr ⟨call,by simp,hstar,hlog⟩)
  induction rest using List.reverseRecOn with
  | nil =>
    rw [← List.nil_append [call],finalizePlace_concat,FinalizePlace.next]
    exact if_neg fun hand => hnone [] hand.2
  | append_singleton rest c ih =>
    rw [← List.cons_append,finalizePlace_concat,FinalizePlace.next,ih]
    exact if_neg fun hand => hnone _ hand.2

lemma userRules_perm {calls calls' : List AttributeConfigCall} (h : calls.Perm calls') :
    userRules calls = userRules calls' :=
  SortedMerge.foldl_insert_perm isCombine (h.map _) []

/-! ### Destinations -/

/-- The destinations after the rules of a list. -/
def applyModifiers (hash : Bytes → UInt32) (modifiers : List NrAttributeDestinationModifier)
    (key : Bytes) (d : Destinations) : Destinations :=
  modifiers.foldl (fun d m => m.apply key (hash key) d) d

lemma apply_configOf (hash : Bytes → UInt32) (calls : List AttributeConfigCall) (key : Bytes)
    (d : Destinations) : (configOf hash calls).apply key (hash key) d =
      applyModifiers hash (modifiersAt hash (finalizePlace calls) (userRules calls)) key d := by
  have hall : ~~~(0 : Destinations) = BitVec.allOnes 32 := by decide
  rw [configOf_eq,NrAttributeConfig.apply,applyModifiers,hall,BitVec.and_allOnes]

lemma apply_of_isStar (h : r.IsStar) (key : Bytes) (d : Destinations) :
    (r.toModifier hash).apply key (hash key) d =
      (d ||| r.includeDestinations) &&& ~~~r.excludeDestinations := by
  obtain ⟨htext,hwildcard⟩ := isStar_iff.mp h
  have hmatch : (r.toModifier hash).isMatch key (hash key) = true := by
    simp [NrAttributeDestinationModifier.isMatch,toModifier,htext,hwildcard]
  rw [NrAttributeDestinationModifier.apply,if_pos hmatch]
  rfl

lemma apply_finalizeRule (key : Bytes) (d : Destinations) :
    (finalizeRule hash).apply key (hash key) d = d &&& ~~~logDestination := by
  have hmatch : (finalizeRule hash).isMatch key (hash key) = true := by
    simp [NrAttributeDestinationModifier.isMatch,finalizeRule,createInternal]
  rw [NrAttributeDestinationModifier.apply,if_pos hmatch]
  change (d ||| 0#32) &&& ~~~logDestination = _
  rw [BitVec.or_zero]

/-- Bit by bit, the finalizing rule clears that of logs. -/
theorem getLsbD_clear (d : Destinations) {i : ℕ} (hi : i < 32) :
    (d &&& ~~~logDestination).getLsbD i = (d.getLsbD i && decide (i ≠ 5)) := by
  have hlog : logDestination = BitVec.twoPow 32 5 := by decide
  rw [BitVec.getLsbD_and,BitVec.getLsbD_not,hlog,BitVec.getLsbD_twoPow]
  by_cases h : i = 5
  · simp [h]
  · have hne : ¬5 = i := fun heq => h heq.symm
    simp [h,hne,hi]

lemma getLsbD_clear_log (d : Destinations) : (d &&& ~~~logDestination).getLsbD 5 = false := by
  rw [getLsbD_clear d (by decide)]
  exact Bool.and_false _

/-- The rule of `*` hides the finalizing rule in front of it. -/
theorem before_eq_absent {d inc exc : Destinations}
    (h : inc &&& logDestination ≠ 0 ∨ exc &&& logDestination ≠ 0) :
    ((d &&& ~~~logDestination) ||| inc) &&& ~~~exc = (d ||| inc) &&& ~~~exc := by
  rw [logs_iff,logs_iff] at h
  apply BitVec.eq_of_getLsbD_eq
  intro i hi
  rw [BitVec.getLsbD_and,BitVec.getLsbD_and,BitVec.getLsbD_or,BitVec.getLsbD_or,
    BitVec.getLsbD_not,getLsbD_clear d hi]
  by_cases h5 : i = 5
  · subst h5
    revert h
    generalize d.getLsbD 5 = a, inc.getLsbD 5 = b, exc.getLsbD 5 = c
    revert a b c
    decide
  · simp [h5]

/-- In front of the rule of `*` or behind it, the finalizing rule does the same. -/
theorem after_eq_before {d inc exc : Destinations}
    (h : ¬inc &&& logDestination ≠ 0 ∨ exc &&& logDestination ≠ 0) :
    ((d ||| inc) &&& ~~~exc) &&& ~~~logDestination =
      ((d &&& ~~~logDestination) ||| inc) &&& ~~~exc := by
  rw [logs_iff,logs_iff] at h
  apply BitVec.eq_of_getLsbD_eq
  intro i hi
  rw [getLsbD_clear _ hi,BitVec.getLsbD_and,BitVec.getLsbD_and,BitVec.getLsbD_or,
    BitVec.getLsbD_or,BitVec.getLsbD_not,getLsbD_clear d hi]
  by_cases h5 : i = 5
  · subst h5
    revert h
    generalize d.getLsbD 5 = a, inc.getLsbD 5 = b, exc.getLsbD 5 = c
    revert a b c
    decide
  · simp [h5]

/-! ### Independence of the order -/

lemma isStar_toRule (call : AttributeConfigCall) :
    call.toRule.IsStar ↔ call.text = [asterisk] := by
  rw [isStar_iff]
  simp only [AttributeConfigCall.toRule]
  constructor
  · rintro ⟨htext,hwildcard⟩
    have hlast : call.text.getLast? = some asterisk := by simpa using hwildcard
    rw [if_pos hlast] at htext
    obtain ⟨front,hfront⟩ := List.getLast?_eq_some_iff.mp hlast
    rw [hfront,List.dropLast_concat] at htext
    rw [hfront,htext,List.nil_append]
  · intro h
    simp [h]

/-- Every order of the calls gives the same destinations to every attribute. -/
def IndependentOfOrder (hash : Bytes → UInt32) (calls : List AttributeConfigCall) : Prop :=
  ∀ calls' : List AttributeConfigCall, calls'.Perm calls → ∀ (key : Bytes) (d : Destinations),
    (configOf hash calls').apply key (hash key) d = (configOf hash calls).apply key (hash key) d

/-- Some call for `*` includes logs and another does not, some call for another text includes logs, and
no call for `*` excludes them. -/
structure OrderMatters (calls : List AttributeConfigCall) : Prop where
  star_without : ∃ call ∈ calls, call.text = [asterisk] ∧
    ¬call.includeDestinations &&& logDestination ≠ 0
  star_with : ∃ call ∈ calls, call.text = [asterisk] ∧
    call.includeDestinations &&& logDestination ≠ 0
  other_with : ∃ call ∈ calls, call.text ≠ [asterisk] ∧
    call.includeDestinations &&& logDestination ≠ 0
  not_excluded : ¬∃ call ∈ calls, call.text = [asterisk] ∧
    call.excludeDestinations &&& logDestination ≠ 0

lemma includesLog_toRule (call : AttributeConfigCall) : call.toRule.IncludesLog = true ↔
    call.includeDestinations &&& logDestination ≠ 0 :=
  decide_eq_true_iff

lemma excludesLog_toRule (call : AttributeConfigCall) : call.toRule.ExcludesLog = true ↔
    call.excludeDestinations &&& logDestination ≠ 0 :=
  decide_eq_true_iff

lemma OrderMatters.perm {calls calls' : List AttributeConfigCall} (h : OrderMatters calls)
    (hperm : calls.Perm calls') : OrderMatters calls' where
  star_without := h.star_without.imp fun _ hc => ⟨hperm.mem_iff.mp hc.1,hc.2⟩
  star_with := h.star_with.imp fun _ hc => ⟨hperm.mem_iff.mp hc.1,hc.2⟩
  other_with := h.other_with.imp fun _ hc => ⟨hperm.mem_iff.mp hc.1,hc.2⟩
  not_excluded := fun hexc =>
    h.not_excluded (hexc.imp fun _ hc => ⟨hperm.mem_iff.mpr hc.1,hc.2⟩)

/-- The destinations with the finalizing rule in its place are those with the rule in front, if it is
needed at some point and the order does not matter. -/
theorem apply_eq_before (hash : Bytes → UInt32) (h : ¬OrderMatters calls)
    (hother : ∃ call ∈ calls, ¬call.toRule.IsStar ∧ call.toRule.IncludesLog) (key : Bytes)
    (d : Destinations) : (configOf hash calls).apply key (hash key) d =
      applyModifiers hash (modifiersAt hash .before (userRules calls)) key d := by
  rw [apply_configOf]
  cases hplace : finalizePlace calls with
  | before => rfl
  | absent =>
    have hnot := not_needsFinalize_of_absent hplace
    obtain ⟨r,hr,-,hlog⟩ := (exists_not_isStar_includesLog calls).mpr hother
    have hstar : ∃ r ∈ userRules calls, r.IsStar ∧ r.IncludesLog := by
      by_contra hnone
      exact hnot ⟨⟨r,hr,hlog⟩,hnone⟩
    obtain ⟨s,hs,hstar,hlog⟩ := hstar
    obtain ⟨rest,hrest⟩ := head_of_isStar (sorted_userRules calls) hs hstar
    rw [hrest]
    simp only [modifiersAt,List.map_cons,applyModifiers,List.foldl_cons,apply_of_isStar hstar,
      apply_finalizeRule]
    rw [before_eq_absent (.inl (of_decide_eq_true hlog))]
  | after =>
    obtain ⟨s,rest,hrest,hstar⟩ := valid_finalizePlace calls hplace
    have hs : s ∈ userRules calls := by simp [hrest]
    have hsay : ¬s.includeDestinations &&& logDestination ≠ 0 ∨
        s.excludeDestinations &&& logDestination ≠ 0 := by
      by_contra hboth
      rw [not_or,not_not] at hboth
      obtain ⟨c₁,hc₁,hstar₁,hlog₁⟩ := not_includesLog_of_after hplace
      obtain ⟨c₂,hc₂,hstar₂,hlog₂⟩ := (exists_isStar_includesLog calls).mp
        ⟨s,hs,hstar,decide_eq_true hboth.1⟩
      obtain ⟨c₃,hc₃,hstar₃,hlog₃⟩ := hother
      rw [includesLog_toRule] at hlog₁ hlog₂ hlog₃
      rw [isStar_toRule] at hstar₁ hstar₂ hstar₃
      refine h ⟨⟨c₁,hc₁,hstar₁,hlog₁⟩,⟨c₂,hc₂,hstar₂,hlog₂⟩,⟨c₃,hc₃,hstar₃,hlog₃⟩,?_⟩
      rintro ⟨c,hc,hstarc,hexc⟩
      rw [← isStar_toRule] at hstarc
      rw [← excludesLog_toRule] at hexc
      obtain ⟨r,hr,hstarr,hexcr⟩ := (exists_isStar_excludesLog calls).mpr ⟨c,hc,hstarc,hexc⟩
      -- there is only one rule of `*`
      obtain ⟨rest',hrest'⟩ := head_of_isStar (sorted_userRules calls) hr hstarr
      rw [hrest,List.cons.injEq] at hrest'
      rw [← hrest'.1] at hexcr
      exact hboth.2 (of_decide_eq_true hexcr)
    rw [hrest]
    simp only [modifiersAt,List.map_cons,applyModifiers,List.foldl_cons,apply_of_isStar hstar,
      apply_finalizeRule]
    rw [after_eq_before hsay]

lemma independentOfOrder_of_not_orderMatters (hash : Bytes → UInt32) (h : ¬OrderMatters calls) :
    IndependentOfOrder hash calls := by
  intro calls' hperm key d
  by_cases hother : ∃ call ∈ calls, ¬call.toRule.IsStar ∧ call.toRule.IncludesLog
  · have hother' : ∃ call ∈ calls', ¬call.toRule.IsStar ∧ call.toRule.IncludesLog :=
      hother.imp fun _ hc => ⟨hperm.mem_iff.mpr hc.1,hc.2⟩
    have h' : ¬OrderMatters calls' := fun hmatters => h (hmatters.perm hperm)
    rw [apply_eq_before hash h hother,apply_eq_before hash h' hother',userRules_perm hperm]
  · -- the finalizing rule is never needed
    have habsent : finalizePlace calls = .absent := by
      by_contra hne
      exact hother (includesLog_of_ne_absent hne)
    have habsent' : finalizePlace calls' = .absent := by
      by_contra hne
      exact hother ((includesLog_of_ne_absent hne).imp fun _ hc => ⟨hperm.mem_iff.mp hc.1,hc.2⟩)
    rw [apply_configOf,apply_configOf,habsent,habsent',userRules_perm hperm]

/-- No rule but that of `*` has an empty text. -/
theorem isMatch_nil (hr : r ∈ userRules calls) (hstar : ¬r.IsStar) :
    (r.toModifier hash).isMatch [] (hash []) = false := by
  have htext : r.text ≠ [] := by
    intro htext
    have hwildcard : r.wildcard = false := by
      by_contra hw
      exact hstar (isStar_iff.mpr ⟨htext,Bool.of_not_eq_false hw⟩)
    have hrank := (exists_userRules (fun rank => rank = toLex ([],true)) (fun _ => true)
      (fun _ _ => rfl) calls).mp ⟨r,hr,by simp [rank,htext,hwildcard],rfl⟩
    obtain ⟨c,-,hc,-⟩ := hrank
    have hempty : c.toRule.text = [] ∧ c.toRule.wildcard = false := by
      simpa [rank] using hc
    simp only [AttributeConfigCall.toRule,decide_eq_false_iff_not] at hempty
    rw [if_neg hempty.2] at hempty
    exact c.text_ne hempty.1
  unfold NrAttributeDestinationModifier.isMatch
  split_ifs
  · cases h : r.text with
    | nil => exact absurd h htext
    | cons b bs => simp [toModifier,h]
  · have hcmp : strcmp (r.toModifier hash).text [] ≠ .eq := fun h => htext (strcmp_eq_iff.mp h)
    simp [hcmp]

/-- With the rule of `*` the other rules say nothing about the empty name. -/
theorem applyModifiers_nil {s : AttributeRule}
    {rest : List AttributeRule} (hrules : userRules calls = s :: rest) (hstar : s.IsStar)
    (d : Destinations) :
    applyModifiers hash (rest.map (toModifier hash)) [] d = d := by
  have hall : ∀ r ∈ rest, (r.toModifier hash).isMatch [] (hash []) = false := by
    intro r hr
    have hsorted := sorted_userRules calls
    rw [hrules] at hsorted
    have hlt := (List.pairwise_cons.mp hsorted).1 r hr
    have hmem : r ∈ userRules calls := hrules ▸ List.mem_cons_of_mem s hr
    apply isMatch_nil hmem
    intro hr'
    exact hlt.ne (Eq.trans hstar (Eq.symm hr'))
  clear hrules
  induction rest generalizing d with
  | nil => rfl
  | cons r rest ih =>
    have hr := hall r List.mem_cons_self
    have hskip : (r.toModifier hash).apply [] (hash []) d = d := by
      rw [NrAttributeDestinationModifier.apply,hr]
      rfl
    rw [List.map_cons,applyModifiers,List.foldl_cons,hskip]
    exact ih d fun r' hr' => hall r' (List.mem_cons_of_mem r hr')

/-- A call for `*` without logs and then another call with them put the finalizing rule last. -/
theorem finalizePlace_pair {c c' : AttributeConfigCall} (hstar : c.toRule.IsStar)
    (hlog : ¬c.toRule.IncludesLog) (hstar' : ¬c'.toRule.IsStar) (hlog' : c'.toRule.IncludesLog) :
    finalizePlace [c,c'] = .after := by
  have hfirst : finalizePlace [c] = .absent := by
    by_contra hne
    obtain ⟨c₁,hc₁,hstar₁,-⟩ := includesLog_of_ne_absent hne
    rw [List.mem_singleton.mp hc₁] at hstar₁
    exact hstar₁ hstar
  have hneed : NeedsFinalize (userRules [c,c']) := by
    constructor
    · obtain ⟨r,hr,-,hr'⟩ := (exists_not_isStar_includesLog [c,c']).mpr ⟨c',by simp,hstar',hlog'⟩
      exact ⟨r,hr,hr'⟩
    · intro hboth
      obtain ⟨c₁,hc₁,hstar₁,hlog₁⟩ := (exists_isStar_includesLog _).mp hboth
      rcases List.mem_pair.mp hc₁ with rfl | rfl
      · exact hlog hlog₁
      · exact hstar' hstar₁
  have hexists : ∃ r ∈ userRules [c,c'], r.IsStar := (exists_isStar _).mpr ⟨c,by simp,hstar⟩
  have hnext : finalizePlace [c,c'] = (finalizePlace [c]).next (userRules [c,c']) :=
    finalizePlace_concat [c] c'
  rw [hnext,FinalizePlace.next,if_pos ⟨hfirst,hneed⟩,if_pos hexists]

/-- Two orders of the same calls, and the empty name. -/
theorem not_independentOfOrder_of_orderMatters (hash : Bytes → UInt32) (h : OrderMatters calls) :
    ¬IndependentOfOrder hash calls := by
  classical
  intro hindependent
  obtain ⟨c₁,hc₁,hstar₁,hlog₁⟩ := h.star_without
  obtain ⟨c₂,hc₂,hstar₂,hlog₂⟩ := h.star_with
  obtain ⟨c₃,hc₃,hstar₃,hlog₃⟩ := h.other_with
  rw [← isStar_toRule] at hstar₁ hstar₂
  rw [← includesLog_toRule] at hlog₁ hlog₂ hlog₃
  have hnot₃ : ¬c₃.toRule.IsStar := mt (isStar_toRule c₃).mp hstar₃
  have hne : c₃ ≠ c₁ := by
    rintro rfl
    exact hnot₃ hstar₁
  have hmem₃ : c₃ ∈ calls.erase c₁ := (List.mem_erase_of_ne hne).mpr hc₃
  have hperm : (c₁ :: c₃ :: (calls.erase c₁).erase c₃).Perm calls :=
    ((List.perm_cons_erase hmem₃).symm.cons c₁).trans (List.perm_cons_erase hc₁).symm
  have hperm' : (c₂ :: calls.erase c₂).Perm calls := (List.perm_cons_erase hc₂).symm
  have hplace : finalizePlace (c₁ :: c₃ :: (calls.erase c₁).erase c₃) = .after :=
    finalizePlace_after_append (finalizePlace_pair hstar₁ hlog₁ hnot₃ hlog₃) _
  have hplace' := finalizePlace_cons_absent hstar₂ hlog₂ (calls.erase c₂)
  obtain ⟨s,hs,hstar,hlog⟩ := (exists_isStar_includesLog calls).mpr ⟨c₂,hc₂,hstar₂,hlog₂⟩
  obtain ⟨rest,hrest⟩ := head_of_isStar (sorted_userRules calls) hs hstar
  have hexc : s.excludeDestinations.getLsbD 5 = false := by
    rw [Bool.eq_false_iff,ne_eq,← logs_iff]
    intro hexc
    obtain ⟨c,hc,hstarc,hexcc⟩ := (exists_isStar_excludesLog calls).mp
      ⟨s,hs,hstar,decide_eq_true hexc⟩
    exact h.not_excluded ⟨c,hc,(isStar_toRule c).mp hstarc,(excludesLog_toRule c).mp hexcc⟩
  have hinc : s.includeDestinations.getLsbD 5 = true := (logs_iff _).mp (of_decide_eq_true hlog)
  have hsame := (hindependent _ hperm [] 0).trans (hindependent _ hperm' [] 0).symm
  rw [apply_configOf,apply_configOf,hplace,hplace',userRules_perm hperm,userRules_perm hperm',
    hrest] at hsame
  simp only [modifiersAt,List.map_cons] at hsame
  rw [applyModifiers,List.foldl_cons,List.foldl_cons,apply_of_isStar hstar,apply_finalizeRule,
    ← applyModifiers,applyModifiers_nil hrest hstar] at hsame
  rw [applyModifiers,List.foldl_cons,apply_of_isStar hstar,← applyModifiers,
    applyModifiers_nil hrest hstar] at hsame
  have hbit := congrArg (fun d => BitVec.getLsbD d 5) hsame
  rw [getLsbD_clear_log] at hbit
  simp only [BitVec.getLsbD_and,BitVec.getLsbD_or,BitVec.getLsbD_not,hinc,hexc] at hbit
  simp at hbit

/-- Exactly which sequences of calls can be reordered freely. -/
theorem independentOfOrder_iff (hash : Bytes → UInt32) (calls : List AttributeConfigCall) :
    IndependentOfOrder hash calls ↔ ¬OrderMatters calls :=
  ⟨fun h hmatters => not_independentOfOrder_of_orderMatters hash hmatters h,
    independentOfOrder_of_not_orderMatters hash⟩

/-- `*` for transaction events, then `A` for logs and `*` for logs, in both orders: the attribute `B`
goes to the logs only when `*` for logs comes before `A`. -/
theorem not_forall_independentOfOrder :
    ¬∀ (hash : Bytes → UInt32) (calls calls' : List AttributeConfigCall), calls'.Perm calls →
      ∀ (key : Bytes) (d : Destinations), (configOf hash calls').apply key (hash key) d =
        (configOf hash calls).apply key (hash key) d := by
  intro h
  have hswap := h (fun _ => 0)
    [⟨[asterisk],by decide,1,0⟩,⟨ascii "A",by decide,logDestination,0⟩,
      ⟨[asterisk],by decide,logDestination,0⟩]
    [⟨[asterisk],by decide,1,0⟩,⟨[asterisk],by decide,logDestination,0⟩,
      ⟨ascii "A",by decide,logDestination,0⟩]
    ((List.Perm.swap _ _ []).cons _) (ascii "B") logDestination
  revert hswap
  decide

end PhpAgent

import PhpAgent.Agent.Rules

/-! When the application of rules comes to an end. -/
namespace PhpAgent
namespace Rule

/-- Matches lie in the text, as the regular expression library promises; they may be empty. -/
def ValidRegexp (regex : Regexp) : Prop :=
  ∀ s m, regex.find s 0 = some m → m.start ≤ m.stop ∧ m.stop ≤ s.length

/-- The rule is applied by the loop over all matches. -/
def ReplacesAll (rule : Rule) : Prop :=
  rule.ignore = false ∧ rule.eachSegment = false ∧ rule.replaceAll = true

/-- The successive matches in a text come to an empty one where the one before ended. -/
inductive Stalls (rule : Rule) : Bytes → Prop
  | here {s : Bytes} {m : Match} (hfind : rule.regex.find s 0 = some m) (hempty : m.stop = 0)
      (hrepl : (rule.replaced m s).isSome) : Stalls rule s
  | later {s : Bytes} {m : Match} (hfind : rule.regex.find s 0 = some m)
      (hrepl : (rule.replaced m s).isSome) (hrest : Stalls rule (s.drop m.stop)) : Stalls rule s

/-- After an empty match the loop is where it was. -/
theorem Stalls.next {rule : Rule} {s : Bytes} (h : Stalls rule s) :
    ∃ m, rule.regex.find s 0 = some m ∧ (rule.replaced m s).isSome ∧ Stalls rule (s.drop m.stop) := by
  cases h with
  | here hfind hempty hrepl =>
    refine ⟨_,hfind,hrepl,?_⟩
    rw [hempty,List.drop_zero]
    exact .here hfind hempty hrepl
  | later hfind hrepl hrest => exact ⟨_,hfind,hrepl,hrest⟩

section Loop
variable {rule : Rule} {need : Bool}

/-- A replacement that is not built again does not depend on the match. -/
theorem replacement_isSome (hneed : need = true ∨ rule.hasCaptures = false) (m : Match) (s repl : Bytes) :
    (if need then rule.replaced m s else some repl).isSome = (rule.replaced m s).isSome := by
  cases need with
  | true => rfl
  | false =>
    have hcaptures := hneed.resolve_left (by decide)
    simp [replaced,hcaptures]

lemma need_next (hneed : need = true ∨ rule.hasCaptures = false) :
    (need && (rule.hasAlts || rule.hasCaptures)) = true ∨ rule.hasCaptures = false := by
  cases hc : rule.hasCaptures with
  | false => exact .inr rfl
  | true =>
    rw [hc] at hneed
    simpa using hneed

lemma applyAll_of_stalls {str s : Bytes} (h : Stalls rule s) (fuel : ℕ) (work repl : Bytes)
    (hneed : need = true ∨ rule.hasCaptures = false) (changed : Bool) :
    rule.applyAll str fuel s work repl need changed = none := by
  induction fuel generalizing s work repl need changed with
  | zero => rfl
  | succ fuel ih =>
    obtain ⟨m,hfind,hrepl,hrest⟩ := h.next
    have hsome := replacement_isSome hneed m s repl
    rw [hrepl] at hsome
    obtain ⟨text,htext⟩ := Option.isSome_iff_exists.mp hsome
    rw [applyAll,hfind]
    simp only [htext]
    exact ih hrest _ _ (need_next hneed) true

/-- Without a stall each match makes the rest of the text shorter. -/
theorem applyAll_of_not_stalls (hvalid : ValidRegexp rule.regex) (str : Bytes) {s : Bytes}
    (h : ¬ Stalls rule s) (work repl : Bytes)
    (hneed : need = true ∨ rule.hasCaptures = false) (changed : Bool) :
    ∃ fuel, (rule.applyAll str fuel s work repl need changed).isSome := by
  induction hn : s.length using Nat.strong_induction_on generalizing s work repl need changed with
  | _ n ih =>
    cases hfind : rule.regex.find s 0 with
    | none =>
      refine ⟨1,?_⟩
      simp [applyAll,hfind]
    | some m =>
      have hsome := replacement_isSome hneed m s repl
      cases htext : (if need then rule.replaced m s else some repl) with
      | none =>
        refine ⟨1,?_⟩
        simp [applyAll,hfind,htext]
      | some text =>
        rw [htext] at hsome
        have hstop : m.stop ≠ 0 := fun hempty => h (.here hfind hempty hsome.symm)
        have hrest : ¬ Stalls rule (s.drop m.stop) := fun hrest => h (.later hfind hsome.symm hrest)
        have hlen := (hvalid s m hfind).2
        have hshort : (s.drop m.stop).length < n := by
          rw [List.length_drop]
          omega
        obtain ⟨fuel,hfuel⟩ := ih _ hshort hrest (work ++ s.take m.start ++ text) text
          (need_next hneed) true rfl
        refine ⟨fuel+1,?_⟩
        rw [applyAll,hfind]
        simp only [htext]
        exact hfuel

lemma applyAll_succ {str : Bytes} {fuel : ℕ} {s work repl : Bytes} {need changed : Bool}
    {r : RulesResult × Bytes} (h : rule.applyAll str fuel s work repl need changed = some r) :
    rule.applyAll str (fuel+1) s work repl need changed = some r := by
  induction fuel generalizing s work repl need changed with
  | zero => cases h
  | succ fuel ih =>
    rw [applyAll] at h ⊢
    cases hfind : rule.regex.find s 0 with
    | none => simpa only [hfind] using h
    | some m =>
      simp only [hfind] at h ⊢
      cases htext : (if need then rule.replaced m s else some repl) with
      | none => simpa only [htext] using h
      | some text =>
        simp only [htext] at h ⊢
        exact ih h

lemma apply_mono {str : Bytes} {fuel fuel' : ℕ} (hle : fuel ≤ fuel') {r : RulesResult × Bytes}
    (h : rule.apply fuel str = some r) : rule.apply fuel' str = some r := by
  induction hle with
  | refl => exact h
  | step _ ih =>
    unfold apply at ih ⊢
    split_ifs at ih ⊢
    · exact ih
    · exact ih
    · exact applyAll_succ ih

/-- One rule finishes unless it is a `replace_all` rule that stalls on the string. -/
theorem apply_finishes_iff (hvalid : ValidRegexp rule.regex) (str : Bytes) :
    (∃ fuel r, rule.apply fuel str = some r) ↔ ¬ (rule.ReplacesAll ∧ Stalls rule (cstr str)) := by
  constructor
  · rintro ⟨fuel,r,h⟩ ⟨⟨hignore,heach,hall⟩,hstalls⟩
    simp only [apply,hignore,heach,hall,applyAll_of_stalls hstalls fuel [] [] (.inl rfl) false] at h
    simp at h
  · intro h
    by_cases hreplaces : rule.ReplacesAll
    · have hstalls : ¬ Stalls rule (cstr str) := fun hs => h ⟨hreplaces,hs⟩
      obtain ⟨fuel,hfuel⟩ := applyAll_of_not_stalls hvalid str hstalls [] [] (.inl rfl) false
      obtain ⟨r,hr⟩ := Option.isSome_iff_exists.mp hfuel
      refine ⟨fuel,r,?_⟩
      obtain ⟨hignore,heach,hall⟩ := hreplaces
      simpa [apply,hignore,heach,hall] using hr
    · refine ⟨0,?_⟩
      unfold apply
      split_ifs with honce heach
      · exact ⟨_,rfl⟩
      · exact ⟨_,rfl⟩
      · refine absurd ⟨?_,?_,?_⟩ hreplaces
        · simpa using (not_or.mp honce).1
        · simpa using heach
        · have := (not_or.mp honce).2
          simpa [heach] using this

end Loop

/-- The rules go on behind this result. -/
def GoesOn (rule : Rule) (result : RulesResult) : Prop :=
  result = .unchanged ∨ (result = .changed ∧ rule.terminate = false)

/-- Some rule that is reached stalls on the string it is given. -/
inductive Stuck : List Rule → Bytes → Prop
  | here {rule : Rule} {rules : List Rule} {str : Bytes} (hall : rule.ReplacesAll)
      (hstalls : Stalls rule (cstr str)) : Stuck (rule :: rules) str
  | later {rule : Rule} {rules : List Rule} {str str' : Bytes} {fuel : ℕ} {result : RulesResult}
      (happly : rule.apply fuel str = some (result,str')) (hgoes : rule.GoesOn result)
      (hrest : Stuck rules str') : Stuck (rule :: rules) str

lemma applyFrom_of_goesOn {rule : Rule} (rules : List Rule) {str str' : Bytes} {fuel : ℕ}
    {result : RulesResult} (happly : rule.apply fuel str = some (result,str'))
    (hgoes : rule.GoesOn result) (changed : Bool) :
    ∃ changed', applyFrom fuel (rule :: rules) str changed = applyFrom fuel rules str' changed' := by
  rcases hgoes with rfl | ⟨rfl,hterminate⟩
  · exact ⟨changed,by simp only [applyFrom,happly]⟩
  · exact ⟨true,by simp [applyFrom,happly,hterminate]⟩

variable {rules : List Rule} {str : Bytes}

lemma applyFrom_of_stuck (h : Stuck rules str) (fuel : ℕ)
    (changed : Bool) : applyFrom fuel rules str changed = none := by
  induction h generalizing changed with
  | @here rule rules str hall hstalls =>
    have hnone : rule.apply fuel str = none := by
      obtain ⟨hignore,heach,hreplace⟩ := hall
      simp [apply,hignore,heach,hreplace,applyAll_of_stalls hstalls fuel [] [] (.inl rfl) false]
    simp only [applyFrom,hnone]
  | @later rule rules str str' fuel' result happly hgoes _ ih =>
    cases hfuel : rule.apply fuel str with
    | none => simp only [applyFrom,hfuel]
    | some r =>
      -- more fuel gives the same result
      have hsame : r = (result,str') := by
        have h₁ := apply_mono (Nat.le_max_left fuel fuel') hfuel
        have h₂ := apply_mono (Nat.le_max_right fuel fuel') happly
        rw [h₁] at h₂
        cases h₂
        rfl
      subst hsame
      obtain ⟨changed',hchanged⟩ := applyFrom_of_goesOn rules hfuel hgoes changed
      rw [hchanged]
      exact ih changed'

lemma applyFrom_mono {fuel fuel' : ℕ} (hle : fuel ≤ fuel') {changed : Bool} {r : RulesResult × Option Bytes}
    (h : applyFrom fuel rules str changed = some r) : applyFrom fuel' rules str changed = some r := by
  induction rules generalizing str changed with
  | nil => exact h
  | cons rule rules ih =>
    unfold applyFrom at h ⊢
    cases happly : rule.apply fuel str with
    | none => simp only [happly] at h; cases h
    | some q =>
      rw [apply_mono hle happly]
      obtain ⟨result,str'⟩ := q
      simp only [happly] at h ⊢
      cases result with
      | ignore => exact h
      | changed =>
        simp only at h ⊢
        split_ifs at h ⊢
        · exact h
        · exact ih h
      | unchanged => exact ih h

lemma applyFrom_of_not_stuck (hvalid : ∀ rule ∈ rules, ValidRegexp rule.regex) (h : ¬ Stuck rules str)
    (changed : Bool) :
    ∃ fuel r, applyFrom fuel rules str changed = some r := by
  induction rules generalizing str changed with
  | nil => exact ⟨0,_,rfl⟩
  | cons rule rules ih =>
    have hfinishes := (apply_finishes_iff (hvalid rule List.mem_cons_self) str).mpr
      fun hs => h (.here hs.1 hs.2)
    obtain ⟨fuel,⟨result,str'⟩,happly⟩ := hfinishes
    by_cases hgoes : rule.GoesOn result
    · obtain ⟨fuel',hrest⟩ : ∃ fuel', ∀ changed, ∃ r, applyFrom fuel' rules str' changed = some r := by
        have hnot : ¬ Stuck rules str' := fun hs => h (.later happly hgoes hs)
        have hvalid' : ∀ rule ∈ rules, ValidRegexp rule.regex :=
          fun rule hrule => hvalid rule (List.mem_cons_of_mem _ hrule)
        obtain ⟨f₁,r₁,h₁⟩ := ih hvalid' hnot true
        obtain ⟨f₂,r₂,h₂⟩ := ih hvalid' hnot false
        refine ⟨max f₁ f₂,?_⟩
        intro changed
        cases changed with
        | true => exact ⟨r₁,applyFrom_mono (Nat.le_max_left _ _) h₁⟩
        | false => exact ⟨r₂,applyFrom_mono (Nat.le_max_right _ _) h₂⟩
      have happly' := apply_mono (Nat.le_max_left fuel fuel') happly
      obtain ⟨changed',hchanged⟩ := applyFrom_of_goesOn rules happly' hgoes changed
      obtain ⟨r,hr⟩ := hrest changed'
      exact ⟨max fuel fuel',r,hchanged.trans (applyFrom_mono (Nat.le_max_right _ _) hr)⟩
    · refine ⟨fuel,?_⟩
      unfold applyFrom
      rw [happly]
      cases result with
      | ignore => exact ⟨_,rfl⟩
      | changed =>
        have hterminate : rule.terminate = true := by
          by_contra hnot
          exact hgoes (.inr ⟨rfl,by simpa using hnot⟩)
        exact ⟨(.changed,some (cstr str')),by simp [hterminate]⟩
      | unchanged => exact absurd (.inl rfl) hgoes

/-- The rules finish exactly when no rule that is reached stalls. -/
theorem applyRules_finishes_iff {rules : List Rule}
    (hvalid : ∀ rule ∈ rules, ValidRegexp rule.regex) (name : Bytes) :
    (∃ fuel r, applyRules fuel rules name = some r) ↔ ¬ Stuck rules (initial name) := by
  constructor
  · rintro ⟨fuel,r,h⟩ hstuck
    rw [applyRules,applyFrom_of_stuck hstuck] at h
    cases h
  · intro h
    exact applyFrom_of_not_stuck hvalid h false

/-! ### Two expressions -/

def isX (c : UInt8) : Bool := tolower c = 0x78

/-- `x+`, in any case. -/
def xPlus : Regexp where
  find s pos :=
    let rest := s.drop pos
    let i := rest.findIdx isX
    if i < rest.length then some ⟨pos+i,pos+i+((rest.drop i).takeWhile isX).length,[]⟩ else none
  subexpNames := []
  wide := fun _ => false

/-- `x*`, in any case. -/
def xStar : Regexp where
  find s pos := some ⟨pos,pos+((s.drop pos).takeWhile isX).length,[]⟩
  subexpNames := []
  wide := fun _ => false

lemma valid_xPlus : ValidRegexp xPlus := by
  intro s m h
  simp only [xPlus,List.drop_zero,Nat.zero_add] at h
  split_ifs at h with hi
  cases h
  have hrun := (List.takeWhile_sublist isX (l := s.drop (s.findIdx isX))).length_le
  rw [List.length_drop] at hrun
  constructor
  · simp
  · simp only
    omega

lemma valid_xStar : ValidRegexp xStar := by
  intro s m h
  cases h
  have hrun := (List.takeWhile_sublist isX (l := s)).length_le
  exact ⟨Nat.le_add_right _ _,by simpa using hrun⟩

/-- A reply that asks for every match of an expression to be removed. -/
def removeAll (expr : String) : NrObj :=
  .hash [(ascii "match_expression",.string (ascii expr)),(ascii "replacement",.string []),
    (ascii "replace_all",.boolean true)]

def compileX (expr : Bytes) : Option Regexp :=
  if expr = ascii "x+" then some xPlus else if expr = ascii "x*" then some xStar else none

/-- The rule of a reply that asks for every match to be removed. -/
def removing (expr : String) (regex : Regexp) : Rule :=
  ⟨false,false,true,false,false,false,defaultOrder,ascii expr,[],regex⟩

theorem applyRules_finishes_xPlus : process compileX (removeAll "x+") = some (removing "x+" xPlus) ∧
    ¬ Stuck [removing "x+" xPlus] (initial (ascii "/axxb")) := by
  refine ⟨rfl,?_⟩
  refine (applyRules_finishes_iff ?_ _).mp ⟨3,(.changed,some (ascii "/ab")),by decide⟩
  intro rule hrule
  rw [List.mem_singleton.mp hrule]
  exact valid_xPlus

/-- A rule that matches nothing over and over. -/
theorem applyRules_xStar : process compileX (removeAll "x*") = some (removing "x*" xStar) ∧
    ValidRegexp xStar ∧ ∀ fuel, applyRules fuel [removing "x*" xStar] (ascii "/a") = none := by
  refine ⟨rfl,valid_xStar,?_⟩
  intro fuel
  refine applyFrom_of_stuck (.here ⟨rfl,rfl,rfl⟩ ?_) fuel false
  exact .here rfl (by decide) rfl

end Rule
end PhpAgent

import Mathlib.Data.List.DropRight
import PhpAgent.Agent.PhpPackages

/-! Which version of a package is kept when sources of several priorities supply one. -/
namespace PhpAgent.NrPhpPackages

variable {mkhash : Bytes → UInt32} {name : Bytes} {l : List NrPhpPackage}

/-- A sequence of calls on an empty collection. -/
def addPackages (mkhash : Bytes → UInt32) (adds : List (Option NrPhpPackage)) : NrPhpPackages mkhash :=
  adds.foldl addPackage (create mkhash)

/-- The packages that are added under a name. -/
def additions (name : Bytes) (adds : List (Option NrPhpPackage)) : List NrPhpPackage :=
  (adds.filterMap id).filter fun p => p.packageName = name

def priority (p : NrPhpPackage) : ℕ := p.sourcePriority.toNat

/-- The packages of the highest priority. -/
def IsHighest (l : List NrPhpPackage) (p : NrPhpPackage) : Prop := ∀ q ∈ l, priority q ≤ priority p

instance (l : List NrPhpPackage) : DecidablePred (IsHighest l) := fun _ => List.decidableBAll _ _

/-- The last of them. -/
def lastHighest (l : List NrPhpPackage) : Option NrPhpPackage := (l.filter (IsHighest l)).getLast?

/-- What comes after the last of them. -/
def afterHighest (l : List NrPhpPackage) : List NrPhpPackage := l.rtakeWhile fun p => ¬ IsHighest l p

/-- The packages that may replace the first one, whose priority the entry keeps. -/
def atLeastFirst (l : List NrPhpPackage) (p : NrPhpPackage) : Prop :=
  ∀ first ∈ l.head?, priority first ≤ priority p

instance (l : List NrPhpPackage) : DecidablePred (atLeastFirst l) :=
  fun _ => inferInstanceAs (Decidable (∀ first ∈ l.head?, _))

/-- The stored version is that of the last package of the highest priority. -/
def KeepsHighest (mkhash : Bytes → UInt32) (name : Bytes) (adds : List (Option NrPhpPackage)) : Prop :=
  ((addPackages mkhash adds).data.get name).map NrPhpPackage.packageVersion =
    (lastHighest (additions name adds)).map NrPhpPackage.packageVersion

/-- After the last package of the highest priority, the last one that is at least as high as the first
package has the same version, if there is one. A package has a name. -/
structure Unchallenged (name : Bytes) (adds : List (Option NrPhpPackage)) : Prop where
  kept : name = [] → additions name adds = []
  after : ∀ p ∈ lastHighest (additions name adds),
    ∀ q ∈ ((afterHighest (additions name adds)).filter (atLeastFirst (additions name adds))).getLast?,
      q.packageVersion = p.packageVersion

/-! ### The stored package -/

/-- One addition to what is stored under its name. -/
def storeStep (stored : Option NrPhpPackage) (p : NrPhpPackage) : Option NrPhpPackage :=
  some <| match stored with
    | none => p
    | some q => if priority q ≤ priority p then { q with packageVersion := p.packageVersion } else q

lemma get_addPackage {h : NrPhpPackages mkhash} (hname : name ≠ []) (p : NrPhpPackage) :
    (h.addPackage (some p)).data.get name =
      if p.packageName = name then storeStep (h.data.get name) p else h.data.get name := by
  have hget : ∀ h : NrPhpPackages mkhash, h.data.get name = h.data.fetch name :=
    fun _ => if_neg hname
  simp only [addPackage]
  by_cases hp : p.packageName = name
  · subst hp
    rw [if_pos rfl]
    cases hstored : h.data.get p.packageName with
    | some q =>
      simp only [storeStep]
      have hfetch := (hget h).symm.trans hstored
      split_ifs with hreplace hle hle
      · rw [hget,setVersion]
        change (h.data.modify p.packageName _).fetch p.packageName = _
        rw [NrHashmap.fetch_modify,if_pos rfl,hfetch]
        rfl
      · exact absurd hreplace.1 hle
      · -- the versions agree
        have hversion : q.packageVersion = p.packageVersion := by
          by_contra hne
          exact hreplace ⟨hle,hne⟩
        rw [hstored,← hversion]
      · exact hstored
    | none =>
      have hnew : h.data.fetch p.packageName = none := by
        rw [← hget]
        exact hstored
      simp only [if_neg hname,dif_pos hnew]
      rw [hget]
      change (h.data.addInternal p.packageName p hnew).fetch p.packageName = _
      rw [NrHashmap.fetch_addInternal,if_pos rfl]
      rfl
  · rw [if_neg hp]
    split
    · split_ifs
      · rw [hget,hget]
        change (h.data.modify p.packageName _).fetch name = _
        rw [NrHashmap.fetch_modify,if_neg (Ne.symm hp)]
      · rfl
    · split_ifs with hempty hnew
      · rfl
      · rw [hget,hget]
        change (h.data.addInternal p.packageName p hnew).fetch name = _
        rw [NrHashmap.fetch_addInternal,if_neg (Ne.symm hp)]
      · rfl

/-- Other names do not matter. -/
theorem get_foldl (hname : name ≠ []) (adds : List (Option NrPhpPackage)) (h : NrPhpPackages mkhash) :
    (adds.foldl addPackage h).data.get name = (additions name adds).foldl storeStep (h.data.get name) := by
  induction adds generalizing h with
  | nil => rfl
  | cons add adds ih =>
    rw [List.foldl_cons,ih]
    cases add with
    | none => rfl
    | some p =>
      rw [get_addPackage hname]
      by_cases hp : p.packageName = name
      · simp [additions,hp]
      · simp [additions,hp]

lemma get_addPackages (hname : name ≠ []) (adds : List (Option NrPhpPackage)) :
    (addPackages mkhash adds).data.get name = (additions name adds).foldl storeStep none := by
  have hcreate : (create mkhash).data.get name = none := by
    rw [NrHashmap.get,if_neg hname]
    exact NrHashmap.fetch_create name
  rw [addPackages,get_foldl hname,hcreate]

/-- The entry keeps the priority of the first package and takes every version that is at least as high. -/
theorem foldl_storeStep (first : NrPhpPackage) (rest : List NrPhpPackage) :
    ∃ q, (first :: rest).foldl storeStep none = some q ∧ priority q = priority first ∧
      some q.packageVersion = (((first :: rest).filter (atLeastFirst (first :: rest))).getLast?).map
        NrPhpPackage.packageVersion := by
  have hfirst : ∀ (l : List NrPhpPackage) p, atLeastFirst (first :: l) p ↔ priority first ≤ priority p := by
    intro l p
    simp [atLeastFirst]
  induction rest using List.reverseRecOn with
  | nil => exact ⟨first,rfl,rfl,by simp [hfirst]⟩
  | append_singleton rest p ih =>
    obtain ⟨q,hq,hpriority,hversion⟩ := ih
    rw [← List.cons_append,List.foldl_append,hq,List.foldl_cons,List.foldl_nil,List.filter_append]
    simp only [hfirst,List.cons_append] at hversion ⊢
    by_cases hle : priority first ≤ priority p
    · have hfilter : [p].filter (fun b => priority first ≤ priority b) = [p] := by simp [hle]
      refine ⟨{ q with packageVersion := p.packageVersion },?_,hpriority,?_⟩
      · rw [storeStep,if_pos (hpriority.trans_le hle)]
      · rw [hfilter,List.getLast?_concat]
        rfl
    · have hfilter : [p].filter (fun b => priority first ≤ priority b) = [] := by simp [hle]
      refine ⟨q,?_,hpriority,?_⟩
      · rw [storeStep,if_neg fun hq => hle (hpriority.symm.trans_le hq)]
      · rw [hfilter,List.append_nil]
        exact hversion

/-! ### The highest package -/

lemma exists_isHighest (hl : l ≠ []) : ∃ p ∈ l, IsHighest l p := by
  induction l with
  | nil => exact absurd rfl hl
  | cons a l ih =>
    by_cases hempty : l = []
    · subst hempty
      exact ⟨a,List.mem_cons_self,by simp [IsHighest]⟩
    · obtain ⟨p,hp,hhighest⟩ := ih hempty
      rcases le_total (priority a) (priority p) with hle | hle
      · exact ⟨p,List.mem_cons_of_mem a hp,List.forall_mem_cons.mpr ⟨hle,hhighest⟩⟩
      · exact ⟨a,List.mem_cons_self,
          List.forall_mem_cons.mpr ⟨le_rfl,fun q hq => (hhighest q hq).trans hle⟩⟩

lemma getLast?_filter {P : NrPhpPackage → Prop} [DecidablePred P]
    {p : NrPhpPackage} (hlast : l.getLast? = some p) (hp : P p) : (l.filter P).getLast? = some p := by
  obtain ⟨l,rfl⟩ := List.getLast?_eq_some_iff.mp hlast
  rw [List.filter_append]
  simp [hp]

lemma filter_of_eq_append {l before after : List NrPhpPackage} (h : l = before ++ after)
    (P : NrPhpPackage → Bool) : l.filter P = before.filter P ++ after.filter P := by
  rw [h,List.filter_append]

lemma isHighest_atLeastFirst {p : NrPhpPackage} (hp : IsHighest l p) :
    atLeastFirst l p := fun first hfirst => hp first (List.mem_of_mem_head? hfirst)

/-- A list up to its last highest package, and what comes after. -/
theorem exists_lastHighest (hl : l ≠ []) :
    ∃ p before, l = before ++ afterHighest l ∧ before.getLast? = some p ∧ IsHighest l p ∧
      lastHighest l = some p := by
  obtain ⟨highest,hmem,hhighest⟩ := exists_isHighest hl
  have hsplit : l = l.rdropWhile (fun p => ¬ IsHighest l p) ++ afterHighest l :=
    List.rdropWhile_append_rtakeWhile.symm
  have hafter : ∀ q ∈ afterHighest l, ¬ IsHighest l q := by
    intro q hq
    simpa using List.mem_rtakeWhile_imp hq
  have hbefore : l.rdropWhile (fun p => ¬ IsHighest l p) ≠ [] := by
    intro hnil
    rw [hnil,List.nil_append] at hsplit
    exact hafter highest (hsplit ▸ hmem) hhighest
  have hlast := List.rdropWhile_last_not (fun p => decide (¬ IsHighest l p)) l hbefore
  have hp : IsHighest l ((l.rdropWhile fun p => ¬ IsHighest l p).getLast hbefore) := by simpa using hlast
  refine ⟨_,_,hsplit,List.getLast?_eq_some_getLast hbefore,hp,?_⟩
  have hnone : (afterHighest l).filter (IsHighest l) = [] := by
    rw [List.filter_eq_nil_iff]
    intro q hq
    simpa using hafter q hq
  have hfilter : l.filter (IsHighest l) = (l.rdropWhile fun p => ¬ IsHighest l p).filter (IsHighest l) := by
    rw [filter_of_eq_append hsplit,hnone,List.append_nil]
  rw [lastHighest,hfilter]
  exact getLast?_filter (List.getLast?_eq_some_getLast hbefore) hp

lemma getLast?_filter_atLeastFirst (hl : l ≠ []) : (l.filter (atLeastFirst l)).getLast? =
      ((afterHighest l).filter (atLeastFirst l)).getLast?.or (lastHighest l) := by
  obtain ⟨p,before,hsplit,hlast,hp,hhighest⟩ := exists_lastHighest hl
  rw [filter_of_eq_append hsplit,List.getLast?_append,getLast?_filter hlast (isHighest_atLeastFirst hp),hhighest]

/-- The stored version is that of the highest priority exactly when nothing lower challenges it. -/
theorem keepsHighest_iff (mkhash : Bytes → UInt32) (name : Bytes) (adds : List (Option NrPhpPackage)) :
    KeepsHighest mkhash name adds ↔ Unchallenged name adds := by
  cases hadds : additions name adds with
  | nil =>
    have hstored : (addPackages mkhash adds).data.get name = none := by
      by_cases hname : name = []
      · rw [NrHashmap.get,if_pos hname]
      · rw [get_addPackages hname,hadds]
        rfl
    refine ⟨fun _ => ⟨fun _ => hadds,?_⟩,fun _ => ?_⟩
    · rw [hadds]
      nofun
    · rw [KeepsHighest,hstored,hadds]
      rfl
  | cons first rest =>
    have hl : first :: rest ≠ [] := List.cons_ne_nil first rest
    obtain ⟨p,_,_,_,_,hhighest⟩ := exists_lastHighest hl
    by_cases hname : name = []
    · constructor
      · intro hkeeps
        rw [KeepsHighest,NrHashmap.get,if_pos hname,hadds,hhighest] at hkeeps
        cases hkeeps
      · intro hun
        have hnone := hun.kept hname
        rw [hadds] at hnone
        cases hnone
    · obtain ⟨q,hq,_,hversion⟩ := foldl_storeStep first rest
      rw [getLast?_filter_atLeastFirst hl,hhighest] at hversion
      have hkeeps : KeepsHighest mkhash name adds ↔ q.packageVersion = p.packageVersion := by
        rw [KeepsHighest,get_addPackages hname,hadds,hq,hhighest]
        simp
      rw [hkeeps]
      constructor
      · intro heq
        refine ⟨fun hnil => absurd hnil hname,?_⟩
        rw [hadds,hhighest]
        rintro _ ⟨rfl⟩ r hr
        rw [Option.mem_def.mp hr] at hversion
        exact (Option.some.inj hversion).symm.trans heq
      · intro hun
        have hafter := hun.after
        rw [hadds,hhighest] at hafter
        cases hr : ((afterHighest (first :: rest)).filter (atLeastFirst (first :: rest))).getLast? with
        | none =>
          rw [hr] at hversion
          exact Option.some.inj hversion
        | some r =>
          rw [hr] at hversion
          exact (Option.some.inj hversion).trans (hafter p rfl r hr)

/-- A legacy version replaces the composer's, because the entry was made by a legacy source. -/
theorem not_keepsHighest :
    ¬ ∀ (mkhash : Bytes → UInt32) (name : Bytes) (adds : List (Option NrPhpPackage)),
      KeepsHighest mkhash name adds := by
  intro h
  have hkeeps := h (fun _ => 0) (ascii "p") [some ⟨ascii "p",ascii "1",.legacy⟩,
    some ⟨ascii "p",ascii "2",.composer⟩,some ⟨ascii "p",ascii "3",.legacy⟩]
  rw [KeepsHighest,get_addPackages (by decide)] at hkeeps
  revert hkeeps
  decide

end PhpAgent.NrPhpPackages

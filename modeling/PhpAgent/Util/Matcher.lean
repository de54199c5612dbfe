import Mathlib.Data.List.DropRight
import PhpAgent.Util.SqlTable

/-! Matching file names against prefixes, after `util_matcher.c`. -/
namespace PhpAgent
open Json (code)

/-- The text from the last `c` on. -/
def strrchr (s : Bytes) (c : UInt8) : Option Bytes :=
  match s with
  | [] => none
  | b :: rest => (strrchr rest c).or (if b = c then some (b :: rest) else none)

/-! ### Where a text occurs -/

lemma strstr_eq_none_iff {s needle : Bytes} :
    strstr s needle = none ↔ ∀ i, ¬needle <+: s.drop i := by
  induction s with
  | nil =>
    unfold strstr
    simp [List.isPrefixOf_iff_prefix]
  | cons b s ih =>
    unfold strstr
    by_cases hhere : needle <+: b :: s
    · rw [if_pos (List.isPrefixOf_iff_prefix.mpr hhere)]
      simpa using ⟨0,hhere⟩
    · rw [if_neg (by rwa [List.isPrefixOf_iff_prefix]),ih]
      constructor
      · intro h i
        cases i with
        | zero => exact hhere
        | succ i => exact h i
      · exact fun h i => h (i + 1)

/-- `strstr` finds the first place. -/
theorem strstr_eq_some_iff {s needle found : Bytes} (hne : needle ≠ []) :
    strstr s needle = some found ↔
      ∃ i, found = s.drop i ∧ needle <+: found ∧ ∀ j < i, ¬needle <+: s.drop j := by
  induction s with
  | nil =>
    unfold strstr
    rw [if_neg (by rw [List.isPrefixOf_iff_prefix,List.prefix_nil]; exact hne)]
    constructor
    · intro h
      cases h
    · rintro ⟨i,rfl,hp,-⟩
      rw [List.drop_nil,List.prefix_nil] at hp
      exact absurd hp hne
  | cons b s ih =>
    unfold strstr
    by_cases hhere : needle <+: b :: s
    · rw [if_pos (List.isPrefixOf_iff_prefix.mpr hhere)]
      constructor
      · intro h
        cases h
        exact ⟨0,rfl,hhere,fun j hj => absurd hj (Nat.not_lt_zero j)⟩
      · rintro ⟨i,rfl,-,hbefore⟩
        obtain rfl : i = 0 := Nat.eq_zero_of_not_pos fun hi => hbefore 0 hi hhere
        rfl
    · rw [if_neg (by rwa [List.isPrefixOf_iff_prefix]),ih]
      constructor
      · rintro ⟨i,rfl,hp,hbefore⟩
        refine ⟨i + 1,rfl,hp,?_⟩
        intro j hj
        cases j with
        | zero => exact hhere
        | succ j => exact hbefore j (by omega)
      · rintro ⟨i,rfl,hp,hbefore⟩
        cases i with
        | zero => exact absurd hp hhere
        | succ i => exact ⟨i,rfl,hp,fun j hj => hbefore (j + 1) (by omega)⟩

lemma strchr_eq_dropWhile {s : Bytes} {c : UInt8} :
    (c ∉ s ∧ strchr s c = none) ∨ strchr s c = some (s.dropWhile (· ≠ c)) := by
  induction s with
  | nil => exact .inl ⟨List.not_mem_nil,rfl⟩
  | cons b s ih =>
    unfold strchr
    by_cases hb : b = c
    · right
      rw [if_pos hb,List.dropWhile_cons_of_neg (by simpa using hb)]
    · rw [if_neg hb,List.dropWhile_cons_of_pos (by simpa using hb),List.mem_cons,not_or]
      exact ih.imp_left fun h => ⟨⟨Ne.symm hb,h.1⟩,h.2⟩

lemma strrchr_eq_none_iff {s : Bytes} {c : UInt8} : strrchr s c = none ↔ c ∉ s := by
  induction s with
  | nil => simp [strrchr]
  | cons b s ih =>
    rw [strrchr,Option.or_eq_none_iff,ih,List.mem_cons,not_or,and_comm]
    simp [eq_comm]

lemma strrchr_some {s p : Bytes} {c : UInt8} (h : strrchr s c = some p) :
    ∃ front back, s = front ++ c :: back ∧ p = c :: back ∧ c ∉ back := by
  induction s with
  | nil => cases h
  | cons b s ih =>
    rw [strrchr,Option.or_eq_some_iff] at h
    obtain h | ⟨hnone,h⟩ := h
    · obtain ⟨front,back,rfl,hp,hback⟩ := ih h
      exact ⟨b :: front,back,rfl,hp,hback⟩
    · split_ifs at h with hb
      cases h
      exact ⟨[],s,by rw [hb]; rfl,by rw [hb],strrchr_eq_none_iff.mp hnone⟩

namespace Matcher

/-- `nr_matcher_t`: the prefixes in the order they were added. The length of each goes with it. -/
abbrev Prefixes := List Bytes

/-- `nr_matcher_create`. -/
def create : Prefixes := []

/-- The text under which a prefix is kept. -/
def normal (str : Bytes) : Bytes :=
  (str.rdropWhile (· = code '/')).map tolower ++ [code '/']

/-- `nr_matcher_add_prefix`. -/
def addPrefix (prefixes : Prefixes) (str : Bytes) : Prefixes := prefixes ++ [normal str]

/-- The loop up to its `break`: the prefix and the text from its occurrence on. The lower-cased
copy of the input is made and not read. -/
def locate : Prefixes → Bytes → Option (Bytes × Bytes)
  | [],_ => none
  | p :: prefixes,input =>
    match strstr input p with
    | some found => some (p,found)
    | none => locate prefixes input

/-- `nr_matcher_match_internal`: the match and what `match_len` is set to. A length that would be
negative is a very large `size_t`. `nr_strndup` of a text, which has no NUL, is its first bytes. -/
def matchInternal (prefixes : Prefixes) (input : Bytes) (inputLen : ℤ) (core : Bool) :
    Option Bytes × ℤ :=
  match locate prefixes input with
  | none => (none,0)
  | some (p,at_) =>
    let found := at_.drop p.length
    match if core then strrchr found (code '/') else strchr found (code '/') with
    | none => (some found,inputLen - (input.length - found.length))
    | some slash =>
      if core then
        let behind : ℤ := inputLen - (input.length - slash.length)
        (some (if behind < 0 then slash.tail else slash.tail.take behind.toNat),behind - 1)
      else (some (found.take (found.length - slash.length)),found.length - slash.length)

/-- `nr_matcher_match_ex`. -/
def matchEx (prefixes : Prefixes) (input : Bytes) (inputLen : ℤ) : Option Bytes × ℤ :=
  matchInternal prefixes input inputLen false

/-- `nr_matcher_match`. -/
def matchLeft (prefixes : Prefixes) (input : Bytes) : Option Bytes :=
  (matchInternal prefixes input input.length false).1

/-- `nr_matcher_match_r_ex`. -/
def matchREx (prefixes : Prefixes) (input : Bytes) (inputLen : ℤ) : Option Bytes × ℤ :=
  matchInternal prefixes input inputLen true

/-- `nr_matcher_match_r`. -/
def matchR (prefixes : Prefixes) (input : Bytes) : Option Bytes :=
  (matchInternal prefixes input input.length true).1

/-! ### The match as it is meant -/

/-- The lower-cased text. -/
def lower (s : Bytes) : Bytes := s.map tolower

/-- A prefix stands in a text at an offset. -/
def OccursAt (p text : Bytes) (i : ℕ) : Prop := p <+: text.drop i

/-- The first prefix, in the order they were added, that stands in a text, and its first place. -/
def FirstPlace (prefixes : Prefixes) (text p : Bytes) (i : ℕ) : Prop :=
  (∃ front back, prefixes = front ++ p :: back ∧ ∀ q ∈ front, ∀ j, ¬OccursAt q text j) ∧
    OccursAt p text i ∧ ∀ j < i, ¬OccursAt p text j

/-- The path component at the beginning of a text. -/
def firstComponent (s : Bytes) : Bytes := s.takeWhile (· ≠ code '/')

/-- The path component at the end of a text. -/
def lastComponent (s : Bytes) : Bytes := s.rtakeWhile (· ≠ code '/')

/-- Matching that does not look at the case of the letters. -/
structure IgnoresCase (prefixes : Prefixes) (input : Bytes) : Prop where
  found_iff (core : Bool) : (matchInternal prefixes input input.length core).1.isSome ↔
    ∃ p ∈ prefixes, ∃ i, OccursAt p (lower input) i
  place {p : Bytes} {i : ℕ} : FirstPlace prefixes (lower input) p i →
    locate prefixes input = some (p,input.drop i)
  left {p : Bytes} {i : ℕ} : FirstPlace prefixes (lower input) p i →
    matchLeft prefixes input = some (firstComponent (input.drop (i + p.length))) ∧
      matchEx prefixes input input.length =
        (matchLeft prefixes input,((firstComponent (input.drop (i + p.length))).length : ℤ))
  right {p : Bytes} {i : ℕ} : FirstPlace prefixes (lower input) p i →
    matchR prefixes input = some (lastComponent (input.drop (i + p.length))) ∧
      matchREx prefixes input input.length =
        (matchR prefixes input,((lastComponent (input.drop (i + p.length))).length : ℤ))

/-- The prefix that stands first in the lower-cased input stands there in lower case. -/
def LowerAtPlace (prefixes : Prefixes) (input : Bytes) : Prop :=
  ∀ p i, FirstPlace prefixes (lower input) p i → OccursAt p input i

/-! ### The prefixes -/

/-- What a kept prefix looks like: in lower case, with its slash. -/
def IsNormal (p : Bytes) : Prop := p ≠ [] ∧ lower p = p

lemma isNormal_normal (str : Bytes) : IsNormal (normal str) := by
  constructor
  · exact List.append_ne_nil_of_right_ne_nil _ (List.cons_ne_nil _ _)
  · have hslash : tolower (code '/') = code '/' := rfl
    rw [lower,normal,List.map_append,List.map_map,List.map_singleton,hslash]
    congr 2
    funext c
    exact tolower_tolower c

lemma isNormal_of_mem {strs : List Bytes} {p : Bytes} {prefixes : Prefixes}
    (hall : ∀ q ∈ prefixes, IsNormal q) (hp : p ∈ strs.foldl addPrefix prefixes) : IsNormal p := by
  induction strs generalizing prefixes with
  | nil => exact hall p hp
  | cons str strs ih =>
    refine ih (fun q hq => ?_) hp
    obtain hq | hq := List.mem_append.mp hq
    · exact hall q hq
    · rw [List.mem_singleton.mp hq]
      exact isNormal_normal str

variable {i : ℕ}

/-- What stands in the input as it is kept stands in the lower-cased input too. -/
theorem OccursAt.lower {p input : Bytes} (hp : IsNormal p) (h : OccursAt p input i) :
    OccursAt p (lower input) i := by
  have hmap := h.map tolower
  rwa [List.map_drop,← Matcher.lower,hp.2] at hmap

/-! ### The loop -/

lemma locate_eq_none_iff {prefixes : Prefixes} {input : Bytes} :
    locate prefixes input = none ↔ ∀ p ∈ prefixes, ∀ i, ¬OccursAt p input i := by
  induction prefixes with
  | nil => simp [locate]
  | cons p prefixes ih =>
    rw [List.forall_mem_cons,← ih]
    change _ ↔ (∀ i, ¬p <+: input.drop i) ∧ _
    rw [← strstr_eq_none_iff,locate]
    cases strstr input p <;> simp

/-- The loop stops at the first place. -/
theorem locate_of_firstPlace {prefixes : Prefixes} {input p : Bytes}
    (hne : p ≠ []) (h : FirstPlace prefixes input p i) :
    locate prefixes input = some (p,input.drop i) := by
  obtain ⟨⟨front,back,rfl,hfront⟩,hp,hbefore⟩ := h
  induction front with
  | nil =>
    have hfound := (strstr_eq_some_iff hne).mpr ⟨i,rfl,hp,hbefore⟩
    rw [List.nil_append,locate,hfound]
  | cons q front ih =>
    have hq : strstr input q = none := strstr_eq_none_iff.mpr (hfront q List.mem_cons_self)
    rw [List.cons_append,locate,hq]
    exact ih fun q hq => hfront q (List.mem_cons_of_mem _ hq)

lemma prefix_of_locate {prefixes : Prefixes} {input p found : Bytes} (hne : ∀ q ∈ prefixes, q ≠ [])
    (h : locate prefixes input = some (p,found)) : p <+: found := by
  induction prefixes with
  | nil => cases h
  | cons q prefixes ih =>
    rw [locate] at h
    cases hq : strstr input q with
    | none =>
      rw [hq] at h
      exact ih (fun r hr => hne r (List.mem_cons_of_mem _ hr)) h
    | some at_ =>
      rw [hq] at h
      cases h
      exact ((strstr_eq_some_iff (hne p List.mem_cons_self)).mp hq).choose_spec.2.1

/-- Where a prefix stands in a text there is a first place. -/
theorem exists_firstPlace {prefixes : Prefixes} {text p : Bytes} (hp : p ∈ prefixes)
    (h : OccursAt p text i) : ∃ q j, FirstPlace prefixes text q j := by
  classical
  induction prefixes with
  | nil => cases hp
  | cons r prefixes ih =>
    by_cases hr : ∃ j, OccursAt r text j
    · refine ⟨r,Nat.find hr,⟨[],prefixes,rfl,?_⟩,Nat.find_spec hr,fun j => Nat.find_min hr⟩
      exact List.forall_mem_nil _
    · obtain rfl | hp := List.mem_cons.mp hp
      · exact absurd ⟨i,h⟩ hr
      · obtain ⟨q,j,⟨front,back,rfl,hfront⟩,hq⟩ := ih hp
        refine ⟨q,j,⟨r :: front,back,rfl,?_⟩,hq⟩
        rw [List.forall_mem_cons]
        exact ⟨not_exists.mp hr,hfront⟩

/-! ### The match -/

/-- The component that a call cuts out of the text behind the prefix. -/
def component (core : Bool) (rest : Bytes) : Bytes :=
  if core then lastComponent rest else firstComponent rest

lemma firstComponent_eq (rest : Bytes) :
    firstComponent rest =
      rest.take (rest.length - (rest.dropWhile (· ≠ code '/')).length) := by
  have hlen : (rest.takeWhile (· ≠ code '/')).length
      = rest.length - (rest.dropWhile (· ≠ code '/')).length := by
    have h := congrArg List.length (List.takeWhile_append_dropWhile (p := (· ≠ code '/')) (l := rest))
    rw [List.length_append] at h
    omega
  rw [firstComponent,← hlen]
  nth_rewrite 3 [← List.takeWhile_append_dropWhile (p := (· ≠ code '/')) (l := rest)]
  rw [List.take_left]

lemma length_firstComponent (rest : Bytes) :
    (firstComponent rest).length = rest.length - (rest.dropWhile (· ≠ code '/')).length := by
  have h := congrArg List.length (List.takeWhile_append_dropWhile (p := (· ≠ code '/')) (l := rest))
  rw [List.length_append] at h
  rw [firstComponent]
  omega

lemma firstComponent_of_not_mem {rest : Bytes} (h : code '/' ∉ rest) :
    firstComponent rest = rest := by
  rw [firstComponent,List.takeWhile_eq_self_iff]
  intro c hc
  simpa using fun heq : c = code '/' => h (heq ▸ hc)

lemma lastComponent_of_not_mem {rest : Bytes} (h : code '/' ∉ rest) :
    lastComponent rest = rest := by
  rw [lastComponent,List.rtakeWhile_eq_self_iff]
  intro c hc
  simpa using fun heq : c = code '/' => h (heq ▸ hc)

lemma lastComponent_append {front back : Bytes} (h : code '/' ∉ back) :
    lastComponent (front ++ code '/' :: back) = back := by
  rw [lastComponent,List.rtakeWhile,List.reverse_append,List.reverse_cons,List.append_assoc,
    List.takeWhile_append_of_pos]
  · rw [List.singleton_append,List.takeWhile_cons_of_neg (by simp),List.append_nil,List.reverse_reverse]
  · intro c hc
    rw [List.mem_reverse] at hc
    simpa using fun heq : c = code '/' => h (heq ▸ hc)

/-- What a call returns for a prefix found at an offset. -/
theorem matchInternal_of_locate {prefixes : Prefixes} {input p : Bytes} (core : Bool)
    (h : locate prefixes input = some (p,input.drop i)) :
    matchInternal prefixes input input.length core =
      (some (component core (input.drop (i + p.length))),
        ((component core (input.drop (i + p.length))).length : ℤ)) := by
  have hrest : (input.drop i).drop p.length = input.drop (i + p.length) := List.drop_drop
  set rest := input.drop (i + p.length) with hdef
  have hle : rest.length ≤ input.length := by
    rw [hdef,List.length_drop]
    omega
  simp only [matchInternal,h,hrest]
  cases core with
  | false =>
    simp only [Bool.false_eq_true,if_false,component]
    obtain ⟨hnone,hchr⟩ | hchr := strchr_eq_dropWhile (s := rest) (c := code '/')
    · simp only [hchr,firstComponent_of_not_mem hnone]
      rw [sub_sub_cancel]
    · have hsub := length_firstComponent rest
      have hdrop : (rest.dropWhile (· ≠ code '/')).length ≤ rest.length :=
        (List.dropWhile_suffix _).length_le
      simp only [hchr,← firstComponent_eq]
      congr 1
      omega
  | true =>
    simp only [if_true,component]
    cases hchr : strrchr rest (code '/') with
    | none =>
      simp only [lastComponent_of_not_mem (strrchr_eq_none_iff.mp hchr)]
      rw [sub_sub_cancel]
    | some slash =>
      obtain ⟨front,back,heq,rfl,hback⟩ := strrchr_some hchr
      have hnonneg : ¬((input.length : ℤ) - (input.length - (code '/' :: back).length) < 0) := by
        rw [sub_sub_cancel]
        omega
      simp only [if_neg hnonneg]
      rw [sub_sub_cancel,Int.toNat_natCast,List.tail_cons,heq,lastComponent_append hback,
        List.take_of_length_le (by rw [List.length_cons]; omega),List.length_cons]
      congr 1
      omega

lemma matchInternal_isSome (prefixes : Prefixes) (input : Bytes) (inputLen : ℤ) (core : Bool) :
    (matchInternal prefixes input inputLen core).1.isSome = (locate prefixes input).isSome := by
  unfold matchInternal
  cases hloc : locate prefixes input with
  | none => rfl
  | some found =>
    dsimp only
    split
    · rfl
    · split_ifs <;> rfl

/-! ### Matching without regard to case -/

variable {prefixes : Prefixes} {input : Bytes}

/-- A first place in the lower-cased input at which the input is in lower case is its first place
in the input. -/
theorem FirstPlace.of_lower {p : Bytes} (hall : ∀ q ∈ prefixes, IsNormal q)
    (h : FirstPlace prefixes (lower input) p i) (hp : OccursAt p input i) :
    FirstPlace prefixes input p i := by
  obtain ⟨⟨front,back,rfl,hfront⟩,-,hbefore⟩ := h
  have hnormal : IsNormal p := hall p (List.mem_append_right _ List.mem_cons_self)
  refine ⟨⟨front,back,rfl,fun q hq j hj => ?_⟩,hp,fun j hj hocc => hbefore j hj (hocc.lower hnormal)⟩
  exact hfront q hq j (hj.lower (hall q (List.mem_append_left _ hq)))

lemma ignoresCase_iff (hall : ∀ q ∈ prefixes, IsNormal q) :
    IgnoresCase prefixes input ↔ LowerAtPlace prefixes input := by
  constructor
  · intro h p i hplace
    exact prefix_of_locate (fun q hq => (hall q hq).1) (h.place hplace)
  · intro h
    have hplace {p : Bytes} {i : ℕ} (hp : FirstPlace prefixes (lower input) p i) :
        locate prefixes input = some (p,input.drop i) := by
      have hnormal : IsNormal p := by
        obtain ⟨⟨front,back,rfl,-⟩,-⟩ := id hp
        exact hall p (List.mem_append_right _ List.mem_cons_self)
      exact locate_of_firstPlace hnormal.1 (hp.of_lower hall (h p i hp))
    refine ⟨fun core => ?_,hplace,fun hp => ?_,fun hp => ?_⟩
    · rw [matchInternal_isSome]
      constructor
      · intro hsome
        by_contra hnot
        have hnone : locate prefixes input = none := by
          rw [locate_eq_none_iff]
          exact fun p hp i hocc => hnot ⟨p,hp,i,hocc.lower (hall p hp)⟩
        rw [hnone] at hsome
        cases hsome
      · rintro ⟨p,hp,i,hocc⟩
        obtain ⟨q,j,hq⟩ := exists_firstPlace hp hocc
        rw [hplace hq]
        rfl
    · have hmatch := matchInternal_of_locate false (hplace hp)
      exact ⟨congrArg Prod.fst hmatch,by rw [matchEx,matchLeft,hmatch]; rfl⟩
    · have hmatch := matchInternal_of_locate true (hplace hp)
      exact ⟨congrArg Prod.fst hmatch,by rw [matchREx,matchR,hmatch]; rfl⟩

/-- Matching ignores the case of the letters exactly where the input has the first prefix in lower
case, and only between such inputs is the outcome promised to be the same. -/
theorem matches_ignoresCase_iff (strs : List Bytes) (input : Bytes) :
    (IgnoresCase (strs.foldl addPrefix create) input ↔
      LowerAtPlace (strs.foldl addPrefix create) input) ∧
    ∀ other, lower other = lower input → LowerAtPlace (strs.foldl addPrefix create) input →
      LowerAtPlace (strs.foldl addPrefix create) other →
      ((matchLeft (strs.foldl addPrefix create) input).isSome ↔
        (matchLeft (strs.foldl addPrefix create) other).isSome) ∧
      ((matchR (strs.foldl addPrefix create) input).isSome ↔
        (matchR (strs.foldl addPrefix create) other).isSome) := by
  have hall : ∀ q ∈ strs.foldl addPrefix create, IsNormal q :=
    fun q hq => isNormal_of_mem (List.forall_mem_nil _) hq
  refine ⟨ignoresCase_iff hall,?_⟩
  intro other heq hinput hother
  have hin := ((ignoresCase_iff hall).mpr hinput).found_iff
  have hot := ((ignoresCase_iff hall).mpr hother).found_iff
  simp only [heq] at hot
  exact ⟨(hin false).trans (hot false).symm,(hin true).trans (hot true).symm⟩

/-- Letters of either case behind the prefix. -/
theorem matches_foo :
    matchLeft ([ascii "/Foo//"].foldl addPrefix create) (ascii "/foo/Bar/baz") = some (ascii "Bar") ∧
      matchR ([ascii "/Foo//"].foldl addPrefix create) (ascii "/foo/Bar/baz") = some (ascii "baz") := by
  have hprefixes : [ascii "/Foo//"].foldl addPrefix create = [ascii "/foo/"] := by decide
  have hoccurs : OccursAt (ascii "/foo/") (lower (ascii "/foo/Bar/baz")) 0 := ⟨ascii "bar/baz",by decide⟩
  have hplace : LowerAtPlace ([ascii "/Foo//"].foldl addPrefix create) (ascii "/foo/Bar/baz") := by
    rintro p i ⟨⟨front,back,hp,-⟩,-,hfirst⟩
    have hmem : p ∈ [ascii "/foo/"] := by simp [← hprefixes,hp]
    obtain rfl := List.mem_singleton.mp hmem
    obtain rfl : i = 0 := Nat.eq_zero_of_not_pos fun hpos => hfirst 0 hpos hoccurs
    exact ⟨ascii "Bar/baz",by decide⟩
  have hignores := (matches_ignoresCase_iff [ascii "/Foo//"] (ascii "/foo/Bar/baz")).1.mpr hplace
  have hfirst : FirstPlace ([ascii "/Foo//"].foldl addPrefix create) (lower (ascii "/foo/Bar/baz"))
      (ascii "/foo/") 0 := ⟨⟨[],[],hprefixes,by simp⟩,hoccurs,by simp⟩
  exact ⟨(hignores.left hfirst).1.trans (by decide),(hignores.right hfirst).1.trans (by decide)⟩

theorem not_matches_ignoresCase :
    ¬∀ (strs : List Bytes) (input : Bytes), IgnoresCase (strs.foldl addPrefix create) input := by
  intro h
  have hfound := (h [ascii "/foo"] (ascii "/FOO/bar")).found_iff false
  have hin : ∃ p ∈ [ascii "/foo"].foldl addPrefix create,
      ∃ i, OccursAt p (lower (ascii "/FOO/bar")) i := by
    refine ⟨ascii "/foo/",by decide,0,ascii "bar",by decide⟩
  have hsome := hfound.mpr hin
  revert hsome
  decide +kernel

end Matcher
end PhpAgent

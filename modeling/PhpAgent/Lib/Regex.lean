import PhpAgent.Lib.CType

/-! Regular expressions of groups, alternatives, `$`, `.` and single bytes, as they are written for
PCRE, matched at the start of the subject without regard to case. The pattern is read as PCRE reads it
without options for its syntax; what is not of this form is not read. -/
namespace PhpAgent

inductive Regex
  | empty
  | byte (c : UInt8)
  | dollar
  | dot
  | seq (r r' : Regex)
  | alt (r r' : Regex)
deriving DecidableEq

namespace Regex

/-! ### Reading a pattern -/

/-- A group that is open: its alternatives so far and the one that is being read. -/
structure Frame where
  alternatives : List Regex
  current : Regex

namespace Frame

def new : Frame := ⟨[],empty⟩
def add (f : Frame) (r : Regex) : Frame := { f with current := seq f.current r }
def next (f : Frame) : Frame := ⟨f.alternatives ++ [f.current],empty⟩
def close (f : Frame) : Regex := f.alternatives.foldr alt f.current

end Frame

def isOctal (c : UInt8) : Bool := 0x30 ≤ c && c ≤ 0x37

/-- The bytes `[`, `*`, `+`, `?`, `{` and `^`. -/
def isOther (c : UInt8) : Bool := c ∈ [0x5b,0x2a,0x2b,0x3f,0x7b,0x5e]

/-- Read the rest of a pattern, inside the open groups. A backslash makes a byte of what follows it, if
that is not a letter or a digit, or it is a zero and two octal digits. -/
def read : List Frame → Frame → List UInt8 → Option Regex
  | groups, f, [] =>
    match groups with
    | [] => some f.close
    | _ :: _ => none
  | groups, f, c :: cs =>
    if c = 0x28 then
      if cs.head? = some 0x3f ∨ cs.head? = some 0x2a then none else read (f :: groups) Frame.new cs
    else if c = 0x29 then
      match groups with
      | [] => none
      | g :: groups => read groups (g.add f.close) cs
    else if c = 0x7c then read groups f.next cs
    else if c = 0x24 then read groups (f.add dollar) cs
    else if c = 0x2e then read groups (f.add dot) cs
    else if c = 0x5c then
      match cs with
      | [] => none
      | d :: cs =>
        if d = 0x30 then
          match cs with
          | a :: b :: cs =>
            if isOctal a ∧ isOctal b then
              read groups (f.add (byte ((a-0x30)*8+(b-0x30)))) cs
            else none
          | _ => none
        else if isalnum d then none
        else read groups (f.add (byte d)) cs
    else if isOther c then none
    else read groups (f.add (byte c)) cs

/-- A byte that stands for itself in a pattern. -/
def IsPlain (c : UInt8) : Prop :=
  c ∉ ([0x28,0x29,0x7c,0x24,0x2e,0x5c] : List UInt8) ∧ isOther c = false

lemma read_plain {c : UInt8} (hc : IsPlain c) (groups : List Frame) (f : Frame) (cs : List UInt8) :
    read groups f (c :: cs) = read groups (f.add (byte c)) cs := by
  obtain ⟨hmeta,hother⟩ := hc
  simp only [List.mem_cons,List.not_mem_nil,or_false,not_or] at hmeta
  rw [read.eq_def]
  simp [hmeta,hother]

lemma read_quoted {c : UInt8} (hne : c ≠ 0x30) (halnum : isalnum c = false) (groups : List Frame)
    (f : Frame) (cs : List UInt8) :
    read groups f (0x5c :: c :: cs) = read groups (f.add (byte c)) cs := by
  rw [read.eq_def]
  simp [hne,halnum]

lemma read_zero (groups : List Frame) (f : Frame) (cs : List UInt8) :
    read groups f (0x5c :: 0x30 :: 0x30 :: 0x30 :: cs) = read groups (f.add (byte 0)) cs := rfl

/-- The three bytes that open a group, close it and separate its alternatives. -/
theorem read_group (groups : List Frame) (f : Frame) (cs : List UInt8) :
    (¬(cs.head? = some 0x3f ∨ cs.head? = some 0x2a) →
      read groups f (0x28 :: cs) = read (f :: groups) Frame.new cs) ∧
    (∀ g, read (g :: groups) f (0x29 :: cs) = read groups (g.add f.close) cs) ∧
    read groups f (0x7c :: cs) = read groups f.next cs := by
  refine ⟨fun h => ?_,fun g => ?_,?_⟩
  · rw [read.eq_def]
    exact (if_pos rfl).trans (if_neg h)
  · rw [read.eq_def]
    rfl
  · rw [read.eq_def]
    rfl

lemma read_open {cs : List UInt8} (h : ¬(cs.head? = some 0x3f ∨ cs.head? = some 0x2a))
    (groups : List Frame) (f : Frame) :
    read groups f (0x28 :: cs) = read (f :: groups) Frame.new cs := (read_group groups f cs).1 h

lemma read_close (groups : List Frame) (g f : Frame) (cs : List UInt8) :
    read (g :: groups) f (0x29 :: cs) = read groups (g.add f.close) cs := (read_group groups f cs).2.1 g

lemma read_bar (groups : List Frame) (f : Frame) (cs : List UInt8) :
    read groups f (0x7c :: cs) = read groups f.next cs := (read_group groups f cs).2.2

/-- The expression of a pattern. -/
def compile (pattern : List UInt8) : Option Regex := read [] Frame.new pattern

/-! ### Matching -/

def newline : UInt8 := 0x0a

section Fold
variable (fold : UInt8 → UInt8)

/-- What is left of the subject after each match at its start, in the order in which they are found. -/
def rests : Regex → List UInt8 → List (List UInt8)
  | empty, s => [s]
  | byte _, [] => []
  | byte c, d :: s => if fold c = fold d then [s] else []
  | dollar, s => if s = [] ∨ s = [newline] then [s] else []
  | dot, [] => []
  | dot, d :: s => if d = newline then [] else [s]
  | seq r r', s => (r.rests s).flatMap r'.rests
  | alt r r', s => r.rests s ++ r'.rests s

lemma rests_empty (s : List UInt8) : rests fold empty s = [s] := rfl

lemma rests_byte (c d : UInt8) (s : List UInt8) :
    rests fold (byte c) (d :: s) = if fold c = fold d then [s] else [] := rfl

lemma rests_dollar (s : List UInt8) : rests fold dollar s = if s = [] ∨ s = [newline] then [s] else [] := rfl

lemma rests_seq (r r' : Regex) (s : List UInt8) :
    rests fold (seq r r') s = (r.rests fold s).flatMap (r'.rests fold) := rfl

lemma rests_alt (r r' : Regex) (s : List UInt8) :
    rests fold (alt r r') s = r.rests fold s ++ r'.rests fold s := rfl

def isMatch (r : Regex) (s : List UInt8) : Prop := r.rests fold s ≠ []

instance (r : Regex) (s : List UInt8) : Decidable (isMatch fold r s) :=
  inferInstanceAs (Decidable (_ ≠ _))

end Fold

variable {fold : UInt8 → UInt8} {s : List UInt8}

lemma isMatch_alt {r r' : Regex} : isMatch fold (alt r r') s ↔ isMatch fold r s ∨ isMatch fold r' s := by
  simp only [isMatch,rests_alt,ne_eq,List.append_eq_nil_iff,not_and_or]

@[simp] lemma isMatch_empty (s : List UInt8) : isMatch fold empty s := by simp [isMatch,rests_empty]

lemma isMatch_seq_empty {r : Regex} : isMatch fold (seq empty r) s ↔ isMatch fold r s := by
  simp [isMatch,rests_seq,rests_empty]

lemma isMatch_close {f : Frame} :
    isMatch fold f.close s ↔ (∃ r ∈ f.alternatives, isMatch fold r s) ∨ isMatch fold f.current s := by
  obtain ⟨alternatives,current⟩ := f
  unfold Frame.close
  induction alternatives with
  | nil => simp
  | cons r rs ih => simp [isMatch_alt,ih,or_assoc]

/-- Nothing follows the end, even where the end is before a newline. -/
theorem not_isMatch_dollar_dot (s : List UInt8) : ¬isMatch fold (seq (seq empty dollar) dot) s := by
  unfold isMatch
  rw [not_not]
  simp only [rests_seq,rests_empty,rests_dollar,List.flatMap_cons,List.flatMap_nil,List.append_nil]
  split_ifs with hend
  · obtain rfl | rfl := hend
    · rfl
    · rfl
  · rfl

/-! ### Engines -/

/-- An engine: the code of a pattern tells whether a subject matches. -/
abbrev Engine : Type := List UInt8 → Option (List UInt8 → Bool)

/-- Of a pattern that is read, the engine makes code that matches where its expression does. -/
def Engine.Documented (engine : Engine) (fold : UInt8 → UInt8) : Prop :=
  ∀ pattern re, compile pattern = some re →
    ∃ code, engine pattern = some code ∧ ∀ s, code s = true ↔ isMatch fold re s

/-- An engine that does just that. -/
def Engine.reference (fold : UInt8 → UInt8) : Engine := fun pattern =>
  (compile pattern).map fun re s => decide (isMatch fold re s)

lemma Engine.reference_documented (fold : UInt8 → UInt8) : (Engine.reference fold).Documented fold := by
  intro pattern re hre
  exact ⟨_,by rw [Engine.reference,hre]; rfl,fun s => decide_eq_true_iff⟩

/-! ### Literal words -/

/-- The expression of the bytes of a word, after `r`. -/
def word (r : Regex) (w : List UInt8) : Regex := w.foldl (fun r c => seq r (byte c)) r

lemma rests_word (r : Regex) (w s : List UInt8) :
    (word r w).rests fold s =
      (r.rests fold s).flatMap fun t =>
        if w.map fold <+: t.map fold then [t.drop w.length] else [] := by
  induction w generalizing r with
  | nil => simp [word]
  | cons c w ih =>
    change (word (seq r (byte c)) w).rests fold s = _
    rw [ih,rests_seq,List.flatMap_assoc]
    congr 1
    funext t
    cases t with
    | nil => rfl
    | cons d t =>
      by_cases heq : fold c = fold d
      · simp [rests_byte,heq]
      · simp [rests_byte,heq]

lemma isMatch_word {w s : List UInt8} :
    isMatch fold (word empty w) s ↔ w.map fold <+: s.map fold := by
  unfold isMatch
  rw [rests_word]
  simp only [rests_empty,List.flatMap_cons,List.flatMap_nil,List.append_nil]
  split_ifs with h <;> simp [h]

end Regex
end PhpAgent

import Mathlib.Data.List.TakeWhile
import Mathlib.Data.UInt

/-! Strings in memory that end with a zero byte, and what the functions of `string.h` make of them. -/
namespace PhpAgent

/-- The string at the start of a memory. -/
def cstr (mem : List UInt8) : List UInt8 := mem.takeWhile (· ≠ 0)

/-- `strndup`: at most `n` bytes of the string at the start of a memory. -/
def strndup (mem : List UInt8) (n : ℕ) : List UInt8 := cstr (mem.take n)

/-- `strcpy` to the start of a memory. -/
def strcpy (mem src : List UInt8) : List UInt8 := src ++ 0 :: mem.drop (src.length+1)

lemma zero_not_mem_cstr (mem : List UInt8) : (0 : UInt8) ∉ cstr mem := by
  intro h
  have := List.mem_takeWhile_imp h
  simp at this

lemma cstr_append_zero {s : List UInt8} (h : (0 : UInt8) ∉ s) (rest : List UInt8) : cstr (s ++ 0 :: rest) = s := by
  unfold cstr
  rw [List.takeWhile_append_of_pos]
  · simp
  · intro c hc
    have hne : c ≠ 0 := fun h0 => h (h0 ▸ hc)
    simpa using hne

lemma cstr_strcpy {src : List UInt8} (h : (0 : UInt8) ∉ src) (mem : List UInt8) : cstr (strcpy mem src) = src :=
  cstr_append_zero h _

lemma cstr_cons {c : UInt8} (h : c ≠ 0) (mem : List UInt8) : cstr (c :: mem) = c :: cstr mem := by
  simp [cstr,h]

lemma cstr_initial (mem : List UInt8) : cstr mem <+: mem := List.takeWhile_prefix _

/-! ### Functions of `string.h` at a position -/

namespace CString

/-- The string at a position. -/
def stringAt (mem : List UInt8) (pos : ℕ) : List UInt8 := cstr (mem.drop pos)

/-- `strncmp` finds the text at a position, for its whole length. -/
def beginsWith (mem : List UInt8) (pos : ℕ) (text : List UInt8) : Bool := text.isPrefixOf (stringAt mem pos)

/-- The string at a position is empty. -/
def strempty (mem : List UInt8) (pos : ℕ) : Bool := stringAt mem pos = []

/-- `strchr`, for a character that is not zero. -/
def strchr (mem : List UInt8) (pos : ℕ) (c : UInt8) : Option ℕ :=
  if c ∈ stringAt mem pos then some (pos+(stringAt mem pos).idxOf c) else none

lemma stringAt_append {t : List UInt8} (ht : (0 : UInt8) ∉ t) (a r : List UInt8) :
    stringAt (a ++ (t ++ 0 :: r)) a.length = t := by
  rw [stringAt,List.drop_left]
  exact cstr_append_zero ht r

/-- A string is cut at the first place of a character. -/
theorem strchr_append {t u : List UInt8} {c : UInt8} (ht : (0 : UInt8) ∉ t ++ c :: u) (hc : c ∉ t)
    (a r : List UInt8) :
    strchr (a ++ (t ++ c :: u ++ 0 :: r)) a.length c = some (a.length+t.length) := by
  rw [strchr,stringAt_append ht,if_pos (by simp),List.idxOf_append_of_notMem hc]
  simp

lemma strchr_none {t : List UInt8} {c : UInt8} (ht : (0 : UInt8) ∉ t) (hc : c ∉ t)
    (a r : List UInt8) : strchr (a ++ (t ++ 0 :: r)) a.length c = none := by
  rw [strchr,stringAt_append ht,if_neg hc]

/-- A byte behind two texts is overwritten. -/
theorem set_append_append (a t u : List UInt8) (c d : UInt8) :
    (a ++ (t ++ c :: u)).set (a.length+t.length) d = a ++ (t ++ d :: u) := by
  rw [← List.append_assoc,← List.length_append,List.set_append_right _ _ (le_refl _),Nat.sub_self,
    List.set_cons_zero,List.append_assoc]

lemma modify_append_append (f : UInt8 → UInt8) (a t u : List UInt8) (c : UInt8) :
    (a ++ (t ++ c :: u)).modify (a.length+t.length) f = a ++ (t ++ f c :: u) := by
  rw [← List.append_assoc,← List.append_assoc,← List.length_append]
  induction a ++ t with
  | nil => rfl
  | cons d xs ih => rw [List.cons_append,List.length_cons,List.modify_succ_cons,ih,List.cons_append]

/-- A text falls apart in one way at the first place of a character. -/
theorem append_cons_inj {t t' u u' : List UInt8} {c : UInt8} (ht : c ∉ t) (ht' : c ∉ t')
    (h : t ++ c :: u = t' ++ c :: u') : t = t' ∧ u = u' := by
  have hsplit : ∀ (t u : List UInt8), c ∉ t → (t ++ c :: u).takeWhile (· ≠ c) = t := by
    intro t u ht
    rw [List.takeWhile_append_of_pos fun d hd => by simpa using fun heq : d = c => ht (heq ▸ hd)]
    simp
  have htake : t = t' := by rw [← hsplit t u ht,← hsplit t' u' ht',h]
  subst htake
  exact ⟨rfl,(List.cons.inj (List.append_cancel_left h)).2⟩

end CString
end PhpAgent

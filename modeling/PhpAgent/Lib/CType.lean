import Mathlib.Data.NNRat.Floor
import PhpAgent.Lib.JsonDecode

/-! Characters and numbers as programs in C take them: `ctype.h` in the "C" locale, the conversions
between `int`, `unsigned` and numbers of 64 bits, the number that `strtol` makes of digits, and doubles,
with a sign that zero has too, and what `printf` makes of them. -/
namespace PhpAgent

open Json (code decimal isDigit hexValue)

/-! ### Characters -/

def isspace (c : UInt8) : Bool := c = 0x20 || (0x09 ≤ c && c ≤ 0x0d)
def isalnum (c : UInt8) : Bool := isDigit c || (0x41 ≤ c && c ≤ 0x5a) || (0x61 ≤ c && c ≤ 0x7a)
def tolower (c : UInt8) : UInt8 := if 0x41 ≤ c ∧ c ≤ 0x5a then c ||| 0x20 else c

lemma isspace_of_isDigit (c : UInt8) (h : isDigit c = true) : isspace c = false := by
  have hall : ∀ n : Fin 256, isDigit (UInt8.ofFin n) = true → isspace (UInt8.ofFin n) = false := by
    decide +kernel
  exact hall c.toFin h

lemma tolower_tolower (c : UInt8) : tolower (tolower c) = tolower c := by
  have hall : ∀ n : Fin 256, tolower (tolower (UInt8.ofFin n)) = tolower (UInt8.ofFin n) := by
    decide +kernel
  exact hall c.toFin

/-! ### Integers -/

def toInt (n : ℤ) : ℤ := n.bmod (2^32)
def toUint (n : ℤ) : ℕ := (n % 2^32).toNat
def toUint64 (n : ℤ) : ℕ := (n % 2^64).toNat

/-- A length that is kept as an `int`. -/
def strlen (s : List UInt8) : ℤ := toInt s.length

lemma toInt_of_lt {n : ℕ} (h : n < 2^31) : toInt n = n := by
  unfold toInt
  apply Int.bmod_eq_of_le <;> omega

lemma toUint_of_lt {n : ℕ} (h : n < 2^31) : toUint n = n := by
  unfold toUint
  omega

lemma toUint64_of_lt {n : ℕ} (h : n < 2^31) : toUint64 n = n := by
  unfold toUint64
  omega

/-! ### Numbers in a text -/

def intMin : ℤ := -2^31
def intMax : ℤ := 2^31-1
def longMin : ℤ := -2^63
def longMax : ℤ := 2^63-1

/-- The number that is read of a sign and digits; it stops at the least and the largest `long`. -/
def toLong (negative : Bool) (value : ℕ) : ℤ :=
  max longMin (min longMax (if negative then -value else value))

lemma toLong_eq {negative : Bool} {value : ℕ} {i : ℤ} (hi : (if negative then -(value : ℤ) else value) = i)
    (hmin : longMin ≤ i) (hmax : i ≤ longMax) : toLong negative value = i := by
  rw [toLong,hi,min_eq_right hmax,max_eq_right hmin]

def valueOf (base : ℕ) (ds : List UInt8) : ℕ := ds.foldl (fun n d => base*n+hexValue d) 0

/-! ### Doubles -/

/-- A double: a finite one is a sign and the exact number behind it. -/
inductive Double
  | finite (negative : Bool) (magnitude : ℚ≥0)
  | infinite (negative : Bool)
  | nan (negative : Bool)
deriving DecidableEq

namespace Double

/-- A number as a double, without rounding. -/
def ofRat (q : ℚ) : Double := .finite (decide (q < 0)) (|q|).toNNRat

def negative : Double → Bool
  | finite negative _ | infinite negative | nan negative => negative

def IsFinite : Double → Prop
  | finite _ _ => True
  | infinite _ | nan _ => False

instance : DecidablePred IsFinite
  | finite _ _ => inferInstanceAs (Decidable True)
  | infinite _ | nan _ => inferInstanceAs (Decidable False)

/-- The comparison `0.0 < d`. -/
def IsPositive : Double → Prop
  | finite negative magnitude => negative = false ∧ magnitude ≠ 0
  | infinite negative => negative = false
  | nan _ => False

instance : DecidablePred IsPositive
  | finite negative magnitude => inferInstanceAs (Decidable (negative = false ∧ magnitude ≠ 0))
  | infinite negative => inferInstanceAs (Decidable (negative = false))
  | nan _ => inferInstanceAs (Decidable False)

/-! ### Doubles as texts -/

/-- The nearest integer, ties to the even one. -/
def roundHalfEven (q : ℚ≥0) : ℕ :=
  let n := ⌊q⌋₊
  let r : ℚ := q-n
  if r < 1/2 then n
  else if 1/2 < r then n+1
  else if n%2 = 0 then n else n+1

/-- The digits of `n` with zeros in front, `width` of them. -/
def padded : ℕ → ℕ → List UInt8
  | 0, _ => []
  | width+1, n => padded width (n/10) ++ [code (Nat.digitChar (n%10))]

/-- A number in units of the last of so many places. -/
def fixed (places : ℕ) (magnitude : ℚ≥0) : ℕ := roundHalfEven (magnitude * (10^places : ℕ))

/-- The digits of a rounded number, with a fraction of so many places. -/
def digits (places : ℕ) (magnitude : ℚ≥0) : List UInt8 :=
  let n := fixed places magnitude
  decimal (n/10^places) ++ code '.' :: padded places (n%10^places)

/-- `%.nf` of `printf`, without the sign. -/
def unsignedText (places : ℕ) : Double → List UInt8
  | finite _ magnitude => digits places magnitude
  | infinite _ => "inf".toList.map code
  | nan _ => "nan".toList.map code

/-- `%.nf` of `printf`: the sign is printed also of a zero. -/
def text (places : ℕ) (d : Double) : List UInt8 :=
  if d.negative then code '-' :: d.unsignedText places else d.unsignedText places

lemma length_padded (width n : ℕ) : (padded width n).length = width := by
  induction width generalizing n with
  | zero => rfl
  | succ width ih => rw [padded,List.length_append,ih,List.length_singleton]

lemma isDigit_padded (width n : ℕ) : ∀ d ∈ padded width n, isDigit d = true := by
  induction width generalizing n with
  | zero =>
    intro d hd
    cases hd
  | succ width ih =>
    intro d hd
    rcases List.mem_append.mp hd with hd | hd
    · exact ih _ d hd
    · rw [List.mem_singleton] at hd
      rw [hd]
      exact Json.isDigit_digitChar (Nat.mod_lt _ (by decide))

lemma accepts_text {d : Double} (hd : d.IsFinite) {places : ℕ} (hplaces : places ≠ 0) :
    Json.accepts (d.text places) = true := by
  obtain ⟨places,rfl⟩ := Nat.exists_eq_succ_of_ne_zero hplaces
  have hpad : ∀ n, padded (places+1) n ≠ [] := by simp [padded]
  cases d with
  | finite negative magnitude =>
    cases negative with
    | true => exact Json.accepts_of_run rfl (Json.run_cons rfl
        (Json.run_fraction _ (hpad _) (isDigit_padded _ _) (.inr rfl) []))
    | false => exact Json.accepts_of_run rfl (Json.run_fraction _ (hpad _) (isDigit_padded _ _) (.inl rfl) [])
  | infinite negative => exact hd.elim
  | nan negative => exact hd.elim

end Double
end PhpAgent

import Mathlib.Data.List.Infix
import PhpAgent.Lib.Flatbuf

/-! Buffers that are filled from their end. What lies in one is known by its distance from the end,
which stays the same when more is put in front. -/
namespace PhpAgent
open Flatbuf (littleEndian)

/-! ### Programs that stop -/

section Ends
variable {ε α β : Type} {stops : ε → Prop} {post : α → Prop} {r : Except ε α}

/-- The program returns what `post` says, or stops for a reason that is allowed. -/
def Ends (stops : ε → Prop) (post : α → Prop) : Except ε α → Prop
  | .ok a => post a
  | .error e => stops e

lemma Ends.mono {post' : α → Prop} (h : Ends stops post r)
    (himp : ∀ a, post a → post' a) : Ends stops post' r := by
  cases r with
  | ok a => exact himp a h
  | error e => exact h

lemma Ends.bind {post' : β → Prop} {f : α → Except ε β} (h : Ends stops post r)
    (hf : ∀ a, post a → Ends stops post' (f a)) : Ends stops post' (r >>= f) := by
  cases r with
  | ok a => exact hf a h
  | error e => exact h

lemma Ends.exists_ok (h : Ends (fun _ => False) post r) : ∃ a, r = .ok a ∧ post a := by
  cases r with
  | ok a => exact ⟨a,rfl,h⟩
  | error e => exact h.elim

/-- A loop over a list keeps what each of its rounds takes one element further. -/
theorem Ends.foldlM {ι : Type} {f : α → ι → Except ε α} {inv : List ι → α → Prop} (l : List ι)
    (hstep : ∀ before i a, before ++ [i] <+: l → inv before a → Ends stops (inv (before ++ [i])) (f a i))
    {a : α} (h : inv [] a) : Ends stops (inv l) (l.foldlM f a) := by
  have hrest : ∀ after before a, before ++ after = l → inv before a →
      Ends stops (inv l) (after.foldlM f a) := by
    intro after
    induction after with
    | nil =>
      intro before a heq h
      rw [List.append_nil] at heq
      subst heq
      exact h
    | cons i after ih =>
      intro before a heq h
      have heq' : before ++ [i] ++ after = l := by rw [List.append_assoc,List.singleton_append,heq]
      rw [List.foldlM_cons]
      exact (hstep before i a ⟨after,heq'⟩ h).bind fun a' h' => ih _ a' heq' h'
  exact hrest l [] a rfl h

end Ends

/-! ### Numbers -/

/-- The low bytes of a number, the lowest first. -/
def lowBytes : ℕ → ℕ → List UInt8
  | 0,_ => []
  | n + 1,x => UInt8.ofNat x :: lowBytes n (x / 256)

@[simp] lemma length_lowBytes (n x : ℕ) : (lowBytes n x).length = n := by
  induction n generalizing x with
  | zero => rfl
  | succ n ih => rw [lowBytes,List.length_cons,ih]

lemma littleEndian_lowBytes (n x : ℕ) : littleEndian (lowBytes n x) = x % 256 ^ n := by
  induction n generalizing x with
  | zero => rw [pow_zero,Nat.mod_one]; rfl
  | succ n ih =>
    have hlow : (UInt8.ofNat x).toNat = x % 256 := UInt8.toNat_ofNat'
    rw [lowBytes,littleEndian,ih,hlow,pow_succ',Nat.mod_mul]

lemma lowBytes_littleEndian (l : List UInt8) : lowBytes l.length (littleEndian l) = l := by
  induction l with
  | nil => rfl
  | cons c l ih =>
    have hc : c.toNat < 256 := c.toNat_lt
    have hlow : UInt8.ofNat (c.toNat + 256*littleEndian l) = c := by
      refine UInt8.toNat_inj.mp ?_
      rw [UInt8.toNat_ofNat',Nat.add_mul_mod_self_left,Nat.mod_eq_of_lt hc]
    have hhigh : (c.toNat + 256*littleEndian l) / 256 = littleEndian l := by omega
    rw [littleEndian,List.length_cons,lowBytes,hlow,hhigh,ih]

lemma lowBytes_mod (n x : ℕ) : lowBytes n (x % 256 ^ n) = lowBytes n x := by
  induction n generalizing x with
  | zero => rfl
  | succ n ih =>
    have hlow : UInt8.ofNat (x % 256 ^ (n + 1)) = UInt8.ofNat x := by
      refine UInt8.toNat_inj.mp ?_
      rw [UInt8.toNat_ofNat',UInt8.toNat_ofNat',pow_succ',Nat.mod_mul_right_mod]
    rw [lowBytes,lowBytes,hlow,pow_succ',Nat.mod_mul_right_div_self,ih]

/-! ### Places -/

section Lies
variable {α : Type} {l l' s t : List α} {offset : ℕ}

/-- `s` starts so far from the end. -/
def Lies (l : List α) (offset : ℕ) (s : List α) : Prop :=
  offset ≤ l.length ∧ s <+: l.drop (l.length - offset)

lemma Lies.mono (h : Lies l offset s) (hl : l <:+ l') : Lies l' offset s := by
  obtain ⟨front,rfl⟩ := hl
  have hlen : (front ++ l).length - offset = front.length + (l.length - offset) := by
    rw [List.length_append,Nat.add_sub_assoc h.1]
  refine ⟨h.1.trans (by rw [List.length_append]; exact Nat.le_add_left _ _),?_⟩
  rw [hlen,← List.drop_drop,List.drop_left]
  exact h.2

lemma lies_append (s l : List α) : Lies (s ++ l) (s ++ l).length s := by
  refine ⟨le_rfl,?_⟩
  rw [Nat.sub_self,List.drop_zero]
  exact List.prefix_append s l

lemma Lies.initial (h : Lies l offset (s ++ t)) : Lies l offset s :=
  ⟨h.1,(List.prefix_append s t).trans h.2⟩

lemma Lies.length_le (h : Lies l offset s) : s.length ≤ offset := by
  have hlen := h.2.length_le
  rw [List.length_drop,Nat.sub_sub_self h.1] at hlen
  exact hlen

lemma Lies.rest (h : Lies l offset (s ++ t)) : Lies l (offset - s.length) t := by
  have hle := h.length_le
  rw [List.length_append] at hle
  have hlen : l.length - (offset - s.length) = l.length - offset + s.length := by
    have hin := h.1
    omega
  obtain ⟨rest,hrest⟩ := h.2
  refine ⟨(Nat.sub_le _ _).trans h.1,⟨rest,?_⟩⟩
  rw [hlen,← List.drop_drop,← hrest,List.append_assoc,List.drop_left]

lemma Lies.getElem? (h : Lies l offset s) {i : ℕ} (hi : i < s.length) :
    l[l.length - offset + i]? = s[i]? := by
  obtain ⟨rest,hrest⟩ := h.2
  rw [← List.getElem?_drop,← hrest,List.getElem?_append_left hi]

end Lies

/-- Elements of one length, one behind the other. -/
theorem flatMap_split {α β : Type} {f : α → List β} {n : ℕ} (hf : ∀ a, (f a).length = n) (l : List α) {i : ℕ}
    {a : α} (hi : l[i]? = some a) :
    ∃ front rest, l.flatMap f = front ++ (f a ++ rest) ∧ front.length = n * i := by
  obtain ⟨hlt,rfl⟩ := List.getElem?_eq_some_iff.mp hi
  refine ⟨(l.take i).flatMap f,(l.drop (i + 1)).flatMap f,?_,?_⟩
  · rw [← List.flatMap_cons,← List.flatMap_append,← List.drop_eq_getElem_cons hlt,List.take_append_drop]
  · rw [List.length_flatMap,List.map_congr_left fun a _ => hf a,List.map_const',List.sum_replicate_nat,
      List.length_take_of_le hlt.le,Nat.mul_comm]

end PhpAgent

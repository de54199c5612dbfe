import Mathlib.Data.List.TakeWhile

/-! Programs that write into buffers of fixed sizes. A program stops when it leaves a buffer, or when
the fuel of a loop runs out. -/
namespace PhpAgent

inductive Stop
  | outside
  | fuel
deriving DecidableEq

variable {α β : Type} {mem s : List α} {pos : ℕ}

/-- The program never leaves a buffer, and what it returns is as `post` says. -/
def Stays (post : α → Prop) : Except Stop α → Prop
  | .ok a => post a
  | .error .outside => False
  | .error .fuel => True

lemma Stays.mono {post post' : α → Prop} (himp : ∀ a, post a → post' a) {r : Except Stop α}
    (h : Stays post r) : Stays post' r := by
  cases r with
  | ok a => exact himp a h
  | error stop =>
    cases stop with
    | outside => exact h
    | fuel => exact h

@[simp] lemma ok_bind (a : α) (f : α → Except Stop β) : (Except.ok a >>= f) = f a := rfl
@[simp] lemma error_bind (stop : Stop) (f : α → Except Stop β) :
    (Except.error stop >>= f) = .error stop := rfl

/-! ### Writing -/

/-- The memory with `s` at a position. -/
def splice (mem : List α) (pos : ℕ) (s : List α) : List α :=
  mem.take pos ++ (s ++ mem.drop (pos+s.length))

/-- Write `s` at a position. -/
def put (mem : List α) (pos : ℕ) (s : List α) : Except Stop (List α) :=
  if pos+s.length ≤ mem.length then .ok (splice mem pos s) else .error .outside

lemma put_of_le (h : pos+s.length ≤ mem.length) : put mem pos s = .ok (splice mem pos s) := if_pos h

lemma put_of_lt (h : mem.length < pos+s.length) : put mem pos s = .error .outside := if_neg (Nat.not_le.mpr h)

lemma length_splice (h : pos+s.length ≤ mem.length) : (splice mem pos s).length = mem.length := by
  rw [splice,List.length_append,List.length_append,List.length_take,List.length_drop]
  omega

lemma mem_splice {c : α} (h : c ∈ s) (pos : ℕ) : c ∈ splice mem pos s :=
  List.mem_append_right _ (List.mem_append_left _ h)

/-- What stands in front of a place within what is written. -/
theorem take_splice_append (h : pos ≤ mem.length) (s' : List α) :
    (splice mem pos (s ++ s')).take (pos+s.length) = mem.take pos ++ s := by
  have hlen : (mem.take pos ++ s).length = pos+s.length := by
    rw [List.length_append,List.length_take,Nat.min_eq_left h]
  rw [splice,List.append_assoc,← List.append_assoc,← hlen,List.take_left]

lemma take_splice (h : pos ≤ mem.length) : (splice mem pos s).take (pos+s.length) = mem.take pos ++ s := by
  have htake := @take_splice_append _ mem s pos h []
  rwa [List.append_nil] at htake

/-- What stands in front of what is written. -/
theorem take_splice_left {mem : List α} (h : pos ≤ mem.length) (s : List α) :
    (splice mem pos s).take pos = mem.take pos := by
  rw [splice,List.take_append_of_le_length,List.take_take,Nat.min_self]
  rw [List.length_take,Nat.min_eq_left h]

/-- The last element stays as it is when the last that is written is the same. -/
theorem getLast?_splice {z : α} (hmem : mem.getLast? = some z)
    (hs : s.getLast? = some z) : (splice mem pos s).getLast? = some z := by
  rw [splice,List.getLast?_append,List.getLast?_append,hs]
  cases hdrop : mem.drop (pos+s.length) with
  | nil => rfl
  | cons c rest =>
    have hlast := congrArg List.getLast? (List.take_append_drop (pos+s.length) mem)
    rw [List.getLast?_append,hmem,hdrop] at hlast
    rw [List.getLast?_eq_some_getLast (List.cons_ne_nil c rest)] at hlast ⊢
    exact hlast

/-- An element in front of the last one is written. -/
theorem getLast?_splice_of_lt (h : pos+s.length < mem.length) :
    (splice mem pos s).getLast? = mem.getLast? := by
  have hlast := congrArg List.getLast? (List.take_append_drop (pos+s.length) mem)
  have hne : mem.drop (pos+s.length) ≠ [] := by
    intro hnil
    rw [List.drop_eq_nil_iff] at hnil
    omega
  rw [List.getLast?_append,List.getLast?_eq_some_getLast hne] at hlast
  rw [splice,List.getLast?_append,List.getLast?_append,List.getLast?_eq_some_getLast hne,← hlast]
  rfl

lemma splice_splice (h : pos+s.length ≤ mem.length) (s' : List α) :
    splice (splice mem pos s) (pos+s.length) s' = splice mem pos (s ++ s') := by
  have htake : (splice mem pos s).take (pos+s.length) = mem.take pos ++ s := take_splice (by omega)
  have hdrop : (splice mem pos s).drop (pos+s.length+s'.length) = mem.drop (pos+(s ++ s').length) := by
    have hlen : (mem.take pos ++ s).length = pos+s.length := by
      rw [List.length_append,List.length_take,Nat.min_eq_left (by omega)]
    rw [splice,← List.append_assoc,← hlen,← List.drop_drop,List.drop_left,List.drop_drop,hlen,
      List.length_append,Nat.add_assoc]
  rw [splice,htake,hdrop,splice,List.append_assoc,List.append_assoc]

/-- Two texts are written one behind the other. -/
theorem put_append (mem s s' : List α) (pos : ℕ) :
    (put mem pos s >>= fun mem => put mem (pos+s.length) s') = put mem pos (s ++ s') := by
  by_cases h : pos+s.length ≤ mem.length
  · rw [put_of_le h,ok_bind]
    unfold put
    rw [length_splice h,List.length_append,splice_splice h,← Nat.add_assoc]
  · rw [put_of_lt (not_le.mp h),put_of_lt (by rw [List.length_append]; omega)]
    rfl

/-! ### Single elements -/

/-- Read the element at a position. -/
def get (mem : List α) (pos : ℕ) : Except Stop α :=
  match mem[pos]? with
  | some c => .ok c
  | none => .error .outside

lemma get_append (a b : List α) (c : α) : get (a ++ c :: b) a.length = .ok c := by
  simp [get]

lemma put_append_cons (a b : List α) (c x : α) :
    put (a ++ x :: b) a.length [c] = .ok (a ++ c :: b) := by
  rw [put_of_le (by simp),splice,List.take_left,← List.drop_drop,List.drop_left]
  rfl

/-! ### Ranges -/

/-- Read so many elements from a position. -/
def getRange (mem : List α) (pos n : ℕ) : Except Stop (List α) :=
  if pos+n ≤ mem.length then .ok ((mem.drop pos).take n) else .error .outside

/-- What stands behind a beginning is read. -/
theorem getRange_of_prefix {a b mem : List α} (h : a ++ b <+: mem) :
    getRange mem a.length b.length = .ok b := by
  obtain ⟨rest,rfl⟩ := h
  rw [getRange,if_pos (by simp only [List.length_append]; omega),List.append_assoc,List.drop_left,
    List.take_left]

/-- What is written behind a beginning stands there. -/
theorem put_of_prefix {a mem : List α} (h : a <+: mem) {s : List α} (hfits : a.length+s.length ≤ mem.length) :
    ∃ mem', put mem a.length s = .ok mem' ∧ a ++ s <+: mem' ∧ mem'.length = mem.length := by
  obtain ⟨rest,rfl⟩ := h
  refine ⟨_,put_of_le hfits,?_,length_splice hfits⟩
  rw [splice,List.take_left,← List.append_assoc]
  exact List.prefix_append _ _

end PhpAgent

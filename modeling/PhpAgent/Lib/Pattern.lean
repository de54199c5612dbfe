import Mathlib.Tactic

/-! Regular expressions that are a sequence of fixed texts and of captured repeated character
classes, matched at the start of the subject. A class takes as many characters as it can and gives
them back one by one when what follows does not match. -/
namespace PhpAgent.Pattern

inductive Item (α : Type)
  | text (w : List α)
  | field (p : α → Bool) (least : ℕ) (most : Option ℕ)

variable {α β : Type} [DecidableEq α]

/-- How many characters a class can take from `s`, in the order in which they are tried. -/
def lengths (p : α → Bool) (least : ℕ) (most : Option ℕ) (s : List α) : List ℕ :=
  let longest := (s.takeWhile p).length
  ((List.range (most.elim longest (min longest)+1)).filter (least ≤ ·)).reverse

/-- The captured fields, and what `rest` makes of the remainder of the subject. -/
def run (rest : List α → Option β) : List (Item α) → List α → Option (List (List α) × β)
  | [], s => (rest s).map fun b => ([],b)
  | .text w :: items, s => if w.isPrefixOf s then run rest items (s.drop w.length) else none
  | .field p least most :: items, s =>
    (lengths p least most s).findSome? fun n =>
      (run rest items (s.drop n)).map fun (fields,b) => (s.take n :: fields,b)

variable {rest : List α → Option β} {items : List (Item α)} {p : α → Bool} {v s : List α} {least : ℕ}
  {most : Option ℕ} {r : List (List α) × β}

lemma run_text (w s : List α) :
    run rest (.text w :: items) (w ++ s) = run rest items s := by
  simp [run]

omit [DecidableEq α] in
/-- A class stops at the end of the subject and before a character outside it. -/
theorem takeWhile_of_stop (hv : ∀ c ∈ v, p c)
    (hs : ∀ c ∈ s.head?, p c = false) : (v ++ s).takeWhile p = v := by
  induction v with
  | nil =>
    cases s with
    | nil => rfl
    | cons c s => simp [hs c rfl]
  | cons c v ih =>
    simp only [List.cons_append,List.takeWhile_cons,hv c List.mem_cons_self,if_true]
    rw [ih fun d hd => hv d (List.mem_cons_of_mem c hd)]

omit [DecidableEq α] in
lemma lengths_eq_cons {s : List α} {n : ℕ}
    (hn : most.elim (s.takeWhile p).length (min (s.takeWhile p).length) = n) (hleast : least ≤ n) :
    ∃ ns, lengths p least most s = n :: ns := by
  refine ⟨((List.range n).filter (least ≤ ·)).reverse,?_⟩
  simp [lengths,hn,List.range_succ,hleast]

/-- The longest piece is taken when what follows it matches. -/
theorem run_field_of_longest (hleast : least ≤ v.length)
    (hlongest : most.elim ((v ++ s).takeWhile p).length (min ((v ++ s).takeWhile p).length) =
      v.length)
    (hrun : run rest items s = some r) :
    run rest (.field p least most :: items) (v ++ s) = some (v :: r.1,r.2) := by
  obtain ⟨ns,hns⟩ := lengths_eq_cons hlongest hleast
  rw [run,hns,List.findSome?_cons,List.drop_left,hrun,List.take_left]
  rfl

/-- A class without an upper bound takes all there is of it. -/
theorem run_field (hv : ∀ c ∈ v, p c) (hleast : least ≤ v.length) (hs : ∀ c ∈ s.head?, p c = false)
    (hrun : run rest items s = some r) :
    run rest (.field p least none :: items) (v ++ s) = some (v :: r.1,r.2) := by
  apply run_field_of_longest hleast _ hrun
  rw [takeWhile_of_stop hv hs]
  rfl

/-- A class of a fixed number of characters. -/
theorem run_field_exact {n : ℕ} (hv : ∀ c ∈ v, p c) (hn : v.length = n) (hrun : run rest items s = some r) :
    run rest (.field p n (some n) :: items) (v ++ s) = some (v :: r.1,r.2) := by
  apply run_field_of_longest hn.ge _ hrun
  have hsub : v.length ≤ ((v ++ s).takeWhile p).length := by
    rw [List.takeWhile_append_of_pos hv,List.length_append]
    omega
  simp only [Option.elim_some]
  omega

/-- A class that needs a character and finds none of its own. -/
theorem run_field_of_stop {s : List α} (hleast : 0 < least)
    (hs : ∀ c ∈ s.head?, p c = false) : run rest (.field p least most :: items) s = none := by
  have htake : s.takeWhile p = [] := takeWhile_of_stop (v := []) (by simp) hs
  have hlongest : most.elim 0 (min 0) = 0 := by cases most <;> simp
  rw [run,lengths,htake,List.length_nil,hlongest]
  simp [hleast.ne']

/-- A class without an upper bound gives no characters back to a text that begins outside of it. -/
theorem run_field_text_none {d : α} (hd : p d = false) (hv : ∀ c ∈ v, p c) (hs : ∀ c ∈ s.head?, p c = false)
    (hrun : ∀ s', s = d :: s' → run rest items s' = none) :
    run rest (.field p least none :: .text [d] :: items) (v ++ s) = none := by
  rw [run,List.findSome?_eq_none_iff]
  intro n hn
  have hle : n ≤ v.length := by
    rw [lengths,takeWhile_of_stop hv hs] at hn
    simp only [Option.elim_none,List.mem_reverse,List.mem_filter,List.mem_range] at hn
    omega
  rw [Option.map_eq_none_iff,run]
  obtain hlt | rfl := Nat.lt_or_eq_of_le hle
  · have hmem : v[n] ∈ v := List.getElem_mem hlt
    have hne : d ≠ v[n] := by
      rintro heq
      rw [← heq] at hmem
      exact Bool.eq_false_iff.mp hd (hv d hmem)
    have hnot : [d].isPrefixOf (v[n] :: (v.drop (n+1) ++ s)) = false := by simp [List.isPrefixOf,hne]
    rw [List.drop_append_of_le_length hle,List.drop_eq_getElem_cons hlt,List.cons_append,hnot]
    rfl
  · rw [List.drop_left]
    cases s with
    | nil => simp
    | cons c s =>
      by_cases hc : d = c
      · subst hc
        simpa using hrun s rfl
      · simp [hc]

end PhpAgent.Pattern

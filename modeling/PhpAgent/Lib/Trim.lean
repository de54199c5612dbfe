import Mathlib.Data.List.DropRight
import Mathlib.Tactic

/-! Trimming a list at both ends: what is left, and how to cut it out by counting. -/
namespace PhpAgent.Trim

variable {α : Type*} (p : α → Bool)

/-- The list without the elements at its ends that satisfy a predicate. -/
def trim (l : List α) : List α := (l.dropWhile p).rdropWhile p

variable {p} {a b l : List α}

lemma trim_append_left (ha : ∀ x ∈ a, p x) : trim p (a ++ l) = trim p l := by
  rw [trim,List.dropWhile_append_of_pos ha,trim]

lemma rdropWhile_append_of_pos (hb : ∀ x ∈ b, p x) : (l ++ b).rdropWhile p = l.rdropWhile p := by
  rw [List.rdropWhile,List.reverse_append,List.dropWhile_append_of_pos (by simpa using hb),
    List.rdropWhile]

lemma trim_append_right (hb : ∀ x ∈ b, p x) : trim p (l ++ b) = trim p l := by
  unfold trim
  by_cases hall : ∀ x ∈ l, p x
  · have hl : l.dropWhile p = [] := List.dropWhile_eq_nil_iff.mpr hall
    have hb' : b.dropWhile p = [] := List.dropWhile_eq_nil_iff.mpr hb
    rw [List.dropWhile_append_of_pos hall,hl,hb']
  · have hne : l.dropWhile p ≠ [] := fun h => hall (List.dropWhile_eq_nil_iff.mp h)
    rw [List.dropWhile_append,if_neg (by simpa using hne)]
    exact rdropWhile_append_of_pos hb

/-- What is trimmed off satisfies the predicate. -/
theorem exists_trim (p : α → Bool) (l : List α) :
    ∃ a b, (∀ x ∈ a, p x) ∧ (∀ x ∈ b, p x) ∧ l = a ++ trim p l ++ b := by
  refine ⟨l.takeWhile p,(l.dropWhile p).rtakeWhile p,fun x => List.mem_takeWhile_imp,
    fun x => List.mem_rtakeWhile_imp,?_⟩
  rw [List.append_assoc,trim,List.rdropWhile_append_rtakeWhile,List.takeWhile_append_dropWhile]

lemma trim_eq_nil_iff : trim p l = [] ↔ ∀ x ∈ l, p x := by
  rw [trim,List.rdropWhile_eq_nil_iff]
  constructor
  · intro h x hx
    rw [← List.takeWhile_append_dropWhile (p := p) (l := l),List.mem_append] at hx
    exact hx.elim List.mem_takeWhile_imp (h x)
  · exact fun h x hx => h x ((List.dropWhile_sublist p).subset hx)

/-- An element that does not satisfy the predicate is not trimmed off. -/
theorem mem_trim_iff {x : α} (hx : p x = false) : x ∈ trim p l ↔ x ∈ l := by
  obtain ⟨a,b,ha,hb,hl⟩ := exists_trim p l
  have hoff : ∀ c : List α, (∀ y ∈ c, p y) → x ∉ c := by
    intro c hc hmem
    exact absurd (hc x hmem) (by simp [hx])
  conv_rhs => rw [hl]
  simp [hoff a ha,hoff b hb]

/-- The number of elements that are trimmed off at the end. -/
theorem length_takeWhile_reverse (hne : trim p l ≠ []) :
    (l.reverse.takeWhile p).length = ((l.dropWhile p).rtakeWhile p).length := by
  have hsome : ¬∀ x ∈ (l.dropWhile p).reverse, p x := by
    intro h
    apply hne
    rw [trim,List.rdropWhile_eq_nil_iff]
    exact fun x hx => h x (List.mem_reverse.mpr hx)
  rw [List.rtakeWhile,List.length_reverse]
  conv_lhs => rw [← List.takeWhile_append_dropWhile (p := p) (l := l)]
  rw [List.reverse_append,List.takeWhile_append,if_neg]
  intro hlength
  apply hsome
  rw [← List.takeWhile_eq_self_iff]
  exact (List.takeWhile_prefix p).eq_of_length hlength

/-- Counting what to leave out at both ends gives the trimmed list. -/
theorem drop_take_eq_trim (hne : trim p l ≠ []) :
    (l.takeWhile p).length+(trim p l).length+(l.reverse.takeWhile p).length = l.length ∧
      (l.drop (l.takeWhile p).length).take (trim p l).length = trim p l := by
  have hrest : trim p l ++ (l.dropWhile p).rtakeWhile p = l.dropWhile p :=
    List.rdropWhile_append_rtakeWhile
  have hl : l.takeWhile p ++ l.dropWhile p = l := List.takeWhile_append_dropWhile
  have hdrop : l.drop (l.takeWhile p).length = l.dropWhile p := by
    calc l.drop (l.takeWhile p).length
        = (l.takeWhile p ++ l.dropWhile p).drop (l.takeWhile p).length := by rw [hl]
      _ = l.dropWhile p := List.drop_left
  constructor
  · have hlength := congrArg List.length hl
    rw [List.length_append,← hrest,List.length_append] at hlength
    rw [length_takeWhile_reverse hne]
    omega
  · rw [hdrop]
    calc (l.dropWhile p).take (trim p l).length
        = (trim p l ++ (l.dropWhile p).rtakeWhile p).take (trim p l).length := by rw [hrest]
      _ = trim p l := List.take_left

/-- When everything is trimmed off, both ends count everything. -/
theorem length_takeWhile_of_trim_eq_nil (h : trim p l = []) :
    (l.takeWhile p).length = l.length := by
  rw [List.takeWhile_eq_self_iff.mpr (trim_eq_nil_iff.mp h)]

end PhpAgent.Trim

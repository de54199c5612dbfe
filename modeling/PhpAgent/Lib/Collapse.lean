import Mathlib.Tactic

/-! Lists in which some elements are replaced and a run of replaced elements becomes one. A replaced
element is `none`. -/
namespace PhpAgent.Collapse

variable {α ι : Type} {xs : List (Option α)}

/-- Every run of `none` becomes one `none`. The flag says that a run has begun before the list. -/
def collapse : Bool → List (Option α) → List (Option α)
  | _, [] => []
  | true, none :: xs => collapse true xs
  | false, none :: xs => none :: collapse true xs
  | _, some x :: xs => some x :: collapse false xs

@[simp] lemma collapse_nil (b : Bool) : collapse b ([] : List (Option α)) = [] := by
  cases b <;> rfl

@[simp] lemma collapse_some (b : Bool) (x : α) (xs : List (Option α)) :
    collapse b (some x :: xs) = some x :: collapse false xs := by
  cases b <;> rfl

@[simp] lemma collapse_true_none (xs : List (Option α)) :
    collapse true (none :: xs) = collapse true xs := rfl

@[simp] lemma collapse_false_none (xs : List (Option α)) :
    collapse false (none :: xs) = none :: collapse true xs := rfl

lemma mem_collapse {b : Bool} {x : α} : some x ∈ collapse b xs ↔ some x ∈ xs := by
  induction xs generalizing b with
  | nil => simp
  | cons y xs ih => cases y <;> cases b <;> simp [ih]

lemma collapse_ne_nil (h : xs ≠ []) : collapse false xs ≠ [] := by
  cases xs with
  | nil => exact absurd rfl h
  | cons y xs => cases y <;> simp

/-- What was collapsed stays. -/
theorem collapse_collapse (b : Bool) (xs : List (Option α)) :
    collapse b (collapse b xs) = collapse b xs := by
  induction xs generalizing b with
  | nil => simp
  | cons y xs ih => cases y <;> cases b <;> simp [ih]

/-! ### The text of a replaced element -/

/-- The elements, with `star` for a replaced one. -/
def texts (star : α) (xs : List (Option α)) : List α := xs.map (Option.getD · star)

@[simp] lemma texts_nil (star : α) : texts star [] = [] := rfl

@[simp] lemma texts_cons (star : α) (x : Option α) (xs : List (Option α)) :
    texts star (x :: xs) = x.getD star :: texts star xs := rfl

@[simp] lemma length_texts (star : α) (xs : List (Option α)) :
    (texts star xs).length = xs.length := List.length_map _

/-- Replacing again keeps a text, if the elements that were kept are kept again. -/
theorem texts_again (star : α) (f : α → Option α) (hstar : f star = none ∨ f star = some star)
    (b : Bool) (hf : ∀ x, some x ∈ xs → f x = some x) :
    texts star (collapse b ((texts star (collapse b xs)).map f)) = texts star (collapse b xs) := by
  have hmem : ∀ x, some x ∈ collapse b xs → f x = some x := fun x hx => hf x (mem_collapse.mp hx)
  cases hstar with
  | inl hnone =>
    have hsame : (texts star (collapse b xs)).map f = collapse b xs := by
      unfold texts
      rw [List.map_map]
      conv_rhs => rw [← List.map_id (collapse b xs)]
      apply List.map_congr_left
      intro y hy
      cases y with
      | none => exact hnone
      | some x => exact hmem x hy
    rw [hsame,collapse_collapse]
  | inr hkept =>
    have hall : (texts star (collapse b xs)).map f = (texts star (collapse b xs)).map some := by
      apply List.map_congr_left
      intro x hx
      obtain ⟨y,hy,rfl⟩ := List.mem_map.mp hx
      cases y with
      | none => exact hkept
      | some x => exact hmem x hy
    have hsome : ∀ (b : Bool) (l : List α), collapse b (l.map some) = l.map some := by
      intro b l
      induction l generalizing b with
      | nil => simp
      | cons x l ih => simp [ih]
    rw [hall,hsome]
    exact (List.map_map).trans (List.map_id _)

/-! ### Two ways to replace -/

variable {f g : ι → Option α} {star : α} {is : List ι}

/-- An element that `f` keeps as `star` and `g` replaces stands alone: its neighbours are kept. The
flag says that a run has begun before `before`. -/
def Alone (f g : ι → Option α) (star : α) (b : Bool) (before : List ι) (i : ι) (after : List ι) :
    Prop :=
  f i = some star ∧ g i = none ∧ (before = [] → b = false) ∧
    (∀ j ∈ before.getLast?, (g j).isSome) ∧ ∀ j ∈ after.head?, (g j).isSome

/-- Every element is treated alike or stands alone. -/
def Agree (f g : ι → Option α) (star : α) (b : Bool) (is : List ι) : Prop :=
  ∀ before i after, is = before ++ i :: after → f i = g i ∨ Alone f g star b before i after

lemma agree_cons {b : Bool} {i : ι} : Agree f g star b (i :: is) ↔
      (f i = g i ∨ Alone f g star b [] i is) ∧ Agree f g star (g i).isNone is := by
  have hlast : ∀ (before : List ι) (j : ι) (after : List ι),
      Alone f g star b (i :: before) j after ↔ Alone f g star (g i).isNone before j after := by
    intro before j after
    cases before with
    | nil => cases hg : g i <;> simp [Alone,hg]
    | cons k before => simp [Alone,List.getLast?_cons_cons]
  constructor
  · intro h
    refine ⟨h [] i is rfl,?_⟩
    rintro before j after rfl
    rw [← hlast]
    exact h (i :: before) j after rfl
  · rintro ⟨hfirst,hrest⟩ before j after heq
    cases before with
    | nil =>
      obtain ⟨rfl,rfl⟩ := List.cons.inj heq
      exact hfirst
    | cons k before =>
      obtain ⟨rfl,htail⟩ := List.cons.inj heq
      rw [hlast]
      exact hrest before j after htail

lemma length_collapse_le (xs : List (Option α)) :
    (collapse true xs).length ≤ (collapse false xs).length := by
  cases xs with
  | nil => simp
  | cons y xs => cases y <;> simp

/-- Keeping more elements does not make the result shorter. -/
theorem length_collapse_mono (hle : ∀ i ∈ is, f i = g i ∨ g i = none) (b : Bool) :
    (collapse b (is.map g)).length ≤ (collapse b (is.map f)).length := by
  induction is generalizing b with
  | nil => simp
  | cons i is ih =>
    have hrest := ih fun j hj => hle j (List.mem_cons_of_mem i hj)
    rw [List.map_cons,List.map_cons]
    obtain heq | hnone := hle i List.mem_cons_self
    · rw [heq]
      cases g i <;> cases b <;> simp [hrest]
    · rw [hnone]
      have htrue := hrest true
      have hfalse := length_collapse_le (is.map f)
      cases f i <;> cases b <;> simp <;> omega

/-- After a kept element of one list and a replaced one of the other, the rest begins with a kept
element. -/
theorem texts_collapse_shift (hle : ∀ i ∈ is, f i = g i ∨ g i = none) :
    texts star (collapse false (is.map f)) = texts star (collapse true (is.map g)) ↔
      (∀ j ∈ is.head?, (g j).isSome) ∧
        texts star (collapse true (is.map f)) = texts star (collapse true (is.map g)) := by
  cases is with
  | nil => simp
  | cons i is =>
    have hrest : ∀ j ∈ is, f j = g j ∨ g j = none := fun j hj => hle j (List.mem_cons_of_mem i hj)
    have hmono := length_collapse_mono hrest true
    have hlength := length_collapse_le (is.map f)
    rw [List.map_cons,List.map_cons]
    cases hg : g i with
    | none =>
      have hlong : (collapse true (is.map g)).length <
          (collapse false (f i :: is.map f)).length := by
        cases f i <;> simp <;> omega
      have hne : texts star (collapse false (f i :: is.map f)) ≠
          texts star (collapse true (is.map g)) := by
        intro heq
        have hsame := congrArg List.length heq
        rw [length_texts,length_texts] at hsame
        omega
      simp [hg,hne]
    | some x =>
      have hf : f i = some x := by
        obtain heq | hnone := hle i List.mem_cons_self
        · rw [heq,hg]
        · rw [hg] at hnone
          cases hnone
      simp [hf,hg]

/-- The same texts come out of two ways to replace, of which the first keeps more, exactly when they
agree but for elements that read as a replaced one and stand alone. -/
theorem texts_collapse_eq_iff (hle : ∀ i ∈ is, f i = g i ∨ g i = none) (b : Bool) :
    texts star (collapse b (is.map f)) = texts star (collapse b (is.map g)) ↔
      Agree f g star b is := by
  induction is generalizing b with
  | nil => simp [Agree]
  | cons i is ih =>
    have hrest : ∀ j ∈ is, f j = g j ∨ g j = none := fun j hj => hle j (List.mem_cons_of_mem i hj)
    rw [agree_cons,← ih hrest,List.map_cons,List.map_cons]
    by_cases heq : f i = g i
    · rw [heq]
      cases g i <;> cases b <;> simp
    · have hg : g i = none := (hle i List.mem_cons_self).resolve_left heq
      obtain ⟨x,hf⟩ : ∃ x, f i = some x :=
        Option.ne_none_iff_exists'.mp fun hf => heq (hf.trans hg.symm)
      have hmono := length_collapse_mono hrest true
      have hlength := length_collapse_le (is.map f)
      cases b with
      | false =>
        rw [hf,hg,collapse_some,collapse_false_none,texts_cons,texts_cons,List.cons.injEq,
          texts_collapse_shift hrest]
        simp [Alone,hf,hg,and_assoc]
      | true =>
        rw [hf,hg,collapse_some,collapse_true_none]
        have hne : texts star (some x :: collapse false (is.map f)) ≠
            texts star (collapse true (is.map g)) := by
          intro hsame
          have hlen := congrArg List.length hsame
          rw [length_texts,length_texts,List.length_cons] at hlen
          omega
        have halone : ¬(some x = none ∨ Alone f g star true [] i is) := by
          simp [Alone]
        exact ⟨fun h => absurd h hne,fun h => absurd h.1 halone⟩

end PhpAgent.Collapse

import Mathlib.Data.List.Basic

/-! When a computation that may fail has a result. -/
namespace PhpAgent

/-- A computation has a result under a condition and only then. -/
def DefinedIff {α : Type} (x : Option α) (P : Prop) : Prop := x.isSome ↔ P

/-- A computation whose result is also known. -/
structure Yields {α : Type} (x : Option α) (P : Prop) (v : α) : Prop where
  some : P → x = some v
  none : ¬ P → x = none

section Defined
variable {α β γ : Type} {x : Option α} {P P' : Prop} {v : α} {Q : Prop} {f : α → Option β}

lemma Yields.definedIff (h : Yields x P v) : DefinedIff x P := by
  by_cases hP : P
  · rw [h.some hP]
    exact ⟨fun _ => hP,fun _ => rfl⟩
  · rw [h.none hP]
    exact ⟨nofun,fun hholds => absurd hholds hP⟩

lemma Yields.congr (h : Yields x P v) (hP : P ↔ P') : Yields x P' v :=
  ⟨fun hP' => h.some (hP.mpr hP'),fun hP' => h.none fun hholds => hP' (hP.mp hholds)⟩

lemma Yields.ite [Decidable P] : Yields (if P then Option.some v else Option.none) P v :=
  ⟨fun hP => if_pos hP,fun hP => if_neg hP⟩

lemma Yields.bind (h : Yields x P v) {w : β} (hf : P → Yields (f v) Q w) : Yields (x >>= f) (P ∧ Q) w := by
  by_cases hP : P
  · have hx : x = Option.some v := h.some hP
    subst hx
    exact (hf hP).congr (by simp [hP])
  · have hx : x = Option.none := h.none hP
    subst hx
    exact ⟨fun hPQ => absurd hPQ.1 hP,fun _ => rfl⟩

lemma Yields.map (h : Yields x P v) (f : α → β) : Yields (x.map f) P (f v) := by
  refine ⟨?_,?_⟩
  · intro hP
    rw [h.some hP,Option.map_some]
  · intro hP
    rw [h.none hP,Option.map_none]

lemma Yields.bind_pure (h : Yields x P v) (f : α → β) : Yields (x >>= fun a => pure (f a)) P (f v) := by
  refine ⟨?_,?_⟩
  · intro hP
    rw [h.some hP]
    rfl
  · intro hP
    rw [h.none hP]
    rfl

lemma Yields.bind_definedIff (h : Yields x P v)
    (hf : P → DefinedIff (f v) Q) : DefinedIff (x >>= f) (P ∧ Q) := by
  by_cases hP : P
  · have hx : x = Option.some v := h.some hP
    subst hx
    exact (hf hP).trans (by simp [hP])
  · have hx : x = Option.none := h.none hP
    subst hx
    exact ⟨nofun,fun hPQ => absurd hPQ.1 hP⟩

lemma definedIff_some (a : α) : DefinedIff (some a) True := ⟨fun _ => trivial,fun _ => rfl⟩

lemma DefinedIff.congr (h : DefinedIff x P) (hP : P ↔ P') : DefinedIff x P' := Iff.trans h hP

lemma DefinedIff.bind_of_eq (h : DefinedIff x P)
    (hf : ∀ a, x = some a → DefinedIff (f a) Q) : DefinedIff (x >>= f) (P ∧ Q) := by
  cases x with
  | none => exact ⟨nofun,fun hPQ => absurd (h.mpr hPQ.1) nofun⟩
  | some a => exact (hf a rfl).trans ⟨fun hQ => ⟨h.mp rfl,hQ⟩,fun hPQ => hPQ.2⟩

/-- What comes after does not depend on the result. -/
theorem DefinedIff.bind (h : DefinedIff x P)
    (hf : ∀ a, DefinedIff (f a) Q) : DefinedIff (x >>= f) (P ∧ Q) := h.bind_of_eq fun a _ => hf a

lemma DefinedIff.bind_pure (h : DefinedIff x P) (f : α → β) : DefinedIff (x >>= fun a => pure (f a)) P :=
  (h.bind fun a => definedIff_some (f a)).congr (and_iff_left trivial)

lemma definedIff_mapM {Q : α → Prop} (l : List α)
    (hf : ∀ a ∈ l, DefinedIff (f a) (Q a)) : DefinedIff (l.mapM f) (∀ a ∈ l, Q a) := by
  induction l with
  | nil => exact (definedIff_some []).congr (by simp)
  | cons a l ih =>
    rw [List.mapM_cons]
    obtain ⟨hhead,htail⟩ := List.forall_mem_cons.mp hf
    refine (hhead.bind fun y => (ih htail).bind_pure fun ys => y :: ys).congr ?_
    rw [List.forall_mem_cons]

end Defined
end PhpAgent

import Mathlib.Data.List.Basic

/-! Scanners: machines whose every step either ends, or goes on with less input. -/
namespace PhpAgent

/-- A machine with states `σ` that reads `α` and ends with a `ρ`. -/
structure Scanner (σ α ρ : Type) where
  step : σ → List α → ρ ⊕ (σ × List α)
  consumes : ∀ s input s' rest, step s input = .inr (s',rest) → rest.length < input.length

namespace Scanner
variable {σ α ρ : Type} (m : Scanner σ α ρ)

def run (s : σ) (input : List α) : ρ :=
  match _h : m.step s input with
  | .inl r => r
  | .inr (s',rest) => run s' rest
termination_by input.length
decreasing_by exact m.consumes s input s' rest _h

lemma run_of_inl {s : σ} {input : List α} {r : ρ} (h : m.step s input = .inl r) :
    m.run s input = r := by
  rw [run]
  split
  · next r' h' =>
    rw [h] at h'
    exact (Sum.inl.inj h').symm
  · next s' rest h' =>
    rw [h] at h'
    cases h'

lemma run_of_inr {s s' : σ} {input rest : List α} (h : m.step s input = .inr (s',rest)) :
    m.run s input = m.run s' rest := by
  rw [run]
  split
  · next r h' =>
    rw [h] at h'
    cases h'
  · next s'' rest' h' =>
    rw [h] at h'
    cases h'
    rfl

/-- What holds of every end, and of a step when it holds of what comes behind, holds of every run. -/
theorem run_induction {P : σ → List α → ρ → Prop}
    (done : ∀ s input r, m.step s input = .inl r → P s input r)
    (more : ∀ s input s' rest r, m.step s input = .inr (s',rest) → P s' rest r → P s input r)
    (s : σ) (input : List α) : P s input (m.run s input) := by
  induction hn : input.length using Nat.strongRecOn generalizing s input with
  | ind n ih =>
    cases hstep : m.step s input with
    | inl r =>
      rw [m.run_of_inl hstep]
      exact done s input r hstep
    | inr next =>
      obtain ⟨s',rest⟩ := next
      rw [m.run_of_inr hstep]
      have hlt := m.consumes s input s' rest hstep
      exact more s input s' rest _ hstep (ih rest.length (by omega) s' rest rfl)

/-- What every step preserves and every end turns into `Q` makes `Q` of a run. -/
theorem run_invariant {I : σ → List α → Prop} {Q : ρ → Prop}
    (done : ∀ s input r, I s input → m.step s input = .inl r → Q r)
    (more : ∀ s input s' rest, I s input → m.step s input = .inr (s',rest) → I s' rest)
    {s : σ} {input : List α} (h : I s input) : Q (m.run s input) := by
  refine m.run_induction (P := fun s input r => I s input → Q r) ?_ ?_ s input h
  · exact fun s input r hstep hI => done s input r hI hstep
  · exact fun s input s' rest r hstep ih hI => ih (more s input s' rest hI hstep)

end Scanner
end PhpAgent

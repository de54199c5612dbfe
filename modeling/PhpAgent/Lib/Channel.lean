import Mathlib.Data.List.Basic
import Mathlib.Tactic.Linarith

/-! Buffered channels, once-objects and the faults of a goroutine, and goroutines that meet on channels
without a buffer. -/
namespace PhpAgent

/-- What a goroutine dies of. -/
inductive Fault
  | sendOnClosedChannel
  | closeOfClosedChannel
  | nilDereference
deriving DecidableEq

/-- What a channel operation does now. -/
inductive Outcome (β : Type)
  | ready (x : β)
  | blocked
  | fault (f : Fault)

structure Chan (α : Type) where
  cap : ℕ
  buf : List α
  closed : Bool
deriving DecidableEq

namespace Chan
variable {α : Type}

def make (cap : ℕ) : Chan α := ⟨cap,[],false⟩

def send (c : Chan α) (a : α) : Outcome (Chan α) :=
  if c.closed then .fault .sendOnClosedChannel
  else if c.buf.length < c.cap then .ready { c with buf := c.buf ++ [a] }
  else .blocked

/-- A closed channel that is empty gives the zero value. -/
def recv (c : Chan α) : Outcome (Option α × Chan α) :=
  match c.buf with
  | a :: rest => .ready (some a,{ c with buf := rest })
  | [] => if c.closed then .ready (none,c) else .blocked

def close (c : Chan α) : Outcome (Chan α) :=
  if c.closed then .fault .closeOfClosedChannel else .ready { c with closed := true }

variable {c c' : Chan α} {a : α}

lemma send_ready (h : c.send a = .ready c') : c.closed = false ∧ c.buf.length < c.cap ∧
    c' = { c with buf := c.buf ++ [a] } := by
  unfold send at h
  split at h
  · cases h
  · split at h
    · cases h
      exact ⟨by simpa using ‹¬ c.closed = true›,‹_›,rfl⟩
    · cases h

lemma send_fault {f : Fault} (h : c.send a = .fault f) : c.closed = true := by
  unfold send at h
  split at h
  · assumption
  · split at h <;> cases h

lemma recv_ready {o : Option α} (h : c.recv = .ready (o,c')) :
    (∃ b rest, o = some b ∧ c.buf = b :: rest ∧ c' = { c with buf := rest }) ∨
    (o = none ∧ c.buf = [] ∧ c.closed = true ∧ c' = c) := by
  unfold recv at h
  split at h
  · cases h
    exact .inl ⟨_,_,rfl,‹_›,rfl⟩
  · split at h
    · cases h
      exact .inr ⟨rfl,‹_›,‹_›,rfl⟩
    · cases h

lemma recv_blocked (h : c.recv = .blocked) : c.buf = [] ∧ c.closed = false := by
  unfold recv at h
  split at h
  · cases h
  · split at h
    · cases h
    · exact ⟨‹_›,by simpa using ‹¬ c.closed = true›⟩

lemma recv_not_fault {f : Fault} : c.recv ≠ .fault f := by
  unfold recv
  split
  · exact fun h => by cases h
  · split <;> exact fun h => by cases h

lemma close_ready (h : c.close = .ready c') : c.closed = false ∧ c' = { c with closed := true } := by
  unfold close at h
  split at h
  · cases h
  · cases h
    exact ⟨by simpa using ‹¬ c.closed = true›,rfl⟩

end Chan

/-- A once-object: other callers wait while its function runs. -/
inductive Once
  | fresh
  | running
  | done
deriving DecidableEq

/-! ### Goroutines that meet

Each goroutine is somewhere in its program, and the program says what it offers there. A send and a
receive on one channel happen together, by two goroutines. -/
namespace Rendezvous

variable {ι χ μ : Type} {σ : ι → Type}

/-- What a goroutine can do next, and where it is then. A receive gets none from a closed channel. -/
inductive Offer (χ μ : Type) (σ : ι → Type) (i : ι)
  | send (c : χ) (m : μ) (next : σ i)
  | recv (c : χ) (next : Option μ → σ i)
  | close (c : χ) (next : σ i)
  | start (j : ι) (first : σ j) (next : σ i)
  | act (next : σ i)
  | die

structure State (χ : Type) (σ : ι → Type) where
  place : ∀ i, σ i
  closed : χ → Bool

inductive Event (ι χ μ : Type)
  | met (i j : ι) (c : χ) (m : μ)
  | drained (i : ι) (c : χ)
  | closed (i : ι) (c : χ)
  | started (i j : ι)
  | acted (i : ι)
deriving DecidableEq

section Moves
variable [DecidableEq ι]

def State.move (s : State χ σ) (i : ι) (p : σ i) : State χ σ :=
  { s with place := Function.update s.place i p }

variable (s : State χ σ) (i : ι)

@[simp] lemma State.move_place_self (p : σ i) : (s.move i p).place i = p :=
  Function.update_self i p s.place

@[simp] lemma State.move_place_of_ne {i j : ι} (h : j ≠ i) (p : σ i) :
    (s.move i p).place j = s.place j := Function.update_of_ne h p s.place

@[simp] lemma State.move_closed (p : σ i) : (s.move i p).closed = s.closed := rfl

end Moves

section Shuts
variable [DecidableEq χ]

def State.shut (s : State χ σ) (c : χ) : State χ σ :=
  { s with closed := Function.update s.closed c true }

variable (s : State χ σ) (c : χ)

@[simp] lemma State.shut_place : (s.shut c).place = s.place := rfl

@[simp] lemma State.shut_closed_self : (s.shut c).closed c = true := by
  simp [State.shut]

@[simp] lemma State.shut_closed_of_ne {c d : χ} (h : d ≠ c) : (s.shut c).closed d = s.closed d := by
  simp [State.shut,h]

end Shuts

section Steps
variable [DecidableEq ι] [DecidableEq χ] (offers : ∀ i, σ i → List (Offer χ μ σ i))

/-- One step of all together. -/
inductive Step (s : State χ σ) : Event ι χ μ → State χ σ → Prop
  | meet {i j : ι} {c : χ} {m : μ} {p : σ i} {f : Option μ → σ j} (hij : i ≠ j)
      (hopen : s.closed c = false) (hs : Offer.send c m p ∈ offers i (s.place i))
      (hr : Offer.recv c f ∈ offers j (s.place j)) :
      Step s (.met i j c m) ((s.move i p).move j (f (some m)))
  | drain {i : ι} {c : χ} {f : Option μ → σ i} (hclosed : s.closed c = true)
      (hr : Offer.recv c f ∈ offers i (s.place i)) : Step s (.drained i c) (s.move i (f none))
  | close {i : ι} {c : χ} {p : σ i} (hopen : s.closed c = false)
      (hc : Offer.close c p ∈ offers i (s.place i)) : Step s (.closed i c) ((s.move i p).shut c)
  | start {i j : ι} {q : σ j} {p : σ i} (hg : Offer.start j q p ∈ offers i (s.place i)) :
      Step s (.started i j) ((s.move j q).move i p)
  | act {i : ι} {p : σ i} (ha : Offer.act p ∈ offers i (s.place i)) :
      Step s (.acted i) (s.move i p)

/-- A goroutine can do what kills the process. -/
inductive Panics (s : State χ σ) : Prop
  | send {i : ι} {c : χ} {m : μ} {p : σ i} (hclosed : s.closed c = true)
      (hs : Offer.send c m p ∈ offers i (s.place i)) : Panics s
  | close {i : ι} {c : χ} {p : σ i} (hclosed : s.closed c = true)
      (hc : Offer.close c p ∈ offers i (s.place i)) : Panics s
  | die {i : ι} (hd : Offer.die ∈ offers i (s.place i)) : Panics s

inductive Run (s : State χ σ) : List (Event ι χ μ) → State χ σ → Prop
  | nil : Run s [] s
  | snoc {es : List (Event ι χ μ)} {e : Event ι χ μ} {t u : State χ σ} (hrun : Run s es t)
      (hstep : Step offers t e u) : Run s (es ++ [e]) u

variable {offers} {s t u : State χ σ} {e : Event ι χ μ} {es : List (Event ι χ μ)} {I : State χ σ → Prop}

lemma Run.trans {es' : List (Event ι χ μ)} (h : Run offers s es t) (h' : Run offers t es' u) :
    Run offers s (es ++ es') u := by
  induction h' with
  | nil => rwa [List.append_nil]
  | snoc hrun hstep ih =>
    rw [← List.append_assoc]
    exact .snoc ih hstep

/-- What every step keeps holds after every run. -/
theorem Run.keeps
    (hstep : ∀ t e u, I t → Step offers t e u → I u) (h : Run offers s es t) (hs : I s) : I t := by
  induction h with
  | nil => exact hs
  | snoc hrun hs' ih => exact hstep _ _ _ ih hs'

/-- If every step takes off a weight at least what it pays out, less what it is given, a run from a
weight pays out no more than the weight and what it is given. -/
theorem Run.pays_le {weight : State χ σ → ℕ} {pays given : Event ι χ μ → ℕ}
    (hkeep : ∀ t e u, I t → Step offers t e u → I u)
    (hpay : ∀ t e u, I t → Step offers t e u → weight u + pays e ≤ weight t + given e)
    (h : Run offers s es t) (hs : I s) :
    weight t + (es.map pays).sum ≤ weight s + (es.map given).sum := by
  induction h with
  | nil => simp
  | snoc hrun hstep ih =>
    have hpaid := hpay _ _ _ (hrun.keeps hkeep hs) hstep
    simp only [List.map_append,List.map_cons,List.map_nil,List.sum_append,List.sum_cons,List.sum_nil]
    omega

/-- What every step keeps in balance is in balance after every run. -/
theorem Run.balance {held : State χ σ → ℕ} {out inn : Event ι χ μ → ℕ}
    (hkeep : ∀ t e u, I t → Step offers t e u → I u)
    (hbal : ∀ t e u, I t → Step offers t e u → held u + out e = held t + inn e)
    (h : Run offers s es t) (hs : I s) :
    held t + (es.map out).sum = held s + (es.map inn).sum := by
  induction h with
  | nil => simp
  | snoc hrun hstep ih =>
    have hone := hbal _ _ _ (hrun.keeps hkeep hs) hstep
    simp only [List.map_append,List.map_cons,List.map_nil,List.sum_append,List.sum_cons,List.sum_nil]
    omega

end Steps
end Rendezvous
end PhpAgent

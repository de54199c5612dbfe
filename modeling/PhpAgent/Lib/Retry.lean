import Mathlib.Data.Set.Lattice
import Mathlib.Data.List.Pairwise
import Mathlib.Data.List.Perm.Basic
import Mathlib.Order.CompletePartialOrder

/-! Batches of items that are delivered again when a delivery fails. A batch counts its failed
deliveries; the items of a failed batch are merged into another one. Data that are merged are aggregated,
and the free way to do it keeps what they were put together from. -/
namespace PhpAgent

/-! ### What is aggregated -/

class Aggregate (D : Type) where
  aggregate : D → D → D

/-- How a value was put together from observations. -/
inductive Provenance (D : Type)
  | observation (d : D)
  | aggregate (dst src : Provenance D)
deriving DecidableEq

namespace Provenance
variable {D : Type}

instance : Aggregate (Provenance D) := ⟨Provenance.aggregate⟩

/-- The observations that went into a value. -/
def observations : Provenance D → List D
  | observation d => [d]
  | aggregate dst src => dst.observations ++ src.observations

/-- The value itself, for observations with values in `E`. -/
def value {E : Type} [Aggregate E] (f : D → E) : Provenance D → E
  | observation d => f d
  | aggregate dst src => Aggregate.aggregate (dst.value f) (src.value f)

@[simp] lemma observations_aggregate (dst src : Provenance D) :
    (Aggregate.aggregate dst src).observations = dst.observations ++ src.observations := rfl

@[simp] lemma value_aggregate {E : Type} [Aggregate E] (f : D → E) (dst src : Provenance D) :
    (Aggregate.aggregate dst src).value f = Aggregate.aggregate (dst.value f) (src.value f) := rfl

end Provenance

/-! ### Batches -/

structure Batch (α : Type) where
  items : Set α
  fails : ℕ
  inFlight : Bool

namespace Batch

/-- How often an item of the batch may have been part of a delivery. -/
def allowance {α : Type} (b : Batch α) : ℕ := if b.inFlight then b.fails+1 else b.fails

/-- The batches `bs` hold items of `used`, no item is in two of them, and no item was part of more
deliveries, as counted by `attempts`, than its batch allows. -/
structure Sound {α : Type} (limit : ℕ) (used : Set α) (attempts : α → ℕ) (bs : List (Batch α)) :
    Prop where
  disjoint : bs.Pairwise fun a b => Disjoint a.items b.items
  used_of_mem : ∀ b ∈ bs, b.items ⊆ used
  fresh : ∀ x, x ∉ used → attempts x = 0
  allowed : ∀ b ∈ bs, ∀ x ∈ b.items, attempts x ≤ b.allowance
  fails_le : ∀ b ∈ bs, b.fails ≤ limit
  bounded : ∀ x, attempts x ≤ limit+1

namespace Sound
variable {α : Type} {limit : ℕ} {used : Set α} {attempts : α → ℕ} {bs cs : List (Batch α)}
  {b c : Batch α} {items : Set α}

lemma nil (limit : ℕ) : Sound limit (∅ : Set α) (fun _ => 0) [] where
  disjoint := .nil
  used_of_mem b hb := by cases hb
  fresh x _ := rfl
  allowed b hb := by cases hb
  fails_le b hb := by cases hb
  bounded x := Nat.zero_le _

lemma perm (h : Sound limit used attempts bs) (hperm : bs.Perm cs) :
    Sound limit used attempts cs where
  __ := h
  disjoint := (hperm.pairwise_iff fun hd => hd.symm).mp h.disjoint
  used_of_mem b hb := h.used_of_mem b (hperm.mem_iff.mpr hb)
  allowed b hb := h.allowed b (hperm.mem_iff.mpr hb)
  fails_le b hb := h.fails_le b (hperm.mem_iff.mpr hb)

lemma tail (h : Sound limit used attempts (b :: bs)) : Sound limit used attempts bs where
  __ := h
  disjoint := (List.pairwise_cons.mp h.disjoint).2
  used_of_mem c hc := h.used_of_mem c (List.mem_cons_of_mem _ hc)
  allowed c hc := h.allowed c (List.mem_cons_of_mem _ hc)
  fails_le c hc := h.fails_le c (List.mem_cons_of_mem _ hc)

/-- A batch with items of its own that its count allows. -/
theorem cons (h : Sound limit used attempts bs)
    (hdisj : ∀ c ∈ bs, Disjoint b.items c.items) (hused : b.items ⊆ used)
    (hallowed : ∀ x ∈ b.items, attempts x ≤ b.allowance) (hfails : b.fails ≤ limit) :
    Sound limit used attempts (b :: bs) where
  __ := h
  disjoint := List.pairwise_cons.mpr ⟨hdisj,h.disjoint⟩
  used_of_mem := List.forall_mem_cons.mpr ⟨hused,h.used_of_mem⟩
  allowed := List.forall_mem_cons.mpr ⟨hallowed,h.allowed⟩
  fails_le := List.forall_mem_cons.mpr ⟨hfails,h.fails_le⟩

lemma empty (h : Sound limit used attempts bs) : Sound limit used attempts (⟨∅,0,false⟩ :: bs) :=
  h.cons (fun _ _ => Set.empty_disjoint _) (Set.empty_subset _) (fun _ hx => absurd hx id)
    (Nat.zero_le _)

lemma disjoint_head (h : Sound limit used attempts (b :: bs)) :
    ∀ c ∈ bs, Disjoint b.items c.items := (List.pairwise_cons.mp h.disjoint).1

/-- Two batches in the place of one, with items of it and its count. -/
theorem split (h : Sound limit used attempts (b :: bs)) (c₁ c₂ : Batch α) (h₁ : c₁.items ⊆ b.items)
    (h₂ : c₂.items ⊆ b.items) (hdisj : Disjoint c₁.items c₂.items) (hf₁ : c₁.fails = b.fails)
    (hf₂ : c₂.fails = b.fails) (hi₁ : c₁.inFlight = b.inFlight) (hi₂ : c₂.inFlight = b.inFlight) :
    Sound limit used attempts (c₁ :: c₂ :: bs) := by
  have hall : ∀ c : Batch α, c.items ⊆ b.items → c.fails = b.fails → c.inFlight = b.inFlight →
      ∀ x ∈ c.items, attempts x ≤ c.allowance := by
    intro c hc hf hi x hx
    have hb := h.allowed b List.mem_cons_self x (hc hx)
    rwa [allowance,hf,hi]
  have hused := h.used_of_mem b List.mem_cons_self
  have hfails := h.fails_le b List.mem_cons_self
  have hc₂ : Sound limit used attempts (c₂ :: bs) :=
    h.tail.cons (fun c hc => (h.disjoint_head c hc).mono_left h₂) (h₂.trans hused)
      (hall c₂ h₂ hf₂ hi₂) (hf₂.trans_le hfails)
  refine hc₂.cons ?_ (h₁.trans hused) (hall c₁ h₁ hf₁ hi₁) (hf₁.trans_le hfails)
  exact List.forall_mem_cons.mpr ⟨hdisj,fun c hc => (h.disjoint_head c hc).mono_left h₁⟩

/-- Items may get lost. -/
theorem shrink (h : Sound limit used attempts (b :: bs)) (hsub : items ⊆ b.items) :
    Sound limit used attempts ({ b with items := items } :: bs) := by
  refine h.tail.cons (fun c hc => (h.disjoint_head c hc).mono_left hsub)
    (hsub.trans (h.used_of_mem b List.mem_cons_self)) (fun x hx => ?_)
    (h.fails_le b List.mem_cons_self)
  exact h.allowed b List.mem_cons_self x (hsub hx)

/-- A new item. -/
theorem add (h : Sound limit used attempts (b :: bs)) {x : α} (hx : x ∉ used)
    (hsub : items ⊆ insert x b.items) :
    Sound limit (insert x used) attempts ({ b with items := items } :: bs) := by
  have hmono : Sound limit (insert x used) attempts bs :=
    ⟨h.tail.disjoint,fun c hc => (h.tail.used_of_mem c hc).trans (Set.subset_insert x used),
      fun y hy => h.fresh y fun hmem => hy (Set.mem_insert_of_mem x hmem),h.tail.allowed,
      h.tail.fails_le,h.bounded⟩
  refine hmono.cons (fun c hc => ?_) ?_ (fun y hy => ?_) (h.fails_le b List.mem_cons_self)
  · refine Set.disjoint_left.mpr fun y hy hyc => ?_
    rcases hsub hy with rfl | hyb
    · exact hx (h.tail.used_of_mem c hc hyc)
    · exact Set.disjoint_left.mp (h.disjoint_head c hc) hyb hyc
  · exact hsub.trans (Set.insert_subset_insert (h.used_of_mem b List.mem_cons_self))
  · rcases hsub hy with rfl | hyb
    · rw [h.fresh y hx]
      exact Nat.zero_le _
    · exact h.allowed b List.mem_cons_self y hyb

/-- A batch is delivered: an attempt for each of its items. -/
theorem launch (h : Sound limit used attempts (b :: bs)) (hflight : b.inFlight = false)
    {attempts' : α → ℕ} (hmem : ∀ x ∈ b.items, attempts' x = attempts x+1)
    (hnot : ∀ x, x ∉ b.items → attempts' x = attempts x) :
    Sound limit used attempts' ({ b with inFlight := true } :: bs) := by
  have hallowed : ∀ x ∈ b.items, attempts' x ≤ b.fails+1 := by
    intro x hx
    have hb := h.allowed b List.mem_cons_self x hx
    rw [allowance,hflight] at hb
    rw [hmem x hx]
    exact Nat.succ_le_succ hb
  refine ⟨List.pairwise_cons.mpr ⟨h.disjoint_head,h.tail.disjoint⟩,
    List.forall_mem_cons.mpr ⟨h.used_of_mem b List.mem_cons_self,h.tail.used_of_mem⟩,
    fun x hx => ?_,?_,List.forall_mem_cons.mpr ⟨h.fails_le b List.mem_cons_self,h.tail.fails_le⟩,
    fun x => ?_⟩
  · rw [hnot x fun hxb => hx (h.used_of_mem b List.mem_cons_self hxb)]
    exact h.fresh x hx
  · refine List.forall_mem_cons.mpr ⟨hallowed,fun c hc x hx => ?_⟩
    rw [hnot x fun hxb => Set.disjoint_left.mp (h.disjoint_head c hc) hxb hx]
    exact h.tail.allowed c hc x hx
  · by_cases hx : x ∈ b.items
    · exact (hallowed x hx).trans (Nat.succ_le_succ (h.fails_le b List.mem_cons_self))
    · rw [hnot x hx]
      exact h.bounded x

/-- A failed batch is merged into another one, whose count becomes one more than that of the failed
batch and is not lowered by it. -/
theorem land (h : Sound limit used attempts (b :: c :: bs)) (hb : b.inFlight = true)
    (hc : c.inFlight = false) (hsub : items ⊆ c.items ∪ b.items)
    (hle : c.fails ≤ b.fails+1) (hlimit : b.fails+1 ≤ limit) :
    Sound limit used attempts (⟨items,b.fails+1,false⟩ :: bs) := by
  refine h.tail.tail.cons (fun d hd => ?_) ?_ (fun x hx => ?_) hlimit
  · refine Disjoint.mono_left hsub (Disjoint.sup_left ?_ ?_)
    · exact h.tail.disjoint_head d hd
    · exact h.disjoint_head d (List.mem_cons_of_mem _ hd)
  · refine hsub.trans (Set.union_subset ?_ ?_)
    · exact h.tail.used_of_mem c List.mem_cons_self
    · exact h.used_of_mem b List.mem_cons_self
  · rcases hsub hx with hxc | hxb
    · have hallowed := h.tail.allowed c List.mem_cons_self x hxc
      rw [allowance,hc] at hallowed
      exact hallowed.trans hle
    · have hallowed := h.allowed b List.mem_cons_self x hxb
      rw [allowance,hb] at hallowed
      exact hallowed

end Sound

/-! ### Containers as batches -/

section Containers
variable {T α : Type} (items : T → Set α) (fails : T → ℕ)

/-- A container as a batch, in flight or not. -/
def ofContainer (inFlight : Bool) (t : T) : Batch α := ⟨items t,fails t,inFlight⟩

/-- The containers that are filled and those that are being delivered. -/
def ofContainers (live flying : List T) : List (Batch α) :=
  live.map (ofContainer items fails false) ++ flying.map (ofContainer items fails true)

variable {items fails} {live flying : List T} {i : ℕ} {t : T}

lemma ofContainers_live (hi : live[i]? = some t) :
    (ofContainers items fails live flying).Perm
      (ofContainer items fails false t :: ofContainers items fails (live.eraseIdx i) flying) := by
  obtain ⟨hlt,rfl⟩ := List.getElem?_eq_some_iff.mp hi
  exact ((List.getElem_cons_eraseIdx_perm hlt).symm.map _).append_right _

lemma ofContainers_set (hi : live[i]? = some t) (t' : T) :
    (ofContainers items fails (live.set i t') flying).Perm
      (ofContainer items fails false t' :: ofContainers items fails (live.eraseIdx i) flying) := by
  have hlt := (List.getElem?_eq_some_iff.mp hi).1
  exact ((List.set_perm_cons_eraseIdx hlt t').map _).append_right _

lemma ofContainers_new (t : T) :
    (ofContainers items fails (live ++ [t]) flying).Perm
      (ofContainer items fails false t :: ofContainers items fails live flying) :=
  ((List.perm_append_singleton t live).map _).append_right _

lemma ofContainers_flying (hi : flying[i]? = some t) :
    (ofContainers items fails live flying).Perm
      (ofContainer items fails true t :: ofContainers items fails live (flying.eraseIdx i)) := by
  obtain ⟨hlt,rfl⟩ := List.getElem?_eq_some_iff.mp hi
  refine (((List.getElem_cons_eraseIdx_perm hlt).symm.map _).append_left _).trans ?_
  exact List.perm_middle

lemma ofContainers_push (t : T) :
    (ofContainers items fails live (flying ++ [t])).Perm
      (ofContainer items fails true t :: ofContainers items fails live flying) := by
  refine (((List.perm_append_singleton t flying).map _).append_left _).trans ?_
  exact List.perm_middle

end Containers
end Batch
end PhpAgent

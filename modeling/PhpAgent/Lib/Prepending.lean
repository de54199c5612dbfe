import Mathlib.Data.List.Forall2
import PhpAgent.Lib.Backfill

/-! Programs that put things in front of a buffer. What is in the buffer stays there, so a property of
its end that was established once can be used by all that follows. -/
namespace PhpAgent

/-- A property that stays when something is put in front. -/
def Lasting {β : Type} (P : List β → Prop) : Prop := ∀ ⦃l l' : List β⦄, P l → l <:+ l' → P l'

section Lasting
variable {β : Type} {P Q : List β → Prop}

lemma lasting_const (p : Prop) : Lasting fun _ : List β => p := fun _ _ h _ => h

lemma lasting_le_length (n : ℕ) : Lasting fun l : List β => n ≤ l.length :=
  fun _ _ h hl => h.trans hl.length_le

lemma lasting_lies (offset : ℕ) (s : List β) : Lasting fun l => Lies l offset s :=
  fun _ _ h hl => h.mono hl

lemma Lasting.and (hP : Lasting P) (hQ : Lasting Q) : Lasting fun l => P l ∧ Q l :=
  fun _ _ h hl => ⟨hP h.1 hl,hQ h.2 hl⟩

lemma Lasting.forall₂ {ι γ : Type} {R : ι → γ → List β → Prop} (hR : ∀ i a, Lasting (R i a)) (is : List ι)
    (as : List γ) : Lasting fun l => List.Forall₂ (fun i a => R i a l) is as :=
  fun _ _ h hl => h.imp fun i a h => hR i a h hl

end Lasting

/-- States with a buffer, and which of them are in order. -/
structure Buffered (σ β : Type) where
  ok : σ → Prop
  used : σ → List β

/-- A loop over a list that keeps the results of its rounds. -/
def forEach {σ ε ι γ : Type} (f : ι → σ → Except ε (γ × σ)) : List ι → σ → Except ε (List γ × σ)
  | [],s => .ok ([],s)
  | i :: is,s => f i s >>= fun r => forEach f is r.2 >>= fun rs => .ok (r.1 :: rs.1,rs.2)

section Leaves
variable {σ β ε γ δ ι : Type} (B : Buffered σ β) (stops : ε → Prop) (total : ℕ)

/-- A program that puts no more than `bound` in front of the buffer, which stays in order. It may count on
`pre`, and on room for that much, and leaves what `post` says of its result. -/
def Leaves (bound : ℕ) (pre : List β → Prop) (post : γ → List β → Prop) (f : σ → Except ε (γ × σ)) : Prop :=
  ∀ s, B.ok s → pre (B.used s) → (B.used s).length + bound ≤ total →
    Ends stops (fun r => B.ok r.2 ∧ B.used s <:+ B.used r.2 ∧
      (B.used r.2).length ≤ (B.used s).length + bound ∧ post r.1 (B.used r.2)) (f s)

variable {B stops total} {bound bound' : ℕ} {pre pre' : List β → Prop} {post post' : γ → List β → Prop}
  {f : σ → Except ε (γ × σ)}

lemma Leaves.weaken (h : Leaves B stops total bound pre post f) (hbound : bound ≤ bound')
    (hpre : ∀ l, pre' l → pre l) (hpost : ∀ a l, post a l → post' a l) :
    Leaves B stops total bound' pre' post' f := by
  intro s hok hs hroom
  refine (h s hok (hpre _ hs) (by omega)).mono fun r ⟨hok',hsuffix,hlen,hr⟩ => ?_
  exact ⟨hok',hsuffix,by omega,hpost _ _ hr⟩

/-- What was counted on still holds. -/
theorem Leaves.keep (h : Leaves B stops total bound pre post f) (hpre : Lasting pre) :
    Leaves B stops total bound pre (fun a l => pre l ∧ post a l) f := by
  intro s hok hs hroom
  refine (h s hok hs hroom).mono fun r ⟨hok',hsuffix,hlen,hr⟩ => ?_
  exact ⟨hok',hsuffix,hlen,hpre hs hsuffix,hr⟩

/-- One program after the other. -/
theorem Leaves.bind {b₁ b₂ : ℕ} {mid : γ → List β → Prop} {post : δ → List β → Prop} {g : γ × σ → Except ε (δ × σ)}
    (hf : Leaves B stops total b₁ pre mid f) (hpre : Lasting pre)
    (hg : ∀ a, Leaves B stops total b₂ (fun l => pre l ∧ mid a l) post fun s => g (a,s)) :
    Leaves B stops total (b₁ + b₂) pre post fun s => f s >>= g := by
  intro s hok hs hroom
  refine (hf s hok hs (by omega)).bind fun r ⟨hok₁,hsuffix₁,hlen₁,hmid⟩ => ?_
  refine (hg r.1 r.2 hok₁ ⟨hpre hs hsuffix₁,hmid⟩ (by omega)).mono fun r' ⟨hok₂,hsuffix₂,hlen₂,hpost⟩ => ?_
  exact ⟨hok₂,hsuffix₁.trans hsuffix₂,by omega,hpost⟩

/-- One program after the other, where all that was left stays. -/
theorem Leaves.step {b₁ b₂ : ℕ} {mid : γ → List β → Prop} {post : δ → List β → Prop} {g : γ × σ → Except ε (δ × σ)}
    (hf : Leaves B stops total b₁ pre mid f) (hpre : Lasting pre) (hmid : ∀ a, Lasting (mid a))
    (hg : ∀ a, Lasting (fun l => pre l ∧ mid a l) →
      Leaves B stops total b₂ (fun l => pre l ∧ mid a l) post fun s => g (a,s)) :
    Leaves B stops total (b₁ + b₂) pre post fun s => f s >>= g :=
  hf.bind hpre fun a => hg a (hpre.and (hmid a))

/-- The rounds of a loop leave their results one after the other. -/
theorem Leaves.forEach {f : ι → σ → Except ε (γ × σ)} {cost : ι → ℕ} {P : ι → γ → List β → Prop} {is : List ι}
    (hpre : Lasting pre) (hP : ∀ i a, Lasting (P i a))
    (hf : ∀ i ∈ is, Leaves B stops total (cost i) pre (P i) (f i)) :
    Leaves B stops total (is.map cost).sum pre (fun as l => List.Forall₂ (fun i a => P i a l) is as)
      (PhpAgent.forEach f is) := by
  induction is with
  | nil => exact fun s hok _ _ => ⟨hok,List.suffix_rfl,le_rfl,.nil⟩
  | cons i is ih =>
    rw [List.forall_mem_cons] at hf
    intro s hok hs hroom
    rw [List.map_cons,List.sum_cons] at hroom ⊢
    refine (hf.1 s hok hs (by omega)).bind fun r ⟨hok₁,hsuffix₁,hlen₁,hr⟩ => ?_
    refine (ih hf.2 r.2 hok₁ (hpre hs hsuffix₁) (by omega)).bind fun rs ⟨hok₂,hsuffix₂,hlen₂,hrs⟩ => ?_
    exact ⟨hok₂,hsuffix₁.trans hsuffix₂,by dsimp only; omega,.cons (hP _ _ hr hsuffix₂) hrs⟩

end Leaves

end PhpAgent

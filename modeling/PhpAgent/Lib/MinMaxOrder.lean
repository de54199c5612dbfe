import Mathlib.Tactic

/-! The min-max order on an implicit binary tree, over arbitrary labels.

Nodes are the positive naturals, with `y/2` the parent of `y`. Levels alternate between two
polarities: on the levels selected by `P` a label is below everything under it, on the others it is
above. Everything is stated for one polarity; the other one is the same statement for the flipped
relation and the complementary levels. -/
namespace PhpAgent.MinMaxOrder

/-- `Anc x y`: the node `x` is a proper ancestor of the node `y`. -/
inductive Anc : ℕ → ℕ → Prop
  | parent {y} (hy : 2 ≤ y) : Anc (y/2) y
  | up {x y} (hy : 2 ≤ y) (h : Anc x (y/2)) : Anc x y

namespace Anc

variable {x y : ℕ}

lemma iff_parent : Anc x y ↔ 2 ≤ y ∧ (x = y/2 ∨ Anc x (y/2)) := by
  constructor
  · rintro (hy | ⟨hy,h⟩)
    · exact ⟨hy,.inl rfl⟩
    · exact ⟨hy,.inr h⟩
  · rintro ⟨hy,rfl | h⟩
    · exact .parent hy
    · exact .up hy h

lemma pos (h : Anc x y) : 1 ≤ x := by
  induction h with
  | parent hy => omega
  | up _ _ ih => exact ih

lemma lt (h : Anc x y) : x < y := by
  induction h with
  | parent hy => omega
  | up hy _ ih => omega

lemma trans {x y z : ℕ} (hxy : Anc x y) (hyz : Anc y z) : Anc x z := by
  induction hyz with
  | parent hy => exact .up hy hxy
  | up hy _ ih => exact .up hy (ih hxy)

/-- A descendant of `x` is one of its two children or lies below one of them. -/
theorem below_child (h : Anc x y) : ∃ c, c/2 = x ∧ 2 ≤ c ∧ (y = c ∨ Anc c y) := by
  induction h with
  | @parent y hy => exact ⟨y,rfl,hy,.inl rfl⟩
  | @up x y hy _ ih =>
    obtain ⟨c,hc,hc2,he | hd⟩ := ih
    · exact ⟨c,hc,hc2,.inr (he ▸ .parent hy)⟩
    · exact ⟨c,hc,hc2,.inr (.up hy hd)⟩

end Anc

/-- The levels of polarity `P` alternate with the depth. -/
def Alternating (P : ℕ → Prop) : Prop := ∀ y, 2 ≤ y → (P y ↔ ¬ P (y/2))

variable {P : ℕ → Prop}

lemma Alternating.compl (h : Alternating P) : Alternating (fun i => ¬ P i) :=
  fun y hy => not_congr (h y hy)

lemma Alternating.child (h : Alternating P) {y : ℕ} (hy : 2 ≤ y)
    (hp : P (y/2)) : ¬ P y := fun hh => (h y hy).mp hh hp

lemma Alternating.grandchild (h : Alternating P) {y : ℕ} (hy : 4 ≤ y) : P y ↔ P (y/2/2) := by
  rw [h y (by omega),h (y/2) (by omega),not_not]

section Order
variable {α : Type*} (r : α → α → Prop) (P : ℕ → Prop)

/-- The labels at `x` and at its descendant `y` are in the order the level of `x` asks for. -/
def LevelRel (a : ℕ → α) (x y : ℕ) : Prop := (P x → r (a x) (a y)) ∧ (¬ P x → r (a y) (a x))

/-- All pairs of a node and a descendant among the nodes `1, ..., n` are in order. -/
def Ordered (n : ℕ) (a : ℕ → α) : Prop := ∀ x y, Anc x y → y ≤ n → LevelRel r P a x y

/-- In order but for the node `i` against its ancestors of polarity `P`. -/
def OrderedUpTo (n i : ℕ) (a : ℕ → α) : Prop :=
  ∀ x y, Anc x y → y ≤ n → ¬ (y = i ∧ P x) → LevelRel r P a x y

/-- In order but for the node `i` against its descendants. -/
def OrderedDownTo (n i : ℕ) (a : ℕ → α) : Prop :=
  ∀ x y, Anc x y → y ≤ n → x ≠ i → LevelRel r P a x y

lemma rel_flip (a : ℕ → α) (x y : ℕ) :
    LevelRel (flip r) (fun i => ¬ P i) a x y ↔ LevelRel r P a x y := by
  simp only [LevelRel,flip,not_not]
  exact and_comm

lemma ordered_flip (n : ℕ) (a : ℕ → α) :
    Ordered (flip r) (fun i => ¬ P i) n a ↔ Ordered r P n a := by
  simp only [Ordered,rel_flip]

lemma orderedDownTo_flip (n i : ℕ) (a : ℕ → α) :
    OrderedDownTo (flip r) (fun i => ¬ P i) n i a ↔ OrderedDownTo r P n i a := by
  simp only [OrderedDownTo,rel_flip]

variable {r P} {a : ℕ → α} {n i : ℕ}

lemma Ordered.mono {n m : ℕ} (h : Ordered r P n a) (hm : m ≤ n) :
    Ordered r P m a := fun x y hxy hy => h x y hxy (hy.trans hm)

lemma Ordered.congr {n : ℕ} {a b : ℕ → α} (h : Ordered r P n a)
    (hab : ∀ i, 1 ≤ i → i ≤ n → b i = a i) : Ordered r P n b := by
  intro x y hxy hy
  have hx := hxy.lt
  have hx1 := hxy.pos
  simp only [LevelRel,hab x hx1 (by omega),hab y (by omega) hy]
  exact h x y hxy hy

/-- With nothing of its polarity above it, the node `i` is no exception at all. -/
theorem OrderedUpTo.of_top (h : OrderedUpTo r P n i a) (htop : ∀ x, Anc x i → ¬ P x) : Ordered r P n a := by
  intro x y hxy hy
  by_cases hp : y = i ∧ P x
  · exact absurd hp.2 (htop x (hp.1 ▸ hxy))
  · exact h x y hxy hy hp

variable (htrans : ∀ x y z, r x y → r y z → r x z)
include htrans

/-- If `i` is in order with its grandparent, it is in order with all ancestors of its polarity. -/
theorem OrderedUpTo.of_grandparent (halt : Alternating P)
    (h : OrderedUpTo r P n i a) (hi : P i) (hi4 : 4 ≤ i) (hin : i ≤ n)
    (hg : r (a (i/2/2)) (a i)) : Ordered r P n a := by
  intro x y hxy hy
  by_cases hp : y = i ∧ P x
  · obtain ⟨rfl,hx⟩ := hp
    refine ⟨fun _ => ?_,fun hn => absurd hx hn⟩
    rcases (Anc.iff_parent.mp hxy).2 with rfl | h1
    · exact absurd hx ((halt y (by omega)).mp hi)
    rcases (Anc.iff_parent.mp h1).2 with rfl | h2
    · exact hg
    · have hgx := (h x (y/2/2) h2 (by omega) (by rintro ⟨he,_⟩; omega)).1 hx
      exact htrans _ _ _ hgx hg
  · exact h x y hxy hy hp

/-- Exchanging `i` with a grandparent it precedes moves the exception to the grandparent. -/
theorem OrderedUpTo.swap (halt : Alternating P)
    (h : OrderedUpTo r P n i a) (hi : P i) (hi4 : 4 ≤ i) (hin : i ≤ n)
    (hg : r (a i) (a (i/2/2))) :
    OrderedUpTo r P n (i/2/2) (fun k => a (Equiv.swap i (i/2/2) k)) := by
  have hPg : P (i/2/2) := (halt.grandchild hi4).mp hi
  have hgi : Anc (i/2/2) i := .up (by omega) (.parent (by omega))
  generalize hgdef : i/2/2 = g at *
  have hne : g ≠ i := hgi.lt.ne
  -- The ancestors of `i` are its parent, `g`, and the ancestors of `g`.
  have hanc : ∀ x, Anc x i → x = i/2 ∨ x = g ∨ Anc x g := by
    intro x hx
    rcases (Anc.iff_parent.mp hx).2 with h1 | h1
    · exact .inl h1
    rcases (Anc.iff_parent.mp h1).2 with h2 | h2
    · exact .inr (.inl (by omega))
    · exact .inr (.inr (by rw [hgdef] at h2; exact h2))
  have hgp : Anc g (i/2) := by rw [← hgdef]; exact .parent (by omega)
  intro x y hxy hy hexc
  by_cases hyi : y = i
  · subst hyi
    have hxi : x ≠ y := hxy.lt.ne
    rcases hanc x hxy with rfl | rfl | hxg
    · have hnP : ¬ P (y/2) := (halt y (by omega)).mp hi
      have hpg : y/2 ≠ g := hgp.lt.ne'
      have hold := (h g (y/2) hgp (by omega) (by rintro ⟨he,_⟩; omega)).1 hPg
      simp only [LevelRel,Equiv.swap_apply_of_ne_of_ne hxi hpg,Equiv.swap_apply_left]
      exact ⟨fun hp => absurd hp hnP,fun _ => hold⟩
    · simp only [LevelRel,Equiv.swap_apply_left,Equiv.swap_apply_right]
      exact ⟨fun _ => hg,fun hn => absurd hPg hn⟩
    · have hxg' : x ≠ g := hxg.lt.ne
      have hold := h x g hxg (by omega) (by rintro ⟨he,_⟩; omega)
      simpa only [LevelRel,Equiv.swap_apply_of_ne_of_ne hxi hxg',Equiv.swap_apply_left] using hold
  by_cases hyg : y = g
  · subst hyg
    have hxg' : x ≠ y := hxy.lt.ne
    have hxi : x ≠ i := (hxy.trans hgi).lt.ne
    have hnP : ¬ P x := fun hp => hexc ⟨rfl,hp⟩
    have hold := (h x i (hxy.trans hgi) hin (fun hh => hnP hh.2)).2 hnP
    simp only [LevelRel,Equiv.swap_apply_of_ne_of_ne hxi hxg',Equiv.swap_apply_right]
    exact ⟨fun hp => absurd hp hnP,fun _ => hold⟩
  have hyy : Equiv.swap i g y = y := Equiv.swap_apply_of_ne_of_ne hyi hyg
  by_cases hxi : x = i
  · subst hxi
    have hold := (h g y (hgi.trans hxy) hy (by rintro ⟨he,_⟩; exact hyi he)).1 hPg
    simp only [LevelRel,hyy,Equiv.swap_apply_left]
    exact ⟨fun _ => hold,fun hn => absurd hi hn⟩
  by_cases hxg : x = g
  · subst hxg
    have hold := (h x y hxy hy (by rintro ⟨he,_⟩; exact hyi he)).1 hPg
    simp only [LevelRel,hyy,Equiv.swap_apply_right]
    exact ⟨fun _ => htrans _ _ _ hg hold,fun hn => absurd hPg hn⟩
  simp only [LevelRel,hyy,Equiv.swap_apply_of_ne_of_ne hxi hxg]
  exact h x y hxy hy (by rintro ⟨he,_⟩; exact hyi he)

/-! ### A new last leaf -/

/-- A new last leaf in order with its parent is out of order with nothing of the other polarity. -/
theorem Ordered.leaf_keep {n : ℕ} (h : Ordered r P n a) (hn : 1 ≤ n) (hp : r (a (n+1)) (a ((n+1)/2))) :
    OrderedUpTo r P (n+1) (n+1) a := by
  intro x y hxy hy hexc
  by_cases hyi : y = n+1
  · subst hyi
    have hx : ¬ P x := fun hh => hexc ⟨rfl,hh⟩
    refine ⟨fun hh => absurd hh hx,fun _ => ?_⟩
    rcases (Anc.iff_parent.mp hxy).2 with rfl | h1
    · exact hp
    · exact htrans _ _ _ hp ((h x _ h1 (by omega)).2 hx)
  · exact h x y hxy (by omega)

/-- A new last leaf on the wrong side of its parent changes places with it; what remains is the
parent's place against its ancestors of the parent's polarity. -/
theorem Ordered.leaf_swap (halt : Alternating P) {n : ℕ} (h : Ordered r P n a)
    (hn : 1 ≤ n) (hi : P (n+1)) (hp : r (a ((n+1)/2)) (a (n+1))) :
    OrderedUpTo (flip r) (fun i => ¬ P i) (n+1) ((n+1)/2)
      (fun k => a (Equiv.swap (n+1) ((n+1)/2) k)) := by
  have hpi : Anc ((n+1)/2) (n+1) := .parent (by omega)
  have hnP : ¬ P ((n+1)/2) := (halt (n+1) (by omega)).mp hi
  generalize hqdef : (n+1)/2 = q at *
  have hne := hpi.lt
  intro x y hxy hy hexc
  rw [rel_flip]
  by_cases hyi : y = n+1
  · subst hyi
    have hxi : x ≠ n+1 := hxy.lt.ne
    rcases (Anc.iff_parent.mp hxy).2 with rfl | h1
    · simp only [hqdef,LevelRel,Equiv.swap_apply_left,Equiv.swap_apply_right]
      exact ⟨fun hh => absurd hh hnP,fun _ => hp⟩
    · rw [hqdef] at h1
      have hold := h x q h1 (by omega)
      simpa only [LevelRel,Equiv.swap_apply_of_ne_of_ne hxi h1.lt.ne,Equiv.swap_apply_left] using hold
  by_cases hyq : y = q
  · subst hyq
    have hxi : x ≠ n+1 := (hxy.trans hpi).lt.ne
    have hxP : P x := by
      by_contra hh
      exact hexc ⟨rfl,hh⟩
    have hold := (h x y hxy (by omega)).1 hxP
    simp only [LevelRel,Equiv.swap_apply_of_ne_of_ne hxi hxy.lt.ne,Equiv.swap_apply_right]
    exact ⟨fun _ => htrans _ _ _ hold hp,fun hh => absurd hxP hh⟩
  have hyy : Equiv.swap (n+1) q y = y := Equiv.swap_apply_of_ne_of_ne hyi hyq
  have hxi : x ≠ n+1 := by
    have := hxy.lt
    omega
  by_cases hxq : x = q
  · subst hxq
    have hold := (h x y hxy (by omega)).2 hnP
    simp only [LevelRel,hyy,Equiv.swap_apply_right]
    exact ⟨fun hh => absurd hh hnP,fun _ => htrans _ _ _ hold hp⟩
  simp only [LevelRel,hyy,Equiv.swap_apply_of_ne_of_ne hxi hxq]
  exact h x y hxy (by omega)

/-! ### Sinking a label -/

omit htrans in
/-- `c` is a child or a grandchild of `i`. -/
def Near (i c : ℕ) : Prop := (c/2 = i ∧ 2 ≤ c) ∨ (c/2/2 = i ∧ 4 ≤ c)

omit htrans in
lemma Near.anc {i c : ℕ} (h : Near i c) : Anc i c := by
  rcases h with ⟨rfl,h⟩ | ⟨rfl,h⟩
  · exact .parent h
  · exact .up (by omega) (.parent (by omega))

omit htrans in
/-- What lies below `i` but not near it lies below a grandchild. -/
theorem Anc.near_or_below {i y : ℕ} (h : Anc i y) :
    Near i y ∨ ∃ c, c/2/2 = i ∧ 4 ≤ c ∧ Anc c y := by
  obtain ⟨c,hc,hc2,rfl | hd⟩ := h.below_child
  · exact .inl (.inl ⟨hc,hc2⟩)
  · obtain ⟨d,hd',hd2,rfl | he⟩ := hd.below_child
    · exact .inl (.inr ⟨by omega,by omega⟩)
    · exact .inr ⟨d,by omega,by omega,he⟩

/-- A bound on the labels near `i` bounds everything below `i`. -/
theorem OrderedDownTo.bound (halt : Alternating P) {v : α} (h : OrderedDownTo r P n i a) (hi : P i)
    (hv : ∀ c, Near i c → c ≤ n → r v (a c)) {y : ℕ} (hy : Anc i y) (hyn : y ≤ n) : r v (a y) := by
  rcases Anc.near_or_below hy with hnear | ⟨c,hc,hc4,hcy⟩
  · exact hv y hnear hyn
  · have hlt := hcy.lt
    have hPc : P c := (halt.grandchild hc4).mpr (hc ▸ hi)
    have hci : c ≠ i := by omega
    exact htrans _ _ _ (hv c (.inr ⟨hc,hc4⟩) (by omega)) ((h c y hcy hyn hci).1 hPc)

/-- The sinking label has come to rest. -/
theorem OrderedDownTo.rest (halt : Alternating P) (h : OrderedDownTo r P n i a) (hi : P i)
    (hv : ∀ c, Near i c → c ≤ n → r (a i) (a c)) : Ordered r P n a := by
  intro x y hxy hy
  by_cases hx : x = i
  · subst hx
    exact ⟨fun _ => h.bound htrans halt hi hv hxy hy,fun hh => absurd hi hh⟩
  · exact h x y hxy hy hx

/-- The least label near `i` sits on a child `m`: exchanging the two puts everything in order. -/
theorem OrderedDownTo.swap_child (halt : Alternating P) {n i m : ℕ}
    (h : OrderedDownTo r P n i a) (hi : P i) (hm : m/2 = i) (hm2 : 2 ≤ m)
    (hmn : m ≤ n) (hmin : ∀ c, Near i c → c ≤ n → r (a m) (a c)) (hmi : r (a m) (a i)) :
    Ordered r P n (fun k => a (Equiv.swap i m k)) := by
  have him : Anc i m := hm ▸ .parent hm2
  have hnP : ¬ P m := halt.child hm2 (hm ▸ hi)
  have hne : i ≠ m := him.lt.ne
  intro x y hxy hy
  by_cases hxi : x = i
  · subst hxi
    refine ⟨fun _ => ?_,fun hh => absurd hi hh⟩
    simp only [Equiv.swap_apply_left]
    by_cases hym : y = m
    · subst hym; simpa using hmi
    · rw [Equiv.swap_apply_of_ne_of_ne hxy.lt.ne' hym]
      exact h.bound htrans halt hi hmin hxy hy
  by_cases hxm : x = m
  · subst hxm
    have hold := (h x y hxy hy hne.symm).2 hnP
    have hyi : y ≠ i := (him.trans hxy).lt.ne'
    simp only [LevelRel,Equiv.swap_apply_right,Equiv.swap_apply_of_ne_of_ne hyi hxy.lt.ne']
    exact ⟨fun hh => absurd hh hnP,fun _ => htrans _ _ _ hold hmi⟩
  have hxx : Equiv.swap i m x = x := Equiv.swap_apply_of_ne_of_ne hxi hxm
  by_cases hyi : y = i
  · subst hyi
    have hold := h x m (hxy.trans him) hmn hxi
    simpa only [LevelRel,hxx,Equiv.swap_apply_left] using hold
  by_cases hym : y = m
  · subst hym
    have hxi' : Anc x i := by
      rcases (Anc.iff_parent.mp hxy).2 with h1 | h1
      · exact absurd (h1.trans hm) hxi
      · exact hm ▸ h1
    have hold := h x i hxi' (by omega) hxi
    simpa only [LevelRel,hxx,Equiv.swap_apply_right] using hold
  simp only [LevelRel,hxx,Equiv.swap_apply_of_ne_of_ne hyi hym]
  exact h x y hxy hy hxi

/-- The least label near `i` sits on a grandchild `m`, below the child `p`. It moves up to `i`, and
the old label of `i` takes the place of `m` or, if that breaks the order with `p`, the place of `p`
with the label of `p` moving down to `m`. What remains is `m` against its descendants. -/
theorem OrderedDownTo.sink (halt : Alternating P) {n i m : ℕ} {a b : ℕ → α}
    (h : OrderedDownTo r P n i a) (hi : P i) (hm : m/2/2 = i) (hm4 : 4 ≤ m)
    (hmn : m ≤ n) (hmin : ∀ c, Near i c → c ≤ n → r (a m) (a c)) (hmi : r (a m) (a i))
    (hb : ∀ k, k ≠ i → k ≠ m → k ≠ m/2 → b k = a k) (hbi : b i = a m)
    (hbm : b m = a i ∨ b m = a (m/2)) (hbp : b (m/2) = a i ∨ b (m/2) = a (m/2))
    (hmp : r (b m) (b (m/2))) (hpp : ∀ z, r z (a (m/2)) → r z (b (m/2))) :
    OrderedDownTo r P n m b := by
  have hip : Anc i (m/2) := hm ▸ .parent (by omega)
  have hpm : Anc (m/2) m := .parent (by omega)
  have hnp : Near i (m/2) := .inl ⟨hm,by omega⟩
  have hpP : ¬ P (m/2) := halt.child (by omega) (hm ▸ hi)
  generalize hpdef : m/2 = p at *
  have hip' := hip.lt
  have hpm' := hpm.lt
  have hanc : ∀ x, Anc x p → x ≠ i → Anc x i := by
    intro x hx hxi
    rcases (Anc.iff_parent.mp hx).2 with h1 | h1
    · exact absurd (h1.trans hm) hxi
    · exact hm ▸ h1
  -- Both labels that moved are in order with everything above `i`.
  have habove : ∀ x v, Anc x i → v = a i ∨ v = a p →
      (P x → r (a x) v) ∧ (¬ P x → r v (a x)) := by
    rintro x v hx (rfl | rfl)
    · exact h x i hx (by omega) hx.lt.ne
    · exact h x p (hx.trans hip) (by omega) hx.lt.ne
  intro x y hxy hy hxm
  by_cases hxi : x = i
  · subst hxi
    refine ⟨fun _ => ?_,fun hh => absurd hi hh⟩
    rw [hbi]
    by_cases hym : y = m
    · subst hym
      rcases hbm with hv | hv
      · exact hv ▸ hmi
      · exact hv ▸ hmin p hnp (by omega)
    by_cases hyp : y = p
    · subst hyp
      rcases hbp with hv | hv
      · exact hv ▸ hmi
      · exact hv ▸ hmin y hnp (by omega)
    rw [hb y hxy.lt.ne' hym hyp]
    exact h.bound htrans halt hi hmin hxy hy
  by_cases hxp : x = p
  · subst hxp
    refine ⟨fun hh => absurd hh hpP,fun _ => ?_⟩
    by_cases hym : y = m
    · exact hym ▸ hmp
    · have hold := (h x y hxy hy (by omega)).2 hpP
      rw [hb y (by have := hxy.lt; omega) hym hxy.lt.ne']
      exact hpp _ hold
  rw [LevelRel,hb x hxi hxm hxp]
  by_cases hyi : y = i
  · subst hyi
    rw [hbi]
    exact h x m (hxy.trans (hip.trans hpm)) hmn hxi
  by_cases hyp : y = p
  · subst hyp
    exact habove x _ (hanc x hxy hxi) hbp
  by_cases hym : y = m
  · subst hym
    rcases (Anc.iff_parent.mp hxy).2 with h1 | h1
    · exact absurd (h1.trans hpdef) hxp
    · exact habove x _ (hanc x (hpdef ▸ h1) hxi) hbm
  rw [hb y hyi hym hyp]
  exact h x y hxy hy hxi

end Order
end PhpAgent.MinMaxOrder

/-! ### Three-way comparators as total preorders -/

namespace PhpAgent

/-- The sign of `cmp` orders its arguments, possibly with ties. -/
structure IsComparator {α : Type*} (cmp : α → α → ℤ) : Prop where
  pos_iff : ∀ a b, 0 < cmp a b ↔ cmp b a < 0
  trans : ∀ a b c, cmp a b ≤ 0 → cmp b c ≤ 0 → cmp a c ≤ 0

namespace IsComparator
variable {α : Type*} {cmp : α → α → ℤ} (hc : IsComparator cmp)
include hc

lemma total (a b : α) : cmp a b ≤ 0 ∨ cmp b a ≤ 0 := by
  have := hc.pos_iff a b
  omega

lemma refl (a : α) : cmp a a ≤ 0 := (hc.total a a).elim id id

lemma neg_iff (a b : α) : cmp a b < 0 ↔ ¬ cmp b a ≤ 0 := by
  have := hc.pos_iff b a
  omega

end IsComparator

/-- A comparison of keys in a linear order is a comparator. -/
theorem isComparator_of_key {α κ : Type*} [LinearOrder κ] {cmp : α → α → ℤ} (key : α → κ)
    (hle : ∀ a b, cmp a b ≤ 0 ↔ key a ≤ key b) (hpos : ∀ a b, 0 < cmp a b ↔ cmp b a < 0) :
    IsComparator cmp where
  pos_iff := hpos
  trans a b c hab hbc := by
    rw [hle] at *
    exact hab.trans hbc

end PhpAgent

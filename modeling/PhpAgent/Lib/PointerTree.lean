import Mathlib.Tactic

/-! Trees in a memory of nodes, where each node stores its parent, its children and its own
position among its siblings. The three have to agree, and walking up has to end. The lemmas take
the memory before and after a change and say pointwise how they differ, so that they fit any order
in which a program writes the nodes. -/
namespace PhpAgent.PointerTree

structure Node (α : Type) where
  parent : Option α
  kids : List α
  ix : ℕ

/-- A memory of nodes; an address that is not live has none. -/
abbrev View (α : Type) : Type := α → Option (Node α)

variable {α : Type} {v v' : View α} {c : α} {m : Node α} {o : Option α} {l : List α}

/-- Every child points back to its parent and knows its position, and conversely. -/
structure Linked (v : View α) : Prop where
  kid : ∀ {p n i c}, v p = some n → n.kids[i]? = some c →
    ∃ m, v c = some m ∧ m.parent = some p ∧ m.ix = i
  parent : ∀ {c m p}, v c = some m → m.parent = some p →
    ∃ n, v p = some n ∧ n.kids[m.ix]? = some c

/-- The same, with `c` in nobody's children and its own parent and position left open. -/
structure LinkedBut (v : View α) (c : α) : Prop where
  kid : ∀ {p n i x}, v p = some n → n.kids[i]? = some x →
    x ≠ c ∧ ∃ m, v x = some m ∧ m.parent = some p ∧ m.ix = i
  parent : ∀ {x m p}, x ≠ c → v x = some m → m.parent = some p →
    ∃ n, v p = some n ∧ n.kids[m.ix]? = some x

lemma Linked.kids_nodup (h : Linked v) {p : α} {n : Node α} (hp : v p = some n) :
    n.kids.Nodup := by
  rw [List.nodup_iff_getElem?_ne_getElem?]
  intro i j hij hj heq
  obtain ⟨m,hm,-,hi⟩ := h.kid hp (List.getElem?_eq_getElem (hij.trans hj))
  have hget : n.kids[j]? = some n.kids[i] := heq ▸ List.getElem?_eq_getElem (hij.trans hj)
  obtain ⟨m',hm',-,hj'⟩ := h.kid hp hget
  rw [hm,Option.some_inj] at hm'
  subst hm'
  omega

lemma Linked.mem_kids_iff (h : Linked v) {p c : α} {n m : Node α} (hp : v p = some n)
    (hc : v c = some m) : c ∈ n.kids ↔ m.parent = some p := by
  constructor
  · intro hmem
    obtain ⟨i,hi⟩ := List.mem_iff_getElem?.mp hmem
    obtain ⟨m',hm',hpar,-⟩ := h.kid hp hi
    rw [hc,Option.some_inj] at hm'
    rw [hm',hpar]
  · intro hpar
    obtain ⟨n',hn',hget⟩ := h.parent hc hpar
    rw [hp,Option.some_inj] at hn'
    rw [hn']
    exact List.mem_of_getElem? hget

/-- A node without a parent is in nobody's children. -/
theorem Linked.but_of_parent_none (h : Linked v)
    (hc : ∀ m, v c = some m → m.parent = none) : LinkedBut v c where
  kid hp hget := by
    obtain ⟨m,hm,hpar,hix⟩ := h.kid hp hget
    refine ⟨?_,m,hm,hpar,hix⟩
    rintro rfl
    rw [hc m hm] at hpar
    cases hpar
  parent _ hx hpar := h.parent hx hpar

lemma LinkedBut.linked (h : LinkedBut v c) (hc : ∀ m, v c = some m → m.parent = none) :
    Linked v where
  kid hp hget := (h.kid hp hget).2
  parent {x m p} hx hpar := by
    by_cases hxc : x = c
    · subst hxc
      rw [hc m hx] at hpar
      cases hpar
    · exact h.parent hxc hx hpar

/-- A new node without children. -/
theorem Linked.fresh (h : Linked v) (hc : v c = none) (hc' : v' c = some m)
    (hkids : m.kids = []) (ho : ∀ q, q ≠ c → v' q = v q) : LinkedBut v' c := by
  have hlive : ∀ {q n}, v q = some n → q ≠ c := by
    rintro q n hq rfl
    rw [hc] at hq
    cases hq
  constructor
  · intro q n i x hq hget
    by_cases hqc : q = c
    · subst hqc
      rw [hc',Option.some_inj] at hq
      rw [← hq,hkids] at hget
      cases hget
    · rw [ho q hqc] at hq
      obtain ⟨mx,hx,hrest⟩ := h.kid hq hget
      exact ⟨hlive hx,mx,(ho x (hlive hx)).trans hx,hrest⟩
  · intro x mx q hxc hx hpar
    rw [ho x hxc] at hx
    obtain ⟨n,hq,hget⟩ := h.parent hx hpar
    exact ⟨n,(ho q (hlive hq)).trans hq,hget⟩

/-- Appending a node to the children of another. -/
theorem LinkedBut.attach (h : LinkedBut v c) {p : α} {n m : Node α} (hne : p ≠ c)
    (hp : v p = some n) (hc : v c = some m) (hp' : v' p = some { n with kids := n.kids ++ [c] })
    (hc' : v' c = some { m with parent := some p, ix := n.kids.length })
    (ho : ∀ q, q ≠ p → q ≠ c → v' q = v q) : Linked v' := by
  -- away from c only the children of p change, and only at their end
  have hkid : ∀ {q nq i x}, v q = some nq → nq.kids[i]? = some x →
      ∃ mx, v' x = some mx ∧ mx.parent = some q ∧ mx.ix = i := by
    intro q nq i x hq hget
    obtain ⟨hxc,mx,hx,hpar,hix⟩ := h.kid hq hget
    by_cases hxp : x = p
    · subst hxp
      rw [hp,Option.some_inj] at hx
      subst hx
      exact ⟨_,hp',hpar,hix⟩
    · exact ⟨mx,(ho x hxp hxc).trans hx,hpar,hix⟩
  constructor
  · intro q n' i x hq hget
    by_cases hqc : q = c
    · subst hqc
      rw [hc',Option.some_inj] at hq
      subst hq
      exact hkid hc hget
    by_cases hqp : q = p
    · subst hqp
      rw [hp',Option.some_inj] at hq
      subst hq
      rw [List.getElem?_append] at hget
      split_ifs at hget with hlt
      · exact hkid hp hget
      · rw [List.getElem?_singleton] at hget
        split_ifs at hget with hi
        rw [← Option.some_inj.mp hget]
        exact ⟨_,hc',rfl,by simp only; omega⟩
    · exact hkid ((ho q hqp hqc).symm.trans hq) hget
  · intro x m' q hx hpar
    by_cases hxc : x = c
    · subst hxc
      rw [hc',Option.some_inj] at hx
      subst hx
      rw [← Option.some_inj.mp hpar]
      exact ⟨_,hp',by simp⟩
    have hvx : ∃ mx, v x = some mx ∧ mx.parent = m'.parent ∧ mx.ix = m'.ix := by
      by_cases hxp : x = p
      · subst hxp
        rw [hp',Option.some_inj] at hx
        subst hx
        exact ⟨n,hp,rfl,rfl⟩
      · exact ⟨m',(ho x hxp hxc).symm.trans hx,rfl,rfl⟩
    obtain ⟨mx,hvx,hpx,hix⟩ := hvx
    obtain ⟨nq,hq,hget⟩ := h.parent hxc hvx (hpx.trans hpar)
    rw [← hix]
    by_cases hqp : q = p
    · subst hqp
      rw [hp,Option.some_inj] at hq
      subst hq
      exact ⟨_,hp',List.getElem?_append_left (List.getElem?_eq_some_iff.mp hget).1 ▸ hget⟩
    by_cases hqc : q = c
    · subst hqc
      rw [hc,Option.some_inj] at hq
      subst hq
      exact ⟨_,hc',hget⟩
    · exact ⟨nq,(ho q hqp hqc).trans hq,hget⟩

lemma getElem?_set_dropLast {xs : List α} {l : α} (k i : ℕ) :
    (xs.set k l).dropLast[i]? =
      if i < xs.length-1 then if i = k then some l else xs[i]? else none := by
  rw [List.getElem?_dropLast,List.length_set]
  by_cases hi : i < xs.length-1
  · rw [if_pos hi,if_pos hi,List.getElem?_set]
    by_cases hk : k = i
    · rw [if_pos hk,if_pos hk.symm,if_pos (by omega)]
    · rw [if_neg hk,if_neg (Ne.symm hk)]
  · rw [if_neg hi,if_neg hi]

/-- `v'` is `v` with the last child of `p`, which is `l`, in the place of its child `c`. -/
structure SwapPop (v v' : View α) (p c l : α) (n m ml : Node α) : Prop where
  parent : v p = some n
  child : v c = some m
  below : m.parent = some p
  self : n.parent ≠ some p
  isLast : n.kids.getLast? = some l
  last : v l = some ml
  parent' : v' p = some { n with kids := (n.kids.set m.ix l).dropLast }
  last' : v' l = some { ml with ix := m.ix }
  other : ∀ q, q ≠ p → q ≠ l → v' q = v q

namespace SwapPop
variable {p c l : α} {n m ml : Node α} {mx : Node α} {nq : Node α}

lemma last_get (hd : SwapPop v v' p c l n m ml) : n.kids[n.kids.length-1]? = some l := by
  rw [← hd.isLast,List.getLast?_eq_getElem?]

lemma last_spec (hd : SwapPop v v' p c l n m ml) (h : Linked v) :
    ml.parent = some p ∧ ml.ix = n.kids.length-1 := by
  obtain ⟨ml',hml',hpar,hix⟩ := h.kid hd.parent hd.last_get
  rw [hd.last,Option.some_inj] at hml'
  subst hml'
  exact ⟨hpar,hix⟩

lemma child_get (hd : SwapPop v v' p c l n m ml) (h : Linked v) : n.kids[m.ix]? = some c := by
  obtain ⟨n',hn',hget⟩ := h.parent hd.child hd.below
  rw [hd.parent,Option.some_inj] at hn'
  rw [hn',hget]

/-- The child is the last one exactly when it is `l`. -/
lemma ne_iff (hd : SwapPop v v' p c l n m ml) (h : Linked v) : l ≠ c ↔ m.ix < n.kids.length-1 := by
  have hget := hd.child_get h
  have hpos : m.ix < n.kids.length := (List.getElem?_eq_some_iff.mp hget).1
  constructor
  · intro hne
    have hix : m.ix ≠ n.kids.length-1 := by
      intro heq
      rw [heq,hd.last_get,Option.some_inj] at hget
      exact hne hget
    omega
  · rintro hlt rfl
    have hix := (hd.last_spec h).2
    have hm := hd.last
    rw [hd.child,Option.some_inj] at hm
    rw [← hm] at hix
    omega

/-- The parents do not change, and of the positions only that of `l`. -/
lemma keep (hd : SwapPop v v' p c l n m ml) {x : α} (hxl : x ≠ l) (hx : v x = some mx) :
    ∃ mx', v' x = some mx' ∧ mx'.parent = mx.parent ∧ mx'.ix = mx.ix := by
  by_cases hxp : x = p
  · subst hxp
    rw [hd.parent,Option.some_inj] at hx
    subst hx
    exact ⟨_,hd.parent',rfl,rfl⟩
  · exact ⟨mx,(hd.other x hxp hxl).trans hx,rfl,rfl⟩

lemma kept (hd : SwapPop v v' p c l n m ml) {x : α} (hxl : x ≠ l) (hx : v' x = some mx) :
    ∃ mx', v x = some mx' ∧ mx'.parent = mx.parent ∧ mx'.ix = mx.ix := by
  by_cases hxp : x = p
  · subst hxp
    rw [hd.parent',Option.some_inj] at hx
    subst hx
    exact ⟨n,hd.parent,rfl,rfl⟩
  · exact ⟨mx,(hd.other x hxp hxl).symm.trans hx,rfl,rfl⟩

/-- Only `p` has other children. -/
lemma kept_kids (hd : SwapPop v v' p c l n m ml) {q : α} (hqp : q ≠ p)
    (hq : v' q = some nq) : ∃ nq', v q = some nq' ∧ nq'.kids = nq.kids := by
  by_cases hql : q = l
  · subst hql
    rw [hd.last',Option.some_inj] at hq
    subst hq
    exact ⟨ml,hd.last,rfl⟩
  · exact ⟨nq,(hd.other q hqp hql).symm.trans hq,rfl⟩

/-- A child that was not moved, and its position. -/
lemma kid_of_unmoved (hd : SwapPop v v' p c l n m ml) (h : Linked v) {q x : α} {i : ℕ}
    (hq : v q = some nq) (hget : nq.kids[i]? = some x)
    (hmoved : q = p → i ≠ m.ix ∧ i ≠ n.kids.length-1) :
    x ≠ c ∧ ∃ mx, v' x = some mx ∧ mx.parent = some q ∧ mx.ix = i := by
  obtain ⟨mx,hx,hxpar,hxix⟩ := h.kid hq hget
  obtain ⟨hlpar,hlix⟩ := hd.last_spec h
  have hxl : x ≠ l := by
    rintro rfl
    rw [hd.last,Option.some_inj] at hx
    rw [← hx,hlpar,Option.some_inj] at hxpar
    rw [← hx,hlix] at hxix
    exact (hmoved hxpar.symm).2 hxix.symm
  have hxc : x ≠ c := by
    rintro rfl
    rw [hd.child,Option.some_inj] at hx
    rw [← hx,hd.below,Option.some_inj] at hxpar
    rw [← hx] at hxix
    exact (hmoved hxpar.symm).1 hxix.symm
  obtain ⟨mx',hx',hpar',hix'⟩ := hd.keep hxl hx
  exact ⟨hxc,mx',hx',hpar'.trans hxpar,hix'.trans hxix⟩

lemma kid (hd : SwapPop v v' p c l n m ml) (h : Linked v) {q x : α} {i : ℕ}
    (hq : v' q = some nq) (hget : nq.kids[i]? = some x) :
    x ≠ c ∧ ∃ mx, v' x = some mx ∧ mx.parent = some q ∧ mx.ix = i := by
  by_cases hqp : q = p
  · subst hqp
    rw [hd.parent',Option.some_inj] at hq
    subst hq
    simp only [getElem?_set_dropLast] at hget
    split_ifs at hget with hi hk
    · rw [← Option.some_inj.mp hget]
      exact ⟨(hd.ne_iff h).mpr (hk ▸ hi),_,hd.last',(hd.last_spec h).1,hk.symm⟩
    · exact hd.kid_of_unmoved h hd.parent hget fun _ => ⟨hk,by omega⟩
  · obtain ⟨nq',hq',hkq⟩ := hd.kept_kids hqp hq
    exact hd.kid_of_unmoved h hq' (hkq ▸ hget) fun heq => absurd heq hqp

lemma up (hd : SwapPop v v' p c l n m ml) (h : Linked v) {x q : α} (hxc : x ≠ c)
    (hx : v' x = some mx) (hxpar : mx.parent = some q) :
    ∃ nq, v' q = some nq ∧ nq.kids[mx.ix]? = some x := by
  by_cases hxl : x = l
  · subst hxl
    rw [hd.last',Option.some_inj] at hx
    subst hx
    simp only at hxpar
    rw [(hd.last_spec h).1,Option.some_inj] at hxpar
    subst hxpar
    refine ⟨_,hd.parent',?_⟩
    simp only [getElem?_set_dropLast,(hd.ne_iff h).mp hxc,if_true]
  · obtain ⟨mx',hx',hpar',hix'⟩ := hd.kept hxl hx
    obtain ⟨nq,hq,hget⟩ := h.parent hx' (hpar'.trans hxpar)
    rw [← hix']
    by_cases hqp : q = p
    · subst hqp
      rw [hd.parent,Option.some_inj] at hq
      subst hq
      refine ⟨_,hd.parent',?_⟩
      have hchild : mx'.ix ≠ m.ix := by
        intro heq
        rw [heq,hd.child_get h,Option.some_inj] at hget
        exact hxc hget.symm
      have hend : mx'.ix ≠ n.kids.length-1 := by
        intro heq
        rw [heq,hd.last_get,Option.some_inj] at hget
        exact hxl hget.symm
      have hlt := (List.getElem?_eq_some_iff.mp hget).1
      simp only [getElem?_set_dropLast]
      rw [if_pos (by omega),if_neg hchild,hget]
    · by_cases hql : q = l
      · subst hql
        rw [hd.last,Option.some_inj] at hq
        subst hq
        exact ⟨_,hd.last',hget⟩
      · exact ⟨nq,(hd.other q hqp hql).trans hq,hget⟩

end SwapPop

/-- Swap and pop: the last child takes the place of the removed one. -/
theorem Linked.detach (h : Linked v) {p c l : α} {n m ml : Node α} (hp : v p = some n)
    (hc : v c = some m) (hpar : m.parent = some p) (hself : n.parent ≠ some p)
    (hlast : n.kids.getLast? = some l) (hl : v l = some ml)
    (hp' : v' p = some { n with kids := (n.kids.set m.ix l).dropLast })
    (hl' : v' l = some { ml with ix := m.ix }) (ho : ∀ q, q ≠ p → q ≠ l → v' q = v q) :
    LinkedBut v' c := by
  have hd : SwapPop v v' p c l n m ml := ⟨hp,hc,hpar,hself,hlast,hl,hp',hl',ho⟩
  exact ⟨fun hq hget => hd.kid h hq hget,fun hxc hx hxpar => hd.up h hxc hx hxpar⟩

/-- All children of `c` become children of `p`, behind those `p` has. -/
theorem LinkedBut.adopt (h : LinkedBut v c) {p : α} {n m : Node α} (hne : p ≠ c)
    (hp : v p = some n) (hc : v c = some m) (hpk : p ∉ m.kids)
    (hp' : v' p = some { n with kids := n.kids ++ m.kids }) (hc' : v' c = some { m with kids := [] })
    (hk : ∀ i x mx, m.kids[i]? = some x → v x = some mx →
      v' x = some { mx with parent := some p, ix := n.kids.length+i })
    (ho : ∀ q, q ≠ p → q ≠ c → q ∉ m.kids → v' q = v q) : LinkedBut v' c := by
  have hsame : ∀ {q i x nq}, q ≠ c → v q = some nq → nq.kids[i]? = some x →
      x ≠ c ∧ ∃ mx, v' x = some mx ∧ mx.parent = some q ∧ mx.ix = i := by
    intro q i x nq hqc hq hget
    obtain ⟨hxc,mx,hx,hpar,hix⟩ := h.kid hq hget
    refine ⟨hxc,?_⟩
    by_cases hxp : x = p
    · subst hxp
      rw [hp,Option.some_inj] at hx
      subst hx
      exact ⟨_,hp',hpar,hix⟩
    · refine ⟨mx,(ho x hxp hxc ?_).trans hx,hpar,hix⟩
      intro hmem
      obtain ⟨j,hj⟩ := List.mem_iff_getElem?.mp hmem
      obtain ⟨-,mx',hx',hpar',-⟩ := h.kid hc hj
      rw [hx,Option.some_inj] at hx'
      rw [← hx',hpar,Option.some_inj] at hpar'
      exact hqc hpar'
  constructor
  · intro q nq i x hq hget
    by_cases hqp : q = p
    · subst hqp
      rw [hp',Option.some_inj] at hq
      subst hq
      rw [List.getElem?_append] at hget
      split_ifs at hget with hlt
      · exact hsame hne hp hget
      · obtain ⟨hxc,mx,hx,-,-⟩ := h.kid hc hget
        exact ⟨hxc,_,hk _ x mx hget hx,rfl,by simp only; omega⟩
    by_cases hqc : q = c
    · subst hqc
      rw [hc',Option.some_inj] at hq
      rw [← hq] at hget
      cases hget
    by_cases hqk : q ∈ m.kids
    · obtain ⟨j,hj⟩ := List.mem_iff_getElem?.mp hqk
      obtain ⟨-,mq,hmq,-,-⟩ := h.kid hc hj
      rw [hk j q mq hj hmq,Option.some_inj] at hq
      subst hq
      exact hsame hqc hmq hget
    · exact hsame hqc ((ho q hqp hqc hqk).symm.trans hq) hget
  · intro x mx q hxc hx hpar
    -- children that were already below another node keep their place there
    have hstay : ∀ {mx'}, v x = some mx' → mx'.parent = some q → mx'.ix = mx.ix → q ≠ c →
        ∃ nq, v' q = some nq ∧ nq.kids[mx.ix]? = some x := by
      intro mx' hx' hpar' hix' hqc
      obtain ⟨nq,hq,hget⟩ := h.parent hxc hx' hpar'
      rw [← hix']
      by_cases hqp : q = p
      · subst hqp
        rw [hp,Option.some_inj] at hq
        subst hq
        exact ⟨_,hp',List.getElem?_append_left (List.getElem?_eq_some_iff.mp hget).1 ▸ hget⟩
      by_cases hqk : q ∈ m.kids
      · obtain ⟨j,hj⟩ := List.mem_iff_getElem?.mp hqk
        exact ⟨_,hk j q nq hj hq,hget⟩
      · exact ⟨nq,(ho q hqp hqc hqk).trans hq,hget⟩
    have hnotc : ∀ {mx'}, x ∉ m.kids → v x = some mx' → mx'.parent = some q → q ≠ c := by
      rintro mx' hxk hx' hpar' rfl
      obtain ⟨nq,hq,hget⟩ := h.parent hxc hx' hpar'
      rw [hc,Option.some_inj] at hq
      exact hxk (hq ▸ List.mem_of_getElem? hget)
    by_cases hxk : x ∈ m.kids
    · obtain ⟨j,hj⟩ := List.mem_iff_getElem?.mp hxk
      obtain ⟨-,mx',hx',-,-⟩ := h.kid hc hj
      rw [hk j x mx' hj hx',Option.some_inj] at hx
      subst hx
      rw [← Option.some_inj.mp hpar]
      refine ⟨_,hp',?_⟩
      simp only
      rw [List.getElem?_append_right (by omega),Nat.add_sub_cancel_left,hj]
    by_cases hxp : x = p
    · subst hxp
      rw [hp',Option.some_inj] at hx
      subst hx
      exact hstay hp hpar rfl (hnotc hxk hp hpar)
    · rw [ho x hxp hxc hxk] at hx
      exact hstay hx hpar rfl (hnotc hxk hx hpar)

/-- A node in nobody's children and without children can be released. -/
theorem LinkedBut.release (h : LinkedBut v c) (hc : v c = some m) (hkids : m.kids = [])
    (hc' : v' c = none) (ho : ∀ q, q ≠ c → v' q = v q) : Linked v' := by
  have hlive : ∀ {q n}, v' q = some n → q ≠ c := by
    rintro q n hq rfl
    rw [hc'] at hq
    cases hq
  constructor
  · intro q n i x hq hget
    obtain ⟨hxc,mx,hx,hrest⟩ := h.kid ((ho q (hlive hq)).symm.trans hq) hget
    exact ⟨mx,(ho x hxc).trans hx,hrest⟩
  · intro x mx q hx hpar
    obtain ⟨n,hq,hget⟩ := h.parent (hlive hx) ((ho x (hlive hx)).symm.trans hx) hpar
    refine ⟨n,(ho q ?_).trans hq,hget⟩
    rintro rfl
    rw [hc,Option.some_inj] at hq
    rw [← hq,hkids] at hget
    cases hget

/-! ### Walking up -/

/-- The walk up from an address and the nodes it meets. -/
inductive Up (v : View α) : Option α → List α → Prop
  | top : Up v none []
  | step {a : α} {n : Node α} {l : List α} : v a = some n → Up v n.parent l → Up v (some a) (a :: l)

/-- Every walk up ends. -/
def Rooted (v : View α) : Prop := ∀ a n, v a = some n → ∃ l, Up v (some a) l

def ParentOf (v : View α) (p c : α) : Prop := ∃ m, v c = some m ∧ m.parent = some p

lemma Up.unique {l l' : List α} (h : Up v o l) (h' : Up v o l') : l = l' := by
  induction h generalizing l' with
  | top => cases h'; rfl
  | step ha _ ih =>
    cases h' with
    | step ha' hup' =>
      rw [ha,Option.some_inj] at ha'
      subst ha'
      rw [ih hup']

lemma Up.of_mem (h : Up v o l) {a : α} (ha : a ∈ l) : ∃ l', Up v (some a) l' ∧ l'.length ≤ l.length := by
  induction h with
  | top => cases ha
  | @step b n l hb hup ih =>
    rcases List.mem_cons.mp ha with rfl | hmem
    · exact ⟨_,.step hb hup,le_rfl⟩
    · obtain ⟨l',hl',hlen⟩ := ih hmem
      exact ⟨l',hl',hlen.trans (Nat.le_succ _)⟩

lemma Up.notMem {a : α} (h : Up v (some a) (a :: l)) : a ∉ l := by
  intro hmem
  cases h with
  | step ha hup =>
    obtain ⟨l',hl',hlen⟩ := hup.of_mem hmem
    have := hl'.unique (.step ha hup)
    rw [this,List.length_cons] at hlen
    omega

lemma Up.nodup (h : Up v o l) : l.Nodup := by
  induction h with
  | top => exact List.nodup_nil
  | step ha hup ih => exact List.nodup_cons.mpr ⟨(Up.step ha hup).notMem,ih⟩

lemma Up.live (h : Up v o l) {a : α} (ha : a ∈ l) : ∃ n, v a = some n := by
  obtain ⟨l',hl',-⟩ := h.of_mem ha
  cases hl' with
  | step hn _ => exact ⟨_,hn⟩

lemma Up.length_lt {p c : α} (hpc : Relation.TransGen (ParentOf v) p c)
    (hl : Up v (some c) l) : ∃ l', Up v (some p) l' ∧ l'.length < l.length := by
  induction hpc generalizing l with
  | single hstep =>
    obtain ⟨m,hm,hpar⟩ := hstep
    cases hl with
    | step hc hup =>
      rw [hm,Option.some_inj] at hc
      subst hc
      exact ⟨_,hpar ▸ hup,Nat.lt_succ_self _⟩
  | tail _ hstep ih =>
    obtain ⟨m,hm,hpar⟩ := hstep
    cases hl with
    | step hc hup =>
      rw [hm,Option.some_inj] at hc
      subst hc
      obtain ⟨l',hl',hlt⟩ := ih (hpar ▸ hup)
      exact ⟨l',hl',hlt.trans (Nat.lt_succ_self _)⟩

lemma Rooted.acyclic (h : Rooted v) (p : α) : ¬ Relation.TransGen (ParentOf v) p p := by
  intro hpp
  have hlive : ∃ n, v p = some n := by
    obtain ⟨b,-,m,hm,-⟩ := Relation.TransGen.tail'_iff.mp hpp
    exact ⟨m,hm⟩
  obtain ⟨n,hn⟩ := hlive
  obtain ⟨l,hl⟩ := h p n hn
  obtain ⟨l',hl',hlt⟩ := Up.length_lt hpp hl
  rw [hl'.unique hl] at hlt
  exact lt_irrefl _ hlt

lemma Rooted.parent_ne (h : Rooted v) {a : α} {n : Node α} (ha : v a = some n) :
    n.parent ≠ some a :=
  fun hpar => h.acyclic a (.single ⟨n,ha,hpar⟩)

/-- A walk up does not see what happens to the parent of a node it does not meet. -/
theorem Up.congr (h : Up v o l) (hc : c ∉ l)
    (ho : ∀ a n, a ≠ c → v a = some n → ∃ n', v' a = some n' ∧ n'.parent = n.parent) :
    Up v' o l := by
  induction h with
  | top => exact .top
  | @step a n l ha hup ih =>
    rw [List.mem_cons,not_or] at hc
    obtain ⟨hac,hl⟩ := hc
    obtain ⟨n',hn',hpar⟩ := ho a n (Ne.symm hac) ha
    exact .step hn' (hpar ▸ ih hl)

/-- Giving a node a parent it is not above keeps all walks finite. -/
theorem Rooted.set_parent (h : Rooted v) (hc' : v' c = some m) (hup : Up v m.parent l) (hcl : c ∉ l)
    (ho : ∀ a n, a ≠ c → v a = some n → ∃ n', v' a = some n' ∧ n'.parent = n.parent)
    (hlive : ∀ a n, a ≠ c → v' a = some n → ∃ n', v a = some n') : Rooted v' := by
  have hcup : Up v' (some c) (c :: l) := .step hc' (hup.congr hcl ho)
  have hall : ∀ {o l}, Up v o l → ∃ l', Up v' o l' := by
    intro o l hl
    induction hl with
    | top => exact ⟨[],.top⟩
    | @step a n l ha _ ih =>
      by_cases hac : a = c
      · exact ⟨_,hac ▸ hcup⟩
      · obtain ⟨n',hn',hpar⟩ := ho a n hac ha
        obtain ⟨l',hl'⟩ := ih
        exact ⟨_,.step hn' (hpar ▸ hl')⟩
  intro a n ha
  by_cases hac : a = c
  · exact ⟨_,hac ▸ hcup⟩
  · obtain ⟨n',hn'⟩ := hlive a n hac ha
    obtain ⟨l',hl'⟩ := h a n' hn'
    exact hall hl'

/-- Removing a node whose children go to its parent keeps all walks finite. -/
theorem Rooted.remove [DecidableEq α] (h : Rooted v) (hc : v c = some m)
    (ho : ∀ a n, a ≠ c → v a = some n → ∃ n', v' a = some n' ∧
      n'.parent = if n.parent = some c then m.parent else n.parent)
    (hlive : ∀ a n, v' a = some n → a ≠ c ∧ ∃ n', v a = some n') : Rooted v' := by
  have hall : ∀ {o l}, Up v o l → ∃ l', Up v' (if o = some c then m.parent else o) l' := by
    intro o l hl
    induction hl with
    | top => exact ⟨[],.top⟩
    | @step a n l ha hup ih =>
      obtain ⟨l',hl'⟩ := ih
      by_cases hac : a = c
      · subst hac
        rw [hc,Option.some_inj] at ha
        subst ha
        rw [if_neg (h.parent_ne hc)] at hl'
        exact ⟨l',by rwa [if_pos rfl]⟩
      · obtain ⟨n',hn',hpar⟩ := ho a n hac ha
        rw [if_neg (by simpa using hac)]
        exact ⟨_,.step hn' (hpar ▸ hl')⟩
  intro a n ha
  obtain ⟨hac,n',hn'⟩ := hlive a n ha
  obtain ⟨l,hl⟩ := h a n' hn'
  obtain ⟨l',hl'⟩ := hall hl
  rw [if_neg (by simpa using hac)] at hl'
  exact ⟨l',hl'⟩

end PhpAgent.PointerTree

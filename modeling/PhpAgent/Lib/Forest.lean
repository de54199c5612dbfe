import PhpAgent.Lib.PointerTree

/-! Finite ordered forests, and the forest below a list of nodes of a pointer tree. -/
namespace PhpAgent

inductive Forest (α : Type)
  | nil
  | node (a : α) (kids rest : Forest α)

namespace Forest
open PointerTree
variable {α : Type}

/-- The nodes in pre-order. -/
def toList : Forest α → List α
  | nil => []
  | node a kids rest => a :: (kids.toList ++ rest.toList)

lemma toList_node (a : α) (kids rest : Forest α) :
    (node a kids rest).toList = a :: (kids.toList ++ rest.toList) := rfl

lemma mem_kids {a b : α} {kids rest : Forest α} (h : b ∈ kids.toList) : b ∈ (node a kids rest).toList :=
  List.mem_cons_of_mem _ (List.mem_append_left _ h)

lemma mem_rest {a b : α} {kids rest : Forest α} (h : b ∈ rest.toList) : b ∈ (node a kids rest).toList :=
  List.mem_cons_of_mem _ (List.mem_append_right _ h)

def roots : Forest α → List α
  | nil => []
  | node a _ rest => a :: rest.roots

lemma roots_node (a : α) (kids rest : Forest α) : (node a kids rest).roots = a :: rest.roots := rfl

def depth : Forest α → ℕ
  | nil => 0
  | node _ kids rest => max (kids.depth+1) rest.depth

lemma mem_toList_of_mem_roots {f : Forest α} {a : α} (h : a ∈ f.roots) : a ∈ f.toList := by
  induction f with
  | nil => cases h
  | node b kids rest _ ih =>
    rcases List.mem_cons.mp h with rfl | h
    · exact List.mem_cons_self
    · exact mem_rest (ih h)

/-- `f` is the forest of the nodes `ps` and of all nodes below them. -/
inductive Spans (kids : α → Option (List α)) : List α → Forest α → Prop
  | nil : Spans kids [] nil
  | node {p : α} {ks ps : List α} {f g : Forest α} : kids p = some ks → Spans kids ks f →
      Spans kids ps g → Spans kids (p :: ps) (node p f g)

namespace Spans
variable {kids kids' : α → Option (List α)} {ps : List α} {f g : Forest α}

lemma roots_eq (h : Spans kids ps f) : f.roots = ps := by
  induction h with
  | nil => rfl
  | node _ _ _ _ ih => rw [roots_node,ih]

lemma unique (h : Spans kids ps f) (h' : Spans kids ps g) : f = g := by
  induction h generalizing g with
  | nil => cases h'; rfl
  | node hp _ _ ihk ihr =>
    cases h' with
    | node hp' hk' hr' =>
      rw [hp,Option.some_inj] at hp'
      subst hp'
      rw [ihk hk',ihr hr']

lemma of_node {p : α} {ks : List α} (h : Spans kids (p :: ps) (.node p f g)) (hks : kids p = some ks) :
    Spans kids ks f ∧ Spans kids ps g := by
  cases h with
  | node hp hk hr =>
    rw [hp,Option.some_inj] at hks
    exact ⟨hks ▸ hk,hr⟩

lemma live (h : Spans kids ps f) {a : α} (ha : a ∈ f.toList) : ∃ ks, kids a = some ks := by
  induction h with
  | nil => cases ha
  | node hp _ _ ihk ihr =>
    rcases List.mem_cons.mp ha with rfl | ha
    · exact ⟨_,hp⟩
    · rcases List.mem_append.mp ha with ha | ha
      · exact ihk ha
      · exact ihr ha

/-- The nodes of a forest are closed under children. -/
theorem mem_of_kid (h : Spans kids ps f) {a c : α} {ks : List α} (ha : a ∈ f.toList)
    (hks : kids a = some ks) (hc : c ∈ ks) : c ∈ f.toList := by
  induction h with
  | nil => cases ha
  | node hp hk _ ihk ihr =>
    apply List.mem_cons_of_mem
    rcases List.mem_cons.mp ha with rfl | ha
    · rw [hp,Option.some_inj] at hks
      subst hks
      apply List.mem_append_left
      apply mem_toList_of_mem_roots
      rw [hk.roots_eq]
      exact hc
    · rcases List.mem_append.mp ha with ha | ha
      · exact List.mem_append_left _ (ihk ha)
      · exact List.mem_append_right _ (ihr ha)

/-- Where every node's weight is what it keeps, what it loses and the weight of its children, all
that is kept and lost adds up to the weight of the roots. -/
theorem sum_telescope (h : Spans kids ps f) {kept lost weight : α → ℕ}
    (hnode : ∀ p ∈ f.toList, ∀ ks, kids p = some ks →
      kept p+lost p+(ks.map weight).sum = weight p) :
    (f.toList.map kept).sum+(f.toList.map lost).sum = (ps.map weight).sum := by
  induction h with
  | nil => rfl
  | node hp _ _ ihk ihr =>
    have hhead := hnode _ List.mem_cons_self _ hp
    have hk := ihk fun q hq => hnode q (mem_kids hq)
    have hr := ihr fun q hq => hnode q (mem_rest hq)
    simp only [toList_node,List.map_cons,List.map_append,List.sum_cons,List.sum_append]
    omega

/-- Forests of lists are put together. -/
theorem of_forall {n : ℕ} (h : ∀ p ∈ ps, ∃ ks f, kids p = some ks ∧ Spans kids ks f ∧ f.depth < n) :
    ∃ f, Spans kids ps f ∧ f.depth ≤ n := by
  induction ps with
  | nil => exact ⟨.nil,.nil,Nat.zero_le _⟩
  | cons p ps ih =>
    obtain ⟨ks,f,hp,hf,hdf⟩ := h p List.mem_cons_self
    obtain ⟨g,hg,hdg⟩ := ih fun q hq => h q (List.mem_cons_of_mem _ hq)
    exact ⟨.node p f g,.node hp hf hg,max_le hdf hdg⟩

end Spans

/-! ### The forests of a pointer tree -/

section Pointers
variable {v : View α} {ps : List α} {f : Forest α} {n : Node α} {l : List α}

/-- The children alone. -/
def kidsOf (v : View α) (p : α) : Option (List α) := (v p).map Node.kids

lemma kidsOf_eq {p : α} (h : v p = some n) : kidsOf v p = some n.kids := by
  rw [kidsOf,h,Option.map_some]

lemma kidsOf_eq_some {p : α} {ks : List α} (h : kidsOf v p = some ks) :
    ∃ n, v p = some n ∧ n.kids = ks := Option.map_eq_some_iff.mp h

lemma parentOf_of_mem (hl : Linked v) {p c : α} (hp : v p = some n) (hc : c ∈ n.kids) : ParentOf v p c := by
  obtain ⟨i,hi⟩ := List.mem_iff_getElem?.mp hc
  obtain ⟨m,hm,hpar,-⟩ := hl.kid hp hi
  exact ⟨m,hm,hpar⟩

lemma up_kids (hl : Linked v) {p : α} (hp : v p = some n)
    (hup : Up v (some p) l) (c : α) (hc : c ∈ n.kids) : Up v (some c) (c :: l) := by
  obtain ⟨m,hm,hpar⟩ := parentOf_of_mem hl hp hc
  exact .step hm (hpar ▸ hup)

/-- In a memory of finitely many nodes every node has a forest below it: the walk up from a node
gets longer on the way down, and it cannot be longer than there are nodes. -/
theorem exists_spans [DecidableEq α] (hl : Linked v) {S : Finset α}
    (hS : ∀ a n, v a = some n → a ∈ S) (k : ℕ)
    (hps : ∀ p ∈ ps, ∃ l, Up v (some p) l ∧ S.card < l.length+k) :
    ∃ f, Spans (kidsOf v) ps f ∧ f.depth ≤ k := by
  induction k generalizing ps with
  | zero =>
    cases ps with
    | nil => exact ⟨.nil,.nil,le_rfl⟩
    | cons p ps =>
      obtain ⟨l,hup,hlen⟩ := hps p List.mem_cons_self
      have hsub : l.toFinset ⊆ S := by
        intro a ha
        obtain ⟨n,hn⟩ := hup.live (List.mem_toFinset.mp ha)
        exact hS a n hn
      have hcard := Finset.card_le_card hsub
      rw [List.toFinset_card_of_nodup hup.nodup] at hcard
      omega
  | succ k ih =>
    apply Spans.of_forall
    intro p hp
    obtain ⟨l,hup,hlen⟩ := hps p hp
    obtain ⟨n,hn⟩ : ∃ n, v p = some n := by
      cases hup with
      | step hn _ => exact ⟨_,hn⟩
    have hkids : ∀ c ∈ n.kids, ∃ l, Up v (some c) l ∧ S.card < l.length+k := by
      intro c hc
      refine ⟨c :: l,up_kids hl hn hup c hc,?_⟩
      rw [List.length_cons]
      omega
    obtain ⟨f,hf,hd⟩ := ih hkids
    exact ⟨n.kids,f,kidsOf_eq hn,hf,Nat.lt_succ_of_le hd⟩

/-- The nodes of the forest are those below `ps`. -/
theorem Spans.mem_iff (h : Spans (kidsOf v) ps f) (hl : Linked v) {a : α} :
    a ∈ f.toList ↔ ∃ p ∈ ps, Relation.ReflTransGen (ParentOf v) p a := by
  constructor
  · intro ha
    induction h with
    | nil => cases ha
    | @node p ks ps f g hp _ _ ihk ihr =>
      rcases List.mem_cons.mp ha with rfl | ha
      · exact ⟨a,List.mem_cons_self,.refl⟩
      · rcases List.mem_append.mp ha with ha | ha
        · obtain ⟨c,hc,hca⟩ := ihk ha
          obtain ⟨n,hn,rfl⟩ := kidsOf_eq_some hp
          exact ⟨p,List.mem_cons_self,.head (parentOf_of_mem hl hn hc) hca⟩
        · obtain ⟨q,hq,hqa⟩ := ihr ha
          exact ⟨q,List.mem_cons_of_mem _ hq,hqa⟩
  · rintro ⟨p,hp,hpa⟩
    induction hpa with
    | refl =>
      apply mem_toList_of_mem_roots
      rw [h.roots_eq]
      exact hp
    | @tail b c _ hbc ih =>
      obtain ⟨m,hm,hpar⟩ := hbc
      obtain ⟨n,hn,hget⟩ := hl.parent hm hpar
      exact h.mem_of_kid ih (kidsOf_eq hn) (List.mem_of_getElem? hget)

/-- The walk up from a node passes the root it is below. -/
theorem Spans.exists_up (h : Spans (kidsOf v) ps f) (hl : Linked v)
    (hup : ∀ p ∈ ps, Up v (some p) (p :: l)) {a : α} (ha : a ∈ f.toList) :
    ∃ p ∈ ps, ∃ la, Up v (some a) la ∧ (p :: l) <:+ la := by
  induction h generalizing l with
  | nil => cases ha
  | @node p ks ps f g hp _ _ ihk ihr =>
    have hupp := hup p List.mem_cons_self
    rcases List.mem_cons.mp ha with rfl | ha
    · exact ⟨a,List.mem_cons_self,a :: l,hupp,List.suffix_rfl⟩
    · rcases List.mem_append.mp ha with ha | ha
      · obtain ⟨n,hn,rfl⟩ := kidsOf_eq_some hp
        obtain ⟨c,-,la,hla,hsuf⟩ := ihk (up_kids hl hn hupp) ha
        exact ⟨p,List.mem_cons_self,la,hla,(List.suffix_cons c _).trans hsuf⟩
      · obtain ⟨q,hq,hla⟩ := ihr (fun q hq => hup q (List.mem_cons_of_mem _ hq)) ha
        exact ⟨q,List.mem_cons_of_mem _ hq,hla⟩

/-- No node is met twice: the walk up from it can pass only one of several siblings. -/
theorem Spans.nodup (h : Spans (kidsOf v) ps f) (hl : Linked v) (hps : ps.Nodup)
    (hup : ∀ p ∈ ps, Up v (some p) (p :: l)) : f.toList.Nodup := by
  induction h generalizing l with
  | nil => exact List.nodup_nil
  | @node p ks ps f g hp hf hg ihk ihr =>
    obtain ⟨hpps,hps⟩ := List.nodup_cons.mp hps
    have hupp := hup p List.mem_cons_self
    have hupr : ∀ q ∈ ps, Up v (some q) (q :: l) := fun q hq => hup q (List.mem_cons_of_mem _ hq)
    obtain ⟨n,hn,rfl⟩ := kidsOf_eq_some hp
    have hupk := up_kids hl hn hupp
    -- a node below `p` or `p` itself is not below a sibling of `p`
    have hapart : ∀ a la, Up v (some a) la → (p :: l) <:+ la → a ∉ g.toList := by
      intro a la hla hsuf hag
      obtain ⟨q,hq,la',hla',hsuf'⟩ := hg.exists_up hl hupr hag
      rw [hla'.unique hla] at hsuf'
      have heq : p :: l = q :: l :=
        (List.suffix_of_suffix_length_le hsuf hsuf' le_rfl).eq_of_length rfl
      rw [List.cons.injEq] at heq
      exact hpps (heq.1 ▸ hq)
    refine List.nodup_cons.mpr ⟨?_,List.nodup_append.mpr ⟨ihk (hl.kids_nodup hn) hupk,
      ihr hps hupr,?_⟩⟩
    · rw [List.mem_append,not_or]
      refine ⟨?_,hapart p _ hupp List.suffix_rfl⟩
      intro hpf
      obtain ⟨c,-,la,hla,hsuf⟩ := hf.exists_up hl hupk hpf
      rw [hla.unique hupp] at hsuf
      have hlen := hsuf.length_le
      simp at hlen
    · rintro a haf b hbg rfl
      obtain ⟨c,-,la,hla,hsuf⟩ := hf.exists_up hl hupk haf
      exact hapart a la hla ((List.suffix_cons c _).trans hsuf) hbg

end Pointers

/-! ### Other nodes -/

/-- The same forest with other nodes. -/
def map {β : Type} (f : α → β) : Forest α → Forest β
  | nil => nil
  | node a kids rest => node (f a) (kids.map f) (rest.map f)

lemma toList_map {β : Type} (f : α → β) (g : Forest α) : (g.map f).toList = g.toList.map f := by
  induction g with
  | nil => rfl
  | node a kids rest ihk ihr =>
    simp only [map,toList_node,ihk,ihr,List.map_cons,List.map_append]

lemma map_congr {β : Type} {f f' : α → β} {g : Forest α} (h : ∀ a ∈ g.toList, f a = f' a) :
    g.map f = g.map f' := by
  induction g with
  | nil => rfl
  | node a kids rest ihk ihr =>
    simp only [map]
    rw [h a List.mem_cons_self,
      ihk fun b hb => h b (mem_kids hb),
      ihr fun b hb => h b (mem_rest hb)]

/-! ### Leaving nodes out -/

section Prune
variable {keep : α → Bool}

def append : Forest α → Forest α → Forest α
  | nil, g => g
  | node a kids rest, g => node a kids (rest.append g)

/-- Leave out the nodes that are not kept; their children take their place. -/
def prune (keep : α → Bool) : Forest α → Forest α
  | nil => nil
  | node a kids rest =>
    if keep a then node a (kids.prune keep) (rest.prune keep)
    else (kids.prune keep).append (rest.prune keep)

/-- The nodes in pre-order, each with its parent; `o` is the parent of the roots. -/
def parents (o : Option α) : Forest α → List (α × Option α)
  | nil => []
  | node a kids rest => (a,o) :: (kids.parents (some a) ++ rest.parents o)

lemma append_eq_nil {f g : Forest α} : f.append g = nil ↔ f = nil ∧ g = nil := by
  cases f with
  | nil => simp [append]
  | node a kids rest => simp [append]

@[simp] lemma toList_append (f g : Forest α) : (f.append g).toList = f.toList ++ g.toList := by
  induction f with
  | nil => rfl
  | node a kids rest _ ih => simp [append,toList_node,ih]

lemma parents_append (o : Option α) (f g : Forest α) :
    (f.append g).parents o = f.parents o ++ g.parents o := by
  induction f with
  | nil => rfl
  | node a kids rest _ ih => simp [append,parents,ih]

lemma toList_prune (f : Forest α) : (f.prune keep).toList = f.toList.filter keep := by
  induction f with
  | nil => rfl
  | node a kids rest ihk ihr =>
    by_cases h : keep a = true
    · simp [prune,h,toList_node,ihk,ihr]
    · simp [prune,h,toList_node,ihk,ihr]

lemma map_fst_parents (o : Option α) (f : Forest α) : (f.parents o).map Prod.fst = f.toList := by
  induction f generalizing o with
  | nil => rfl
  | node a kids rest ihk ihr => simp [parents,toList_node,ihk,ihr]

lemma mem_roots_iff {f : Forest α} {a : α} : a ∈ f.roots ↔ (a,none) ∈ f.parents none := by
  have hbelow : ∀ (g : Forest α) (b : α), (a,none) ∉ g.parents (some b) := by
    intro g
    induction g with
    | nil => exact fun _ h => by cases h
    | node c kids rest ihk ihr =>
      intro b h
      rcases List.mem_cons.mp h with h | h
      · cases h
      · rcases List.mem_append.mp h with h | h
        · exact ihk c h
        · exact ihr b h
  induction f with
  | nil => simp [roots,parents]
  | node b kids rest _ ih =>
    constructor
    · intro h
      rcases List.mem_cons.mp h with rfl | h
      · exact List.mem_cons_self
      · exact List.mem_cons_of_mem _ (List.mem_append_right _ (ih.mp h))
    · intro h
      rcases List.mem_cons.mp h with h | h
      · cases h
        exact List.mem_cons_self
      · rcases List.mem_append.mp h with h | h
        · exact absurd h (hbelow kids b)
        · exact List.mem_cons_of_mem _ (ih.mpr h)

end Prune

/-! ### Paths to the leaves -/

section LeafPaths

def isNil : Forest α → Bool
  | nil => true
  | node _ _ _ => false

/-- The paths from each leaf up to its root. -/
def leafPaths : Forest α → List (List α)
  | nil => []
  | node a kids rest =>
    (if kids.isNil then [[a]] else kids.leafPaths.map fun path => path ++ [a]) ++ rest.leafPaths

variable {f : Forest α}

lemma ne_nil_of_mem_leafPaths {path : List α} (h : path ∈ f.leafPaths) : path ≠ [] := by
  induction f generalizing path with
  | nil => cases h
  | node a kids rest _ ihr =>
    rw [leafPaths] at h
    rcases List.mem_append.mp h with h | h
    · split_ifs at h
      · rw [List.mem_singleton.mp h]
        exact List.cons_ne_nil a []
      · obtain ⟨up,_,rfl⟩ := List.mem_map.mp h
        exact List.append_ne_nil_of_right_ne_nil up (List.cons_ne_nil a [])
    · exact ihr h

lemma exists_mem_leafPaths (h : f.isNil = false) : ∃ path, path ∈ f.leafPaths := by
  induction f with
  | nil => cases h
  | node a kids rest ihk _ =>
    cases hkids : kids.isNil with
    | true => exact ⟨[a],by simp [leafPaths,hkids]⟩
    | false =>
      obtain ⟨path,hpath⟩ := ihk hkids
      refine ⟨path ++ [a],?_⟩
      rw [leafPaths,hkids]
      exact List.mem_append_left _ (List.mem_map_of_mem hpath)

/-- The nodes are those of the paths. -/
theorem mem_toList_iff_leafPaths {a : α} : a ∈ f.toList ↔ ∃ path ∈ f.leafPaths, a ∈ path := by
  induction f with
  | nil => simp [toList,leafPaths]
  | node b kids rest ihk ihr =>
    have hbranch : (a = b ∨ a ∈ kids.toList) ↔
        ∃ path ∈ (if kids.isNil then [[b]] else kids.leafPaths.map fun path => path ++ [b]),
          a ∈ path := by
      cases hkids : kids.isNil with
      | true =>
        cases kids with
        | nil => simp [toList]
        | node c kids rest => cases hkids
      | false =>
        obtain ⟨path,hpath⟩ := exists_mem_leafPaths hkids
        rw [ihk]
        constructor
        · rintro (rfl | ⟨up,hup,ha⟩)
          · exact ⟨path ++ [a],List.mem_map_of_mem hpath,by simp⟩
          · exact ⟨up ++ [b],List.mem_map_of_mem hup,List.mem_append_left _ ha⟩
        · rintro ⟨_,hmem,ha⟩
          obtain ⟨up,hup,rfl⟩ := List.mem_map.mp hmem
          rcases List.mem_append.mp ha with ha | ha
          · exact Or.inr ⟨up,hup,ha⟩
          · exact Or.inl (List.mem_singleton.mp ha)
    rw [toList_node,leafPaths,List.mem_cons,List.mem_append,← or_assoc,hbranch,ihr]
    simp only [List.mem_append,or_and_right,exists_or]

end LeafPaths

end Forest
end PhpAgent

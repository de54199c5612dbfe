import Mathlib.Tactic

/-! A binary tree kept in an array. A node names its children by their positions. A new node is
appended to the array and hung below the last node on the path of its key. Several nodes can have
one key; a test on their data tells them apart. -/
namespace PhpAgent.IndexedTree

structure Node (κ δ : Type) where
  key : κ
  data : δ
  left : Option ℕ
  right : Option ℕ

abbrev Tree (κ δ : Type) : Type := List (Node κ δ)

variable {κ δ : Type} [LT κ] [DecidableLT κ] [DecidableEq κ] {t t' : Tree κ δ} {k : κ} {p : δ → Bool}
  {n : Node κ δ}

/-- The child at which the search for `k` goes on. -/
def Node.next (k : κ) (n : Node κ δ) : Option ℕ := if n.key < k then n.left else n.right

def Node.hang (k : κ) (i : ℕ) (n : Node κ δ) : Node κ δ :=
  if n.key < k then { n with left := some i } else { n with right := some i }

/-- The search for a node with key `k` whose data pass the test, from position `i` on. -/
def find (t : Tree κ δ) (k : κ) (p : δ → Bool) : ℕ → ℕ → Option ℕ
  | 0, _ => none
  | fuel+1, i =>
    match t[i]? with
    | none => none
    | some n =>
      if k = n.key ∧ p n.data then some i
      else
        match n.next k with
        | none => none
        | some j => find t k p fuel j

/-- The last node on the path of `k` from position `i` on. -/
def last (t : Tree κ δ) (k : κ) : ℕ → ℕ → ℕ
  | 0, i => i
  | fuel+1, i =>
    match t[i]?.bind (Node.next k) with
    | none => i
    | some j => last t k fuel j

/-- Append a node and hang it below position `i`. -/
def append (t : Tree κ δ) (k : κ) (d : δ) (i : ℕ) : Tree κ δ :=
  t.modify i (Node.hang k t.length) ++ [⟨k,d,none,none⟩]

/-- Change the data at one position. -/
def update (t : Tree κ δ) (i : ℕ) (f : δ → δ) : Tree κ δ :=
  t.modify i fun n => { n with data := f n.data }

/-! ### Paths -/

/-- Children come after their parent in the array, so every path ends. -/
def Ordered (t : Tree κ δ) : Prop :=
  ∀ (i j : ℕ) (n : Node κ δ), t[i]? = some n → n.left = some j ∨ n.right = some j →
    i < j ∧ j < t.length

omit [DecidableEq κ] in
lemma Ordered.next (h : Ordered t) {i j : ℕ} (hn : t[i]? = some n)
    (hj : n.next k = some j) : i < j ∧ j < t.length := by
  apply h i j n hn
  unfold Node.next at hj
  split_ifs at hj with hlt
  · exact .inl hj
  · exact .inr hj

omit [LT κ] [DecidableLT κ] [DecidableEq κ] in
lemma ordered_nil : Ordered ([] : Tree κ δ) := by
  intro i j n hn
  simp at hn

/-- What a change of the tree keeps for the searches that already succeed. -/
def Kept (k : κ) (p : δ → Bool) (t t' : Tree κ δ) : Prop :=
  ∀ (i : ℕ) (n : Node κ δ), t[i]? = some n → ∃ n', t'[i]? = some n' ∧ n'.key = n.key ∧
    p n'.data = p n.data ∧ ∀ j, n.next k = some j → n'.next k = some j

lemma Kept.find (h : Kept k p t t') {fuel fuel' i r : ℕ} (hle : fuel ≤ fuel')
    (hr : find t k p fuel i = some r) : find t' k p fuel' i = some r := by
  induction fuel generalizing fuel' i with
  | zero => simp [IndexedTree.find] at hr
  | succ fuel ih =>
    obtain ⟨fuel',rfl⟩ := Nat.exists_eq_add_of_lt hle
    cases hn : t[i]? with
    | none => simp [IndexedTree.find,hn] at hr
    | some n =>
      obtain ⟨n',hn',hkey,hdata,hnext⟩ := h i n hn
      simp only [IndexedTree.find,hn,hn',hkey,hdata] at hr ⊢
      split_ifs at hr ⊢ with hfound
      · exact hr
      · cases hj : n.next k with
        | none => simp [hj] at hr
        | some j =>
          rw [hj] at hr
          rw [hnext j hj]
          exact ih (by omega) hr

/-! ### Updating -/

omit [LT κ] [DecidableLT κ] [DecidableEq κ] in
@[simp] lemma length_update (t : Tree κ δ) (i : ℕ) (f : δ → δ) :
    (update t i f).length = t.length := List.length_modify ..

omit [LT κ] [DecidableLT κ] [DecidableEq κ] in
lemma getElem?_update (t : Tree κ δ) (i j : ℕ) (f : δ → δ) :
    (update t i f)[j]? =
      if i = j then t[j]?.map fun n => { n with data := f n.data } else t[j]? := by
  rw [update,List.getElem?_modify]
  split_ifs with h <;> simp

omit [DecidableEq κ] in
lemma kept_update (t : Tree κ δ) (i : ℕ) {f : δ → δ} (hf : ∀ d, p (f d) = p d) :
    Kept k p t (update t i f) := by
  intro j n hn
  rw [getElem?_update,hn]
  split_ifs with hij
  · exact ⟨_,rfl,rfl,hf n.data,fun _ hj => hj⟩
  · exact ⟨n,rfl,rfl,rfl,fun _ hj => hj⟩

omit [LT κ] [DecidableLT κ] [DecidableEq κ] in
lemma Ordered.update (h : Ordered t) (i : ℕ) (f : δ → δ) : Ordered (update t i f) := by
  intro j j' n hn hlink
  rw [getElem?_update] at hn
  rw [length_update]
  split_ifs at hn with hij
  · obtain ⟨m,hm,rfl⟩ := Option.map_eq_some_iff.mp hn
    exact h j j' m hm hlink
  · exact h j j' n hn hlink

/-! ### Appending -/

omit [DecidableEq κ] in
@[simp] lemma length_append (t : Tree κ δ) (k : κ) (d : δ) (i : ℕ) :
    (append t k d i).length = t.length+1 := by
  simp [append]

omit [DecidableEq κ] in
lemma getElem?_append_of_some {i j : ℕ} (d : δ) (hn : t[j]? = some n) :
    (append t k d i)[j]? = some (if i = j then n.hang k t.length else n) := by
  have hj : j < t.length := (List.getElem?_eq_some_iff.mp hn).1
  rw [append,List.getElem?_append_left (by simpa using hj),List.getElem?_modify,hn]
  split_ifs <;> rfl

omit [DecidableEq κ] in
lemma getElem?_append_new (t : Tree κ δ) (k : κ) (d : δ) (i : ℕ) :
    (append t k d i)[t.length]? = some ⟨k,d,none,none⟩ := by
  rw [append,List.getElem?_append_right (by simp)]
  simp

omit [DecidableEq κ] in
@[simp] lemma Node.hang_key (n : Node κ δ) (i : ℕ) : (n.hang k i).key = n.key := by
  unfold Node.hang
  split_ifs <;> rfl

omit [DecidableEq κ] in
@[simp] lemma Node.hang_data (n : Node κ δ) (i : ℕ) : (n.hang k i).data = n.data := by
  unfold Node.hang
  split_ifs <;> rfl

omit [DecidableEq κ] in
lemma Node.next_hang_self (n : Node κ δ) (i : ℕ) : (n.hang k i).next k = some i := by
  unfold Node.hang Node.next
  split_ifs with h <;> simp_all

omit [DecidableEq κ] in
/-- Hanging a node at a free place changes no search that went elsewhere. -/
theorem Node.next_hang_of_some {k' : κ} {i j : ℕ} (hfree : n.next k = none)
    (hj : n.next k' = some j) : (n.hang k i).next k' = some j := by
  unfold Node.hang Node.next at *
  split_ifs at * <;> simp_all

omit [DecidableEq κ] in
lemma Ordered.append (h : Ordered t) (k : κ) (d : δ) (i : ℕ) : Ordered (append t k d i) := by
  intro j j' n hn hlink
  rw [length_append]
  rcases Nat.lt_trichotomy j t.length with hlt | rfl | hgt
  · have hm := List.getElem?_eq_getElem hlt
    rw [getElem?_append_of_some d hm,Option.some_inj] at hn
    subst hn
    split_ifs at hlink with hij
    · unfold Node.hang at hlink
      have hold : t[j].left = some j' ∨ t[j].right = some j' ∨ j' = t.length := by
        split_ifs at hlink <;> simp only [Option.some_inj] at hlink <;> tauto
      rcases hold with hold | hold | rfl
      · have := h j j' _ hm (.inl hold)
        omega
      · have := h j j' _ hm (.inr hold)
        omega
      · omega
    · have := h j j' _ hm hlink
      omega
  · rw [getElem?_append_new,Option.some_inj] at hn
    subst hn
    simp at hlink
  · have hnone : (IndexedTree.append t k d i)[j]? = none := by
      rw [List.getElem?_eq_none_iff,length_append]
      omega
    rw [hnone] at hn
    contradiction

omit [DecidableEq κ] in
lemma next_last (h : Ordered t) {fuel i : ℕ} (hfuel : t.length ≤ fuel+i)
    (hn : t[last t k fuel i]? = some n) : n.next k = none := by
  induction fuel generalizing i with
  | zero =>
    have hi := (List.getElem?_eq_some_iff.mp hn).1
    simp only [last] at hi
    omega
  | succ fuel ih =>
    cases hj : t[i]?.bind (Node.next k) with
    | none =>
      simp only [last,hj] at hn
      simpa [hn] using hj
    | some j =>
      simp only [last,hj] at hn
      obtain ⟨m,hm,hmj⟩ := Option.bind_eq_some_iff.mp hj
      have hlt := (h.next hm hmj).1
      exact ih (by omega) hn

omit [DecidableEq κ] in
lemma kept_append {k' : κ} (h : Ordered t) (d : δ) :
    Kept k p t (append t k' d (last t k' t.length 0)) := by
  intro j n hn
  refine ⟨_,getElem?_append_of_some d hn,?_,?_,?_⟩
  · split_ifs <;> simp
  · split_ifs <;> simp
  · intro j' hj'
    split_ifs with hij
    · subst hij
      exact Node.next_hang_of_some (next_last h (by omega) hn) hj'
    · exact hj'

/-- A search from a position on the way to the last node comes to the node hung there. -/
theorem find_append_of_last (h : Ordered t) {d : δ} (hd : p d) {m fuel i : ℕ} (hi : i < t.length)
    (hfuel : t.length ≤ fuel+i) (hlast : last t k fuel i = m) :
    (find (append t k d m) k p (fuel+1) i).isSome := by
  induction fuel generalizing i with
  | zero => omega
  | succ fuel ih =>
    have hn := List.getElem?_eq_getElem hi
    rw [find,getElem?_append_of_some d hn]
    simp only
    split_ifs with hm hfound hfound
    · rfl
    · -- the last node of the path, below which the new one hangs
      rw [Node.next_hang_self]
      simp only [find]
      rw [getElem?_append_new]
      simp [hd]
    · rfl
    · cases hj : t[i].next k with
      | none =>
        simp only [last,hn,Option.bind_some,hj] at hlast
        exact absurd hlast.symm hm
      | some j =>
        simp only [last,hn,Option.bind_some,hj] at hlast
        have hlt := h.next hn hj
        exact ih hlt.2 (by omega) hlast

lemma find_append (h : Ordered t) {d : δ} (hd : p d) :
    (find (append t k d (last t k t.length 0)) k p (t.length+1) 0).isSome := by
  cases t with
  | nil => simp [append,find,hd]
  | cons n t => exact find_append_of_last h hd (by simp) (by simp) rfl

/-! ### Completeness -/

/-- Position `m` lies on the path of `k` from position `i` on. -/
inductive OnPath (t : Tree κ δ) (k : κ) : ℕ → ℕ → Prop
  | here (i : ℕ) : OnPath t k i i
  | step {i j m : ℕ} {n : Node κ δ} (hn : t[i]? = some n) (hj : n.next k = some j)
      (hm : OnPath t k j m) : OnPath t k i m

/-- Every node lies on the path of its own key. -/
def Complete (t : Tree κ δ) : Prop :=
  ∀ (m : ℕ) (n : Node κ δ), t[m]? = some n → OnPath t n.key 0 m

omit [DecidableEq κ] in
lemma complete_nil : Complete ([] : Tree κ δ) := by
  intro m n hn
  simp at hn

omit [DecidableEq κ] in
lemma OnPath.kept {i m : ℕ} (h : OnPath t k i m) (hkept : Kept k p t t') : OnPath t' k i m := by
  induction h with
  | here i => exact .here i
  | step hn hj _ ih =>
    obtain ⟨n',hn',-,-,hnext⟩ := hkept _ _ hn
    exact .step hn' (hnext _ hj) ih

omit [DecidableEq κ] in
lemma onPath_last (t : Tree κ δ) (k : κ) (fuel i : ℕ) : OnPath t k i (last t k fuel i) := by
  induction fuel generalizing i with
  | zero => exact .here i
  | succ fuel ih =>
    cases hj : t[i]?.bind (Node.next k) with
    | none =>
      simp only [last,hj]
      exact .here i
    | some j =>
      obtain ⟨n,hn,hnj⟩ := Option.bind_eq_some_iff.mp hj
      simp only [last,hj]
      exact .step hn hnj (ih j)

omit [DecidableEq κ] in
lemma OnPath.snoc {i m j : ℕ} (h : OnPath t k i m) (hn : t[m]? = some n)
    (hj : n.next k = some j) : OnPath t k i j := by
  induction h with
  | here i => exact .step hn hj (.here j)
  | step hn' hj' _ ih => exact .step hn' hj' (ih hn)

omit [DecidableEq κ] in
lemma last_lt (h : Ordered t) (ht : t ≠ []) (fuel : ℕ) : last t k fuel 0 < t.length := by
  have hlt (i : ℕ) (hi : i < t.length) : last t k fuel i < t.length := by
    induction fuel generalizing i with
    | zero => exact hi
    | succ fuel ih =>
      cases hj : t[i]?.bind (Node.next k) with
      | none => simpa only [last,hj] using hi
      | some j =>
        obtain ⟨n,hn,hnj⟩ := Option.bind_eq_some_iff.mp hj
        simp only [last,hj]
        exact ih j (h.next hn hnj).2
  exact hlt 0 (List.length_pos_iff.mpr ht)

omit [DecidableEq κ] in
lemma Complete.append (h : Complete t) (hord : Ordered t) (k : κ) (d : δ) :
    Complete (append t k d (last t k t.length 0)) := by
  have hkept (k' : κ) : Kept k' (fun _ => true) t (IndexedTree.append t k d (last t k t.length 0)) :=
    kept_append hord d
  intro m n hn
  rcases Nat.lt_trichotomy m t.length with hlt | rfl | hgt
  · -- an old node is where it was, with its key
    have hm := List.getElem?_eq_getElem hlt
    have hkey : n.key = t[m].key := by
      rw [getElem?_append_of_some d hm,Option.some_inj] at hn
      subst hn
      split_ifs <;> simp
    rw [hkey]
    exact (h m _ hm).kept (hkept _)
  · rw [getElem?_append_new,Option.some_inj] at hn
    subst hn
    by_cases ht : t = []
    · subst ht
      exact .here 0
    · -- the new node hangs below the last node of its path
      have hl := List.getElem?_eq_getElem (last_lt (k := k) hord ht t.length)
      have hhung := getElem?_append_of_some (k := k) (i := last t k t.length 0) d hl
      rw [if_pos rfl] at hhung
      exact ((onPath_last t k t.length 0).kept (hkept k)).snoc hhung (Node.next_hang_self ..)
  · have hlt := (List.getElem?_eq_some_iff.mp hn).1
    rw [length_append] at hlt
    omega

omit [DecidableEq κ] in
lemma Complete.update (h : Complete t) (i : ℕ) (f : δ → δ) : Complete (update t i f) := by
  intro m n hn
  have hkept (k' : κ) : Kept k' (fun _ => true) t (IndexedTree.update t i f) :=
    kept_update t i fun _ => rfl
  have hold : ∃ n₀, t[m]? = some n₀ ∧ n₀.key = n.key := by
    rw [getElem?_update] at hn
    split_ifs at hn with him
    · obtain ⟨n₀,hn₀,rfl⟩ := Option.map_eq_some_iff.mp hn
      exact ⟨n₀,hn₀,rfl⟩
    · exact ⟨n,hn,rfl⟩
  obtain ⟨n₀,hn₀,hkey⟩ := hold
  rw [← hkey]
  exact (h m n₀ hn₀).kept (hkept _)

/-- What a search finds has the key and passes the test. -/
theorem find_some {fuel i r : ℕ} (h : find t k p fuel i = some r) :
    ∃ n, t[r]? = some n ∧ n.key = k ∧ p n.data := by
  induction fuel generalizing i with
  | zero => simp [find] at h
  | succ fuel ih =>
    cases hn : t[i]? with
    | none => simp [find,hn] at h
    | some n =>
      simp only [find,hn] at h
      split_ifs at h with hfound
      · cases h
        exact ⟨n,hn,hfound.1.symm,hfound.2⟩
      · cases hj : n.next k with
        | none => simp [hj] at h
        | some j =>
          rw [hj] at h
          exact ih h

/-- A search finds something when there is something to find on its path. -/
theorem find_of_onPath (hord : Ordered t) {fuel i m : ℕ} (hpath : OnPath t k i m)
    (hfuel : t.length ≤ fuel+i) (hn : t[m]? = some n) (hkey : n.key = k)
    (hp : p n.data) : (find t k p fuel i).isSome := by
  induction hpath generalizing fuel with
  | here i =>
    have hi := (List.getElem?_eq_some_iff.mp hn).1
    obtain ⟨fuel,rfl⟩ : ∃ f, fuel = f+1 := ⟨fuel-1,by omega⟩
    simp [find,hn,hkey,hp]
  | step hn' hj _ ih =>
    have hlt := hord.next hn' hj
    obtain ⟨fuel,rfl⟩ : ∃ f, fuel = f+1 := ⟨fuel-1,by omega⟩
    simp only [find,hn',hj]
    split_ifs with hfound
    · rfl
    · exact ih (by omega) hn

/-- In a complete tree the search succeeds exactly when there is something to find. -/
theorem find_isSome_iff (hord : Ordered t) (h : Complete t) {fuel : ℕ} (hfuel : t.length ≤ fuel) :
    (find t k p fuel 0).isSome ↔
      ∃ (i : ℕ) (n : Node κ δ), t[i]? = some n ∧ n.key = k ∧ p n.data := by
  constructor
  · intro hfound
    obtain ⟨r,hr⟩ := Option.isSome_iff_exists.mp hfound
    exact ⟨r,find_some hr⟩
  · rintro ⟨i,n,hn,hkey,hp⟩
    have hpath := h i n hn
    rw [hkey] at hpath
    exact find_of_onPath hord hpath hfuel hn hkey hp

/-- More fuel than there are nodes changes nothing. -/
theorem find_fuel (hord : Ordered t) {fuel fuel' i : ℕ} (hi : i < t.length)
    (hfuel : t.length ≤ fuel+i) (hfuel' : t.length ≤ fuel'+i) :
    find t k p fuel i = find t k p fuel' i := by
  induction fuel generalizing fuel' i with
  | zero => omega
  | succ fuel ih =>
    obtain ⟨fuel',rfl⟩ : ∃ f, fuel' = f+1 := ⟨fuel'-1,by omega⟩
    have hn := List.getElem?_eq_getElem hi
    simp only [find,hn]
    cases hj : t[i].next k with
    | none => rfl
    | some j =>
      have hlt := hord.next hn hj
      have hj' : t.length ≤ fuel'+j := by omega
      simp only [ih hlt.2 (by omega) hj']

/-! ### The loop of a search

The loops of a program do not know how long a path is. They are run with fuel here, and the result is
missing when the fuel runs out. -/

/-- Where the search for `k` ends: at a node that passes the test, or at the last node of the path. -/
def locate (t : Tree κ δ) (k : κ) (p : δ → Bool) : ℕ → ℕ → Option (Bool × ℕ)
  | 0, _ => none
  | fuel+1, i =>
    match t[i]? with
    | none => none
    | some n =>
      if k = n.key ∧ p n.data then some (true,i)
      else
        match n.next k with
        | none => some (false,i)
        | some j => locate t k p fuel j

/-- The search ends, with what `find` or `last` say. -/
theorem locate_eq (hord : Ordered t) {fuel i : ℕ} (hi : i < t.length) (hfuel : t.length ≤ fuel+i) :
    locate t k p fuel i =
      some ((find t k p fuel i).elim (false,last t k fuel i) fun r => (true,r)) := by
  induction fuel generalizing i with
  | zero => omega
  | succ fuel ih =>
    have hn := List.getElem?_eq_getElem hi
    simp only [locate,find,last,hn,Option.bind_some]
    split_ifs with hfound
    · rfl
    · cases hj : t[i].next k with
      | none => rfl
      | some j =>
        have hlt := hord.next hn hj
        exact ih hlt.2 (by omega)

end PhpAgent.IndexedTree

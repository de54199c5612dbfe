import PhpAgent.Util.MinmaxHeapRuns

/-! Whole sequences of heap operations against multisets: an unbounded heap is a double-ended
priority queue, a bounded one keeps the best of everything it was given. -/
namespace PhpAgent.MinmaxHeap

variable {α : Type} [Inhabited α] {cmp : α → α → ℤ} {h : MinmaxHeap α} {destroyed : List α}
  {m : Multiset α}

/-! ### Insertion -/

section Insert
variable {σ : Type} (cmpAt : σ → α → α → ℤ) (destructor : α → σ → Option σ)

/-- A heap that is not full just appends. -/
theorem insert_of_free {h : MinmaxHeap α} (v : α) (s : σ) (hfree : h.bound ≠ 0 → h.used < h.bound) :
    insert cmpAt destructor h v s = (append (cmpAt s) h v).map (·,s) := by
  have hcond : ¬ (h.bound ≠ 0 ∧ h.bound ≤ h.used) := fun hh => by
    have := hfree hh.1
    omega
  unfold insert
  rw [if_neg hcond]
  cases append (cmpAt s) h v <;> rfl

omit cmpAt destructor in
/-- An insertion does the same to any image of the state that the comparator and the destructor
respect. -/
theorem insert_map {τ : Type} (f : σ → τ) (cmpOf : τ → α → α → ℤ) {destroy : α → σ → Option σ}
    {destroyOf : α → τ → Option τ} (hdestroy : ∀ x s, (destroy x s).map f = destroyOf x (f s))
    (h : MinmaxHeap α) (v : α) (s : σ) :
    (insert (fun s => cmpOf (f s)) destroy h v s).map (Prod.map id f) =
      insert cmpOf destroyOf h v (f s) := by
  unfold insert
  split_ifs with hfull
  · cases hpeek : h.peekMin with
    | none => rfl
    | some least =>
      cases least with
      | none => rfl
      | some least =>
        simp only [Option.bind_eq_bind,Option.bind_some]
        split_ifs with hcmp
        · rw [← hdestroy]
          cases destroy v s <;> rfl
        · cases popMin (cmpOf (f s)) h with
          | none => rfl
          | some r =>
            simp only [Option.bind_some]
            rw [← hdestroy]
            cases hd : destroy least s with
            | none => rfl
            | some s' =>
              simp only [Option.bind_some,Option.map_some]
              cases append (cmpOf (f s')) r.2 v <;> rfl
  · simp only [Option.bind_eq_bind]
    cases append (cmpOf (f s)) h v <;> rfl

variable {s : σ} {h : MinmaxHeap α} (hv : Valid (cmpAt s) h) (hb : 2 ≤ h.bound)
  (hfull : h.used = h.bound)
include hv hb hfull

/-- A full bounded heap refuses a value below its minimum and destroys it. -/
theorem insert_refuses (v : α) (hlt : 0 < cmpAt s (h.vals 1) v) :
    insert cmpAt destructor h v s = (destructor v s).map (h,·) := by
  have hroom := hv.room
  have hcond : h.bound ≠ 0 ∧ h.bound ≤ h.used := by omega
  have hpeek : h.peekMin = some (some (h.vals 1)) := by
    simp [peekMin,show h.used ≠ 0 by omega,read_eq (show 1 < h.capacity by omega),vals]
  unfold insert
  rw [if_pos hcond]
  simp only [hpeek,Option.bind_eq_bind,Option.bind_some,hlt,if_true]
  cases destructor v s <;> rfl

/-- A full bounded heap makes room for any other value by destroying its minimum. -/
theorem insert_evicts (hc : IsComparator (cmpAt s)) (v : α) (hge : cmpAt s (h.vals 1) v ≤ 0) :
    ∃ h₁, Valid (cmpAt s) h₁ ∧ h₁.bound = h.bound ∧ h.vals 1 ::ₘ h₁.stored = h.stored ∧
      insert cmpAt destructor h v s = (destructor (h.vals 1) s).bind
        (fun s' => (append (cmpAt s') h₁ v).map (·,s')) := by
  have hroom := hv.room
  have hcond : h.bound ≠ 0 ∧ h.bound ≤ h.used := by omega
  have hpeek : h.peekMin = some (some (h.vals 1)) := by
    simp [peekMin,show h.used ≠ 0 by omega,read_eq (show 1 < h.capacity by omega),vals]
  obtain ⟨h₁,hpop,hv₁,hb₁,hst⟩ := popMin_spec hc hv (by omega)
  refine ⟨h₁,hv₁,hb₁,hst,?_⟩
  unfold insert
  rw [if_pos hcond]
  simp only [hpeek,Option.bind_eq_bind,Option.bind_some,not_lt.mpr hge,if_false,hpop]
  cases hd : destructor (h.vals 1) s with
  | none => rfl
  | some s' =>
    simp only [Option.bind_some]
    cases append (cmpAt s') h₁ v <;> rfl

end Insert

/-- Destructors that always return and do not change the order play no part in what is stored. -/
theorem insert_fst_congr {σ τ : Type} {cmpAt : σ → α → α → ℤ}
    {cmpAt' : τ → α → α → ℤ} {destructor : α → σ → Option σ} {destructor' : α → τ → Option τ} {s : σ} {u : τ}
    (hcmp : cmpAt s = cmpAt' u) (hd : ∀ x, ∃ s', destructor x s = some s' ∧ cmpAt s' = cmpAt s)
    (hd' : ∀ x, ∃ u', destructor' x u = some u' ∧ cmpAt' u' = cmpAt' u) (h : MinmaxHeap α) (v : α) :
    (insert cmpAt destructor h v s).map Prod.fst =
      (insert cmpAt' destructor' h v u).map Prod.fst := by
  have hmap : ∀ (o : Option (MinmaxHeap α)) (x : σ) (y : τ),
      (o.bind fun h => some (h,x)).map Prod.fst = (o.bind fun h => some (h,y)).map Prod.fst := by
    intro o x y
    cases o <;> rfl
  unfold insert
  split
  · cases h.peekMin with
    | none => rfl
    | some min =>
      cases min with
      | none => rfl
      | some min =>
        obtain ⟨s₁,hs₁,-⟩ := hd v
        obtain ⟨u₁,hu₁,-⟩ := hd' v
        obtain ⟨s₂,hs₂,hc₂⟩ := hd min
        obtain ⟨u₂,hu₂,hc₂'⟩ := hd' min
        simp only [Option.bind_eq_bind,Option.bind_some,hcmp]
        split
        · simp [hs₁,hu₁]
        · cases popMin (cmpAt' u) h with
          | none => rfl
          | some r =>
            simp only [Option.bind_some,hs₂,hu₂,hc₂,hc₂',hcmp]
            exact hmap _ _ _
  · rw [hcmp]
    exact hmap _ _ _

/-! ### The unbounded heap as a double-ended priority queue -/

inductive HeapOp (α : Type)
  | insert (value : α)
  | popMin
  | popMax

/-- One call on a heap without a destructor, with its answer. -/
def HeapOp.apply (cmp : α → α → ℤ) (h : MinmaxHeap α) : HeapOp α → Option (MinmaxHeap α × Option α)
  | .insert v => do
    let (h,_) ← MinmaxHeap.insert (fun _ : Unit => cmp) (fun _ s => some s) h v ()
    return (h,none)
  | .popMin => do
    let (v,h) ← MinmaxHeap.popMin cmp h
    return (h,v)
  | .popMax => do
    let (v,h) ← MinmaxHeap.popMax cmp h
    return (h,v)

/-- A sequence of calls, with the answers in order. -/
def runOps (cmp : α → α → ℤ) : MinmaxHeap α → List (HeapOp α) → Option (MinmaxHeap α × List (Option α))
  | h, [] => some (h,[])
  | h, op :: ops => do
    let (h,answer) ← op.apply cmp h
    let (h,answers) ← runOps cmp h ops
    return (h,answer :: answers)

omit [Inhabited α] in
/-- What a double-ended priority queue holding `m` may answer, and what it then holds. -/
inductive Answers (cmp : α → α → ℤ) : Multiset α → HeapOp α → Option α → Multiset α → Prop
  | insert (m : Multiset α) (v : α) : Answers cmp m (.insert v) none (v ::ₘ m)
  | popMinEmpty : Answers cmp 0 .popMin none 0
  | popMaxEmpty : Answers cmp 0 .popMax none 0
  | popMin {m : Multiset α} {x : α} (least : ∀ y ∈ x ::ₘ m, cmp x y ≤ 0) :
      Answers cmp (x ::ₘ m) .popMin (some x) m
  | popMax {m : Multiset α} {x : α} (greatest : ∀ y ∈ x ::ₘ m, cmp y x ≤ 0) :
      Answers cmp (x ::ₘ m) .popMax (some x) m

omit [Inhabited α] in
/-- A run of the double-ended priority queue. -/
inductive QueueRun (cmp : α → α → ℤ) :
    Multiset α → List (HeapOp α) → List (Option α) → Multiset α → Prop
  | nil (m : Multiset α) : QueueRun cmp m [] [] m
  | cons {m₁ m₂ m₃ : Multiset α} {op : HeapOp α} {ops : List (HeapOp α)} {answer : Option α}
      {answers : List (Option α)} (head : Answers cmp m₁ op answer m₂)
      (tail : QueueRun cmp m₂ ops answers m₃) :
      QueueRun cmp m₁ (op :: ops) (answer :: answers) m₃

/-- The values given to the insertions of a sequence. -/
def inserted : List (HeapOp α) → Multiset α
  | [] => 0
  | .insert v :: ops => v ::ₘ inserted ops
  | .popMin :: ops => inserted ops
  | .popMax :: ops => inserted ops

/-- The values a sequence of answers handed out. -/
def popped : List (Option α) → Multiset α
  | [] => 0
  | none :: answers => popped answers
  | some x :: answers => x ::ₘ popped answers

omit [Inhabited α] in
/-- What is held is what was held before and was inserted, less what was handed out. -/
theorem QueueRun.balance {m m' : Multiset α} {ops : List (HeapOp α)} {answers : List (Option α)}
    (h : QueueRun cmp m ops answers m') : m' + popped answers = m + inserted ops := by
  induction h with
  | nil m => simp [popped,inserted]
  | cons head _ ih =>
    cases head with
    | insert m v => simpa [popped,inserted] using ih
    | popMinEmpty => simpa [popped,inserted] using ih
    | popMaxEmpty => simpa [popped,inserted] using ih
    | @popMin m x _ => simpa [popped,inserted] using congrArg (x ::ₘ ·) ih
    | @popMax m x _ => simpa [popped,inserted] using congrArg (x ::ₘ ·) ih

/-- Each call on a valid unbounded heap answers as a priority queue and keeps the heap valid. -/
theorem HeapOp.apply_spec (hc : IsComparator cmp) (hv : Valid cmp h) (hb : h.bound = 0) (op : HeapOp α) :
    ∃ h' answer, op.apply cmp h = some (h',answer) ∧ Valid cmp h' ∧ h'.bound = 0 ∧
      Answers cmp h.stored op answer h'.stored := by
  cases op with
  | insert v =>
    obtain ⟨h',he,hv',hb',hst⟩ := append_spec hc hv (fun hh => absurd hb hh) v
    refine ⟨h',none,?_,hv',hb'.trans hb,hst ▸ .insert _ v⟩
    simp [HeapOp.apply,insert_of_free _ _ v () (fun hh => absurd hb hh),he]
  | popMin =>
    by_cases hu : h.used = 0
    · have h0 : h.stored = 0 := by simp [stored,hu]
      exact ⟨h,none,by simp [HeapOp.apply,MinmaxHeap.popMin,hu],hv,hb,h0 ▸ .popMinEmpty⟩
    · obtain ⟨h',he,hv',hb',hst⟩ := popMin_spec hc hv hu
      refine ⟨h',some (h.vals 1),by simp [HeapOp.apply,he],hv',hb'.trans hb,?_⟩
      have hmin := hv.vals_one_le hc
      rw [← hst] at hmin ⊢
      exact .popMin hmin
  | popMax =>
    by_cases hu : h.used = 0
    · have h0 : h.stored = 0 := by simp [stored,hu]
      exact ⟨h,none,by simp [HeapOp.apply,MinmaxHeap.popMax,hu],hv,hb,h0 ▸ .popMaxEmpty⟩
    · obtain ⟨v,h',he,hv',hb',hst,hmax⟩ := popMax_spec hc hv hu
      refine ⟨h',some v,by simp [HeapOp.apply,he],hv',hb'.trans hb,?_⟩
      rw [← hst] at hmax ⊢
      exact .popMax hmax

lemma runOps_spec (hc : IsComparator cmp) (ops : List (HeapOp α)) (hv : Valid cmp h) (hb : h.bound = 0) :
    ∃ h' answers, runOps cmp h ops = some (h',answers) ∧ Valid cmp h' ∧
      QueueRun cmp h.stored ops answers h'.stored := by
  induction ops generalizing h with
  | nil => exact ⟨h,[],rfl,hv,.nil _⟩
  | cons op ops ih =>
    obtain ⟨h₁,answer,he,hv₁,hb₁,hans⟩ := op.apply_spec hc hv hb
    obtain ⟨h₂,answers,hrun,hv₂,hq⟩ := ih hv₁ hb₁
    exact ⟨h₂,answer :: answers,by simp [runOps,he,hrun],hv₂,.cons hans hq⟩

/-- Every sequence of insertions and removals on a fresh unbounded heap succeeds, leaves the heap in
level order, and is a run of a double-ended priority queue on the multiset of stored values: each
`pop_min` returns a minimum and each `pop_max` a maximum of what is stored at that time, and what is
stored at the end is what was inserted less what was popped. -/
theorem unbounded_run_correct (cmp : α → α → ℤ) (hc : IsComparator cmp) (ops : List (HeapOp α)) :
    ∃ h₀ h answers, create 0 = some h₀ ∧ runOps cmp h₀ ops = some (h,answers) ∧
      LevelOrdered cmp h ∧ QueueRun cmp 0 ops answers h.stored ∧
      h.stored + popped answers = inserted ops := by
  obtain ⟨h₀,he,hv,hb,hu⟩ := create_spec cmp 0 (by decide)
  obtain ⟨h,answers,hrun,hv',hq⟩ := runOps_spec hc ops hv hb
  have h0 : h₀.stored = 0 := by simp [stored,hu]
  rw [h0] at hq
  exact ⟨h₀,h,answers,he,hrun,hv'.ordered,hq,by simpa using hq.balance⟩

theorem unbounded_run_correct_difference :
    ∃ h₀ h answers, create 0 = some h₀ ∧
      runOps (fun a b : ℕ => (a : ℤ)-b) h₀ [.insert 5,.insert 3,.popMax] = some (h,answers) ∧
      LevelOrdered (fun a b : ℕ => (a : ℤ)-b) h ∧
      QueueRun (fun a b : ℕ => (a : ℤ)-b) 0 [.insert 5,.insert 3,.popMax] answers h.stored ∧
      h.stored + popped answers = inserted [.insert 5,.insert 3,.popMax] :=
  unbounded_run_correct _ ⟨fun a b => by omega,fun a b c => by omega⟩ _

/-! ### The bounded heap -/

/-- Insertions one after the other, with the values the destructor received in order. -/
def insertAll (cmp : α → α → ℤ) (h : MinmaxHeap α) (vs : List α) : Option (MinmaxHeap α × List α) :=
  vs.foldlM (fun st v => insert (fun _ => cmp) (fun x destroyed => some (destroyed ++ [x])) st.1 v st.2)
    (h,[])

/-- What a heap of bound `b` has done with the inserted values: all are either stored or destroyed,
nothing is destroyed while there is room, and nothing destroyed is better than anything stored. -/
structure KeepsBest (cmp : α → α → ℤ) (b : ℕ) (inserted : Multiset α) (h : MinmaxHeap α)
    (destroyed : List α) : Prop where
  valid : Valid cmp h
  bound : h.bound = b
  partition : h.stored + destroyed = inserted
  full : destroyed ≠ [] → h.used = b
  best : ∀ x ∈ h.stored, ∀ y ∈ destroyed, cmp y x ≤ 0

/-- The invariant of a bounded heap survives an insertion. -/
theorem KeepsBest.insert (hc : IsComparator cmp) {b : ℕ} (hb : 2 ≤ b) (k : KeepsBest cmp b m h destroyed)
    (v : α) :
    ∃ h' destroyed', MinmaxHeap.insert (fun _ => cmp) (fun x ds => some (ds ++ [x])) h v destroyed =
      some (h',destroyed') ∧ KeepsBest cmp b (v ::ₘ m) h' destroyed' := by
  obtain ⟨hv,hbd,hpart,hfull,hbest⟩ := k
  by_cases hfree : h.used < b
  · have hd : destroyed = [] := by
      by_contra hne
      have := hfull hne
      omega
    obtain ⟨h',he,hv',hb',hst⟩ := append_spec hc hv (fun _ => hbd ▸ hfree) v
    refine ⟨h',destroyed,?_,hv',hb'.trans hbd,?_,fun hne => absurd hd hne,by simp [hd]⟩
    · simp [insert_of_free _ _ v destroyed (fun _ => hbd ▸ hfree),he]
    · rw [hst,← hpart,Multiset.cons_add]
  have hu : h.used = h.bound := by
    have := (hv.bounded (by omega)).1
    omega
  by_cases hcmp : 0 < cmp (h.vals 1) v
  · -- The value is below the minimum, hence below everything stored.
    have hlow : ∀ x ∈ h.stored, cmp v x ≤ 0 := fun x hx =>
      hc.trans _ _ _ ((hc.pos_iff _ _).mp hcmp).le (hv.vals_one_le hc x hx)
    refine ⟨h,destroyed ++ [v],?_,hv,hbd,?_,fun _ => hu.trans hbd,?_⟩
    · simpa using insert_refuses (fun _ : List α => cmp)
        (fun x ds => some (ds ++ [x])) hv (hbd ▸ hb) hu v hcmp
    · rw [← hpart,← Multiset.coe_add,← add_assoc]
      simp [← Multiset.singleton_add,add_comm]
    · intro x hx y hy
      rcases List.mem_append.mp hy with hy | hy
      · exact hbest x hx y hy
      · rw [List.mem_singleton.mp hy]
        exact hlow x hx
  · -- The minimum makes room: it is below everything that stays and not above the new value.
    obtain ⟨h₁,hv₁,hb₁,hst₁,he⟩ := insert_evicts (fun _ : List α => cmp)
      (fun x ds => some (ds ++ [x])) hv (hbd ▸ hb) hu hc v (not_lt.mp hcmp)
    have hu₁ : h₁.used+1 = h.used := by
      rw [← card_stored,← card_stored,← hst₁,Multiset.card_cons]
    obtain ⟨h',he',hv',hb',hst'⟩ := append_spec hc hv₁ (fun _ => by omega) v
    refine ⟨h',destroyed ++ [h.vals 1],?_,hv',hb'.trans (hb₁.trans hbd),?_,?_,?_⟩
    · simpa [he'] using he
    · rw [hst',← hpart,← hst₁,← Multiset.coe_add]
      simp only [← Multiset.singleton_add,Multiset.coe_singleton]
      abel
    · intro _
      rw [← card_stored,hst',Multiset.card_cons,card_stored]
      omega
    · intro x hx y hy
      rw [hst',Multiset.mem_cons] at hx
      have hmin : cmp (h.vals 1) x ≤ 0 := by
        rcases hx with rfl | hx
        · exact not_lt.mp hcmp
        · exact hv.vals_one_le hc x (hst₁ ▸ Multiset.mem_cons_of_mem hx)
      rcases List.mem_append.mp hy with hy | hy
      · exact hc.trans _ _ _ (hbest (h.vals 1) (hst₁ ▸ Multiset.mem_cons_self _ _) y hy) hmin
      · rw [List.mem_singleton.mp hy]
        exact hmin

lemma KeepsBest.insertAll (hc : IsComparator cmp) {b : ℕ} (hb : 2 ≤ b) (vs : List α)
    (k : KeepsBest cmp b m h destroyed) :
    ∃ h' destroyed', vs.foldlM (fun st v => MinmaxHeap.insert (fun _ => cmp)
        (fun x ds => some (ds ++ [x])) st.1 v st.2) (h,destroyed) = some (h',destroyed') ∧
      KeepsBest cmp b (m + vs) h' destroyed' := by
  induction vs generalizing m h destroyed with
  | nil => exact ⟨h,destroyed,rfl,by simpa using k⟩
  | cons v vs ih =>
    obtain ⟨h₁,d₁,he,k₁⟩ := k.insert hc hb v
    obtain ⟨h₂,d₂,hrun,k₂⟩ := ih k₁
    refine ⟨h₂,d₂,by simp [List.foldlM_cons,he,hrun],?_⟩
    rwa [← Multiset.cons_coe,Multiset.add_cons,← Multiset.cons_add]

omit [Inhabited α] in
/-- A bounded heap holds what it was given up to its bound. -/
theorem KeepsBest.used_eq {b : ℕ} (hb : 2 ≤ b) (k : KeepsBest cmp b m h destroyed) : h.used = min m.card b
    := by
  have hcard := congrArg Multiset.card k.partition
  simp only [Multiset.card_add,card_stored,Multiset.coe_card] at hcard
  have hbound := k.bound
  have hle := (k.valid.bounded (by omega)).1
  by_cases hd : destroyed = []
  · simp only [hd,List.length_nil,add_zero] at hcard
    omega
  · have := k.full hd
    omega

/-- A bounded heap keeps the best: after any sequence of insertions into a heap of bound `b ≥ 2` the
heap holds `min n b` values; stored and destroyed values together are the inserted ones, so every
value that is not retained was destroyed exactly once; nothing destroyed is better than anything
retained; and all accesses stayed inside the first allocation of `b+1` slots. -/
theorem bounded_keeps_best (cmp : α → α → ℤ) (hc : IsComparator cmp) (b : ℕ) (hb : 2 ≤ b)
    (vs : List α) :
    ∃ h₀ h destroyed, create (b : ℤ) = some h₀ ∧ h₀.capacity = b+1 ∧
      insertAll cmp h₀ vs = some (h,destroyed) ∧ h.capacity = b+1 ∧
      h.used = min vs.length b ∧ h.stored.card = h.used ∧
      h.stored + destroyed = (vs : Multiset α) ∧
      ∀ x ∈ h.stored, ∀ y ∈ destroyed, cmp y x ≤ 0 := by
  obtain ⟨h₀,he,hv,hbd,hu⟩ := create_spec cmp b (by omega)
  have h0 : h₀.stored = 0 := by simp [stored,hu]
  have k₀ : KeepsBest cmp b 0 h₀ [] := ⟨hv,hbd,by simp [h0],fun hh => absurd rfl hh,by simp⟩
  obtain ⟨h,destroyed,hrun,k⟩ := k₀.insertAll hc hb vs
  have hcap₀ := (hv.bounded (by omega)).2
  have hcap := (k.valid.bounded (by have := k.bound; omega)).2
  have hused := k.used_eq hb
  rw [zero_add,Multiset.coe_card] at hused
  exact ⟨h₀,h,destroyed,he,hbd ▸ hcap₀,hrun,k.bound ▸ hcap,hused,card_stored h,
    by simpa using k.partition,k.best⟩

theorem bounded_keeps_best_difference :
    ∃ h₀ h destroyed, create ((2 : ℕ) : ℤ) = some h₀ ∧ h₀.capacity = 2+1 ∧
      insertAll (fun a b : ℕ => (a : ℤ)-b) h₀ [4,1,3] = some (h,destroyed) ∧ h.capacity = 2+1 ∧
      h.used = min [4,1,3].length 2 ∧ h.stored.card = h.used ∧
      h.stored + destroyed = (([4,1,3] : List ℕ) : Multiset ℕ) ∧
      ∀ x ∈ h.stored, ∀ y ∈ destroyed, (y : ℤ)-x ≤ 0 :=
  bounded_keeps_best _ ⟨fun a b => by omega,fun a b c => by omega⟩ 2 le_rfl [4,1,3]

end PhpAgent.MinmaxHeap

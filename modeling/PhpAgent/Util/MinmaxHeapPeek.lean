import PhpAgent.Util.MinmaxHeapCorrect

/-! Whether `nr_minmax_heap_peek_max` and `nr_minmax_heap_peek_min` show the element that is popped
next. -/
namespace PhpAgent.MinmaxHeap

variable {α : Type} {cmp : α → α → ℤ} {h : MinmaxHeap α}

/-- The slot that `pop_max` takes its value from. -/
def popIndex (cmp : α → α → ℤ) (h : MinmaxHeap α) : ℕ :=
  if h.used ≤ 2 then h.used else if cmp (h.vals 2) (h.vals 3) < 0 then 3 else 2

/-- The slot that `peek_max` shows. -/
def peekIndex (cmp : α → α → ℤ) (h : MinmaxHeap α) : ℕ :=
  if h.used ≤ 2 then h.used else if 0 < cmp (h.vals 2) (h.vals 3) then 2 else 3

/-- What is shown is what is popped. -/
def PeeksMax (cmp : α → α → ℤ) (h : MinmaxHeap α) : Prop :=
  ∃ x h', peekMax cmp h = some x ∧ popMax cmp h = some (x,h')

def PeeksMin (cmp : α → α → ℤ) (h : MinmaxHeap α) : Prop :=
  ∃ x h', peekMin h = some x ∧ popMin cmp h = some (x,h')

/-- There is one candidate for the maximum: at most two elements, or two on level one that do not
compare equal or are the same. -/
def SingleMax (cmp : α → α → ℤ) (h : MinmaxHeap α) : Prop :=
  h.used < 3 ∨ cmp (h.vals 2) (h.vals 3) ≠ 0 ∨ h.vals 2 = h.vals 3

lemma peekMax_eq (hv : Valid cmp h) (hu : h.used ≠ 0) :
    peekMax cmp h = some (some (h.vals (peekIndex cmp h))) := by
  have hroom := hv.room
  unfold peekIndex
  by_cases h1 : h.used = 1
  · rw [if_pos (by omega),h1]
    simp [peekMax,h1,read_eq (show 1 < h.capacity by omega),vals]
  by_cases h2 : h.used = 2
  · rw [if_pos (by omega),h2]
    simp [peekMax,h2,read_eq (show 2 < h.capacity by omega),vals]
  · have hread2 := read_eq (show 2 < h.capacity by omega)
    have hread3 := read_eq (show 3 < h.capacity by omega)
    rw [if_neg (by omega)]
    simp only [peekMax,hu,h1,h2,if_false,compare_eq (show 2 < h.capacity by omega)
      (show 3 < h.capacity by omega),Option.bind_eq_bind,Option.bind_some,hread2,hread3]
    split_ifs <;> rfl

lemma popMax_eq (hc : IsComparator cmp) (hv : Valid cmp h) (hu : h.used ≠ 0) :
    ∃ h', popMax cmp h = some (some (h.vals (popIndex cmp h)),h') := by
  have hroom := hv.room
  obtain ⟨v,h',hpop,-⟩ := popMax_spec hc hv hu
  refine ⟨h',?_⟩
  suffices hval : v = h.vals (popIndex cmp h) by rw [hpop,hval]
  unfold popIndex
  by_cases h2 : h.used ≤ 2
  · rw [if_pos h2]
    simp only [popMax,hu,h2,if_false,if_true,read_eq hroom,write_eq hroom,Option.bind_eq_bind,
      Option.bind_some,Option.pure_def,Option.some.injEq,Prod.mk.injEq] at hpop
    exact hpop.1.symm
  · rw [if_neg h2]
    have hidx : ∀ i, i = 2 ∨ i = 3 → h.read i = some (h.elements i) := by
      intro i hi
      exact read_eq (by omega)
    simp only [popMax,hu,h2,if_false,compare_eq (show 2 < h.capacity by omega)
      (show 3 < h.capacity by omega),Option.bind_eq_bind,Option.bind_some] at hpop
    obtain ⟨e,he,hpop⟩ := Option.bind_eq_some_iff.mp hpop
    obtain ⟨h₁,-,hpop⟩ := Option.bind_eq_some_iff.mp hpop
    rw [hidx _ (by split_ifs <;> simp),Option.some_inj] at he
    simp only [Option.pure_def,Option.some.injEq,Prod.mk.injEq] at hpop
    rw [← hpop.1,← he]
    rfl

/-- A heap whose minimum is shown pops it. -/
theorem peeksMin (hc : IsComparator cmp) (hv : Valid cmp h) : PeeksMin cmp h := by
  by_cases hu : h.used = 0
  · exact ⟨none,h,by simp [peekMin,hu],by simp [popMin,hu]⟩
  · have hroom := hv.room
    obtain ⟨h',hpop,-⟩ := popMin_spec hc hv hu
    exact ⟨some (h.vals 1),h',by simp [peekMin,hu,read_eq (show 1 < h.capacity by omega),vals],hpop⟩

/-- The two comparisons choose differently only between elements that compare equal. -/
theorem peeksMax_iff (hc : IsComparator cmp) (hv : Valid cmp h) :
    PeeksMax cmp h ↔ SingleMax cmp h := by
  by_cases hu : h.used = 0
  · constructor
    · intro _
      exact .inl (by omega)
    · intro _
      exact ⟨none,h,by simp [peekMax,hu],by simp [popMax,hu]⟩
  obtain ⟨h',hpop⟩ := popMax_eq hc hv hu
  have hsame : PeeksMax cmp h ↔ h.vals (peekIndex cmp h) = h.vals (popIndex cmp h) := by
    constructor
    · rintro ⟨x,h'',hpeek,hpop'⟩
      rw [peekMax_eq hv hu,Option.some_inj] at hpeek
      rw [hpop,Option.some_inj,Prod.mk.injEq] at hpop'
      exact Option.some_inj.mp (hpeek.trans hpop'.1.symm)
    · intro heq
      exact ⟨_,h',peekMax_eq hv hu,heq ▸ hpop⟩
  rw [hsame,SingleMax,peekIndex,popIndex]
  by_cases h2 : h.used ≤ 2
  · simp only [if_pos h2,true_iff]
    exact .inl (by omega)
  · have hbig : ¬h.used < 3 := by omega
    simp only [if_neg h2,hbig,false_or]
    obtain hlt | heq | hgt := lt_trichotomy (cmp (h.vals 2) (h.vals 3)) 0
    · simp [hlt,hlt.ne,not_lt.mpr hlt.le]
    · simp [heq,eq_comm]
    · simp [hgt,hgt.ne',not_lt.mpr hgt.le]

/-! ### Runs -/

variable [Inhabited α]

/-- Each call on a valid heap of any bound returns and keeps the heap valid. -/
theorem HeapOp.apply_valid (hc : IsComparator cmp) (hv : Valid cmp h) (hb : h.bound ≠ 1)
    (op : HeapOp α) :
    ∃ h' answer, op.apply cmp h = some (h',answer) ∧ Valid cmp h' ∧ h'.bound = h.bound := by
  cases op with
  | insert v =>
    by_cases hfree : h.bound ≠ 0 → h.used < h.bound
    · obtain ⟨h',he,hv',hb',-⟩ := append_spec hc hv hfree v
      exact ⟨h',none,by simp [HeapOp.apply,insert_of_free _ _ v () hfree,he],hv',hb'⟩
    rw [Classical.not_imp] at hfree
    have hfull : h.used = h.bound := by
      have := (hv.bounded hfree.1).1
      omega
    by_cases hcmp : 0 < cmp (h.vals 1) v
    · have he := insert_refuses (fun _ : Unit => cmp) (fun _ s => some s) (s := ()) hv
        (by omega) hfull v hcmp
      exact ⟨h,none,by simp [HeapOp.apply,he],hv,rfl⟩
    · obtain ⟨h₁,hv₁,hb₁,hst,he⟩ := insert_evicts (fun _ : Unit => cmp) (fun _ s => some s) hv
        (s := ()) (by omega) hfull hc v (not_lt.mp hcmp)
      have hused : h₁.used+1 = h.used := by
        rw [← card_stored,← card_stored,← hst,Multiset.card_cons]
      obtain ⟨h',he',hv',hb',-⟩ := append_spec hc hv₁ (fun _ => by omega) v
      exact ⟨h',none,by simp [HeapOp.apply,he,he'],hv',hb'.trans hb₁⟩
  | popMin =>
    by_cases hu : h.used = 0
    · exact ⟨h,none,by simp [HeapOp.apply,MinmaxHeap.popMin,hu],hv,rfl⟩
    · obtain ⟨h',he,hv',hb',-⟩ := popMin_spec hc hv hu
      exact ⟨h',some (h.vals 1),by simp [HeapOp.apply,he],hv',hb'⟩
  | popMax =>
    by_cases hu : h.used = 0
    · exact ⟨h,none,by simp [HeapOp.apply,MinmaxHeap.popMax,hu],hv,rfl⟩
    · obtain ⟨v,h',he,hv',hb',-⟩ := popMax_spec hc hv hu
      exact ⟨h',some v,by simp [HeapOp.apply,he],hv',hb'⟩

lemma runOps_valid (hc : IsComparator cmp) (ops : List (HeapOp α)) {h : MinmaxHeap α}
    (hv : Valid cmp h) (hb : h.bound ≠ 1) :
    ∃ h' answers, runOps cmp h ops = some (h',answers) ∧ Valid cmp h' := by
  induction ops generalizing h with
  | nil => exact ⟨h,[],rfl,hv⟩
  | cons op ops ih =>
    obtain ⟨h₁,answer,he,hv₁,hb₁⟩ := op.apply_valid hc hv hb
    obtain ⟨h₂,answers,hrun,hv₂⟩ := ih hv₁ (hb₁ ▸ hb)
    exact ⟨h₂,answer :: answers,by simp [runOps,he,hrun],hv₂⟩

/-- After every sequence of insertions and removals on a heap of any bound the minimum that is shown is
the one that is popped next, and the maximum is exactly when there is one candidate for it. -/
theorem run_peeks_iff (cmp : α → α → ℤ) (hc : IsComparator cmp) (b : ℕ) (hb : b ≠ 1)
    (ops : List (HeapOp α)) :
    ∃ h₀ h answers, create b = some h₀ ∧ runOps cmp h₀ ops = some (h,answers) ∧
      PeeksMin cmp h ∧ (PeeksMax cmp h ↔ SingleMax cmp h) := by
  obtain ⟨h₀,he,hv,hb₀,-⟩ := create_spec cmp b hb
  obtain ⟨h,answers,hrun,hv'⟩ := runOps_valid hc ops hv (hb₀ ▸ hb)
  exact ⟨h₀,h,answers,he,hrun,peeksMin hc hv',peeksMax_iff hc hv'⟩

/-- Compares the first components. -/
def compareKeys (a b : ℕ × ℕ) : ℤ := (a.1 : ℤ)-b.1

lemma isComparator_compareKeys : IsComparator compareKeys :=
  ⟨fun a b => by unfold compareKeys; omega,fun a b c => by unfold compareKeys; omega⟩

theorem run_peeks_iff_keys :
    ∃ h₀ h answers, create (0 : ℕ) = some h₀ ∧
      runOps compareKeys h₀ [.insert (1,0),.insert (5,1),.popMin] = some (h,answers) ∧
      PeeksMin compareKeys h ∧ (PeeksMax compareKeys h ↔ SingleMax compareKeys h) :=
  run_peeks_iff compareKeys isComparator_compareKeys 0 (by decide) _

/-- Of two maxima `peek_max` shows one and `pop_max` removes the other. -/
theorem peekMax_other_maximum :
    ∃ h₀ h answers, create (0 : ℕ) = some h₀ ∧
      runOps compareKeys h₀ [.insert (1,0),.insert (5,1),.insert (5,2)] = some (h,answers) ∧
      (peekMax compareKeys h = some (some (5,2))) ∧
      ((popMax compareKeys h).map Prod.fst = some (some (5,1))) ∧ ¬PeeksMax compareKeys h := by
  obtain ⟨h₀,he,hv,hb₀,-⟩ := create_spec compareKeys 0 (by decide)
  obtain ⟨h,answers,hrun,-⟩ := runOps_valid isComparator_compareKeys
    [.insert (1,0),.insert (5,1),.insert (5,2)] hv (by rw [hb₀]; decide)
  have hstart : h₀ = ⟨0,chunkSize,0,fun _ => ⟨false,default⟩⟩ := Option.some_inj.mp he.symm
  have hpeek : (runOps compareKeys ⟨0,chunkSize,0,fun _ => ⟨false,default⟩⟩
      [.insert (1,0),.insert (5,1),.insert (5,2)]).map (fun r => peekMax compareKeys r.1) =
        some (some (some (5,2))) := by decide
  have hpop : (runOps compareKeys ⟨0,chunkSize,0,fun _ => ⟨false,default⟩⟩
      [.insert (1,0),.insert (5,1),.insert (5,2)]).map
        (fun r => (popMax compareKeys r.1).map Prod.fst) = some (some (some (5,1))) := by decide
  rw [← hstart,hrun,Option.map_some,Option.some_inj] at hpeek hpop
  refine ⟨h₀,h,answers,he,hrun,hpeek,hpop,?_⟩
  rintro ⟨x,h',hx,hx'⟩
  rw [hpeek,Option.some_inj] at hx
  rw [hx',Option.map_some,Option.some_inj,← hx] at hpop
  have hne : (5,2) = ((5,1) : ℕ × ℕ) := Option.some_inj.mp hpop
  exact absurd hne (by decide)

end PhpAgent.MinmaxHeap

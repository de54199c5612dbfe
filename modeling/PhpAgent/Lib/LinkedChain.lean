import Mathlib.Tactic

/-! Doubly linked lists in a memory of cells. A list is a segment of the memory, and the lemmas say what
is left of segments when single links are written. -/
namespace PhpAgent.LinkedChain

structure Cell (α β : Type) where
  prev : Option α
  next : Option α
  item : β
deriving DecidableEq

/-- A memory of cells; an address that is not live has none. -/
abbrev View (α β : Type) : Type := α → Option (Cell α β)

variable {α β : Type} [DecidableEq α]

/-- The cells from `head` up to `tail`, which is not part of them, with their addresses and items. -/
def Seg (v : View α β) : Option α → Option α → List (α × β) → Option α → Prop
  | _,head,[],tail => head = tail
  | prev,head,(p,x) :: l,tail => head = some p ∧ ∃ next, v p = some ⟨prev,next,x⟩ ∧ Seg v (some p) next l tail

/-- The address of the last cell, or what stands in front of the segment. -/
def lastOr (prev : Option α) : List (α × β) → Option α
  | [] => prev
  | (p,_) :: l => lastOr (some p) l

/-- The addresses of a segment. -/
def addrs (l : List (α × β)) : List α := l.map Prod.fst

variable {v v' : View α β} {prev head mid tail : Option α} {p : α} {x : β} {l l' : List (α × β)}

omit [DecidableEq α] in
lemma seg_append : Seg v prev head (l ++ l') tail ↔
    ∃ mid, Seg v prev head l mid ∧ Seg v (lastOr prev l) mid l' tail := by
  induction l generalizing prev head with
  | nil => simp [Seg,lastOr]
  | cons e l ih =>
    obtain ⟨p,x⟩ := e
    constructor
    · rintro ⟨rfl,next,hp,hseg⟩
      obtain ⟨mid,hl,hl'⟩ := ih.mp hseg
      exact ⟨mid,⟨rfl,next,hp,hl⟩,hl'⟩
    · rintro ⟨mid,⟨rfl,next,hp,hl⟩,hl'⟩
      exact ⟨rfl,next,hp,ih.mpr ⟨mid,hl,hl'⟩⟩

omit [DecidableEq α] in
/-- A segment is kept where its cells are. -/
theorem Seg.congr (h : Seg v prev head l tail) (hv : ∀ q ∈ addrs l, v' q = v q) :
    Seg v' prev head l tail := by
  induction l generalizing prev head with
  | nil => exact h
  | cons e l ih =>
    obtain ⟨p,x⟩ := e
    obtain ⟨rfl,next,hp,hseg⟩ := h
    refine ⟨rfl,next,?_,ih hseg fun q hq => hv q (List.mem_cons_of_mem _ hq)⟩
    rw [hv p List.mem_cons_self,hp]

omit [DecidableEq α] in
lemma Seg.live (h : Seg v prev head l tail) (hp : (p,x) ∈ l) :
    ∃ prev next, v p = some ⟨prev,next,x⟩ := by
  induction l generalizing prev head with
  | nil => cases hp
  | cons e l ih =>
    obtain ⟨q,y⟩ := e
    obtain ⟨rfl,next,hq,hseg⟩ := h
    obtain heq | hp := List.mem_cons.mp hp
    · cases heq
      exact ⟨_,_,hq⟩
    · exact ih hseg hp

omit [DecidableEq α] in
/-- An address has one item. -/
theorem Seg.item_unique {prev' head' tail' : Option α} (h : Seg v prev head l tail)
    (h' : Seg v prev' head' l' tail') {y : β} (hp : (p,x) ∈ l) (hp' : (p,y) ∈ l') : x = y := by
  obtain ⟨_,_,hcell⟩ := h.live hp
  obtain ⟨_,_,hcell'⟩ := h'.live hp'
  rw [hcell,Option.some_inj,Cell.mk.injEq] at hcell'
  exact hcell'.2.2

omit [DecidableEq α] in
lemma Seg.nodup_addrs (h : Seg v prev head l tail) (hnodup : l.Nodup) : (addrs l).Nodup := by
  refine hnodup.map_on ?_
  rintro ⟨p,x⟩ hx ⟨q,y⟩ hy heq
  obtain rfl : p = q := heq
  rw [h.item_unique h hx hy]

/-! ### Writing links -/

/-- The `prev` of a cell is written; nothing happens without one. -/
def setPrev (v : View α β) (at_ prev : Option α) : View α β :=
  match at_ with
  | none => v
  | some p => Function.update v p ((v p).map fun c => { c with prev := prev })

/-- The `next` of a cell is written. -/
def setNext (v : View α β) (at_ next : Option α) : View α β :=
  match at_ with
  | none => v
  | some p => Function.update v p ((v p).map fun c => { c with next := next })

lemma setPrev_of_ne {q : α} (h : head ≠ some q) : setPrev v head prev q = v q := by
  cases head with
  | none => rfl
  | some p => exact Function.update_of_ne (fun heq => h (congrArg some heq.symm)) _ _

lemma setNext_of_ne {q : α} (h : head ≠ some q) : setNext v head prev q = v q := by
  cases head with
  | none => rfl
  | some p => exact Function.update_of_ne (fun heq => h (congrArg some heq.symm)) _ _

/-- A segment whose first cell gets another predecessor. -/
theorem Seg.setPrev_head (h : Seg v prev head l tail) (hnodup : (addrs l).Nodup) (prev' : Option α) :
    Seg (setPrev v head prev') prev' head l tail := by
  cases l with
  | nil => exact h
  | cons e l =>
    obtain ⟨p,x⟩ := e
    obtain ⟨rfl,next,hp,hseg⟩ := h
    have hout : p ∉ addrs l := (List.nodup_cons.mp hnodup).1
    refine ⟨rfl,next,?_,hseg.congr fun q hq => setPrev_of_ne ?_⟩
    · rw [setPrev,Function.update_self,hp]
      rfl
    · intro heq
      rw [Option.some.inj heq] at hout
      exact hout hq

omit [DecidableEq α] in
lemma lastOr_mem (hne : l ≠ []) : ∃ q ∈ addrs l, ∀ prev, lastOr prev l = some q := by
  induction l with
  | nil => exact absurd rfl hne
  | cons e l ih =>
    obtain ⟨p,x⟩ := e
    by_cases hl : l = []
    · subst hl
      exact ⟨p,List.mem_cons_self,fun prev => rfl⟩
    · obtain ⟨q,hq,hlast⟩ := ih hl
      exact ⟨q,List.mem_cons_of_mem _ hq,fun prev => hlast _⟩

omit [DecidableEq α] in
lemma mem_of_lastOr {q : α} (h : lastOr none l = some q) : q ∈ addrs l := by
  by_cases hl : l = []
  · subst hl
    cases h
  · obtain ⟨r,hr,hlast⟩ := lastOr_mem hl
    rw [hlast] at h
    rwa [← Option.some.inj h]

/-- A segment whose last cell gets another successor. -/
theorem Seg.setNext_last (h : Seg v prev head l mid) (hnodup : (addrs l).Nodup) (hne : l ≠ [])
    (tail : Option α) : Seg (setNext v (lastOr none l) tail) prev head l tail := by
  induction l generalizing prev head with
  | nil => exact absurd rfl hne
  | cons e l ih =>
    obtain ⟨p,x⟩ := e
    obtain ⟨rfl,next,hp,hseg⟩ := h
    obtain ⟨hout,hnodup'⟩ := List.nodup_cons.mp hnodup
    by_cases hl : l = []
    · subst hl
      refine ⟨rfl,tail,?_,rfl⟩
      rw [lastOr,lastOr,setNext,Function.update_self,hp]
      rfl
    · obtain ⟨q,hq,hlast⟩ := lastOr_mem hl
      have hih := ih hseg hnodup' hl
      rw [hlast] at hih
      rw [lastOr,hlast]
      refine ⟨rfl,next,?_,hih⟩
      rw [setNext_of_ne,hp]
      intro heq
      rw [Option.some.inj heq] at hq
      exact hout hq

/-! ### Lists -/

/-- A cell is put in front of a list. -/
theorem Seg.push (h : Seg v none head l none) (hnodup : (addrs l).Nodup) (hp : p ∉ addrs l) (x : β) :
    Seg (setPrev (Function.update v p (some ⟨none,head,x⟩)) head (some p)) none (some p) ((p,x) :: l)
      none := by
  have hkept : Seg (Function.update v p (some ⟨none,head,x⟩)) none head l none := by
    refine h.congr fun q hq => Function.update_of_ne ?_ _ _
    rintro rfl
    exact hp hq
  refine ⟨rfl,head,?_,hkept.setPrev_head hnodup _⟩
  rw [setPrev_of_ne,Function.update_self]
  intro heq
  cases l with
  | nil =>
    cases h
    cases heq
  | cons e l =>
    obtain ⟨q,y⟩ := e
    obtain ⟨rfl,-⟩ := h
    rw [← Option.some.inj heq] at hp
    exact hp List.mem_cons_self

omit [DecidableEq α] in
/-- The links of a cell of a list. -/
theorem Seg.neighbours (h : Seg v none head (l ++ (p,x) :: l') none) :
    ∃ next, v p = some ⟨lastOr none l,next,x⟩ ∧ Seg v none head l (some p) ∧
      Seg v (some p) next l' none := by
  obtain ⟨mid,hl,rfl,next,hp,hl'⟩ := seg_append.mp h
  exact ⟨next,hp,hl,hl'⟩

omit [DecidableEq α] in
lemma Seg.head_mem (h : Seg v prev head l none) {q : α} (hq : head = some q) : q ∈ addrs l := by
  cases l with
  | nil =>
    cases h
    cases hq
  | cons e l =>
    obtain ⟨p,x⟩ := e
    obtain ⟨rfl,-⟩ := h
    rw [← Option.some.inj hq]
    exact List.mem_cons_self

/-- A cell is taken out of a list. -/
theorem Seg.unlink {next : Option α} (hl : Seg v none head l (some p)) (hl' : Seg v (some p) next l' none)
    (hnodup : (addrs (l ++ (p,x) :: l')).Nodup) :
    Seg (setNext (setPrev v next (lastOr none l)) (lastOr none l) next) none
      (if l = [] then next else head) (l ++ l') none := by
  have hsplit : addrs (l ++ (p,x) :: l') = addrs l ++ p :: addrs l' := List.map_append
  rw [hsplit,List.nodup_append] at hnodup
  obtain ⟨hnodupl,hnodupr,hapart⟩ := hnodup
  have hafter : Seg (setPrev v next (lastOr none l)) (lastOr none l) next l' none :=
    hl'.setPrev_head (List.nodup_cons.mp hnodupr).2 _
  by_cases hempty : l = []
  · subst hempty
    exact hafter
  · rw [if_neg hempty]
    have hbefore : Seg (setPrev v next (lastOr none l)) none head l (some p) := by
      refine hl.congr fun q hq => setPrev_of_ne fun heq => ?_
      exact hapart q hq q (List.mem_cons_of_mem _ (hl'.head_mem heq)) rfl
    refine seg_append.mpr ⟨next,hbefore.setNext_last hnodupl hempty next,?_⟩
    obtain ⟨q,hq,hlast⟩ := lastOr_mem hempty
    refine hafter.congr fun r hr => setNext_of_ne fun heq => ?_
    rw [hlast,Option.some_inj] at heq
    exact hapart q hq r (List.mem_cons_of_mem _ hr) heq

omit [DecidableEq α] in
/-- The first cell of a list is the one that nothing stands in front of. -/
theorem Seg.head_eq_iff (hl : Seg v none head l (some p)) (hp : p ∉ addrs l) :
    head = some p ↔ l = [] := by
  cases l with
  | nil => exact iff_of_true hl rfl
  | cons e l =>
    obtain ⟨q,y⟩ := e
    obtain ⟨rfl,-⟩ := hl
    refine iff_of_false (fun heq => ?_) (List.cons_ne_nil _ _)
    rw [← Option.some.inj heq] at hp
    exact hp List.mem_cons_self

end PhpAgent.LinkedChain

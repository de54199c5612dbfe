import Mathlib.Data.List.Enum
import Mathlib.Data.List.Sigma
import PhpAgent.Lib.ContainerHeap
import PhpAgent.Daemon.Collector

/-! The transaction traces that the daemon keeps, after `txn_traces.go`. Durations are numbers that
are only compared. -/
namespace PhpAgent

/-- `TxnTrace`, as far as the choice of traces reads it. -/
structure TxnTrace (D : Type) where
  durationMillis : D
  forcePersist : Bool
  syntheticsResourceID : Bytes
deriving DecidableEq

/-- A pointer to a trace: the trace and where it was allocated, older traces before newer ones. -/
abbrev TxnTracePtr (D : Type) : Type := TxnTrace D × ℕ

/-- `TxnTraceHeap`; `cap` is the capacity of its slice. -/
structure TxnTraceHeap (D : Type) where
  traces : List (TxnTracePtr D)
  cap : ℕ
deriving DecidableEq

namespace TxnTraceHeap
variable {D : Type}

/-- `NewTxnTraceHeap`. -/
def new (max : ℕ) : TxnTraceHeap D := ⟨[],max⟩

section Adding
variable [LT D] [DecidableLT D]

/-- `Less`, between traces. -/
def less (x y : TxnTracePtr D) : Bool := x.1.durationMillis < y.1.durationMillis

/-- `IsKeeper`; `none` when the index is out of range. -/
def isKeeper [LE D] [DecidableLE D] (h : TxnTraceHeap D) (tt : TxnTrace D) : Option Bool :=
  if h.traces.length < h.cap then some true
  else h.traces.head?.map fun root => tt.durationMillis ≥ root.1.durationMillis

/-- `AddTxnTrace`; `none` when the index is out of range. -/
def addTxnTrace (h : TxnTraceHeap D) (t : TxnTracePtr D) : Option (TxnTraceHeap D) :=
  if h.traces.length < h.cap then some { h with traces := ContainerHeap.push less h.traces t }
  else h.traces.head?.map fun root =>
    if t.1.durationMillis < root.1.durationMillis then h
    else { h with traces := ContainerHeap.push less (ContainerHeap.pop less h.traces) t }

def addAll (h : TxnTraceHeap D) (ts : List (TxnTracePtr D)) : Option (TxnTraceHeap D) :=
  ts.foldlM addTxnTrace h

end Adding

/-! ### Traces in the order of the calls -/

/-- The pointers to the traces of a sequence of calls. -/
def seen (ts : List (TxnTrace D)) : List (TxnTracePtr D) := ts.zipIdx

lemma seen_append_singleton (ts : List (TxnTrace D)) (t : TxnTrace D) :
    seen (ts ++ [t]) = seen ts ++ [(t,ts.length)] := by
  simp [seen,List.zipIdx_append]

lemma lt_of_mem_seen {ts : List (TxnTrace D)} {x : TxnTracePtr D} (hx : x ∈ seen ts) :
    x.2 < ts.length := by
  obtain ⟨i,hi,rfl⟩ := List.exists_mem_zipIdx'.mp ⟨x,hx,rfl⟩
  exact hi

lemma nodup_seen (ts : List (TxnTrace D)) : (seen ts).Nodup :=
  (List.nodup_zipIdx_map_snd ts).of_map

lemma eq_of_mem_seen {ts : List (TxnTrace D)} {x y : TxnTracePtr D} (hx : x ∈ seen ts)
    (hy : y ∈ seen ts) (hage : x.2 = y.2) : x = y :=
  List.inj_on_of_nodup_map (List.nodup_zipIdx_map_snd ts) hx hy hage

/-! ### What one trace changes -/

section Order
variable [LinearOrder D]

lemma less_eq (x y : TxnTracePtr D) :
    less x y = decide (x.1.durationMillis < y.1.durationMillis) := rfl

/-- What `AddTxnTrace` does to a heap with this capacity. -/
inductive Adds (h : TxnTraceHeap D) (t : TxnTracePtr D) : TxnTraceHeap D → Prop
  | room {traces : List (TxnTracePtr D)} (hroom : h.traces.length < h.cap)
      (hperm : traces.Perm (t :: h.traces)) (hheap : ContainerHeap.Heap less traces) :
      Adds h t ⟨traces,h.cap⟩
  | shorter {root : TxnTracePtr D} {rest : List (TxnTracePtr D)} (htraces : h.traces = root :: rest)
      (hfull : h.traces.length = h.cap)
      (hleast : ∀ y ∈ h.traces, root.1.durationMillis ≤ y.1.durationMillis)
      (hlt : t.1.durationMillis < root.1.durationMillis) : Adds h t h
  | longer {root : TxnTracePtr D} {rest traces : List (TxnTracePtr D)} (htraces : h.traces = root :: rest)
      (hfull : h.traces.length = h.cap)
      (hleast : ∀ y ∈ h.traces, root.1.durationMillis ≤ y.1.durationMillis)
      (hle : root.1.durationMillis ≤ t.1.durationMillis) (hperm : traces.Perm (t :: rest))
      (hheap : ContainerHeap.Heap less traces) : Adds h t ⟨traces,h.cap⟩

variable {h h' : TxnTraceHeap D} {t : TxnTracePtr D}

lemma adds_addTxnTrace (hheap : ContainerHeap.Heap less h.traces) (hcap : 0 < h.cap)
    (hwithin : h.traces.length ≤ h.cap) (t : TxnTracePtr D) :
    ∃ h', h.addTxnTrace t = some h' ∧ Adds h t h' := by
  unfold addTxnTrace
  by_cases hroom : h.traces.length < h.cap
  · rw [if_pos hroom]
    exact ⟨_,rfl,.room hroom (ContainerHeap.push_perm _ _ _) (ContainerHeap.push_heap less_eq hheap t)⟩
  · have hfull : h.traces.length = h.cap := by omega
    rw [if_neg hroom]
    have hpos : 0 < h.traces.length := by omega
    obtain ⟨root,rest,htraces⟩ := List.exists_cons_of_ne_nil (List.ne_nil_of_length_pos hpos)
    have hleast : ∀ y ∈ h.traces, root.1.durationMillis ≤ y.1.durationMillis := by
      rw [htraces] at hheap ⊢
      exact ContainerHeap.heap_root less_eq hheap
    have hhead : h.traces.head? = some root := by rw [htraces,List.head?_cons]
    rw [hhead,Option.map_some]
    refine ⟨_,rfl,?_⟩
    by_cases hlt : t.1.durationMillis < root.1.durationMillis
    · rw [if_pos hlt]
      exact .shorter htraces hfull hleast hlt
    · rw [if_neg hlt]
      rw [htraces] at hheap
      obtain ⟨hpop,hperm⟩ := ContainerHeap.pop_spec less_eq hheap
      have hrest := ((List.perm_cons root).mp hperm).symm
      rw [← htraces] at hpop hrest
      exact .longer htraces hfull hleast (not_lt.mp hlt)
        ((ContainerHeap.push_perm _ _ _).trans (hrest.cons t)) (ContainerHeap.push_heap less_eq hpop t)

/-- `IsKeeper` tells whether the trace is in the heap after it was added. -/
theorem isKeeper_iff (hadds : Adds h t h') :
    ∃ keeps, h.isKeeper t.1 = some keeps ∧ (keeps = true ↔ t ∈ h'.traces) := by
  unfold isKeeper
  cases hadds with
  | room hroom hperm => exact ⟨true,if_pos hroom,by simp [hperm.mem_iff]⟩
  | @shorter root rest htraces hfull hleast hlt =>
    rw [if_neg (by omega)]
    refine ⟨false,by simpa [htraces] using hlt,?_⟩
    have hnot : t ∉ h.traces := fun hmem => absurd (hleast t hmem) (not_le.mpr hlt)
    simp [hnot]
  | @longer root rest traces htraces hfull _ hle hperm =>
    rw [if_neg (by omega),htraces]
    exact ⟨true,by simpa using hle,by simp [hperm.mem_iff]⟩

/-! ### Runs -/

/-- A heap that holds the longest of the traces it was given. -/
structure Holds (c : ℕ) (ts : List (TxnTrace D)) (h : TxnTraceHeap D) : Prop where
  cap : h.cap = c
  length : h.traces.length = min ts.length c
  heap : ContainerHeap.Heap less h.traces
  subperm : h.traces.Subperm (seen ts)
  longest : ∀ x ∈ seen ts, x ∉ h.traces → ∀ y ∈ h.traces, x.1.durationMillis ≤ y.1.durationMillis

/-- Of traces that took equally long the oldest are kept. -/
def OldestKept (ts : List (TxnTrace D)) (h : TxnTraceHeap D) : Prop :=
  ∀ x ∈ seen ts, x ∉ h.traces → ∀ y ∈ h.traces, x.1.durationMillis = y.1.durationMillis → y.2 < x.2

variable {c : ℕ} {ts : List (TxnTrace D)}

lemma Holds.nodup (hholds : Holds c ts h) : h.traces.Nodup := by
  obtain ⟨traces,hperm,hsub⟩ := hholds.subperm
  exact hperm.nodup_iff.mp ((nodup_seen ts).sublist hsub)

/-- As long as there is room nothing is dropped. -/
theorem Holds.mem_of_room (hholds : Holds c ts h) (hroom : h.traces.length < h.cap)
    {x : TxnTracePtr D} (hx : x ∈ seen ts) : x ∈ h.traces := by
  have hlength : (seen ts).length ≤ h.traces.length := by
    have := hholds.length
    rw [hholds.cap] at hroom
    rw [seen,List.length_zipIdx]
    omega
  exact (hholds.subperm.perm_of_length_le hlength).mem_iff.mpr hx

lemma holds_new (c : ℕ) : Holds c [] (new c : TxnTraceHeap D) where
  cap := rfl
  length := by simp [new]
  heap := by
    intro i _ hi
    exact absurd hi (by simp [new])
  subperm := by simp [new,seen]
  longest := by
    intro x hx
    simp [seen] at hx

/-- One more trace leaves the longest ones. -/
theorem Holds.adds (hholds : Holds c ts h) {t : TxnTrace D} (hadds : Adds h (t,ts.length) h') :
    Holds c (ts ++ [t]) h' := by
  have hseen := seen_append_singleton ts t
  have hlength := hholds.length
  have hcap := hholds.cap
  have hold : ∀ x ∈ seen (ts ++ [t]), x ≠ (t,ts.length) → x ∈ seen ts := by
    intro x hx hne
    rw [hseen,List.mem_append,List.mem_singleton] at hx
    exact hx.resolve_right hne
  cases hadds with
  | @room traces hroom hperm hheap =>
    refine ⟨hcap,?_,hheap,?_,?_⟩
    · rw [hperm.length_eq,List.length_cons,List.length_append,List.length_singleton]
      omega
    · rw [hseen]
      exact (hperm.subperm.trans ((List.subperm_cons _).mpr hholds.subperm)).trans
        (List.perm_append_singleton _ _).symm.subperm
    · intro x hx hnot
      rw [hperm.mem_iff,List.mem_cons,not_or] at hnot
      exact absurd (hholds.mem_of_room hroom (hold x hx hnot.1)) hnot.2
  | @shorter root rest htraces hfull hleast hlt =>
    refine ⟨hcap,?_,hholds.heap,?_,?_⟩
    · rw [List.length_append,List.length_singleton]
      omega
    · rw [hseen]
      exact hholds.subperm.trans (List.sublist_append_left _ _).subperm
    · intro x hx hnot y hy
      by_cases hnew : x = (t,ts.length)
      · rw [hnew]
        exact (hlt.trans_le (hleast y hy)).le
      · exact hholds.longest x (hold x hx hnew) hnot y hy
  | @longer root rest traces htraces hfull hleast hle hperm hheap =>
    have hroot : root ∈ h.traces := by simp [htraces]
    have hrest : ∀ y ∈ rest, y ∈ h.traces := fun y hy => by simp [htraces,hy]
    refine ⟨hcap,?_,hheap,?_,?_⟩
    · rw [htraces,List.length_cons] at hlength hfull
      rw [hperm.length_eq,List.length_cons,List.length_append,List.length_singleton]
      omega
    · have hsub : rest.Subperm (seen ts) := by
        refine List.Subperm.trans ?_ hholds.subperm
        rw [htraces]
        exact (List.sublist_cons_self root rest).subperm
      rw [hseen]
      exact (hperm.subperm.trans ((List.subperm_cons _).mpr hsub)).trans
        (List.perm_append_singleton _ _).symm.subperm
    · intro x hx hnot y hy
      rw [hperm.mem_iff,List.mem_cons,not_or] at hnot
      -- a trace that is gone was not longer than the root, which is a least one
      have hxroot : x.1.durationMillis ≤ root.1.durationMillis := by
        by_cases hgone : x ∈ h.traces
        · rw [htraces,List.mem_cons] at hgone
          rw [hgone.resolve_right hnot.2]
        · exact hholds.longest x (hold x hx hnot.1) hgone root hroot
      rw [hperm.mem_iff,List.mem_cons] at hy
      rcases hy with rfl | hy
      · exact hxroot.trans hle
      · exact hxroot.trans (hleast y (hrest y hy))

/-- The next trace does not throw out an older one: when the heap is full and the trace is not shorter
than the root, it is longer than the root, and the root is the newest of the kept traces that took as
long. -/
def ThrowsOutNewest (h : TxnTraceHeap D) (t : TxnTrace D) : Prop :=
  h.traces.length = h.cap → ∀ root ∈ h.traces.head?, root.1.durationMillis ≤ t.durationMillis →
    root.1.durationMillis ≠ t.durationMillis ∧
      ∀ y ∈ h.traces, y.1.durationMillis = root.1.durationMillis → y.2 ≤ root.2

lemma OldestKept.adds (hholds : Holds c ts h) (hkept : OldestKept ts h) {t : TxnTrace D}
    (hadds : Adds h (t,ts.length) h') (hthrows : h.ThrowsOutNewest t) :
    OldestKept (ts ++ [t]) h' := by
  intro x hx hnot y hy htie
  have hold : x ≠ (t,ts.length) → x ∈ seen ts := by
    intro hne
    rw [seen_append_singleton,List.mem_append,List.mem_singleton] at hx
    exact hx.resolve_right hne
  cases hadds with
  | @room traces hroom hperm hheap =>
    rw [hperm.mem_iff,List.mem_cons,not_or] at hnot
    exact absurd (hholds.mem_of_room hroom (hold hnot.1)) hnot.2
  | @shorter root rest htraces hfull hleast hlt =>
    by_cases hnew : x = (t,ts.length)
    · rw [hnew] at htie
      exact absurd htie (hlt.trans_le (hleast y hy)).ne
    · exact hkept x (hold hnew) hnot y hy htie
  | @longer root rest traces htraces hfull hleast hle hperm hheap =>
    have hrootmem : root ∈ h.traces := by simp [htraces]
    obtain ⟨hne,hnewest⟩ := hthrows hfull root (by simp [htraces]) hle
    rw [hperm.mem_iff,List.mem_cons,not_or] at hnot
    rw [hperm.mem_iff,List.mem_cons] at hy
    have hx' := hold hnot.1
    have hxroot : x.1.durationMillis ≤ root.1.durationMillis := by
      by_cases hgone : x ∈ h.traces
      · rw [htraces,List.mem_cons] at hgone
        rw [hgone.resolve_right hnot.2]
      · exact hholds.longest x hx' hgone root hrootmem
    rcases hy with rfl | hy
    · exact absurd (le_antisymm hle (htie ▸ hxroot)) hne
    · have hy' : y ∈ h.traces := by simp [htraces,hy]
      by_cases hgone : x ∈ h.traces
      · rw [htraces,List.mem_cons] at hgone
        obtain rfl := hgone.resolve_right hnot.2
        refine lt_of_le_of_ne (hnewest y hy' htie.symm) ?_
        intro hage
        have hsame := eq_of_mem_seen (hholds.subperm.subset hy') hx' hage
        have hnodup := hholds.nodup
        rw [htraces,List.nodup_cons] at hnodup
        exact hnodup.1 (hsame ▸ hy)
      · exact hkept x hx' hgone y hy' htie

/-- A step that throws out an older trace is seen in the heap. -/
theorem OldestKept.throwsOutNewest (hholds : Holds c ts h) {t : TxnTrace D}
    (hadds : Adds h (t,ts.length) h') (hkept : OldestKept (ts ++ [t]) h') : h.ThrowsOutNewest t := by
  intro hfull root hroot hle
  cases hadds with
  | room hroom => omega
  | @shorter root' rest htraces _ hleast hlt =>
    obtain rfl : root' = root := by simpa [htraces] using hroot
    exact absurd hle (not_le.mpr hlt)
  | @longer root' rest traces htraces _ hleast _ hperm hheap =>
    obtain rfl : root' = root := by simpa [htraces] using hroot
    have hmem : root' ∈ seen ts := hholds.subperm.subset (by simp [htraces])
    have hnodup := hholds.nodup
    rw [htraces,List.nodup_cons] at hnodup
    have hage := lt_of_mem_seen hmem
    have hgone : root' ∉ traces := by
      rw [hperm.mem_iff,List.mem_cons,not_or]
      refine ⟨?_,hnodup.1⟩
      rintro rfl
      exact absurd hage (lt_irrefl _)
    have hthrown := hkept root' (by simp [seen_append_singleton,hmem]) hgone
    constructor
    · intro htie
      have := hthrown (t,ts.length) (by simp [hperm.mem_iff]) htie
      exact absurd this (not_lt.mpr hage.le)
    · intro y hy htie
      rw [htraces,List.mem_cons] at hy
      rcases hy with rfl | hy
      · exact le_rfl
      · exact (hthrown y (by simp [hperm.mem_iff,hy]) htie.symm).le

/-! ### Whole sequences -/

/-- The heap after a sequence of calls. -/
def after (c : ℕ) (ts : List (TxnTrace D)) : Option (TxnTraceHeap D) := (new c).addAll (seen ts)

lemma after_append_singleton (c : ℕ) (ts : List (TxnTrace D)) (t : TxnTrace D) :
    after c (ts ++ [t]) = (after c ts).bind fun h => h.addTxnTrace (t,ts.length) := by
  simp [after,addAll,seen_append_singleton]

lemma holds_after (hc : 1 ≤ c) (ts : List (TxnTrace D)) : ∃ h, after c ts = some h ∧ Holds c ts h := by
  induction ts using List.reverseRecOn with
  | nil => exact ⟨new c,rfl,holds_new c⟩
  | append_singleton ts t ih =>
    obtain ⟨h,hafter,hholds⟩ := ih
    have hcap := hholds.cap
    have hlength := hholds.length
    obtain ⟨h',hadd,hadds⟩ := adds_addTxnTrace hholds.heap (by omega) (by omega) (t,ts.length)
    exact ⟨h',by rw [after_append_singleton,hafter,Option.bind_some,hadd],hholds.adds hadds⟩

/-- What is asked of the heap after a sequence of calls: it holds as many traces as fit, none that is
gone is longer than one that is held, the oldest are held of those that took equally long, and
`IsKeeper` tells whether the next trace will be in the heap. -/
structure Selects (c : ℕ) (ts : List (TxnTrace D)) (h : TxnTraceHeap D) : Prop where
  length : h.traces.length = min ts.length c
  subperm : h.traces.Subperm (seen ts)
  longest : ∀ x ∈ seen ts, x ∉ h.traces → ∀ y ∈ h.traces, x.1.durationMillis ≤ y.1.durationMillis
  oldest : OldestKept ts h
  keeper : ∀ t, ∃ keeps h', h.isKeeper t = some keeps ∧ h.addTxnTrace (t,ts.length) = some h' ∧
    (keeps = true ↔ (t,ts.length) ∈ h'.traces)

lemma Holds.selects_iff_oldestKept (hc : 1 ≤ c) (hholds : Holds c ts h) : Selects c ts h ↔ OldestKept ts h := by
  constructor
  · exact fun hselects => hselects.oldest
  · intro holdest
    refine ⟨hholds.length,hholds.subperm,hholds.longest,holdest,?_⟩
    intro t
    have hcap := hholds.cap
    have hlength := hholds.length
    obtain ⟨h',hadd,hadds⟩ := adds_addTxnTrace hholds.heap (by omega) (by omega) (t,ts.length)
    obtain ⟨keeps,hkeeps,hiff⟩ := isKeeper_iff hadds
    exact ⟨keeps,h',hkeeps,hadd,hiff⟩

/-- The heap is the one asked for after every call exactly when no call throws out a trace while it
keeps a newer one that took as long. -/
theorem selects_iff (c : ℕ) (hc : 1 ≤ c) (ts : List (TxnTrace D)) :
    (∀ pre, pre <+: ts → ∃ h, after c pre = some h ∧ Selects c pre h) ↔
      ∀ pre t, pre ++ [t] <+: ts → ∀ h, after c pre = some h → h.ThrowsOutNewest t := by
  constructor
  · intro hselects pre t hpre h hafter
    obtain ⟨h₀,hafter₀,hholds⟩ := holds_after hc pre
    obtain rfl : h₀ = h := by simpa [hafter] using hafter₀.symm
    have hcap := hholds.cap
    have hlength := hholds.length
    obtain ⟨h',hadd,hadds⟩ := adds_addTxnTrace hholds.heap (by omega) (by omega) (t,pre.length)
    obtain ⟨h₁,hafter₁,hselect⟩ := hselects (pre ++ [t]) hpre
    rw [after_append_singleton,hafter,Option.bind_some,hadd] at hafter₁
    cases hafter₁
    exact OldestKept.throwsOutNewest hholds hadds hselect.oldest
  · intro hthrows pre hpre
    obtain ⟨h,hafter,hholds⟩ := holds_after hc pre
    refine ⟨h,hafter,(hholds.selects_iff_oldestKept hc).mpr ?_⟩
    clear hholds
    induction pre using List.reverseRecOn generalizing h with
    | nil =>
      intro x hx
      simp [seen] at hx
    | append_singleton pre t ih =>
      have hpre' : pre <+: ts := (List.prefix_append pre [t]).trans hpre
      obtain ⟨h₀,hafter₀,hholds⟩ := holds_after hc pre
      have hcap := hholds.cap
      have hlength := hholds.length
      obtain ⟨h',hadd,hadds⟩ := adds_addTxnTrace hholds.heap (by omega) (by omega) (t,pre.length)
      rw [after_append_singleton,hafter₀,Option.bind_some,hadd] at hafter
      cases hafter
      exact OldestKept.adds hholds (ih hpre' h₀ hafter₀) hadds (hthrows pre t hpre h₀ hafter₀)

end Order

/-- A trace of a duration, from an ordinary transaction. -/
def lasting (millis : ℕ) : TxnTrace ℕ := ⟨millis,false,[]⟩

theorem selects_iff_two : 1 ≤ 2 ∧
    ((∀ pre, pre <+: [lasting 5,lasting 7,lasting 9] →
      ∃ h, after 2 pre = some h ∧ Selects 2 pre h) ↔
      ∀ pre t, pre ++ [t] <+: [lasting 5,lasting 7,lasting 9] →
        ∀ h, after 2 pre = some h → h.ThrowsOutNewest t) :=
  ⟨by decide,selects_iff 2 (by decide) _⟩

/-- The second of two traces that took equally long replaces the first. -/
theorem equal_replaces : after 1 [lasting 5,lasting 5] = some ⟨[(lasting 5,1)],1⟩ ∧
    ¬ ∀ (c : ℕ) (ts : List (TxnTrace ℕ)), 1 ≤ c → ∃ h, after c ts = some h ∧ Selects c ts h := by
  have hafter : after 1 [lasting 5,lasting 5] = some ⟨[(lasting 5,1)],1⟩ := by decide
  refine ⟨hafter,?_⟩
  intro hall
  obtain ⟨h,hsome,hselects⟩ := hall 1 [lasting 5,lasting 5] (by decide)
  rw [hafter] at hsome
  cases hsome
  have hlt := hselects.oldest (lasting 5,0) (by decide) (by decide) (lasting 5,1) (by decide) rfl
  exact absurd hlt (by decide)

end TxnTraceHeap

namespace Limits

def maxRegularTraces : ℕ := 1
def maxForcePersistTraces : ℕ := 10
def maxSyntheticsTraces : ℕ := 20

end Limits

/-- `TxnTraces`. -/
structure TxnTraces (D : Type) where
  regular : TxnTraceHeap D
  forcePersisted : TxnTraceHeap D
  synthetics : TxnTraceHeap D

namespace TxnTraces
variable {D : Type}

/-- `NewTxnTraces`. -/
def new : TxnTraces D where
  regular := .new Limits.maxRegularTraces
  forcePersisted := .new Limits.maxForcePersistTraces
  synthetics := .new Limits.maxSyntheticsTraces

def isSynthetics (t : TxnTracePtr D) : Bool := t.1.syntheticsResourceID ≠ []
def isForcePersisted (t : TxnTracePtr D) : Bool := !isSynthetics t && t.1.forcePersist
def isRegular (t : TxnTracePtr D) : Bool := !isSynthetics t && !t.1.forcePersist

variable [LT D] [DecidableLT D]

/-- `IsKeeper`. -/
def isKeeper [LE D] [DecidableLE D] (traces : TxnTraces D) (tt : TxnTrace D) : Option Bool :=
  if tt.syntheticsResourceID ≠ [] then traces.synthetics.isKeeper tt
  else if tt.forcePersist then traces.forcePersisted.isKeeper tt
  else traces.regular.isKeeper tt

/-- `AddTxnTrace`. -/
def addTxnTrace (traces : TxnTraces D) (t : TxnTracePtr D) : Option (TxnTraces D) :=
  if t.1.syntheticsResourceID ≠ [] then
    (traces.synthetics.addTxnTrace t).map fun h => { traces with synthetics := h }
  else if t.1.forcePersist then
    (traces.forcePersisted.addTxnTrace t).map fun h => { traces with forcePersisted := h }
  else (traces.regular.addTxnTrace t).map fun h => { traces with regular := h }

/-- Each heap is given the traces of its kind, in their order. -/
theorem foldlM_addTxnTrace {traces traces' : TxnTraces D} {ts : List (TxnTracePtr D)}
    (h : ts.foldlM addTxnTrace traces = some traces') :
    traces.regular.addAll (ts.filter isRegular) = some traces'.regular ∧
      traces.forcePersisted.addAll (ts.filter isForcePersisted) = some traces'.forcePersisted ∧
      traces.synthetics.addAll (ts.filter isSynthetics) = some traces'.synthetics := by
  induction ts generalizing traces with
  | nil =>
    cases h
    exact ⟨rfl,rfl,rfl⟩
  | cons t ts ih =>
    rw [List.foldlM_cons] at h
    obtain ⟨next,hadd,hrest⟩ := Option.bind_eq_some_iff.mp h
    obtain ⟨hregular,hforced,hsynthetics⟩ := ih hrest
    unfold addTxnTrace at hadd
    unfold TxnTraceHeap.addAll at hregular hforced hsynthetics ⊢
    split_ifs at hadd with hs hf
    · obtain ⟨heap,hheap,rfl⟩ := Option.map_eq_some_iff.mp hadd
      simp [isRegular,isForcePersisted,isSynthetics,hs,hheap] at hregular hforced hsynthetics ⊢
      exact ⟨hregular,hforced,hsynthetics⟩
    · obtain ⟨heap,hheap,rfl⟩ := Option.map_eq_some_iff.mp hadd
      simp [isRegular,isForcePersisted,isSynthetics,hs,hf,hheap] at hregular hforced hsynthetics ⊢
      exact ⟨hregular,hforced,hsynthetics⟩
    · obtain ⟨heap,hheap,rfl⟩ := Option.map_eq_some_iff.mp hadd
      simp [isRegular,isForcePersisted,isSynthetics,hs,hf,hheap] at hregular hforced hsynthetics ⊢
      exact ⟨hregular,hforced,hsynthetics⟩

end TxnTraces
end PhpAgent

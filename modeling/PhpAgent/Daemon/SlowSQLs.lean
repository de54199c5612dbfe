import PhpAgent.Agent.Slowsqls

/-! The daemon's slow SQL statements, after `slow_sqls.go`. -/
namespace PhpAgent

/-- `SlowSQL`. The parameters are JSON text. -/
structure SlowSQL where
  id : UInt32
  count : Int32
  totalMicros : UInt64
  minMicros : UInt64
  maxMicros : UInt64
  metricName : Bytes
  query : Bytes
  txnName : Bytes
  txnURL : Bytes
  params : Bytes

namespace SlowSQL

/-- What a daemon stores of one call: its duration and what is known about it. -/
structure Metadata where
  metricName : Bytes
  query : Bytes
  txnName : Bytes
  txnURL : Bytes
  params : Bytes

def metadata (slow : SlowSQL) : Metadata :=
  ⟨slow.metricName,slow.query,slow.txnName,slow.txnURL,slow.params⟩

/-- A statement that was observed once. -/
def single (id : UInt32) (duration : UInt64) (m : Metadata) : SlowSQL where
  id := id
  count := 1
  totalMicros := duration
  minMicros := duration
  maxMicros := duration
  metricName := m.metricName
  query := m.query
  txnName := m.txnName
  txnURL := m.txnURL
  params := m.params

def merge (slow other : SlowSQL) : SlowSQL :=
  let slow := { slow with
    count := slow.count+other.count
    totalMicros := slow.totalMicros+other.totalMicros
    minMicros := if other.minMicros < slow.minMicros then other.minMicros else slow.minMicros }
  if slow.maxMicros < other.maxMicros then
    { slow with
      maxMicros := other.maxMicros
      query := other.query
      metricName := other.metricName
      params := other.params
      txnName := other.txnName
      txnURL := other.txnURL }
  else slow

/-- Statements by their ids, the slowest first. A statement carries the metadata of its slowest
observation. -/
def ranking : TopK.Ranking SlowSQL UInt32 ℕ Metadata where
  id := id
  key slow := slow.maxMicros.toNat
  label := metadata
  merge := merge
  id_merge := by
    intro slow other
    by_cases h : slow.maxMicros < other.maxMicros <;> simp [merge,h]
  key_merge := by
    intro slow other
    by_cases h : slow.maxMicros < other.maxMicros
    · simpa [merge,h] using (UInt64.lt_iff_toNat_lt.mp h).le
    · simpa [merge,h] using UInt64.le_iff_toNat_le.mp (UInt64.not_lt.mp h)
  label_merge := by
    intro slow other
    by_cases h : slow.maxMicros < other.maxMicros
    · simp [merge,metadata,h,UInt64.lt_iff_toNat_lt.mp h]
    · simp [merge,metadata,h,mt UInt64.lt_iff_toNat_lt.mpr h]

lemma minMicros_le_merge {slow other : SlowSQL} (hslow : slow.minMicros ≤ slow.maxMicros)
    (hother : other.minMicros ≤ other.maxMicros) :
    (slow.merge other).minMicros ≤ (slow.merge other).maxMicros := by
  have hmin : (slow.merge other).minMicros ≤ slow.minMicros ∧
      (slow.merge other).minMicros ≤ other.minMicros := by
    have hif : (slow.merge other).minMicros =
        if other.minMicros < slow.minMicros then other.minMicros else slow.minMicros := by
      by_cases h : slow.maxMicros < other.maxMicros <;> simp [merge,h]
    rw [hif]
    split_ifs with h
    · exact ⟨UInt64.le_of_lt h,UInt64.le_refl _⟩
    · exact ⟨UInt64.le_refl _,UInt64.not_lt.mp h⟩
  by_cases h : slow.maxMicros < other.maxMicros
  · have hmax : (slow.merge other).maxMicros = other.maxMicros := by simp [merge,h]
    rw [hmax]
    exact UInt64.le_trans hmin.2 hother
  · have hmax : (slow.merge other).maxMicros = slow.maxMicros := by simp [merge,h]
    rw [hmax]
    exact UInt64.le_trans hmin.1 hslow

end SlowSQL

/-- `SlowSQLs`: a slice whose capacity is the limit. -/
structure SlowSQLs where
  capacity : ℕ
  slowSQLs : List SlowSQL

namespace SlowSQLs

/-- `NewSlowSQLs`. -/
def new (max : ℕ) : SlowSQLs := ⟨max,[]⟩

/-- The position of the SQL statement with the least maximum observed duration. -/
def fastest (slows : SlowSQLs) : Option ℕ :=
  TopK.smallest (fun s => s.maxMicros.toNat) slows.slowSQLs

/-- The position of the SQL statement with an id. -/
def find (slows : SlowSQLs) (id : UInt32) : Option ℕ :=
  slows.slowSQLs.findIdx? fun slow => slow.id = id

/-- `Observe`. -/
def observe (slows : SlowSQLs) (slow : SlowSQL) : SlowSQLs :=
  match slows.find slow.id with
  | some i => { slows with slowSQLs := slows.slowSQLs.modify i fun s => s.merge slow }
  | none =>
    if slows.slowSQLs.length = slows.capacity then
      match slows.fastest with
      | none => slows
      | some minIdx =>
        match slows.slowSQLs[minIdx]? with
        | none => slows
        | some s =>
          if s.maxMicros < slow.maxMicros then
            { slows with slowSQLs := slows.slowSQLs.set minIdx slow }
          else slows
    else { slows with slowSQLs := slows.slowSQLs ++ [slow] }

/-! ### Runs -/

/-- Only a statement slower than the fastest one that is kept replaces it. -/
def replaces (new old : ℕ) : Bool := old < new

lemma isRule_replaces : TopK.IsRule replaces := by
  intro new old
  unfold replaces
  split_ifs with h
  · have hlt : old < new := by simpa using h
    exact hlt.le
  · simpa using h

lemma observe_eq {slows : SlowSQLs} (h : slows.slowSQLs.length ≤ slows.capacity)
    (slow : SlowSQL) : slows.observe slow = ⟨slows.capacity,
      TopK.observe SlowSQL.ranking replaces slows.capacity slows.slowSQLs slow⟩ := by
  unfold observe TopK.observe
  change (match slows.slowSQLs.findIdx? fun e => SlowSQL.ranking.id e = SlowSQL.ranking.id slow with
    | some i => _ | none => _) = _
  cases slows.slowSQLs.findIdx? fun e => SlowSQL.ranking.id e = SlowSQL.ranking.id slow with
  | some i => rfl
  | none =>
    dsimp only
    by_cases hfull : slows.slowSQLs.length = slows.capacity
    · have hroom : ¬slows.slowSQLs.length < slows.capacity := by omega
      rw [if_pos hfull,if_neg hroom]
      change (match TopK.smallest SlowSQL.ranking.key slows.slowSQLs with
        | none => slows | some i => _) = _
      cases TopK.smallest SlowSQL.ranking.key slows.slowSQLs with
      | none => rfl
      | some i =>
        dsimp only
        cases slows.slowSQLs[i]? with
        | none => rfl
        | some s =>
          have hiff : s.maxMicros < slow.maxMicros ↔
              SlowSQL.ranking.key s < SlowSQL.ranking.key slow := UInt64.lt_iff_toNat_lt
          dsimp only
          by_cases hlt : s.maxMicros < slow.maxMicros
          · simp [replaces,hlt,hiff.mp hlt]
          · simp [replaces,hlt,hiff.not.mp hlt]
    · have hroom : slows.slowSQLs.length < slows.capacity := by omega
      rw [if_neg hfull,if_pos hroom]

lemma foldl_observe_eq {slows : SlowSQLs} (h : slows.slowSQLs.length ≤ slows.capacity)
    (observed : List SlowSQL) : observed.foldl observe slows = ⟨slows.capacity,
      observed.foldl (TopK.observe SlowSQL.ranking replaces slows.capacity) slows.slowSQLs⟩ := by
  induction observed generalizing slows with
  | nil => rfl
  | cons slow observed ih =>
    rw [List.foldl_cons,List.foldl_cons,observe_eq h]
    exact ih (TopK.length_observe_le isRule_replaces h slow)

/-- What a sequence of observations leaves, also of statements that were observed several times. -/
theorem tops_foldl_observe (max : ℕ) (observed : List SlowSQL)
    (hobserved : ∀ slow ∈ observed, slow.minMicros ≤ slow.maxMicros) :
    TopK.Tops SlowSQL.ranking max observed (observed.foldl observe (new max)).slowSQLs ∧
      ∀ slow ∈ (observed.foldl observe (new max)).slowSQLs, slow.minMicros ≤ slow.maxMicros := by
  have hlength : (new max).slowSQLs.length ≤ (new max).capacity := Nat.zero_le _
  rw [foldl_observe_eq hlength]
  refine ⟨TopK.tops_foldl isRule_replaces _ _,?_⟩
  refine TopK.forall_foldl (r := SlowSQL.ranking) (P := fun slow => slow.minMicros ≤ slow.maxMicros)
    isRule_replaces ?_ _ _ hobserved
  intro slow other hslow hother
  exact SlowSQL.minMicros_le_merge hslow hother

/-- Both sides keep the `k` slowest statements, each with its greatest duration and what is known of
a call that took so long. -/
theorem slowest_kept (k : ℕ) (hk : 1 ≤ k) (nrSqlId : Bytes → UInt32)
    (params : List NrSlowsqlsParams) (observed : List (UInt32 × UInt64 × SlowSQL.Metadata)) :
    (∃ s, NrSlowsqls.create k = some s ∧
      TopK.Tops NrSlowsql.ranking k (params.filterMap (NrSlowsqls.observation nrSqlId))
        (params.foldl (NrSlowsqls.add nrSqlId) s).slowsqls ∧
      ∀ slow ∈ (params.foldl (NrSlowsqls.add nrSqlId) s).slowsqls,
        slow.minTime ≤ slow.maxTime) ∧
    (TopK.Tops SlowSQL.ranking k (observed.map fun o => SlowSQL.single o.1 o.2.1 o.2.2)
        ((observed.map fun o => SlowSQL.single o.1 o.2.1 o.2.2).foldl observe (new k)).slowSQLs ∧
      ∀ slow ∈ ((observed.map fun o => SlowSQL.single o.1 o.2.1 o.2.2).foldl observe
        (new k)).slowSQLs, slow.minMicros ≤ slow.maxMicros) := by
  constructor
  · have hcreate : NrSlowsqls.create k = some ⟨k,[]⟩ := by
      rw [NrSlowsqls.create,if_neg (by omega)]
      rfl
    have hrun := NrSlowsqls.tops_foldl_add nrSqlId hcreate params
    rw [Int.toNat_natCast] at hrun
    exact ⟨_,hcreate,hrun⟩
  · apply tops_foldl_observe
    intro slow hslow
    obtain ⟨o,-,rfl⟩ := List.mem_map.mp hslow
    exact UInt64.le_refl _

/-- A statement that is thrown out and comes back slower, with room for one. -/
theorem slowest_kept_one : 1 ≤ 1 ∧ TopK.Tops SlowSQL.ranking 1
    ([(1,5,⟨[],[],[],[],[]⟩),(2,9,⟨[],[],[],[],[]⟩),(1,12,⟨[],[],[],[],[]⟩)].map fun o =>
      SlowSQL.single o.1 o.2.1 o.2.2)
    (([(1,5,⟨[],[],[],[],[]⟩),(2,9,⟨[],[],[],[],[]⟩),(1,12,⟨[],[],[],[],[]⟩)].map fun o =>
      SlowSQL.single o.1 o.2.1 o.2.2).foldl observe (new 1)).slowSQLs :=
  ⟨le_rfl,(slowest_kept 1 le_rfl (fun _ => 7) [] _).2.1⟩

end SlowSQLs
end PhpAgent

import PhpAgent.Lib.TopK
import PhpAgent.Util.Json

/-! The agent's slow SQL statements, after `nr_slowsqls.c`. The id of a statement is computed by a
function that is a parameter here. -/
namespace PhpAgent

/-- `nr_slowsql_t`. -/
structure NrSlowsql where
  metricName : Bytes
  sqlId : UInt32
  count : ℤ
  total : UInt64
  minTime : UInt64
  maxTime : UInt64
  paramsJson : Bytes
  sql : Bytes

/-- `nr_slowsqls_t`. -/
structure NrSlowsqls where
  maxSlowsqls : ℕ
  slowsqls : List NrSlowsql

/-- `nr_datastore_instance_t`. -/
structure NrDatastoreInstance where
  host : Option Bytes
  portPathOrId : Option Bytes
  databaseName : Option Bytes

/-- `nr_slowsqls_params_t`. -/
structure NrSlowsqlsParams where
  sql : Option Bytes
  duration : UInt64
  stacktraceJson : Option Bytes
  metricName : Option Bytes
  planJson : Option Bytes
  inputQueryJson : Option Bytes
  datastore : Option NrDatastoreInstance
  instanceReportingEnabled : Bool
  databaseNameReportingEnabled : Bool

namespace NrSlowsql

/-- `nr_slowsql_merge`. -/
def merge (dest src : NrSlowsql) : NrSlowsql :=
  let dest := { dest with
    count := dest.count+src.count
    total := dest.total+src.total
    minTime := if src.minTime < dest.minTime then src.minTime else dest.minTime }
  if dest.maxTime < src.maxTime then
    { dest with
      maxTime := src.maxTime
      metricName := src.metricName
      sql := src.sql
      paramsJson := src.paramsJson }
  else dest

/-- Statements by their ids, the slowest first. A statement carries the texts of its slowest call. -/
def ranking : TopK.Ranking NrSlowsql UInt32 ℕ (Bytes × Bytes × Bytes) where
  id := sqlId
  key slow := slow.maxTime.toNat
  label slow := (slow.metricName,slow.sql,slow.paramsJson)
  merge := merge
  id_merge := by
    intro dest src
    by_cases h : dest.maxTime < src.maxTime <;> simp [merge,h]
  key_merge := by
    intro dest src
    by_cases h : dest.maxTime < src.maxTime
    · simpa [merge,h] using (UInt64.lt_iff_toNat_lt.mp h).le
    · simpa [merge,h] using UInt64.le_iff_toNat_le.mp (UInt64.not_lt.mp h)
  label_merge := by
    intro dest src
    by_cases h : dest.maxTime < src.maxTime
    · simp [merge,h,UInt64.lt_iff_toNat_lt.mp h]
    · simp [merge,h,mt UInt64.lt_iff_toNat_lt.mpr h]

lemma minTime_le_merge {dest src : NrSlowsql} (hdest : dest.minTime ≤ dest.maxTime)
    (hsrc : src.minTime ≤ src.maxTime) : (dest.merge src).minTime ≤ (dest.merge src).maxTime := by
  have hmin : (dest.merge src).minTime ≤ dest.minTime ∧ (dest.merge src).minTime ≤ src.minTime := by
    have hif : (dest.merge src).minTime =
        if src.minTime < dest.minTime then src.minTime else dest.minTime := by
      by_cases h : dest.maxTime < src.maxTime <;> simp [merge,h]
    rw [hif]
    split_ifs with h
    · exact ⟨UInt64.le_of_lt h,UInt64.le_refl _⟩
    · exact ⟨UInt64.le_refl _,UInt64.not_lt.mp h⟩
  by_cases h : dest.maxTime < src.maxTime
  · have hmax : (dest.merge src).maxTime = src.maxTime := by simp [merge,h]
    rw [hmax]
    exact UInt64.le_trans hmin.2 hsrc
  · have hmax : (dest.merge src).maxTime = dest.maxTime := by simp [merge,h]
    rw [hmax]
    exact UInt64.le_trans hmin.1 hdest

end NrSlowsql

namespace NrSlowsqls

/-- `nr_slowsqls_create`. -/
def create (maxSlowsqls : ℤ) : Option NrSlowsqls :=
  if maxSlowsqls ≤ 0 then none else some ⟨maxSlowsqls.toNat,[]⟩

/-- `nr_slowsqls_add_internal`. -/
def addInternal (s : NrSlowsqls) (slow : NrSlowsql) : NrSlowsqls :=
  match s.slowsqls.findIdx? fun e => slow.sqlId = e.sqlId with
  | some i => { s with slowsqls := s.slowsqls.modify i fun e => e.merge slow }
  | none =>
    if s.slowsqls.length < s.maxSlowsqls then { s with slowsqls := s.slowsqls ++ [slow] }
    else
      -- with room for at least one statement there is a smallest one
      match TopK.smallest (fun e => e.maxTime.toNat) s.slowsqls with
      | none => s
      | some i =>
        match s.slowsqls[i]? with
        | none => s
        | some smallest =>
          if slow.maxTime < smallest.maxTime then s
          else { s with slowsqls := s.slowsqls.set i slow }

/-- `nro_set_hash_jstring`, of a text that is not NULL. -/
def setJstring (h : NrHash) (key : String) (value : Option Bytes) : NrHash :=
  match value with
  | none => h
  | some s => h.set (ascii key) (.jstring s)

/-- `nro_set_hash_string`: a NULL text is set as an empty one. -/
def setString (h : NrHash) (key : String) (value : Option Bytes) : NrHash :=
  h.set (ascii key) (.string (value.getD []))

/-- `nr_slowsqls_create_params_json`. -/
def createParamsJson (params : NrSlowsqlsParams) : Bytes :=
  let obj := setJstring [] "explain_plan" (params.planJson.filter fun plan => plan ≠ [])
  let obj := setJstring obj "backtrace" params.stacktraceJson
  let obj := setJstring obj "input_query" params.inputQueryJson
  let obj :=
    match params.datastore with
    | none => obj
    | some ds =>
      let obj :=
        if params.instanceReportingEnabled then
          setString (setString obj "host" ds.host) "port_path_or_id" ds.portPathOrId
        else obj
      if params.databaseNameReportingEnabled then
        setString obj "database_name" ds.databaseName
      else obj
  (NrObj.hash obj).toJson

section Id
variable (nrSqlId : Bytes → UInt32)

/-- The slow SQL that `nr_slowsqls_add` forms. There is none without a statement, a stack trace, a
metric name, a duration or an id. -/
def observation (params : NrSlowsqlsParams) : Option NrSlowsql :=
  match params.sql, params.stacktraceJson, params.metricName with
  | some sql, some _, some metricName =>
    if params.duration = 0 ∨ nrSqlId sql = 0 then none
    else
      some
        { metricName := metricName
          sqlId := nrSqlId sql
          count := 1
          total := params.duration
          minTime := params.duration
          maxTime := params.duration
          paramsJson := createParamsJson params
          sql := sql }
  | _, _, _ => none

/-- `nr_slowsqls_add`. -/
def add (s : NrSlowsqls) (params : NrSlowsqlsParams) : NrSlowsqls :=
  match observation nrSqlId params with
  | none => s
  | some slow => s.addInternal slow

/-! ### Runs -/

/-- A statement as slow as the fastest one that is kept replaces it. -/
def replaces (new old : ℕ) : Bool := ¬new < old

lemma isRule_replaces : TopK.IsRule replaces := by
  intro new old
  unfold replaces
  split_ifs with h
  · simpa using h
  · have hlt : new < old := by simpa using h
    exact hlt.le

lemma addInternal_eq (s : NrSlowsqls) (slow : NrSlowsql) : s.addInternal slow =
    { s with slowsqls :=
        TopK.observe NrSlowsql.ranking replaces s.maxSlowsqls s.slowsqls slow } := by
  have hfind : (s.slowsqls.findIdx? fun e => slow.sqlId = e.sqlId) =
      s.slowsqls.findIdx? fun e => NrSlowsql.ranking.id e = NrSlowsql.ranking.id slow := by
    congr 1
    funext e
    simp only [eq_comm]
    rfl
  unfold addInternal TopK.observe
  rw [hfind]
  cases s.slowsqls.findIdx? fun e => NrSlowsql.ranking.id e = NrSlowsql.ranking.id slow with
  | some i => rfl
  | none =>
    dsimp only
    split_ifs with hroom
    · rfl
    · change (match TopK.smallest NrSlowsql.ranking.key s.slowsqls with | none => s | some i => _) = _
      cases TopK.smallest NrSlowsql.ranking.key s.slowsqls with
      | none => rfl
      | some i =>
        dsimp only
        cases s.slowsqls[i]? with
        | none => rfl
        | some smallest =>
          have hiff : slow.maxTime < smallest.maxTime ↔
              NrSlowsql.ranking.key slow < NrSlowsql.ranking.key smallest := UInt64.lt_iff_toNat_lt
          dsimp only
          by_cases hlt : slow.maxTime < smallest.maxTime
          · simp [replaces,hlt,hiff.mp hlt]
          · simp [replaces,hlt,hiff.not.mp hlt]

/-- Adding is observing what is formed of the parameters. -/
theorem foldl_add_eq (s : NrSlowsqls) (params : List NrSlowsqlsParams) :
    params.foldl (add nrSqlId) s = ⟨s.maxSlowsqls,(params.filterMap (observation nrSqlId)).foldl
      (TopK.observe NrSlowsql.ranking replaces s.maxSlowsqls) s.slowsqls⟩ := by
  induction params generalizing s with
  | nil => rfl
  | cons p params ih =>
    rw [List.foldl_cons,ih,add]
    cases hobs : observation nrSqlId p with
    | none => rw [List.filterMap_cons_none hobs]
    | some slow =>
      rw [List.filterMap_cons_some hobs,List.foldl_cons]
      simp only [addInternal_eq]

lemma minTime_le_observation {params : NrSlowsqlsParams} {slow : NrSlowsql}
    (h : observation nrSqlId params = some slow) : slow.minTime ≤ slow.maxTime := by
  unfold observation at h
  split at h
  · split_ifs at h
    cases h
    exact UInt64.le_refl _
  · contradiction

/-- What a sequence of calls keeps of the statements that it observed. -/
theorem tops_foldl_add {maxSlowsqls : ℤ} {s : NrSlowsqls} (hs : create maxSlowsqls = some s)
    (params : List NrSlowsqlsParams) :
    TopK.Tops NrSlowsql.ranking maxSlowsqls.toNat (params.filterMap (observation nrSqlId))
        (params.foldl (add nrSqlId) s).slowsqls ∧
      ∀ slow ∈ (params.foldl (add nrSqlId) s).slowsqls, slow.minTime ≤ slow.maxTime := by
  unfold create at hs
  split_ifs at hs with hpos
  cases hs
  rw [foldl_add_eq]
  refine ⟨TopK.tops_foldl isRule_replaces _ _,?_⟩
  refine TopK.forall_foldl (r := NrSlowsql.ranking) (P := fun slow => slow.minTime ≤ slow.maxTime)
    isRule_replaces ?_ _ _ ?_
  · intro dest src hdest hsrc
    exact NrSlowsql.minTime_le_merge hdest hsrc
  · intro slow hslow
    obtain ⟨p,-,hp⟩ := List.mem_filterMap.mp hslow
    exact minTime_le_observation nrSqlId hp

end Id
end NrSlowsqls
end PhpAgent

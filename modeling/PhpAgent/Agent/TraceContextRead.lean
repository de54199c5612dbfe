import PhpAgent.Agent.TraceContext

/-! What the readers of the trace context headers make of well-formed headers. -/
namespace PhpAgent

open Json (code decimal digitsValue)

/-! ### Splitting -/

lemma strip_eq_self {b : Bytes} (hb : ∀ c ∈ b, isspace c = false) : strip b = b := by
  have hdrop : ∀ l : Bytes, (∀ c ∈ l, isspace c = false) → l.dropWhile isspace = l := by
    intro l hl
    cases l with
    | nil => rfl
    | cons c l => rw [List.dropWhile_cons_of_neg (by simp [hl c List.mem_cons_self])]
  unfold strip
  rw [hdrop b hb,hdrop b.reverse fun c hc => hb c (List.mem_reverse.mp hc),List.reverse_reverse]

/-- A piece that splitting gives back: not empty, without blanks and without the delimiter. -/
structure Piece (delim : UInt8) (b : Bytes) : Prop where
  ne_nil : b ≠ []
  noSpace : ∀ c ∈ b, isspace c = false
  noDelim : delim ∉ b

lemma strsplit_intercalate {delim : UInt8} {b : Bytes} {bs : List Bytes}
    (h : ∀ x ∈ b :: bs, Piece delim x) : strsplit ([delim].intercalate (b :: bs)) delim = b :: bs := by
  have hne : [delim].intercalate (b :: bs) ≠ [] := by
    cases bs with
    | nil => simpa using (h b List.mem_cons_self).ne_nil
    | cons b' bs => simp [List.intercalate_cons_cons]
  have hstrip : (b :: bs).map strip = b :: bs := by
    conv_rhs => rw [← List.map_id (b :: bs)]
    exact List.map_congr_left fun x hx => strip_eq_self (h x hx).noSpace
  unfold strsplit
  rw [if_neg hne,List.splitOn_intercalate delim (fun x hx => (h x hx).noDelim) (List.cons_ne_nil b bs),
    hstrip,List.filter_eq_self]
  intro x hx
  simpa using (h x hx).ne_nil

/-- The first piece, when what follows the delimiter can be anything. -/
theorem head?_strsplit {delim : UInt8} {key value : Bytes} (h : Piece delim key) :
    (strsplit (key ++ delim :: value) delim).head? = some key := by
  unfold strsplit
  rw [if_neg (by simp),List.splitOn_append_cons_self,List.splitOn_eq_singleton h.noDelim]
  simp [strip_eq_self h.noSpace,h.ne_nil]

lemma foldl_strAppend (dest : Bytes) (bs : List Bytes) :
    (bs.map some).foldl strAppend (some dest) = some ([code ','].intercalate (dest :: bs)) := by
  induction bs generalizing dest with
  | nil => simp
  | cons b bs ih =>
    rw [List.map_cons,List.foldl_cons,strAppend,ih]
    cases bs with
    | nil => simp [List.intercalate_cons_cons]
    | cons b' bs => simp [List.intercalate_cons_cons]

/-! ### Regular expressions -/

lemma isDigit_dash : Json.isDigit (code '-') = false := by decide
lemma isalnum_dash : isalnum (code '-') = false := by decide
lemma isNumeric_dash : isNumeric (code '-') = false := by decide

section Run
variable {β : Type} {rest : Bytes → Option β} {items : List (Pattern.Item UInt8)}
  {p : UInt8 → Bool} {v s : Bytes} {r : List Bytes × β}

/-- A field of one class and the dash after it. -/
theorem run_field_dash (least : ℕ) (hdash : p (code '-') = false) (hv : ∀ c ∈ v, p c)
    (hleast : least ≤ v.length) (hrun : Pattern.run rest items s = some r) :
    Pattern.run rest (.field p least none :: dash :: items) (v ++ code '-' :: s) =
      some (v :: r.1,r.2) := by
  apply Pattern.run_field hv hleast
  · intro c hc
    cases hc
    exact hdash
  · exact (Pattern.run_text [code '-'] s).trans hrun

/-- There is no match when there is none behind the dash. -/
theorem run_field_dash_none (least : ℕ) (hdash : p (code '-') = false) (hv : ∀ c ∈ v, p c)
    (hrun : Pattern.run rest items s = none) :
    Pattern.run rest (.field p least none :: dash :: items) (v ++ code '-' :: s) = none := by
  apply Pattern.run_field_text_none hdash hv
  · intro c hc
    cases hc
    exact hdash
  · intro s' hs'
    cases hs'
    exact hrun

lemma run_exact_dash {n : ℕ} (hv : ∀ c ∈ v, p c) (hn : v.length = n)
    (hrun : Pattern.run rest items s = some r) :
    Pattern.run rest (.field p n (some n) :: dash :: items) (v ++ code '-' :: s) =
      some (v :: r.1,r.2) := by
  apply Pattern.run_field_exact hv hn
  exact (Pattern.run_text [code '-'] s).trans hrun

end Run

open NrDistributedTrace (dashed)

lemma pcre_traceparent {version traceId parentId flags : Bytes}
    (hversion : ∀ c ∈ version, isLowerHex c) (hversion2 : version.length = 2)
    (htrace : ∀ c ∈ traceId, isLowerHex c) (htrace32 : traceId.length = 32)
    (hparent : ∀ c ∈ parentId, isLowerHex c) (hparent16 : parentId.length = 16)
    (hflags : ∀ c ∈ flags, isLowerHex c) (hflags2 : flags.length = 2) :
    pcre.traceparent (dashed [version,traceId,parentId,flags]) =
      some ([version,traceId,parentId,flags],none) := by
  have hend : Pattern.run additional [.field isLowerHex 2 (some 2)] (flags ++ []) =
      some ([flags],none) :=
    Pattern.run_field_exact (r := ([],none)) hflags hflags2 rfl
  rw [List.append_nil] at hend
  exact run_exact_dash hversion hversion2 (run_exact_dash htrace htrace32
    (run_exact_dash hparent hparent16 hend))

/-- What a New Relic entry needs to be read: the classes of its fields, and that the last field ends
where the digits end. -/
structure EntryFields (version parentType account app span txn sampled priority timestamp : Bytes)
    (left : Bytes) : Prop where
  version : (∀ c ∈ version, Json.isDigit c) ∧ version ≠ []
  parentType : (∀ c ∈ parentType, Json.isDigit c) ∧ parentType ≠ []
  account : (∀ c ∈ account, isalnum c) ∧ account ≠ []
  app : (∀ c ∈ app, isalnum c) ∧ app ≠ []
  span : ∀ c ∈ span, isalnum c
  txn : ∀ c ∈ txn, isalnum c
  sampled : ∀ c ∈ sampled, Json.isDigit c
  priority : ∀ c ∈ priority, isNumeric c
  timestamp : (∀ c ∈ timestamp, Json.isDigit c) ∧ timestamp ≠ []
  left : ∀ c ∈ left.head?, Json.isDigit c = false

lemma pcre_tracestate {version parentType account app span txn sampled priority timestamp : Bytes}
    {left : Bytes}
    (h : EntryFields version parentType account app span txn sampled priority timestamp left)
    (headerKey : Bytes) :
    pcre.tracestate headerKey (headerKey ++ (dashed [version,parentType,account,app,span,txn,sampled,
        priority,timestamp] ++ left)) =
      some [version,parentType,account,app,span,txn,sampled,priority,timestamp] := by
  have hend : Pattern.run (fun _ => some ()) [.field Json.isDigit 1 none] (timestamp ++ left) =
      some ([timestamp],()) :=
    Pattern.run_field (r := ([],())) h.timestamp.1 (List.length_pos_iff.mpr h.timestamp.2) h.left rfl
  have hfields := run_field_dash 1 isDigit_dash h.version.1
    (List.length_pos_iff.mpr h.version.2) <|
    run_field_dash 1 isDigit_dash h.parentType.1
      (List.length_pos_iff.mpr h.parentType.2) <|
    run_field_dash 1 isalnum_dash h.account.1 (List.length_pos_iff.mpr h.account.2) <|
    run_field_dash 1 isalnum_dash h.app.1 (List.length_pos_iff.mpr h.app.2) <|
    run_field_dash 0 isalnum_dash h.span (Nat.zero_le _) <|
    run_field_dash 0 isalnum_dash h.txn (Nat.zero_le _) <|
    run_field_dash 0 isDigit_dash h.sampled (Nat.zero_le _) <|
    run_field_dash 0 isNumeric_dash h.priority (Nat.zero_le _) hend
  have htext := (Pattern.run_text headerKey _).trans hfields
  unfold pcre tracestateItems
  simp only [dashed,List.append_assoc,List.cons_append] at htext ⊢
  rw [htext]
  rfl

/-! ### The object of an entry -/

namespace NrDistributedTrace
open NrHash (get?_set_ne get?_set_self)

lemma get?_setNonEmpty_ne {key : Bytes} {key' : String} (hne : key ≠ ascii key') (h : NrHash)
    (value : Bytes) (o : NrObj) : (setNonEmpty h key' value o).get? key = h.get? key := by
  unfold setNonEmpty
  split_ifs
  · rfl
  · exact get?_set_ne hne h o

lemma get?_setNonEmpty_self {key : String} (hkey : ascii key ≠ []) {h : NrHash}
    (hnone : h.get? (ascii key) = none) (value : Bytes) (o : NrObj) :
    (setNonEmpty h key value o).get? (ascii key) = if value = [] then none else some o := by
  unfold setNonEmpty
  split_ifs
  · exact hnone
  · exact get?_set_self hkey h o

lemma get?_setPriority_ne {key : Bytes} (hne : key ≠ ascii "priority") (nearest : ℚ≥0 → Double)
    (h : NrHash) (priority : Bytes) : (setPriority nearest h priority).get? key = h.get? key := by
  unfold setPriority
  simp only
  split_ifs
  · rfl
  · exact get?_set_ne hne h _

/-- What the accepting side finds in the object of an entry. -/
structure EntryRead (parentType account app span txn sampled timestamp : Bytes) (o : NrObj) :
    Prop where
  parentType : o.getHashInt "parent_type" = some (toInt (strtol parentType))
  account : o.getHashString "parent_account_id" = some account
  app : o.getHashString "parent_application_id" = some app
  span : o.getHashString "span_id" = setDtField (some span)
  txn : o.getHashString "transaction_id" = setDtField (some txn)
  sampled : o.getHashInt "sampled" = if sampled = [] then none else some (toInt (strtol sampled))
  timestamp : o.getHashLong "timestamp" = some (strtoull timestamp)

lemma entryObject_read (nearest : ℚ≥0 → Double)
    (version parentType account app span txn sampled priority timestamp : Bytes) :
    ∃ o, entryObject nearest [version,parentType,account,app,span,txn,sampled,priority,timestamp] =
      some o ∧ EntryRead parentType account app span txn sampled timestamp o := by
  refine ⟨_,rfl,?_,?_,?_,?_,?_,?_,?_⟩
  · simp only [NrObj.getHashInt,NrObj.getHashValue]
    rw [get?_set_ne (by decide),get?_setPriority_ne (by decide),
      get?_setNonEmpty_ne (by decide),get?_setNonEmpty_ne (by decide),
      get?_setNonEmpty_ne (by decide),get?_set_ne (by decide),
      get?_set_ne (by decide),get?_set_self (by decide)]
  · simp only [NrObj.getHashString,NrObj.getHashValue]
    rw [get?_set_ne (by decide),get?_setPriority_ne (by decide),
      get?_setNonEmpty_ne (by decide),get?_setNonEmpty_ne (by decide),
      get?_setNonEmpty_ne (by decide),get?_set_ne (by decide),
      get?_set_self (by decide)]
    rfl
  · simp only [NrObj.getHashString,NrObj.getHashValue]
    rw [get?_set_ne (by decide),get?_setPriority_ne (by decide),
      get?_setNonEmpty_ne (by decide),get?_setNonEmpty_ne (by decide),
      get?_setNonEmpty_ne (by decide),get?_set_self (by decide)]
    rfl
  · simp only [NrObj.getHashString,NrObj.getHashValue]
    rw [get?_set_ne (by decide),get?_setPriority_ne (by decide),
      get?_setNonEmpty_ne (by decide),get?_setNonEmpty_ne (by decide),
      get?_setNonEmpty_self (by decide)]
    · by_cases hspan : span = [] <;> simp [setDtField_some,NrObj.getString,hspan]
    · rw [get?_set_ne (by decide),get?_set_ne (by decide),
        get?_set_ne (by decide),get?_set_ne (by decide)]
      rfl
  · simp only [NrObj.getHashString,NrObj.getHashValue]
    rw [get?_set_ne (by decide),get?_setPriority_ne (by decide),
      get?_setNonEmpty_ne (by decide),get?_setNonEmpty_self (by decide)]
    · by_cases htxn : txn = [] <;> simp [setDtField_some,NrObj.getString,htxn]
    · rw [get?_setNonEmpty_ne (by decide),get?_set_ne (by decide),
        get?_set_ne (by decide),get?_set_ne (by decide),
        get?_set_ne (by decide)]
      rfl
  · simp only [NrObj.getHashInt,NrObj.getHashValue]
    rw [get?_set_ne (by decide),get?_setPriority_ne (by decide),
      get?_setNonEmpty_self (by decide)]
    · by_cases hsampled : sampled = [] <;> simp [hsampled]
    · rw [get?_setNonEmpty_ne (by decide),get?_setNonEmpty_ne (by decide),
        get?_set_ne (by decide),get?_set_ne (by decide),
        get?_set_ne (by decide),get?_set_ne (by decide)]
      rfl
  · simp only [NrObj.getHashLong,NrObj.getHashValue]
    rw [get?_set_self (by decide)]
    rfl

end NrDistributedTrace
end PhpAgent

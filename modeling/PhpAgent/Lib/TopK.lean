import Mathlib.Tactic

/-! Keeping the `k` ids with the greatest keys. An id that was thrown out can come back, and what was
known of it is then lost; its greatest key is known all the same. -/
namespace PhpAgent.TopK

/-- Entries with an id, a key and a label, and how two entries of one id become one. The label goes
with the greater key. -/
structure Ranking (ε ι κ μ : Type) [LinearOrder κ] where
  id : ε → ι
  key : ε → κ
  label : ε → μ
  merge : ε → ε → ε
  id_merge : ∀ dest src, id (merge dest src) = id dest
  key_merge : ∀ dest src, key (merge dest src) = max (key dest) (key src)
  label_merge : ∀ dest src,
    label (merge dest src) = if key dest < key src then label src else label dest

variable {ε ι κ μ : Type} [DecidableEq ι] [LinearOrder κ] {r : Ranking ε ι κ μ} {replaces : κ → κ → Bool}

/-- The rest of a scan for the first smallest key, from position `i` on, with the position of the
smallest key so far. -/
def scan (key : ε → κ) : List ε → ℕ → ℕ → κ → ℕ
  | [], _, idx, _ => idx
  | e :: rest, i, idx, smallest =>
    if key e < smallest then scan key rest (i+1) i (key e) else scan key rest (i+1) idx smallest

/-- The position of the first smallest key. -/
def smallest (key : ε → κ) : List ε → Option ℕ
  | [] => none
  | e :: rest => some (scan key rest 1 0 (key e))

/-- Merge an entry with that of its id, add it if there is room, or let it replace the first smallest
one if the rule says so. -/
def observe (r : Ranking ε ι κ μ) (replaces : κ → κ → Bool) (k : ℕ) (kept : List ε) (x : ε) :
    List ε :=
  match kept.findIdx? fun e => r.id e = r.id x with
  | some i => kept.modify i fun e => r.merge e x
  | none =>
    if kept.length < k then kept ++ [x]
    else
      match smallest r.key kept with
      | none => kept
      | some i =>
        match kept[i]? with
        | none => kept
        | some e => if replaces (r.key x) (r.key e) then kept.set i x else kept

/-! ### The smallest key -/

lemma scan_spec (key : ε → κ) (all rest : List ε) (i idx : ℕ) (least : κ)
    (hrest : all.drop i = rest) (hidx : ∃ e, all[idx]? = some e ∧ key e = least)
    (hleast : ∀ e ∈ all.take i, least ≤ key e) :
    ∃ e, all[scan key rest i idx least]? = some e ∧ ∀ e' ∈ all, key e ≤ key e' := by
  induction rest generalizing i idx least with
  | nil =>
    obtain ⟨e,he,rfl⟩ := hidx
    refine ⟨e,he,?_⟩
    intro e' he'
    apply hleast e'
    rwa [List.take_of_length_le (List.drop_eq_nil_iff.mp hrest)]
  | cons x rest ih =>
    have hx : all[i]? = some x := by rw [← List.head?_drop,hrest,List.head?_cons]
    have hdrop : all.drop (i+1) = rest := by rw [← List.tail_drop,hrest,List.tail_cons]
    have htake : all.take (i+1) = all.take i ++ [x] := by
      rw [List.take_add_one,hx]
      rfl
    rw [scan]
    split_ifs with hlt
    · apply ih (i+1) i (key x) hdrop ⟨x,hx,rfl⟩
      intro e he
      rw [htake,List.mem_append,List.mem_singleton] at he
      rcases he with hold | rfl
      · exact hlt.le.trans (hleast e hold)
      · exact le_rfl
    · apply ih (i+1) idx least hdrop hidx
      intro e he
      rw [htake,List.mem_append,List.mem_singleton] at he
      rcases he with hold | rfl
      · exact hleast e hold
      · exact not_lt.mp hlt

lemma smallest_spec (key : ε → κ) {kept : List ε} {i : ℕ} (h : smallest key kept = some i) :
    ∃ e, kept[i]? = some e ∧ ∀ e' ∈ kept, key e ≤ key e' := by
  cases kept with
  | nil => simp [smallest] at h
  | cons e rest =>
    simp only [smallest,Option.some_inj] at h
    subst h
    exact scan_spec key (e :: rest) rest 1 0 (key e) rfl ⟨e,rfl,rfl⟩ (by simp)

/-! ### What an observation changes -/

/-- A rule that replaces only what is not greater, and leaves only what is not smaller. It is free to
do either when the keys are equal. -/
def IsRule (replaces : κ → κ → Bool) : Prop :=
  ∀ new old, if replaces new old then old ≤ new else new ≤ old

lemma split_getElem? {l : List ε} {i : ℕ} {e : ε} (h : l[i]? = some e) :
    l = l.take i ++ e :: l.drop (i+1) := by
  obtain ⟨hi,rfl⟩ := List.getElem?_eq_some_iff.mp h
  simp

/-- The four things an observation can do. -/
theorem observe_cases (hrule : IsRule replaces) (k : ℕ) (kept : List ε) (x : ε) :
    (∃ l₁ e l₂, kept = l₁ ++ e :: l₂ ∧ r.id e = r.id x ∧
      observe r replaces k kept x = l₁ ++ r.merge e x :: l₂) ∨
    (r.id x ∉ kept.map r.id ∧ kept.length < k ∧ observe r replaces k kept x = kept ++ [x]) ∨
    (r.id x ∉ kept.map r.id ∧ ¬kept.length < k ∧ (∀ e ∈ kept, r.key x ≤ r.key e) ∧
      observe r replaces k kept x = kept) ∨
    (r.id x ∉ kept.map r.id ∧ ¬kept.length < k ∧ ∃ l₁ e l₂, kept = l₁ ++ e :: l₂ ∧
      (∀ e' ∈ kept, r.key e ≤ r.key e') ∧ r.key e ≤ r.key x ∧
      observe r replaces k kept x = l₁ ++ x :: l₂) := by
  unfold observe
  cases hfind : kept.findIdx? fun e => r.id e = r.id x with
  | some i =>
    obtain ⟨hi,hid,-⟩ := List.findIdx?_eq_some_iff_getElem.mp hfind
    have he := List.getElem?_eq_getElem hi
    refine .inl ⟨kept.take i,kept[i],kept.drop (i+1),split_getElem? he,by simpa using hid,?_⟩
    exact List.modify_eq_take_cons_drop hi
  | none =>
    have hnew : r.id x ∉ kept.map r.id := by
      intro hmem
      obtain ⟨e,he,hid⟩ := List.mem_map.mp hmem
      simpa [hid] using List.findIdx?_eq_none_iff.mp hfind e he
    refine .inr ?_
    by_cases hroom : kept.length < k
    · exact .inl ⟨hnew,hroom,if_pos hroom⟩
    · refine .inr ?_
      simp only [if_neg hroom]
      cases hsmallest : smallest r.key kept with
      | none =>
        have hnil : kept = [] := by
          cases kept with
          | nil => rfl
          | cons e rest => simp [smallest] at hsmallest
        exact .inl ⟨hnew,hroom,by simp [hnil],rfl⟩
      | some i =>
        obtain ⟨e,he,hleast⟩ := smallest_spec r.key hsmallest
        have hrule' := hrule (r.key x) (r.key e)
        simp only [he]
        split_ifs at hrule' ⊢ with hreplaces
        · obtain ⟨hi,-⟩ := List.getElem?_eq_some_iff.mp he
          refine .inr ⟨hnew,hroom,kept.take i,e,kept.drop (i+1),split_getElem? he,hleast,hrule',?_⟩
          exact List.set_eq_take_cons_drop x hi
        · exact .inl ⟨hnew,hroom,fun e' he' => hrule'.trans (hleast e' he'),rfl⟩

lemma length_observe_le (hrule : IsRule replaces) {k : ℕ} {kept : List ε}
    (h : kept.length ≤ k) (x : ε) : (observe r replaces k kept x).length ≤ k := by
  obtain ⟨l₁,e,l₂,rfl,-,heq⟩ | ⟨-,hroom,heq⟩ | ⟨-,-,-,heq⟩ | ⟨-,-,l₁,e,l₂,rfl,-,-,heq⟩ :=
    observe_cases (r := r) hrule k kept x
  · rw [heq]
    simpa using h
  · rw [heq]
    simpa using hroom
  · rw [heq]
    exact h
  · rw [heq]
    simpa using h

/-! ### Runs -/

/-- What is kept of the observations so far. -/
structure Tops (r : Ranking ε ι κ μ) (k : ℕ) (seen kept : List ε) : Prop where
  length_le : kept.length ≤ k
  nodup : (kept.map r.id).Nodup
  attained : ∀ e ∈ kept, ∃ x ∈ seen, r.id x = r.id e ∧ r.key x = r.key e ∧ r.label x = r.label e
  greatest : ∀ e ∈ kept, ∀ x ∈ seen, r.id x = r.id e → r.key x ≤ r.key e
  above : ∀ x ∈ seen, r.id x ∉ kept.map r.id → ∀ e ∈ kept, r.key x ≤ r.key e
  complete : kept.length < k → ∀ x ∈ seen, r.id x ∈ kept.map r.id

omit [DecidableEq ι] in
lemma tops_nil (r : Ranking ε ι κ μ) (k : ℕ) : Tops r k [] [] := by
  constructor <;> simp

variable {k : ℕ} {seen kept : List ε} {x : ε} {l₁ l₂ : List ε}

omit [DecidableEq ι] in
lemma nodup_middle {e : ε} : ((l₁ ++ e :: l₂).map r.id).Nodup ↔
    r.id e ∉ (l₁ ++ l₂).map r.id ∧ ((l₁ ++ l₂).map r.id).Nodup := by
  have hperm : ((l₁ ++ e :: l₂).map r.id).Perm (r.id e :: (l₁ ++ l₂).map r.id) :=
    List.perm_middle.map r.id
  rw [hperm.nodup_iff,List.nodup_cons]

omit [DecidableEq ι] in
/-- An observation of a kept id. -/
theorem Tops.merge {e : ε} (h : Tops r k seen (l₁ ++ e :: l₂))
    (hid : r.id e = r.id x) : Tops r k (seen ++ [x]) (l₁ ++ r.merge e x :: l₂) := by
  have hids : (l₁ ++ r.merge e x :: l₂).map r.id = (l₁ ++ e :: l₂).map r.id := by
    simp [r.id_merge]
  have hx : r.id x ∈ (l₁ ++ e :: l₂).map r.id := by simp [hid]
  have hother {e' : ε} (he' : e' ∈ l₁ ++ l₂) : e' ∈ l₁ ++ e :: l₂ := by
    rw [List.mem_append] at he' ⊢
    exact he'.imp_right (List.mem_cons_of_mem e)
  have he : e ∈ l₁ ++ e :: l₂ := by simp
  have hcases {e' : ε} (he' : e' ∈ l₁ ++ r.merge e x :: l₂) : e' = r.merge e x ∨ e' ∈ l₁ ++ l₂ := by
    simp only [List.mem_append,List.mem_cons] at he' ⊢
    tauto
  refine ⟨by simpa using h.length_le,hids ▸ h.nodup,?_,?_,?_,?_⟩
  · intro e' he'
    rcases hcases he' with rfl | hold
    · by_cases hlt : r.key e < r.key x
      · refine ⟨x,by simp,?_,?_,?_⟩
        · rw [r.id_merge,hid]
        · rw [r.key_merge,max_eq_right hlt.le]
        · rw [r.label_merge,if_pos hlt]
      · obtain ⟨y,hy,hyid,hykey,hylabel⟩ := h.attained e he
        refine ⟨y,List.mem_append_left _ hy,?_,?_,?_⟩
        · rw [r.id_merge,hyid]
        · rw [r.key_merge,max_eq_left (not_lt.mp hlt),hykey]
        · rw [r.label_merge,if_neg hlt,hylabel]
    · obtain ⟨y,hy,hyspec⟩ := h.attained e' (hother hold)
      exact ⟨y,List.mem_append_left _ hy,hyspec⟩
  · intro e' he' y hy hyid
    rw [List.mem_append,List.mem_singleton] at hy
    rcases hcases he' with rfl | hold
    · rw [r.key_merge]
      rw [r.id_merge] at hyid
      rcases hy with hy | rfl
      · exact (h.greatest e he y hy hyid).trans (le_max_left _ _)
      · exact le_max_right _ _
    · rcases hy with hy | rfl
      · exact h.greatest e' (hother hold) y hy hyid
      · have hnotMem := (nodup_middle.mp h.nodup).1
        rw [hid,hyid] at hnotMem
        exact absurd (List.mem_map_of_mem hold) hnotMem
  · intro y hy hunkept e' he'
    rw [hids] at hunkept
    rw [List.mem_append,List.mem_singleton] at hy
    rcases hy with hy | rfl
    · rcases hcases he' with rfl | hold
      · rw [r.key_merge]
        exact (h.above y hy hunkept e he).trans (le_max_left _ _)
      · exact h.above y hy hunkept e' (hother hold)
    · exact absurd hx hunkept
  · intro hroom y hy
    rw [hids]
    rw [List.mem_append,List.mem_singleton] at hy
    rcases hy with hy | rfl
    · exact h.complete (by simpa using hroom) y hy
    · exact hx

omit [DecidableEq ι] in
/-- An observation of a new id when there is room. -/
theorem Tops.add (h : Tops r k seen kept) (hnew : r.id x ∉ kept.map r.id)
    (hroom : kept.length < k) : Tops r k (seen ++ [x]) (kept ++ [x]) := by
  -- nothing was thrown out yet, so this is the first observation of the id
  have hall : ∀ y ∈ seen ++ [x], r.id y ∈ (kept ++ [x]).map r.id := by
    intro y hy
    rw [List.mem_append,List.mem_singleton] at hy
    rw [List.map_append,List.mem_append]
    rcases hy with hy | rfl
    · exact .inl (h.complete hroom y hy)
    · exact .inr (by simp)
  refine ⟨by simpa using hroom,?_,?_,?_,?_,fun _ => hall⟩
  · rw [List.map_append,List.map_singleton]
    exact List.nodup_append.mpr ⟨h.nodup,List.nodup_singleton _,fun a ha b hb hab =>
      hnew (List.mem_singleton.mp hb ▸ hab ▸ ha)⟩
  · intro e he
    rw [List.mem_append,List.mem_singleton] at he
    rcases he with he | rfl
    · obtain ⟨y,hy,hyspec⟩ := h.attained e he
      exact ⟨y,List.mem_append_left _ hy,hyspec⟩
    · exact ⟨e,by simp,rfl,rfl,rfl⟩
  · intro e he y hy hid
    rw [List.mem_append,List.mem_singleton] at he hy
    rcases he with he | rfl <;> rcases hy with hy | rfl
    · exact h.greatest e he y hy hid
    · exact absurd (hid ▸ List.mem_map_of_mem he) hnew
    · exact absurd (hid ▸ h.complete hroom y hy) hnew
    · exact le_rfl
  · intro y hy hunkept
    exact absurd (hall y hy) hunkept

omit [DecidableEq ι] in
/-- An observation that is too small. -/
theorem Tops.ignore (h : Tops r k seen kept) (hnew : r.id x ∉ kept.map r.id)
    (hfull : ¬kept.length < k) (hsmall : ∀ e ∈ kept, r.key x ≤ r.key e) :
    Tops r k (seen ++ [x]) kept := by
  refine ⟨h.length_le,h.nodup,?_,?_,?_,fun hroom => absurd hroom hfull⟩
  · intro e he
    obtain ⟨y,hy,hyspec⟩ := h.attained e he
    exact ⟨y,List.mem_append_left _ hy,hyspec⟩
  · intro e he y hy hid
    rw [List.mem_append,List.mem_singleton] at hy
    rcases hy with hy | rfl
    · exact h.greatest e he y hy hid
    · exact hsmall e he
  · intro y hy hunkept e he
    rw [List.mem_append,List.mem_singleton] at hy
    rcases hy with hy | rfl
    · exact h.above y hy hunkept e he
    · exact hsmall e he

omit [DecidableEq ι] in
/-- An observation that throws out the smallest entry. -/
theorem Tops.replace {e : ε} (h : Tops r k seen (l₁ ++ e :: l₂))
    (hnew : r.id x ∉ (l₁ ++ e :: l₂).map r.id) (hfull : ¬(l₁ ++ e :: l₂).length < k)
    (hleast : ∀ e' ∈ l₁ ++ e :: l₂, r.key e ≤ r.key e') (hle : r.key e ≤ r.key x) :
    Tops r k (seen ++ [x]) (l₁ ++ x :: l₂) := by
  have he : e ∈ l₁ ++ e :: l₂ := by simp
  have hother {e' : ε} (he' : e' ∈ l₁ ++ l₂) : e' ∈ l₁ ++ e :: l₂ := by
    rw [List.mem_append] at he' ⊢
    exact he'.imp_right (List.mem_cons_of_mem e)
  have hcases {e' : ε} (he' : e' ∈ l₁ ++ x :: l₂) : e' = x ∨ e' ∈ l₁ ++ l₂ := by
    simp only [List.mem_append,List.mem_cons] at he' ⊢
    tauto
  have hkept {i : ι} (hi : i ∈ (l₁ ++ e :: l₂).map r.id) :
      i = r.id e ∨ i ∈ (l₁ ++ x :: l₂).map r.id := by
    simp only [List.map_append,List.map_cons,List.mem_append,List.mem_cons] at hi ⊢
    tauto
  -- whatever was seen and is not kept is not above the entry that goes, nor is that entry's id
  have hbelow {y : ε} (hy : y ∈ seen) (hunkept : r.id y ∉ (l₁ ++ x :: l₂).map r.id) :
      r.key y ≤ r.key e := by
    by_cases hold : r.id y ∈ (l₁ ++ e :: l₂).map r.id
    · exact h.greatest e he y hy ((hkept hold).resolve_right hunkept)
    · exact h.above y hy hold e he
  refine ⟨by simpa using h.length_le,?_,?_,?_,?_,?_⟩
  · refine nodup_middle.mpr ⟨?_,(nodup_middle.mp h.nodup).2⟩
    intro hmem
    obtain ⟨e',he',hid⟩ := List.mem_map.mp hmem
    exact hnew (hid ▸ List.mem_map_of_mem (hother he'))
  · intro e' he'
    rcases hcases he' with rfl | hold
    · exact ⟨e',by simp,rfl,rfl,rfl⟩
    · obtain ⟨y,hy,hyspec⟩ := h.attained e' (hother hold)
      exact ⟨y,List.mem_append_left _ hy,hyspec⟩
  · intro e' he' y hy hid
    rw [List.mem_append,List.mem_singleton] at hy
    rcases hcases he' with rfl | hold <;> rcases hy with hy | rfl
    · exact (h.above y hy (hid ▸ hnew) e he).trans hle
    · exact le_rfl
    · exact h.greatest e' (hother hold) y hy hid
    · exact absurd (hid ▸ List.mem_map_of_mem (hother hold)) hnew
  · intro y hy hunkept e' he'
    rw [List.mem_append,List.mem_singleton] at hy
    rcases hy with hy | rfl
    · rcases hcases he' with rfl | hold
      · exact (hbelow hy hunkept).trans hle
      · exact (hbelow hy hunkept).trans (hleast e' (hother hold))
    · exact absurd (by simp) hunkept
  · intro hroom
    exact absurd (by simpa using hroom) hfull

lemma Tops.observe (h : Tops r k seen kept) (hrule : IsRule replaces)
    (x : ε) : Tops r k (seen ++ [x]) (observe r replaces k kept x) := by
  obtain ⟨l₁,e,l₂,rfl,hid,heq⟩ | ⟨hnew,hroom,heq⟩ | ⟨hnew,hfull,hsmall,heq⟩ |
    ⟨hnew,hfull,l₁,e,l₂,rfl,hleast,hle,heq⟩ := observe_cases (r := r) hrule k kept x
  · rw [heq]
    exact h.merge hid
  · rw [heq]
    exact h.add hnew hroom
  · rw [heq]
    exact h.ignore hnew hfull hsmall
  · rw [heq]
    exact h.replace hnew hfull hleast hle

/-- Every sequence of observations. -/
theorem tops_foldl (hrule : IsRule replaces) (k : ℕ) (xs : List ε) :
    Tops r k xs (xs.foldl (observe r replaces k) []) := by
  have hfold (seen kept : List ε) (h : Tops r k seen kept) :
      Tops r k (seen ++ xs) (xs.foldl (TopK.observe r replaces k) kept) := by
    induction xs generalizing seen kept with
    | nil => simpa using h
    | cons x xs ih =>
      rw [List.append_cons]
      exact ih _ _ (h.observe hrule x)
  exact hfold [] [] (tops_nil r k)

/-- What holds of every observation and survives merging holds of what is kept. -/
theorem forall_foldl (hrule : IsRule replaces) {P : ε → Prop}
    (hmerge : ∀ dest src, P dest → P src → P (r.merge dest src)) (k : ℕ) (xs : List ε)
    (hxs : ∀ x ∈ xs, P x) : ∀ e ∈ xs.foldl (observe r replaces k) [], P e := by
  have hstep (kept : List ε) (x : ε) (hkept : ∀ e ∈ kept, P e) (hx : P x) :
      ∀ e ∈ observe r replaces k kept x, P e := by
    obtain ⟨l₁,e,l₂,rfl,-,heq⟩ | ⟨-,-,heq⟩ | ⟨-,-,-,heq⟩ | ⟨-,-,l₁,e,l₂,rfl,-,-,heq⟩ :=
      observe_cases (r := r) hrule k kept x
    · rw [heq]
      simp only [List.forall_mem_append,List.forall_mem_cons] at hkept ⊢
      exact ⟨hkept.1,hmerge e x hkept.2.1 hx,hkept.2.2⟩
    · rw [heq]
      simpa [or_imp,forall_and] using ⟨hkept,hx⟩
    · rw [heq]
      exact hkept
    · rw [heq]
      simp only [List.forall_mem_append,List.forall_mem_cons] at hkept ⊢
      exact ⟨hkept.1,hx,hkept.2.2⟩
  have hfold (kept : List ε) (hkept : ∀ e ∈ kept, P e) :
      ∀ e ∈ xs.foldl (observe r replaces k) kept, P e := by
    induction xs generalizing kept with
    | nil => exact hkept
    | cons x xs ih =>
      obtain ⟨hx,hxs⟩ := List.forall_mem_cons.mp hxs
      exact ih hxs _ (hstep kept x hkept hx)
  exact hfold [] (by simp)

end PhpAgent.TopK

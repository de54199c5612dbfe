import PhpAgent.Util.ObjectScalars

/-! What `nro_create_from_json` reads of an object that `nro_to_json` has written. -/
namespace PhpAgent
open NroParse

mutual

/-- Objects without unsigned numbers and raw texts. Every number is in the range of its type, the strings
are as `string` says and the doubles as `double` does, and a hash has keys that are neither empty nor the
same. -/
def NrObj.Of (string : Bytes → Prop) (double : Double → Prop) : NrObj → Prop
  | .none | .boolean _ => True
  | .int i _ => intMin ≤ i ∧ i ≤ intMax
  | .long i => longMin ≤ i ∧ i ≤ longMax
  | .double d => double d
  | .string s => string s
  | .hash entries => (entries.map Prod.fst).Nodup ∧ MembersOf string double entries
  | .array elements => ElementsOf string double elements
  | .ulong _ | .jstring _ => False

def MembersOf (string : Bytes → Prop) (double : Double → Prop) : List (Bytes × NrObj) → Prop
  | [] => True
  | (key,value) :: rest =>
    (key ≠ [] ∧ Basic key) ∧ value.Of string double ∧ MembersOf string double rest

def ElementsOf (string : Bytes → Prop) (double : Double → Prop) : List NrObj → Prop
  | [] => True
  | value :: rest => value.Of string double ∧ ElementsOf string double rest

end

lemma membersOf_iff {string : Bytes → Prop} {double : Double → Prop} (entries : List (Bytes × NrObj)) :
    MembersOf string double entries ↔
      ∀ e ∈ entries, (e.1 ≠ [] ∧ Basic e.1) ∧ e.2.Of string double := by
  induction entries with
  | nil => simp [MembersOf]
  | cons e entries ih => rw [MembersOf,ih,List.forall_mem_cons,and_assoc (b := e.2.Of string double)]

/-- One more member of a hash. -/
theorem NrObj.of_set {string : Bytes → Prop} {double : Double → Prop} {h : NrHash}
    (hof : (NrObj.hash h).Of string double) {key : Bytes} (hkey : Basic key) (value : NrObj)
    (hvalue : value.Of string double) : (NrObj.hash (h.set key value)).Of string double := by
  obtain ⟨hnodup,hmembers⟩ := hof
  rw [membersOf_iff] at hmembers
  unfold NrHash.set
  split_ifs with hnil hmem
  · exact ⟨hnodup,(membersOf_iff h).mpr hmembers⟩
  · have hkeys : (h.map fun e => if e.1 = key then (e.1,value) else e).map Prod.fst = h.map Prod.fst := by
      rw [List.map_map]
      apply List.map_congr_left
      intro e he
      simp only [Function.comp_apply]
      split_ifs <;> rfl
    refine ⟨by rwa [hkeys],(membersOf_iff _).mpr ?_⟩
    intro e he
    obtain ⟨e',he',rfl⟩ := List.mem_map.mp he
    split_ifs
    · exact ⟨(hmembers e' he').1,hvalue⟩
    · exact hmembers e' he'
  · refine ⟨?_,(membersOf_iff _).mpr ?_⟩
    · rw [List.map_append,List.map_singleton]
      exact hnodup.append (List.nodup_singleton key) (by simpa using hmem)
    · intro e he
      rcases List.mem_append.mp he with he | he
      · exact hmembers e he
      · rw [List.mem_singleton] at he
        subst he
        exact ⟨⟨hnil,hkey⟩,hvalue⟩

/-- Objects without doubles, of strings whose characters take one code unit each. -/
def NrObj.Portable (o : NrObj) : Prop := o.Of Basic fun _ => False

section Mono
variable {string string' : Bytes → Prop} {double double' : Double → Prop}

mutual

lemma NrObj.of_mono (hs : ∀ s, string s → string' s) (hd : ∀ d, double d → double' d) :
    (o : NrObj) → o.Of string double → o.Of string' double'
  | .none, _ | .boolean _, _ => trivial
  | .int _ _, h | .long _, h => h
  | .double d, h => hd d h
  | .string s, h => hs s h
  | .hash entries, h => ⟨h.1,membersOf_mono hs hd entries h.2⟩
  | .array elements, h => elementsOf_mono hs hd elements h

lemma membersOf_mono (hs : ∀ s, string s → string' s) (hd : ∀ d, double d → double' d) :
    (entries : List (Bytes × NrObj)) → MembersOf string double entries →
    MembersOf string' double' entries
  | [], _ => trivial
  | (_,value) :: rest, h => ⟨h.1,value.of_mono hs hd h.2.1,membersOf_mono hs hd rest h.2.2⟩

lemma elementsOf_mono (hs : ∀ s, string s → string' s) (hd : ∀ d, double d → double' d) :
    (elements : List NrObj) → ElementsOf string double elements → ElementsOf string' double' elements
  | [], _ => trivial
  | value :: rest, h => ⟨value.of_mono hs hd h.1,elementsOf_mono hs hd rest h.2⟩

end

end Mono

mutual

/-- An object with every `int` as a `long`. -/
def NrObj.widened : NrObj → NrObj
  | .int i _ => .long i
  | .hash entries => .hash (widenedMembers entries)
  | .array elements => .array (widenedElements elements)
  | o => o

def widenedMembers : List (Bytes × NrObj) → List (Bytes × NrObj)
  | [] => []
  | (key,value) :: rest => (key,value.widened) :: widenedMembers rest

def widenedElements : List NrObj → List NrObj
  | [] => []
  | value :: rest => value.widened :: widenedElements rest

end

section Reread
variable (nearest : ℚ≥0 → Option ℚ≥0)

/-- A double that `strtod` reads from what `%.5f` prints of it. -/
def ReadsDouble : Double → Prop
  | .finite _ magnitude => (nearest (printed magnitude)).isSome
  | .infinite _ | .nan _ => False

/-- The double that it reads. -/
def rereadDouble : Double → Double
  | .finite negative magnitude => .finite negative ((nearest (printed magnitude)).getD 0)
  | d => d

mutual

/-- The object that is read: a number is an `int` strictly within the range of that type. -/
def NrObj.reread : NrObj → NrObj
  | .int i _ => number i
  | .long i => number i
  | .double d => .double (rereadDouble nearest d)
  | .string s => .string (rereadString s)
  | .hash entries => .hash (rereadMembers entries)
  | .array elements => .array (rereadElements elements)
  | o => o

def rereadMembers : List (Bytes × NrObj) → List (Bytes × NrObj)
  | [] => []
  | (key,value) :: rest => (key,value.reread) :: rereadMembers rest

def rereadElements : List NrObj → List NrObj
  | [] => []
  | value :: rest => value.reread :: rereadElements rest

end

variable {nearest}

lemma widened_number (i : ℤ) : (number i).widened = .long i := by
  unfold number
  split <;> rfl

mutual

lemma NrObj.widened_reread : (o : NrObj) → o.Portable → (o.reread nearest).widened = o.widened
  | .none, _ | .boolean _, _ => rfl
  | .string s, h => by
    rw [NrObj.reread,(rereadString_eq_iff (Basic.text h)).mpr h]
  | .int i _, _ | .long i, _ => widened_number i
  | .hash entries, h => congrArg NrObj.hash (widened_rereadMembers entries h.2)
  | .array elements, h => congrArg NrObj.array (widened_rereadElements elements h)

lemma widened_rereadMembers : (entries : List (Bytes × NrObj)) →
    MembersOf Basic (fun _ => False) entries →
    widenedMembers (rereadMembers nearest entries) = widenedMembers entries
  | [], _ => rfl
  | (_,value) :: rest, h => by
    rw [rereadMembers,widenedMembers,widenedMembers,value.widened_reread h.2.1,
      widened_rereadMembers rest h.2.2]

lemma widened_rereadElements : (elements : List NrObj) →
    ElementsOf Basic (fun _ => False) elements →
    widenedElements (rereadElements nearest elements) = widenedElements elements
  | [], _ => rfl
  | value :: rest, h => by
    rw [rereadElements,widenedElements,widenedElements,value.widened_reread h.1,
      widened_rereadElements rest h.2]

end

lemma rereadMembers_eq (entries : List (Bytes × NrObj)) :
    rereadMembers nearest entries = entries.map fun e => (e.1,e.2.reread nearest) := by
  induction entries with
  | nil => rfl
  | cons e entries ih => rw [rereadMembers,ih,List.map_cons]

lemma get?_rereadMembers (h : NrHash) (key : Bytes) :
    NrHash.get? (rereadMembers nearest h) key = (NrHash.get? h key).map (NrObj.reread nearest) := by
  rw [rereadMembers_eq]
  unfold NrHash.get?
  induction h with
  | nil => rfl
  | cons e h ih =>
    rw [List.map_cons,List.lookup_cons,List.lookup_cons,ih]
    cases key == e.1 <;> rfl

lemma rereadElements_eq (elements : List NrObj) :
    rereadElements nearest elements = elements.map (NrObj.reread nearest) := by
  induction elements with
  | nil => rfl
  | cons o elements ih => rw [rereadElements,ih,List.map_cons]

end Reread

namespace NroParse

open Json (code decimal)

/-- A text that white space in front of it would not change. -/
def Opens (text : Bytes) : Prop := ∃ c s, text = c :: s ∧ 32 < c ∧ c ≠ code ']'

lemma jsonSkip_cons {c : UInt8} (hc : 32 < c) (s : Bytes) : jsonSkip (c :: s) = c :: s := by
  have hn : ¬ (c ≠ 0 ∧ c ≤ 32) := fun h => UInt8.not_le.mpr hc h.2
  rw [jsonSkip,List.dropWhile_cons_of_neg (by simpa using hn)]

lemma Opens.jsonSkip_append {text : Bytes} (h : Opens text) (rest : Bytes) :
    jsonSkip (text ++ rest) = text ++ rest := by
  obtain ⟨c,s,rfl,hc,-⟩ := h
  exact jsonSkip_cons hc _

section Reading
variable (nearest : ℚ≥0 → Option ℚ≥0) (garbage : Bytes → UInt32)

/-- The parser reads a text as an object, whatever may follow it. Here and below nothing stands above an
`int`. -/
def Reads (text : Bytes) (o : NrObj) : Prop :=
  ∀ fuel rest, 2*text.length+1 ≤ fuel → Follows rest →
    parseValue nearest garbage 0 fuel 0 (text ++ rest) = .ok (some (o,rest))

/-- The elements of an array, up to its end. -/
def ReadsElements (text : Bytes) (os : List NrObj) : Prop :=
  ∀ fuel rest, 2*text.length+2 ≤ fuel →
    parseElements nearest garbage 0 fuel (text ++ code ']' :: rest) = .ok (some (os,rest))

/-- The members of an object, up to its end, behind those of `h`. -/
def ReadsMembers (h : NrHash) (text : Bytes) (h' : NrHash) : Prop :=
  ∀ fuel first rest, 2*text.length+2 ≤ fuel →
    parseMembers nearest garbage 0 fuel first h (text ++ 0x7d :: rest) = .ok (some (h',rest))

variable {nearest garbage} {o : NrObj} {text : Bytes} {os : List NrObj}

lemma readsElements_last (h : Reads nearest garbage text o)
    (hopens : Opens text) : ReadsElements nearest garbage text [o] := by
  intro fuel rest hfuel
  obtain ⟨fuel,rfl⟩ := Nat.exists_eq_succ_of_ne_zero (show fuel ≠ 0 by omega)
  rw [Nat.succ_eq_add_one,parseElements,hopens.jsonSkip_append,
    h fuel _ (by omega) (by simp [Follows]),ok_bind]
  simp only
  rw [jsonSkip_cons (by decide),if_neg (by simp [code]),if_pos List.head?_cons]
  rfl

lemma readsElements_more {text texts : Bytes} (h : Reads nearest garbage text o) (hopens : Opens text)
    (hmore : ReadsElements nearest garbage texts os) :
    ReadsElements nearest garbage (text ++ code ',' :: texts) (o :: os) := by
  intro fuel rest hfuel
  obtain ⟨fuel,rfl⟩ := Nat.exists_eq_succ_of_ne_zero (show fuel ≠ 0 by omega)
  rw [List.length_append,List.length_cons] at hfuel
  rw [Nat.succ_eq_add_one,parseElements,List.append_assoc,hopens.jsonSkip_append,
    h fuel _ (by omega) (by simp [Follows]),ok_bind]
  simp only
  rw [List.cons_append,jsonSkip_cons (by decide),if_pos List.head?_cons,List.tail_cons,
    hmore fuel _ (by omega)]
  rfl

lemma opens_jsonEscape (s : Bytes) : Opens (jsonEscape s) := ⟨_,_,rfl,by decide,by decide⟩

/-- A key, its colon and its value. -/
def memberText (key text : Bytes) : Bytes := jsonEscape key ++ code ':' :: text

/-- One round of the loop over the members, up to what is behind the value. -/
theorem parseMembers_member {key text : Bytes} (hkey : Basic key)
    (h : Reads nearest garbage text o) (hopens : Opens text) (entries : NrHash) {fuel : ℕ}
    (hfuel : 2*text.length+1 ≤ fuel) (first : Bool) {rest : Bytes} (hrest : Follows rest) :
    parseMembers nearest garbage 0 (fuel+1) first entries (memberText key text ++ rest) =
      if (jsonSkip rest).head? = some (code ',') then
        parseMembers nearest garbage 0 fuel false (entries.set key o) (jsonSkip rest).tail
      else if (jsonSkip rest).head? = some 0x7d then
        .ok (some (entries.set key o,(jsonSkip rest).tail))
      else .ok none := by
  rw [parseMembers,memberText,List.append_assoc,(opens_jsonEscape key).jsonSkip_append,
    parseString_jsonEscape garbage hkey.text,(rereadString_eq_iff hkey.text).mpr hkey,ok_bind]
  simp only
  rw [List.cons_append,jsonSkip_cons (by decide),if_neg (by simp),List.tail_cons,
    hopens.jsonSkip_append,upper_zero,h fuel rest hfuel hrest,ok_bind]
  rfl

lemma readsMembers_last {key text : Bytes} (hkey : Basic key)
    (h : Reads nearest garbage text o) (hopens : Opens text) (entries : NrHash) :
    ReadsMembers nearest garbage entries (memberText key text) (entries.set key o) := by
  intro fuel first rest hfuel
  obtain ⟨fuel,rfl⟩ := Nat.exists_eq_succ_of_ne_zero (show fuel ≠ 0 by omega)
  rw [memberText,List.length_append,List.length_cons] at hfuel
  rw [Nat.succ_eq_add_one,parseMembers_member hkey h hopens entries (by omega) first (by simp [Follows]),
    jsonSkip_cons (by decide),if_neg (by simp [code]),if_pos List.head?_cons]
  rfl

lemma readsMembers_more {key text texts : Bytes} {entries entries' : NrHash}
    (hkey : Basic key) (h : Reads nearest garbage text o) (hopens : Opens text)
    (hmore : ReadsMembers nearest garbage (entries.set key o) texts entries') :
    ReadsMembers nearest garbage entries (memberText key text ++ code ',' :: texts) entries' := by
  intro fuel first rest hfuel
  obtain ⟨fuel,rfl⟩ := Nat.exists_eq_succ_of_ne_zero (show fuel ≠ 0 by omega)
  rw [memberText,List.length_append,List.length_append,List.length_cons,List.length_cons] at hfuel
  rw [Nat.succ_eq_add_one,List.append_assoc,
    parseMembers_member hkey h hopens entries (by omega) first (by simp [Follows]),List.cons_append,
    jsonSkip_cons (by decide),if_pos List.head?_cons,List.tail_cons,
    hmore fuel false _ (by omega)]

lemma not_isPrefixOf_cons {w : Bytes} {c d : UInt8} (hw : w.head? = some d) (hc : c ≠ d) (s : Bytes) :
    w.isPrefixOf (c :: s) = false := by
  obtain ⟨w,rfl⟩ := List.head?_eq_some_iff.mp hw
  simp [List.isPrefixOf,hc.symm]

/-- A value that no word begins. -/
theorem parseValue_cons {c : UInt8} (hc : c ∉ [code 'n',code 'f',code 't']) (fuel : ℕ) (s : Bytes) :
    parseValue nearest garbage 0 (fuel+1) 0 (c :: s) =
      if c = code '"' then
        (parseString garbage (c :: s)).map (Option.map fun (out,rest) => (NrObj.string out,rest))
      else if c = code '-' ∨ Json.isDigit c then .ok (some (parseNumber nearest 0 (c :: s)))
      else if c = code '[' then
        if (jsonSkip s).head? = some (code ']') then .ok (some (.array [],(jsonSkip s).tail))
        else
          (parseElements nearest garbage 0 fuel (jsonSkip s)).map
            (Option.map fun (children,rest) => (NrObj.array children,rest))
      else if c = 0x7b then
        if (jsonSkip s).head? = some 0x7d then .ok (some (.hash [],(jsonSkip s).tail))
        else
          (parseMembers nearest garbage 0 fuel true [] (jsonSkip s)).map
            (Option.map fun (h,rest) => (NrObj.hash h,rest))
      else .ok none := by
  simp only [List.mem_cons,List.not_mem_nil,or_false,not_or] at hc
  have hnull : (ascii "null").isPrefixOf (c :: s) = false := not_isPrefixOf_cons rfl hc.1 s
  have hfalse : (ascii "false").isPrefixOf (c :: s) = false := not_isPrefixOf_cons rfl hc.2.1 s
  have htrue : (ascii "true").isPrefixOf (c :: s) = false := not_isPrefixOf_cons rfl hc.2.2 s
  rw [parseValue.eq_def]
  simp only
  rw [hnull,hfalse,htrue]
  rfl

lemma reads_string {s : Bytes} (h : Text s) :
    Reads nearest garbage (jsonEscape s) (.string (rereadString s)) := by
  intro fuel rest hfuel _
  obtain ⟨fuel,rfl⟩ := Nat.exists_eq_succ_of_ne_zero (show fuel ≠ 0 by omega)
  have hread := parseString_jsonEscape garbage h rest
  have hquote : jsonEscape s ++ rest = code '"' :: (escapeBytes 0 s ++ [code '"'] ++ rest) := rfl
  rw [hquote] at hread ⊢
  rw [Nat.succ_eq_add_one,parseValue_cons (by decide),if_pos rfl,hread]
  rfl

/-- The first byte of a number. -/
def BeginsNumber (text : Bytes) : Prop := ∃ c s, text = c :: s ∧ (c = code '-' ∨ Json.isDigit c)

lemma beginsNumber_decimal (n : ℕ) (rest : Bytes) : BeginsNumber (decimal n ++ rest) := by
  obtain ⟨c,s,h⟩ := List.exists_cons_of_ne_nil (Json.decimal_ne_nil n)
  refine ⟨c,s ++ rest,by rw [h]; rfl,.inr (Json.isDigit_decimal n c ?_)⟩
  rw [h]
  exact List.mem_cons_self

lemma intToStr_cons (i : ℤ) : BeginsNumber (intToStr i) := by
  unfold intToStr
  split_ifs
  · exact ⟨_,_,rfl,.inl rfl⟩
  · simpa using beginsNumber_decimal i.natAbs []

lemma doubleToStr_cons {d : Double} (h : ReadsDouble nearest d) : BeginsNumber (doubleToStr d) := by
  cases d with
  | finite negative magnitude =>
    cases negative with
    | true => exact ⟨_,_,rfl,.inl rfl⟩
    | false => exact beginsNumber_decimal _ _
  | infinite negative => exact h.elim
  | nan negative => exact h.elim

lemma opens_number (h : BeginsNumber text) : Opens text := by
  obtain ⟨c,s,hcs,hc⟩ := h
  have hlow : 32 < c := by
    rcases hc with rfl | hc
    · decide
    · simp only [Json.isDigit,Bool.and_eq_true,decide_eq_true_eq] at hc
      exact UInt8.lt_of_lt_of_le (by decide) hc.1
  refine ⟨c,s,hcs,hlow,?_⟩
  rintro rfl
  revert hc
  decide

lemma parseValue_number {c : UInt8} (hc : c = code '-' ∨ Json.isDigit c) (fuel : ℕ) (s : Bytes) :
    parseValue nearest garbage 0 (fuel+1) 0 (c :: s) = .ok (some (parseNumber nearest 0 (c :: s))) := by
  have hquote : c ≠ code '"' := by rintro rfl; revert hc; decide
  have hword : c ∉ [code 'n',code 'f',code 't'] := by
    intro h
    simp only [List.mem_cons,List.not_mem_nil,or_false] at h
    rcases h with rfl | rfl | rfl <;> revert hc <;> decide
  rw [parseValue_cons hword,if_neg hquote,if_pos hc]

lemma reads_number {i : ℤ} (hmin : longMin ≤ i) (hmax : i ≤ longMax) :
    Reads nearest garbage (intToStr i) (number i) := by
  intro fuel rest hfuel hrest
  obtain ⟨fuel,rfl⟩ := Nat.exists_eq_succ_of_ne_zero (show fuel ≠ 0 by omega)
  have hread := parseNumber_intToStr nearest hmin hmax hrest
  obtain ⟨c,s,hcs,hc⟩ := intToStr_cons i
  rw [hcs,List.cons_append] at hread ⊢
  rw [Nat.succ_eq_add_one,parseValue_number hc,hread]

lemma reads_array_nil : Reads nearest garbage (code '[' :: ([] ++ [code ']'])) (.array []) := by
  intro fuel rest hfuel _
  obtain ⟨fuel,rfl⟩ := Nat.exists_eq_succ_of_ne_zero (show fuel ≠ 0 by omega)
  rw [List.nil_append,List.cons_append,List.singleton_append,Nat.succ_eq_add_one,
    parseValue_cons (by decide),jsonSkip_cons (by decide)]
  rfl

lemma reads_array (h : ReadsElements nearest garbage text os)
    (hopens : Opens text) : Reads nearest garbage (code '[' :: (text ++ [code ']'])) (.array os) := by
  intro fuel rest hfuel _
  obtain ⟨fuel,rfl⟩ := Nat.exists_eq_succ_of_ne_zero (show fuel ≠ 0 by omega)
  rw [List.length_cons,List.length_append,List.length_singleton] at hfuel
  have hne : (text ++ code ']' :: rest).head? ≠ some (code ']') := by
    obtain ⟨c,s,rfl,-,hc⟩ := hopens
    simpa using hc
  rw [List.cons_append,List.append_assoc,List.singleton_append,Nat.succ_eq_add_one,
    parseValue_cons (by decide),hopens.jsonSkip_append,if_neg (by decide),if_neg (by decide),
    if_pos rfl,if_neg hne,h fuel rest (by omega)]
  rfl

lemma reads_hash_nil : Reads nearest garbage (0x7b :: ([] ++ [0x7d])) (.hash []) := by
  intro fuel rest hfuel _
  obtain ⟨fuel,rfl⟩ := Nat.exists_eq_succ_of_ne_zero (show fuel ≠ 0 by omega)
  rw [List.nil_append,List.cons_append,List.singleton_append,Nat.succ_eq_add_one,
    parseValue_cons (by decide),jsonSkip_cons (by decide)]
  rfl

lemma reads_hash {entries : NrHash}
    (h : ReadsMembers nearest garbage [] text entries) (hopens : text.head? = some (code '"')) :
    Reads nearest garbage (0x7b :: (text ++ [0x7d])) (.hash entries) := by
  intro fuel rest hfuel _
  obtain ⟨fuel,rfl⟩ := Nat.exists_eq_succ_of_ne_zero (show fuel ≠ 0 by omega)
  obtain ⟨s,rfl⟩ := List.head?_eq_some_iff.mp hopens
  rw [List.length_cons,List.length_append,List.length_singleton] at hfuel
  have hne : (code '"' :: s ++ 0x7d :: rest).head? ≠ some 0x7d := by
    rw [List.cons_append,List.head?_cons]
    decide
  have hskip : jsonSkip (code '"' :: s ++ 0x7d :: rest) = code '"' :: s ++ 0x7d :: rest :=
    jsonSkip_cons (by decide) _
  rw [List.cons_append,List.append_assoc,List.singleton_append,Nat.succ_eq_add_one,
    parseValue_cons (by decide),hskip,if_neg (by decide),if_neg (by decide),
    if_neg (by decide),if_pos rfl,if_neg hne,h fuel true rest (by omega)]
  rfl

/-- The words of three values. -/
theorem reads_word {w : Bytes} (h : (w,o) ∈ [(ascii "null",NrObj.none),(ascii "true",.boolean true),
      (ascii "false",.boolean false)]) : Reads nearest garbage w o := by
  intro fuel rest hfuel _
  obtain ⟨fuel,rfl⟩ := Nat.exists_eq_succ_of_ne_zero (show fuel ≠ 0 by omega)
  simp only [List.mem_cons,List.not_mem_nil,or_false,Prod.mk.injEq] at h
  obtain ⟨rfl,rfl⟩ | ⟨rfl,rfl⟩ | ⟨rfl,rfl⟩ := h <;> rfl

lemma reads_double {d : Double} (h : ReadsDouble nearest d) :
    Reads nearest garbage (doubleToStr d) (.double (rereadDouble nearest d)) := by
  intro fuel rest hfuel hrest
  obtain ⟨fuel,rfl⟩ := Nat.exists_eq_succ_of_ne_zero (show fuel ≠ 0 by omega)
  obtain ⟨c,s,hcs,hc⟩ := doubleToStr_cons h
  cases d with
  | finite negative magnitude =>
    obtain ⟨d,hd⟩ := Option.isSome_iff_exists.mp h
    have hread := parseNumber_doubleToStr nearest hd negative hrest
    rw [hcs,List.cons_append] at hread ⊢
    rw [Nat.succ_eq_add_one,parseValue_number hc,hread,rereadDouble,hd,Option.getD_some]
  | infinite negative => exact h.elim
  | nan negative => exact h.elim

/-- Every value begins with a byte of its own. -/
theorem opens_toJson {string : Bytes → Prop} :
    (o : NrObj) → o.Of string (ReadsDouble nearest) → Opens o.toJson
  | .none, _ => ⟨_,_,rfl,by decide,by decide⟩
  | .boolean true, _ => ⟨_,_,rfl,by decide,by decide⟩
  | .boolean false, _ => ⟨_,_,rfl,by decide,by decide⟩
  | .int i _, _ => opens_number (intToStr_cons i)
  | .long i, _ => opens_number (intToStr_cons i)
  | .double _, h => opens_number (doubleToStr_cons h)
  | .string s, _ => opens_jsonEscape s
  | .hash _, _ => ⟨_,_,rfl,by decide,by decide⟩
  | .array _, _ => ⟨_,_,rfl,by decide,by decide⟩

lemma set_append {key : Bytes} (hkey : key ≠ []) {h : NrHash} (hnew : key ∉ h.map Prod.fst)
    (o : NrObj) : h.set key o = h ++ [(key,o)] := by
  rw [NrHash.set,if_neg hkey,if_neg hnew]

/-- The elements of an array, when each of them is read. -/
theorem readsElements_forall (hne : os ≠ []) (hopens : ∀ o ∈ os, Opens o.toJson)
    (h : ∀ o ∈ os, Reads nearest garbage o.toJson (o.reread nearest)) :
    ReadsElements nearest garbage ([code ','].intercalate (elementsToJson os))
      (os.map (NrObj.reread nearest)) := by
  induction os with
  | nil => exact (hne rfl).elim
  | cons o os ih =>
    rw [List.forall_mem_cons] at hopens h
    cases os with
    | nil => simpa [elementsToJson] using readsElements_last h.1 hopens.1
    | cons o' os =>
      have hmore := readsElements_more h.1 hopens.1 (ih (by simp) hopens.2 h.2)
      rw [elementsToJson,elementsToJson,List.intercalate_cons_cons,List.append_assoc,List.map_cons]
      exact hmore

lemma opens_elementsToJson (hne : os ≠ []) (hopens : ∀ o ∈ os, Opens o.toJson) :
    Opens ([code ','].intercalate (elementsToJson os)) := by
  cases os with
  | nil => exact (hne rfl).elim
  | cons o os =>
    obtain ⟨c,s,hcs,hc⟩ := hopens o List.mem_cons_self
    cases os with
    | nil => exact ⟨c,s,by simp [elementsToJson,hcs],hc⟩
    | cons o' os =>
      rw [elementsToJson,elementsToJson,List.intercalate_cons_cons,hcs]
      exact ⟨c,_,rfl,hc⟩

/-- The members of a hash, when the value of each of them is read. -/
theorem readsMembers_forall {entries : List (Bytes × NrObj)} (hne : entries ≠ [])
    (hkeys : ∀ e ∈ entries, e.1 ≠ [] ∧ Basic e.1) (hopens : ∀ e ∈ entries, Opens e.2.toJson)
    (h : ∀ e ∈ entries, Reads nearest garbage e.2.toJson (e.2.reread nearest))
    (hnodup : (entries.map Prod.fst).Nodup) (front : NrHash)
    (hnew : ∀ e ∈ entries, e.1 ∉ front.map Prod.fst) :
    ReadsMembers nearest garbage front ([code ','].intercalate (membersToJson entries))
      (front ++ entries.map fun e => (e.1,e.2.reread nearest)) := by
  induction entries generalizing front with
  | nil => exact (hne rfl).elim
  | cons e entries ih =>
    obtain ⟨key,value⟩ := e
    rw [List.forall_mem_cons] at hkeys hopens h hnew
    rw [List.map_cons,List.nodup_cons] at hnodup
    have hset : front.set key (value.reread nearest) = front ++ [(key,value.reread nearest)] :=
      set_append hkeys.1.1 hnew.1 _
    cases entries with
    | nil =>
      have hlast := readsMembers_last hkeys.1.2 h.1 hopens.1 front
      rw [hset] at hlast
      simpa [membersToJson,memberText] using hlast
    | cons e' entries =>
      have hafter : ∀ e'' ∈ e' :: entries,
          e''.1 ∉ (front ++ [(key,value.reread nearest)]).map Prod.fst := by
        intro e'' he''
        rw [List.map_append,List.mem_append,not_or,List.map_singleton,List.mem_singleton]
        exact ⟨hnew.2 e'' he'',fun heq => hnodup.1 (List.mem_map.mpr ⟨e'',he'',heq⟩)⟩
      have hmore := ih (by simp) hkeys.2 hopens.2 h.2 hnodup.2 _ hafter
      rw [← hset] at hmore
      have htext := readsMembers_more hkeys.1.2 h.1 hopens.1 hmore
      obtain ⟨key',value'⟩ := e'
      rw [hset,List.append_assoc] at htext
      rw [membersToJson,membersToJson,List.intercalate_cons_cons,List.append_assoc,List.map_cons]
      exact htext

lemma head?_membersToJson {entries : List (Bytes × NrObj)} (hne : entries ≠ []) :
    ([code ','].intercalate (membersToJson entries)).head? = some (code '"') := by
  match entries with
  | [e] => simp [membersToJson,jsonEscape,Json.quoted]
  | e :: e' :: entries =>
    rw [membersToJson,membersToJson,List.intercalate_cons_cons]
    rfl

mutual

/-- An object is read from its text, a member at a time. -/
theorem reads_toJson : (o : NrObj) → o.Of Text (ReadsDouble nearest) →
    Reads nearest garbage o.toJson (o.reread nearest)
  | .none, _ => reads_word (by simp [NrObj.toJson,NrObj.reread])
  | .boolean true, _ => reads_word (by simp [NrObj.toJson,NrObj.reread])
  | .boolean false, _ => reads_word (by simp [NrObj.toJson,NrObj.reread])
  | .int i _, h => reads_number (le_trans (by decide) h.1) (le_trans h.2 (by decide))
  | .long i, h => reads_number h.1 h.2
  | .double _, h => reads_double h
  | .string s, h => reads_string h
  | .hash entries, h => by
    have hvalues := reads_members entries h.2
    have hmembers := (membersOf_iff entries).mp h.2
    by_cases hne : entries = []
    · subst hne
      exact reads_hash_nil
    · rw [NrObj.toJson,NrObj.reread,rereadMembers_eq]
      exact reads_hash (readsMembers_forall hne (fun e he => (hmembers e he).1)
        (fun e he => opens_toJson e.2 (hmembers e he).2) hvalues h.1 [] (by simp))
        (head?_membersToJson hne)
  | .array elements, h => by
    have hvalues := reads_elements elements h
    by_cases hne : elements = []
    · subst hne
      exact reads_array_nil
    · have hopens : ∀ o ∈ elements, Opens o.toJson := fun o ho => (hvalues o ho).1
      rw [NrObj.toJson,NrObj.reread,rereadElements_eq]
      exact reads_array (readsElements_forall hne hopens fun o ho => (hvalues o ho).2)
        (opens_elementsToJson hne hopens)

lemma reads_members : (entries : List (Bytes × NrObj)) →
    MembersOf Text (ReadsDouble nearest) entries →
    ∀ e ∈ entries, Reads nearest garbage e.2.toJson (e.2.reread nearest)
  | [], _ => by simp
  | (_,value) :: rest, h =>
    List.forall_mem_cons.mpr ⟨reads_toJson value h.2.1,reads_members rest h.2.2⟩

lemma reads_elements : (elements : List NrObj) → ElementsOf Text (ReadsDouble nearest) elements →
    ∀ o ∈ elements, Opens o.toJson ∧ Reads nearest garbage o.toJson (o.reread nearest)
  | [], _ => by simp
  | value :: rest, h =>
    List.forall_mem_cons.mpr ⟨⟨opens_toJson value h.1,reads_toJson value h.1⟩,reads_elements rest h.2⟩

end

end Reading

/-- What is read back, with the numbers in the types that the parser gives them. -/
theorem createFromJson_reread (nearest : ℚ≥0 → Option ℚ≥0) (garbage above : Bytes → UInt32) (o : NrObj)
    (h : o.Of Text (ReadsDouble nearest)) :
    ∃ obj, createFromJson nearest garbage above o.toJson = .ok (some obj) ∧
      obj.copy = o.reread nearest := by
  have hopens := opens_toJson o h
  have hne : o.toJson ≠ [] := by
    obtain ⟨c,s,hcs,-⟩ := hopens
    rw [hcs]
    exact List.cons_ne_nil c s
  have hskip : jsonSkip o.toJson = o.toJson := by simpa using hopens.jsonSkip_append []
  have hread := @reads_toJson nearest garbage o h (2*o.toJson.length+1) [] (le_refl _) follows_nil
  rw [List.append_nil] at hread
  have hzero : createFromJson nearest garbage 0 o.toJson = .ok (some (o.reread nearest)) := by
    rw [createFromJson,if_neg hne,hskip,hread]
    rfl
  rw [← copy_createFromJson] at hzero
  cases hread : createFromJson nearest garbage above o.toJson with
  | error stop =>
    rw [hread] at hzero
    cases hzero
  | ok r =>
    rw [hread] at hzero
    obtain ⟨obj,rfl,hcopy⟩ := Option.map_eq_some_iff.mp (Except.ok.inj hzero)
    exact ⟨obj,rfl,hcopy⟩

mutual

lemma widened_copy : (o : NrObj) → o.copy.widened = o.widened
  | .none | .boolean _ | .int _ _ | .long _ | .ulong _ | .double _ | .string _ | .jstring _ => rfl
  | .hash entries => congrArg NrObj.hash (widenedMembers_copy entries)
  | .array elements => congrArg NrObj.array (widenedElements_copy elements)

lemma widenedMembers_copy : (entries : List (Bytes × NrObj)) →
    widenedMembers (copyMembers entries) = widenedMembers entries
  | [] => rfl
  | (_,value) :: rest => by
    rw [copyMembers,widenedMembers,widenedMembers,widened_copy value,widenedMembers_copy rest]

lemma widenedElements_copy : (elements : List NrObj) →
    widenedElements (copyElements elements) = widenedElements elements
  | [] => rfl
  | value :: rest => by
    rw [copyElements,widenedElements,widenedElements,widened_copy value,widenedElements_copy rest]

end

/-- An object that was written is read back as it was, an `int` and a `long` of one value taken as the
same. -/
theorem createFromJson_toJson (nearest : ℚ≥0 → Option ℚ≥0) (garbage above : Bytes → UInt32) (o : NrObj)
    (h : o.Portable) :
    (createFromJson nearest garbage above o.toJson).map (Option.map NrObj.widened) =
      .ok (some o.widened) := by
  have hof : o.Of Text (ReadsDouble nearest) := o.of_mono (fun s => Basic.text) (fun d => False.elim) h
  obtain ⟨obj,hobj,hcopy⟩ := createFromJson_reread nearest garbage above o hof
  rw [hobj,Except.map,Option.map_some,← widened_copy obj,hcopy,o.widened_reread h]

theorem createFromJson_toJson_nested :
    (createFromJson some 0 0 (NrObj.hash [(utf8 ['k','"'],.array [.int (-2^31),.string (utf8 ['é','/'])])]).toJson).map
        (Option.map NrObj.widened) =
      .ok (some (NrObj.hash [(utf8 ['k','"'],.array [.int (-2^31),.string (utf8 ['é','/'])])]).widened) := by
  have hkey : Basic (utf8 ['k','"']) := ⟨_,by simp,rfl⟩
  have hvalue : Basic (utf8 ['é','/']) := ⟨_,by simp,rfl⟩
  apply createFromJson_toJson
  exact ⟨by simp,⟨by decide,hkey⟩,⟨⟨by decide,by decide⟩,hvalue,trivial⟩,trivial⟩

end NroParse
end PhpAgent

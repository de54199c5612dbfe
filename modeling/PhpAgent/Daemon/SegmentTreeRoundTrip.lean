import PhpAgent.Daemon.SegmentTree
import PhpAgent.Segment.SpanParents
import PhpAgent.Util.Utf8Escape

/-! The daemon reads the transaction traces that the agent writes: the tree of the emitted segments comes
back, below the node that stands for the transaction. -/
namespace PhpAgent
open Json
open PhpPackages (unmarshalSlice tight_object)

namespace Pprof

/-! ### Values -/

lemma not_isNull {b : Bytes} (h : Tight b) (hhead : b.head? ≠ some (code 'n')) : isNull b = false := by
  rw [isNull,h.trimmed,Bool.and_eq_false_iff,decide_eq_false_iff_not]
  refine .inr ?_
  rintro rfl
  exact hhead rfl

variable {bs : List Bytes}

lemma not_isNull_arrayText (h : ∀ b ∈ bs, Tight b) : isNull (arrayText bs) = false :=
  not_isNull (tight_arrayText fun b hb => (h b hb).accepted) (by simp [arrayText,code])

lemma unmarshalSlice_arrayText (h : ∀ b ∈ bs, Tight b) : unmarshalSlice (arrayText bs) = some bs := by
  have haccepts := accepts_arrayText fun b hb => (h b hb).accepted
  have hnull := not_isNull_arrayText h
  rw [isNull,haccepts,Bool.true_and,decide_eq_false_iff_not] at hnull
  have hne : trimmed (arrayText bs) ≠ ascii "null" := hnull
  rw [unmarshalSlice,if_pos haccepts,if_neg hne,elements_arrayText h]

lemma decimal_head_ne {n : ℕ} {c : UInt8} (hc : Json.isDigit c = false) :
    (decimal n).head? ≠ some c := by
  intro h
  rw [isDigit_decimal n c (List.mem_of_head? h)] at hc
  cases hc

lemma unmarshalFloat64_decimal (nearest : ℚ → Option ℚ) (n : ℕ) :
    unmarshalFloat64 nearest (decimal n) = nearest n := by
  rw [unmarshalFloat64,not_isNull (tight_decimal n) (decimal_head_ne (by decide)),numberValue_decimal]
  rfl

/-- A number on its way through a float64. -/
def rounded (nearest : ℚ → Option ℚ) (n : ℕ) : ℤ := toInt64 ((nearest n).getD 0)

lemma rounded_of_exact {nearest : ℚ → Option ℚ} {n : ℕ} (h : nearest n = some (n : ℚ)) :
    rounded nearest n = n := by
  simp [rounded,h,toInt64]

/-- A text in ASCII without escapes reads as itself. -/
theorem unescape_ascii {b : Bytes} (h : ∀ c ∈ b, c < 0x80 ∧ c ≠ code '\\') : unescape 0 b = b := by
  induction b with
  | nil => rfl
  | cons c b ih =>
    obtain ⟨hlow,hslash⟩ := h c List.mem_cons_self
    have hrest := ih fun d hd => h d (List.mem_cons_of_mem c hd)
    rw [unescape,unescapeAt,if_neg hslash,if_pos hlow]
    exact congrArg (c :: ·) hrest

lemma isDigit_low {c : UInt8} (h : Json.isDigit c = true) : c < 0x80 ∧ c ≠ code '\\' := by
  simp only [Json.isDigit,Bool.and_eq_true,decide_eq_true_eq] at h
  refine ⟨UInt8.lt_of_le_of_lt h.2 (by decide),?_⟩
  rintro rfl
  exact absurd h.2 (by decide)

/-- The token of an index, as the text of a string. -/
def token (idx : ℕ) : Bytes := code '`' :: decimal idx

lemma plain_token (idx : ℕ) : Plain (token idx) :=
  (plain_byte (by decide) (by decide) (by decide)).append (plain_of_digits (isDigit_decimal idx))

lemma unmarshalString_token (idx : ℕ) : unmarshalString (quoted (token idx)) = some (token idx) := by
  have hlow : ∀ c ∈ token idx, c < 0x80 ∧ c ≠ code '\\' := by
    intro c hc
    rcases List.mem_cons.mp hc with rfl | hc
    · decide
    · exact isDigit_low (isDigit_decimal idx c hc)
  rw [unmarshalString,not_isNull (tight_quoted (plain_token idx)) (by simp [quoted,code]),
    if_neg (by decide),stringValue_quoted (plain_token idx),unescape_ascii hlow]

/-- A token stands for the entry of its index, whatever that entry looks like. -/
theorem resolveName_token {table : List Bytes} {idx : ℕ} {name : Bytes} (h : table[idx]? = some name) :
    resolveName table (token idx) = name := by
  have hatoi : atoi (decimal idx) = some (idx : ℤ) := by
    have hall : (decimal idx).all Json.isDigit = true := List.all_eq_true.mpr (isDigit_decimal idx)
    have hminus : (decimal idx).head? ≠ some (code '-') := decimal_head_ne (by decide)
    have hplus : (decimal idx).head? ≠ some (code '+') := decimal_head_ne (by decide)
    simp [atoi,hminus,hplus,hall,decimal_ne_nil,digitsValue_decimal]
  obtain ⟨d,ds,hds⟩ := List.exists_cons_of_ne_nil (decimal_ne_nil idx)
  rw [hds] at hatoi
  simp [resolveName,token,hds,hatoi,h]

/-! ### The string table -/

/-- What is read of a text that was escaped. -/
def reread (s : Bytes) : Bytes := unescape 0 (escapeBytes 0 s)

lemma reread_utf8 (cs : List Char) : reread (utf8 cs) = utf8 cs := by
  have h := stringValue_jsonEscape cs
  rw [jsonEscape,stringValue_quoted (plain_escapeBytes _ 0),Option.some_inj] at h
  exact h

lemma tight_jsonEscape (s : Bytes) : Tight (jsonEscape s) := tight_quoted (plain_escapeBytes s 0)

lemma unmarshalString_jsonEscape (s : Bytes) : unmarshalString (jsonEscape s) = some (reread s) := by
  rw [unmarshalString,not_isNull (tight_jsonEscape s) (by simp [jsonEscape,quoted,code]),
    if_neg (by decide),jsonEscape,stringValue_quoted (plain_escapeBytes s 0)]
  rfl

lemma unmarshalStrings_toJson (names : StringPool) :
    unmarshalStrings names.toJson = some (some (names.map reread)) := by
  have htight : ∀ b ∈ names.map jsonEscape, Tight b := by
    intro b hb
    obtain ⟨s,-,rfl⟩ := List.mem_map.mp hb
    exact tight_jsonEscape s
  have hmap : (names.map jsonEscape).mapM unmarshalString = some (names.map reread) := by
    induction names with
    | nil => rfl
    | cons s names ih =>
      have hrest := ih fun b hb => htight b (List.mem_cons_of_mem _ hb)
      rw [List.map_cons,List.mapM_cons,unmarshalString_jsonEscape,hrest]
      rfl
  rw [show names.toJson = arrayText (names.map jsonEscape) from rfl,unmarshalStrings,
    not_isNull_arrayText htight,if_neg (by decide),elements_arrayText htight,Option.bind_some,hmap]
  rfl

/-- An array that starts with a number is no table. -/
theorem unmarshalStrings_number {n : ℕ} (h : ∀ b ∈ decimal n :: bs, Tight b) :
    unmarshalStrings (arrayText (decimal n :: bs)) = none := by
  have hnone : unmarshalString (decimal n) = none := by
    rw [unmarshalString,not_isNull (tight_decimal n) (decimal_head_ne (by decide)),if_neg (by decide),
      stringValue,if_pos (accepts_decimal n),(tight_decimal n).trimmed]
    obtain ⟨d,ds,hds⟩ := List.exists_cons_of_ne_nil (decimal_ne_nil n)
    have hd : d ≠ code '"' := by
      rintro rfl
      exact decimal_head_ne (c := code '"') (by decide) (by rw [hds]; rfl)
    rw [hds]
    exact if_neg hd
  rw [unmarshalStrings,not_isNull_arrayText h,if_neg (by decide),elements_arrayText h,Option.bind_some,
    List.mapM_cons,hnone]
  rfl

/-- Name, start and stop. -/
def Segment.told (s : Pprof.Segment) : Bytes × ℤ × ℤ := (s.name,s.startMs,s.stopMs)

end Pprof

/-! ### The text of a segment -/

namespace Txn
open Forest Pprof
variable {t : Txn} {p : SegPtr} {s : Segment}

/-- The offsets that are written, in milliseconds. -/
def startMs (s : Segment) : ℕ := s.startTime/1000
def stopMs (s : Segment) : ℕ := max (s.startTime/1000) (s.stopTime/1000)

/-- The name that is written. -/
def traceName (t : Txn) (s : Segment) : Bytes := nameOr t.traceStrings s.name

/-- The text of the parameters of a segment. -/
def paramsText (t : Txn) (s : Segment) (names : StringPool) : Bytes :=
  (addSegmentParams [0x7b] s t.traceStrings (names.add (t.traceName s)).2).1 ++ [0x7d]

lemma tight_paramsText (hs : s.Printable) (names : StringPool) : Tight (t.paramsText s names) where
  accepted := by
    have hopen : Inside ⟨.value,[]⟩ [] [0x7b] := .inl ⟨rfl,rfl⟩
    have hclose := (inside_segmentParams hopen hs t.traceStrings (names.add (t.traceName s)).2).close
    exact accepts_of_run rfl hclose
  starts := by
    obtain ⟨x,hx⟩ := (appends_segmentParams s t.traceStrings (names.add (t.traceName s)).2 []
      [0x7b] (by simp)).2
    refine ⟨0x7b,x ++ [0x7d],?_,by decide⟩
    exact congrArg (· ++ [0x7d]) hx.symm
  ends := ⟨_,_,rfl,by decide⟩

/-- The texts of a segment in front of its children. -/
def fieldTexts (t : Txn) (s : Segment) (names : StringPool) : List Bytes :=
  [decimal (startMs s),decimal (stopMs s),quoted (token ((names.add (t.traceName s)).1-1)),
    t.paramsText s names]

lemma segmentOpening_fst (hs : t.segs p = some s) (names : StringPool) : (t.segmentOpening p names).1 =
      code '[' :: ([code ','].intercalate (t.fieldTexts s names) ++ [code ',',code '[']) := by
  have hcut := (appends_segmentParams s t.traceStrings (names.add (t.traceName s)).2
    (code '[' :: decimal (startMs s) ++ (code ',' :: decimal (stopMs s)) ++
      (code ',' :: code '"' :: token ((names.add (t.traceName s)).1-1)) ++ [code '"',code ',']) [0x7b]
    (by simp)).1
  simp only at hcut
  have hbuf : (t.segmentOpening p names).1 =
      (addSegmentParams ((code '[' :: decimal (startMs s) ++ (code ',' :: decimal (stopMs s)) ++
        (code ',' :: code '"' :: token ((names.add (t.traceName s)).1-1)) ++ [code '"',code ',']) ++
        [0x7b]) s t.traceStrings (names.add (t.traceName s)).2).1 ++ [0x7d,code ',',code '['] := by
    simp only [segmentOpening,addSegmentToBuffer,hs,Option.getD_some,List.nil_append,startMs,stopMs,
      traceName,token,List.append_assoc,List.cons_append]
  rw [hbuf,hcut]
  simp [fieldTexts,paramsText,quoted,List.intercalate]

lemma tight_fieldTexts (hs : s.Printable) (names : StringPool) : ∀ b ∈ t.fieldTexts s names, Tight b := by
  intro b hb
  simp only [fieldTexts,List.mem_cons,List.not_mem_nil,or_false] at hb
  rcases hb with rfl | rfl | rfl | rfl
  · exact tight_decimal _
  · exact tight_decimal _
  · exact tight_quoted (plain_token _)
  · exact tight_paramsText hs names

lemma segmentOpening_snd (hs : t.segs p = some s) (names : StringPool) :
    (t.segmentOpening p names).2 = paramNames s t.traceStrings (names.add (t.traceName s)).2 := by
  simp only [segmentOpening,addSegmentToBuffer,hs,Option.getD_some,addSegmentParams_snd,traceName]

/-- Names are added behind those that are there. -/
theorem prefix_segmentOpening (hs : t.segs p = some s) (names : StringPool) :
    (names.add (t.traceName s)).2 <+: (t.segmentOpening p names).2 := by
  rw [segmentOpening_snd hs,paramNames]
  split_ifs
  · exact StringPool.prefix_add ..
  · exact List.prefix_rfl

lemma prefix_texts {g : Forest SegPtr} (hlive : ∀ q ∈ g.toList, ∃ s, t.segs q = some s)
    (names : StringPool) : names <+: (g.texts t.segmentOpening names).2 := by
  induction g generalizing names with
  | nil => exact List.prefix_rfl
  | node p kids rest ihk ihr =>
    obtain ⟨s,hs⟩ := hlive p List.mem_cons_self
    have hopen := (StringPool.prefix_add names (t.traceName s)).trans (prefix_segmentOpening hs names)
    have hkids := ihk (fun q hq => hlive q (mem_kids hq))
      (t.segmentOpening p names).2
    have hrest := ihr (fun q hq => hlive q (mem_rest hq))
      (kids.texts t.segmentOpening (t.segmentOpening p names).2).2
    exact (hopen.trans hkids).trans hrest

/-- The entry of the index that is written. -/
theorem getElem?_traceName {names final : StringPool} (h : (names.add (t.traceName s)).2 <+: final) :
    final[(names.add (t.traceName s)).1-1]? = some (t.traceName s) := by
  have hmem : t.traceName s ∈ final := h.subset (StringPool.mem_add.mpr (.inr rfl))
  have hfind := StringPool.find_of_longer h (StringPool.mem_add.mpr (.inr rfl))
  rw [StringPool.find_add] at hfind
  have hget := StringPool.get_find hmem
  rw [hfind,StringPool.get,if_neg (StringPool.add_pos names (t.traceName s)).ne'] at hget
  exact hget

/-! ### Decoding -/

/-- What is written of a segment. -/
def written (t : Txn) (p : SegPtr) : Bytes × ℤ × ℤ :=
  let s := (t.segs p).getD .zero
  (t.traceName s,startMs s,stopMs s)

/-- What comes back of a segment. -/
def returned (nearest : ℚ → Option ℚ) (t : Txn) (p : SegPtr) : Bytes × ℤ × ℤ :=
  let s := (t.segs p).getD .zero
  (t.traceName s,rounded nearest (startMs s),rounded nearest (stopMs s))

/-- The segment can be read: its raw texts are JSON, its name is UTF-8 and not blank, and its times are
in the range of a float64. -/
structure Readable (nearest : ℚ → Option ℚ) (t : Txn) (s : Segment) : Prop where
  printable : s.Printable
  utf8 : ∃ cs, t.traceName s = PhpAgent.utf8 cs
  named : Pprof.blank (t.traceName s) = false
  start : (nearest (startMs s)).isSome
  stop : (nearest (stopMs s)).isSome

/-- The text of a node. -/
theorem texts_node (hs : t.segs p = some s) (kids rest : Forest SegPtr)
    (names : StringPool) : ((Forest.node p kids rest).texts t.segmentOpening names).1 =
      arrayText (t.fieldTexts s names ++
        [arrayText (kids.texts t.segmentOpening (t.segmentOpening p names).2).1]) ::
      (rest.texts t.segmentOpening (kids.texts t.segmentOpening (t.segmentOpening p names).2).2).1 := by
  simp only [texts,segmentOpening_fst hs]
  simp [arrayText,fieldTexts,List.intercalate]

lemma tight_nodeTexts (hs : s.Printable) (names : StringPool) {bs : List Bytes}
    (hbs : ∀ b ∈ bs, Tight b) : ∀ b ∈ t.fieldTexts s names ++ [arrayText bs], Tight b := by
  intro b hb
  rcases List.mem_append.mp hb with hb | hb
  · exact tight_fieldTexts hs names b hb
  · rw [List.mem_singleton.mp hb]
    exact tight_arrayText fun b hb => (hbs b hb).accepted

lemma tight_texts {g : Forest SegPtr} (hg : ∀ q ∈ g.toList, ∃ s, t.segs q = some s ∧ s.Printable)
    (names : StringPool) : ∀ b ∈ (g.texts t.segmentOpening names).1, Tight b := by
  induction g generalizing names with
  | nil =>
    intro b hb
    cases hb
  | node p kids rest ihk ihr =>
    obtain ⟨s,hs,hprint⟩ := hg p List.mem_cons_self
    have hkids := ihk (fun q hq => hg q (mem_kids hq))
      (t.segmentOpening p names).2
    intro b hb
    rw [texts_node hs] at hb
    rcases List.mem_cons.mp hb with rfl | hb
    · exact tight_arrayText fun b hb => (tight_nodeTexts hprint names hkids b hb).accepted
    · exact ihr (fun q hq => hg q (mem_rest hq)) _ b hb

/-- The element of an array is shorter than the text of the array. -/
theorem length_lt_arrayText {bs : List Bytes} {b : Bytes} (hb : b ∈ bs) :
    b.length < (arrayText bs).length := by
  have hle : b.length ≤ ([code ','].intercalate bs).length := by
    induction bs with
    | nil => cases hb
    | cons c bs ih =>
      cases bs with
      | nil =>
        rw [List.mem_singleton.mp hb]
        simp
      | cons d bs =>
        have hcons : [code ','].intercalate (c :: d :: bs) =
            c ++ code ',' :: [code ','].intercalate (d :: bs) := by
          simp [List.intercalate]
        rw [hcons,List.length_append,List.length_cons]
        rcases List.mem_cons.mp hb with rfl | hb
        · omega
        · have := ih hb
          omega
  simp only [arrayText,List.length_cons,List.length_append,List.length_nil]
  omega

section Decode
variable {nearest : ℚ → Option ℚ}

/-- One node, with the children read by what is left of the fuel. -/
theorem decodeNode_arrayText {resolve : Bytes → Bytes} {startMs stopMs : ℕ}
    (hstart : (nearest startMs).isSome) (hstop : (nearest stopMs).isSome)
    {text raw name params : Bytes} (hread : unmarshalString text = some raw)
    (hname : resolve raw = name) (hblank : Pprof.blank name = false) {bs : List Bytes}
    (hbs : ∀ b ∈ bs, Tight b)
    (htight : ∀ b ∈ [decimal startMs,decimal stopMs,text,params,arrayText bs], Tight b) {fuel : ℕ}
    {below : Forest Pprof.Segment}
    (hbelow : decodeForest (decodeNode nearest resolve fuel) bs = .ok below) :
    ∃ seg, seg.told = (name,rounded nearest startMs,rounded nearest stopMs) ∧
      decodeNode nearest resolve (fuel+1)
        (arrayText [decimal startMs,decimal stopMs,text,params,arrayText bs]) = .ok (seg,below) := by
  obtain ⟨first,hfirst⟩ := Option.isSome_iff_exists.mp hstart
  obtain ⟨last,hlast⟩ := Option.isSome_iff_exists.mp hstop
  refine ⟨{
    name := name
    startMs := toInt64 first
    stopMs := toInt64 last
    durationMs := (nearest (last-first)).getD (last-first)
    filepath := (readParams params).filepath
    lineno := (readParams params).lineno },?_,?_⟩
  · simp [Pprof.Segment.told,rounded,hfirst,hlast]
  · rw [decodeNode,unmarshalSlice_arrayText htight]
    simp only [orError_some,decoded_bind,unmarshalFloat64_decimal,hfirst,hlast,hread,Option.getD_some,hname,
      unmarshalSlice_arrayText hbs,hbelow,hblank]
    rfl

/-- The texts of a forest are read as the forest of what was written. -/
theorem decodeForest_texts {g : Forest SegPtr}
    (hg : ∀ q ∈ g.toList, ∃ s, t.segs q = some s ∧ Readable nearest t s) {names final : StringPool}
    (hfinal : (g.texts t.segmentOpening names).2 <+: final) {fuel : ℕ}
    (hfuel : ∀ b ∈ (g.texts t.segmentOpening names).1, b.length < fuel) :
    ∃ h, decodeForest (decodeNode nearest (resolveName (final.map reread)) fuel)
        (g.texts t.segmentOpening names).1 = .ok h ∧ h.map Pprof.Segment.told = g.map (t.returned nearest) := by
  induction g generalizing names fuel with
  | nil => exact ⟨.nil,rfl,rfl⟩
  | node p kids rest ihk ihr =>
    obtain ⟨s,hs,hread⟩ := hg p List.mem_cons_self
    have hgk : ∀ q ∈ kids.toList, ∃ s, t.segs q = some s ∧ Readable nearest t s :=
      fun q hq => hg q (mem_kids hq)
    have hgr : ∀ q ∈ rest.toList, ∃ s, t.segs q = some s ∧ Readable nearest t s :=
      fun q hq => hg q (mem_rest hq)
    have hinitial : (kids.texts t.segmentOpening (t.segmentOpening p names).2).2 <+: final := by
      refine (prefix_texts ?_ _).trans hfinal
      intro q hq
      obtain ⟨s,hs,-⟩ := hgr q hq
      exact ⟨s,hs⟩
    have hopen : (names.add (t.traceName s)).2 <+: final := by
      refine (prefix_segmentOpening hs names).trans ((prefix_texts ?_ _).trans hinitial)
      intro q hq
      obtain ⟨s,hs,-⟩ := hgk q hq
      exact ⟨s,hs⟩
    have hname : resolveName (final.map reread) (token ((names.add (t.traceName s)).1-1)) =
        t.traceName s := by
      obtain ⟨cs,hcs⟩ := hread.utf8
      apply resolveName_token
      rw [List.getElem?_map,getElem?_traceName hopen,Option.map_some,hcs,reread_utf8]
    rw [texts_node hs] at hfuel ⊢
    have hlen := hfuel _ List.mem_cons_self
    obtain ⟨fuel,rfl⟩ : ∃ k, fuel = k+1 := Nat.exists_eq_succ_of_ne_zero (by omega)
    have hshort : ∀ b ∈ (kids.texts t.segmentOpening (t.segmentOpening p names).2).1,
        b.length < fuel := by
      intro b hb
      have hone := length_lt_arrayText hb
      have htwo := length_lt_arrayText (List.mem_append_right (t.fieldTexts s names)
        (List.mem_singleton_self (arrayText
          (kids.texts t.segmentOpening (t.segmentOpening p names).2).1)))
      omega
    obtain ⟨below,hbelow,hviewk⟩ := ihk hgk hinitial hshort
    obtain ⟨behind,hbehind,hviewr⟩ := ihr hgr hfinal fun b hb => hfuel b (List.mem_cons_of_mem _ hb)
    have htight := tight_texts (fun q hq => by
      obtain ⟨s,hs,hread⟩ := hgk q hq
      exact ⟨s,hs,hread.printable⟩) (t.segmentOpening p names).2
    obtain ⟨seg,hseg,hdecode⟩ := decodeNode_arrayText hread.start hread.stop
      (unmarshalString_token _) hname hread.named htight
      (tight_nodeTexts hread.printable names htight) hbelow
    change decodeNode _ _ _ (arrayText (t.fieldTexts s names ++ [arrayText _])) = _ at hdecode
    refine ⟨.node seg below behind,?_,?_⟩
    · rw [decodeForest,hdecode,decoded_bind,hbehind]
      rfl
    · simp only [Forest.map,hviewk,hviewr,hseg,returned,hs,Option.getD_some]

end Decode

/-! ### The document -/

/-- The text of the attributes of a trace. -/
def attributesText (attributes : NrHash) : Bytes :=
  addAttributeHashToBuffer [0x7b] (some attributes) ++ [0x7d]

lemma tight_attributesText {attributes : NrHash} (h : MembersPrintable attributes) :
    Tight (attributesText attributes) where
  accepted := by
    have hopen : Inside ⟨.value,[]⟩ [] [0x7b] := .inl ⟨rfl,rfl⟩
    have hinside : Inside ⟨.value,[]⟩ [] (addAttributeHashToBuffer [0x7b] (some attributes)) := by
      apply inside_attributeHash hopen
      rintro a ha
      cases ha
      exact h
    exact accepts_of_run rfl hinside.close
  starts := by
    obtain ⟨x,hx⟩ := (appends_attributeHash (some attributes) [] [0x7b] (by simp)).2
    refine ⟨0x7b,x ++ [0x7d],?_,by decide⟩
    exact congrArg (· ++ [0x7d]) hx.symm
  ends := ⟨_,_,rfl,by decide⟩

/-- The text of the node that stands for the transaction. -/
def rootText (duration : ℕ) (pieces : List Bytes) : Bytes :=
  arrayText [decimal 0,decimal (duration/1000),quoted (ascii "ROOT"),[0x7b,0x7d],arrayText pieces]

/-- The elements of the header. -/
def headerTexts (duration : ℕ) (pieces : List Bytes) (attributes : NrHash) : List Bytes :=
  [decimal 0,[0x7b,0x7d],[0x7b,0x7d],rootText duration pieces,attributesText attributes]

lemma traceText_eq (duration : ℕ) (pieces : List Bytes) (attributes : NrHash) (names : StringPool) :
    addTraceFooter (traceHeader duration ++ [code ','].intercalate pieces) attributes names =
      arrayText [arrayText (headerTexts duration pieces attributes),names.toJson] := by
  have hcut := (appends_attributeHash (some attributes)
    (traceHeader duration ++ [code ','].intercalate pieces ++ [code ']',code ']',code ',']) [0x7b]
    (by simp)).1
  have hfooter : ascii "]],\x7b" = [code ']',code ']',code ','] ++ [0x7b] := by decide
  have hheader : ascii "[[0,\x7b\x7d,\x7b\x7d,[0," = [code '[',code '[',code '0',code ',',0x7b,0x7d,
    code ',',0x7b,0x7d,code ',',code '[',code '0',code ','] := by decide
  have hroot : ascii ",\"ROOT\",\x7b\x7d,[" = code ',' :: (quoted (ascii "ROOT") ++
    [code ',',0x7b,0x7d,code ',',code '[']) := by decide
  have hclose : ascii "\x7d]," = [0x7d,code ']',code ','] := by decide
  have hend : ascii "]" = [code ']'] := by decide
  have hzero : decimal 0 = [code '0'] := by decide
  simp only at hcut
  rw [addTraceFooter,hfooter,← List.append_assoc,hcut,hclose,hend]
  simp only [traceHeader,hheader,hroot,arrayText,headerTexts,rootText,attributesText,hzero]
  simp [List.intercalate]

lemma tight_rootTexts (duration : ℕ) {pieces : List Bytes} (h : ∀ b ∈ pieces, Tight b) :
    ∀ b ∈ [decimal 0,decimal (duration/1000),quoted (ascii "ROOT"),[0x7b,0x7d],arrayText pieces],
      Tight b := by
  intro b hb
  simp only [List.mem_cons,List.not_mem_nil,or_false] at hb
  rcases hb with rfl | rfl | rfl | rfl | rfl
  · exact tight_decimal _
  · exact tight_decimal _
  · exact tight_quoted (plain_of_forall (by decide +kernel))
  · exact tight_object
  · exact tight_arrayText fun b hb => (h b hb).accepted

lemma tight_headerTexts (duration : ℕ) {pieces : List Bytes} (h : ∀ b ∈ pieces, Tight b)
    {attributes : NrHash} (hattr : MembersPrintable attributes) :
    ∀ b ∈ headerTexts duration pieces attributes, Tight b := by
  intro b hb
  simp only [headerTexts,List.mem_cons,List.not_mem_nil,or_false] at hb
  rcases hb with rfl | rfl | rfl | rfl | rfl
  · exact tight_decimal _
  · exact tight_object
  · exact tight_object
  · exact tight_arrayText fun b hb => (tight_rootTexts duration h b hb).accepted
  · exact tight_attributesText hattr

lemma tight_toJson (names : StringPool) : Tight names.toJson := by
  apply tight_arrayText
  intro b hb
  obtain ⟨s,-,rfl⟩ := List.mem_map.mp hb
  exact accepts_jsonEscape s

section Trace
variable {nearest : ℚ → Option ℚ} {duration : ℕ}

/-- The envelope is taken apart, and the node of the transaction is what is read. -/
theorem decodeTrace_envelope {pieces : List Bytes} (h : ∀ b ∈ pieces, Tight b)
    {attributes : NrHash} (hattr : MembersPrintable attributes) {names : StringPool} {data : Bytes}
    (hdata : data = arrayText [arrayText (headerTexts duration pieces attributes),names.toJson])
    {root : Pprof.Segment × Forest Pprof.Segment}
    (hroot : decodeNode nearest (resolveName (names.map reread)) (data.length+1)
      (rootText duration pieces) = .ok root) (traceName : Bytes) (start : ℚ) :
    ∃ trace, decodeTrace nearest data traceName start = .ok trace ∧ trace.name = traceName ∧
      trace.root = some root := by
  have hheader := tight_headerTexts duration h hattr
  have henvelope : ∀ b ∈ [arrayText (headerTexts duration pieces attributes),names.toJson],
      Tight b := by
    intro b hb
    simp only [List.mem_cons,List.not_mem_nil,or_false] at hb
    rcases hb with rfl | rfl
    · exact tight_arrayText fun b hb => (hheader b hb).accepted
    · exact tight_toJson names
  have htable : findStringTable [arrayText (headerTexts duration pieces attributes),names.toJson] =
      names.map reread := by
    have hnone : unmarshalStrings (arrayText (headerTexts duration pieces attributes)) = none :=
      unmarshalStrings_number hheader
    simp [findStringTable,hnone,unmarshalStrings_toJson]
  refine ⟨⟨traceName,toInt64 ((nearest (start*1000000)).getD (start*1000000)),some root⟩,?_,rfl,rfl⟩
  have hslice : unmarshalSlice data =
      some [arrayText (headerTexts duration pieces attributes),names.toJson] := by
    rw [hdata,unmarshalSlice_arrayText henvelope]
  rw [decodeTrace,hslice]
  simp only [orError_some,decoded_bind,unmarshalSlice_arrayText hheader,htable]
  simp only [headerTexts,hroot]
  rfl

/-- The text of a trace with these trees is read as the forest of its trees below the transaction. -/
theorem decodeTrace_traceText {g : Forest SegPtr}
    (hg : ∀ q ∈ g.toList, ∃ s, t.segs q = some s ∧ Readable nearest t s)
    (hzero : (nearest (0 : ℕ)).isSome) (hduration : (nearest (duration/1000 : ℕ)).isSome)
    {attributes : NrHash} (hattr : MembersPrintable attributes) (traceName : Bytes) (start : ℚ) :
    ∃ trace, decodeTrace nearest (addTraceFooter (traceHeader duration ++
        [code ','].intercalate (g.texts t.segmentOpening []).1) attributes
        (g.texts t.segmentOpening []).2) traceName start = .ok trace ∧
      trace.name = traceName ∧
      trace.tree.map Pprof.Segment.told =
        .node (ascii "ROOT",rounded nearest 0,rounded nearest (duration/1000))
          (g.map (t.returned nearest)) .nil := by
  have hpieces := tight_texts (fun q hq => by
    obtain ⟨s,hs,hread⟩ := hg q hq
    exact ⟨s,hs,hread.printable⟩) []
  have htext := traceText_eq duration (g.texts t.segmentOpening []).1 attributes
    (g.texts t.segmentOpening []).2
  generalize hdata : addTraceFooter _ _ _ = data at htext ⊢
  have hroot : (rootText duration (g.texts t.segmentOpening []).1).length < data.length := by
    have hheader : (arrayText (headerTexts duration (g.texts t.segmentOpening []).1
        attributes)).length < data.length := by
      rw [htext]
      exact length_lt_arrayText List.mem_cons_self
    exact (length_lt_arrayText (by simp [headerTexts])).trans hheader
  have hshort : ∀ b ∈ (g.texts t.segmentOpening []).1, b.length < data.length := by
    intro b hb
    have hpiece : (arrayText (g.texts t.segmentOpening []).1).length <
        (rootText duration (g.texts t.segmentOpening []).1).length :=
      length_lt_arrayText (by simp)
    exact ((length_lt_arrayText hb).trans hpiece).trans hroot
  obtain ⟨below,hbelow,htold⟩ := decodeForest_texts hg List.prefix_rfl hshort
  have hname : resolveName ((g.texts t.segmentOpening []).2.map reread) (ascii "ROOT") =
      ascii "ROOT" := by
    simp [resolveName,ascii,code]
  obtain ⟨seg,hseg,hdecode⟩ := decodeNode_arrayText hzero hduration
    (show unmarshalString (quoted (ascii "ROOT")) = some (ascii "ROOT") by decide +kernel) hname
    (by decide +kernel) hpieces (tight_rootTexts duration hpieces) hbelow
  obtain ⟨trace,htrace,hnamed,hrootSeg⟩ := decodeTrace_envelope hpieces hattr htext hdecode traceName
    start
  refine ⟨trace,htrace,hnamed,?_⟩
  simp [Trace.tree,hrootSeg,Forest.map,hseg,htold]

/-- What the agent writes for a tree whose root it emits, the daemon reads. -/
theorem createData_decoded {r : SegPtr} (h : OneColour t r)
    (hzero : (nearest (0 : ℕ)).isSome) (hduration : (nearest (duration/1000 : ℕ)).isSome)
    {metadata : SamplingMetadata} (hwritten : t.Written r metadata.traceSet duration)
    (hroot : t.emitted metadata.traceSet r = true)
    (hsegs : ∀ q s, t.InTree r q → t.emitted metadata.traceSet q = true → t.segs q = some s →
      Readable nearest t s)
    {agentAttributes userAttributes : Option NrHash} {intrinsics : NrHash}
    (hattr : AttributesPrintable agentAttributes userAttributes intrinsics) (createSpans : Bool)
    (out : TxnFinal) (traceName : Bytes) (start : ℚ) :
    ∃ t' out' text trace f, t.createData duration metadata agentAttributes userAttributes intrinsics
        true createSpans out = some (t',out') ∧ out'.traceJson = some text ∧
      decodeTrace nearest text traceName start = .ok trace ∧ trace.name = traceName ∧
      TreeForest t r f ∧ trace.tree.map Pprof.Segment.told =
        .node (ascii "ROOT",rounded nearest 0,rounded nearest (duration/1000))
          ((f.prune (t.emitted metadata.traceSet)).map (t.returned nearest)) .nil := by
  obtain ⟨f,mark,hf,hwalk⟩ := h.exists_forest
  obtain ⟨t',out',heq,-,hyes⟩ := createData_text h hf hwalk duration metadata agentAttributes
    userAttributes intrinsics createSpans out
  have hread : ∀ q ∈ (f.prune (t.emitted metadata.traceSet)).toList,
      ∃ s, t.segs q = some s ∧ Readable nearest t s := by
    intro q hq
    obtain ⟨htree,hemit⟩ := (hf.mem_prune q).mp hq
    obtain ⟨s,hs⟩ := hf.live q ((hf.mem_iff q).mpr htree)
    exact ⟨s,hs,hsegs q s htree hemit hs⟩
  -- the root is emitted, so there is one tree, and no comma is missing
  have hone : ((f.prune (t.emitted metadata.traceSet)).texts t.segmentOpening []).1.flatten =
      [code ','].intercalate ((f.prune (t.emitted metadata.traceSet)).texts t.segmentOpening []).1 := by
    obtain ⟨kids,rfl⟩ : ∃ kids, f = .node r kids .nil := by
      cases hf.spans with
      | node _ _ hrest =>
        cases hrest
        exact ⟨_,rfl⟩
    simp [prune,hroot,texts]
  obtain ⟨trace,htrace,hname,htold⟩ := decodeTrace_traceText hread hzero hduration hattr.members
    traceName start
  rw [← hone] at htrace
  exact ⟨t',out',_,trace,f,heq,hyes hwritten,htrace,hname,hf,htold⟩

/-- The daemon reads what the agent writes as the tree of the emitted segments below the node of the
transaction, with their names and their milliseconds. -/
theorem trace_decoded {r : SegPtr} (h : OneColour t r)
    (hnear : ∀ n : ℕ, n ≤ 2^53 → nearest n = some (n : ℚ)) {duration : ℕ}
    (hduration : duration/1000 ≤ 2^53) {metadata : SamplingMetadata}
    (hwritten : t.Written r metadata.traceSet duration)
    (hroot : t.emitted metadata.traceSet r = true)
    (hsegs : ∀ q s, t.InTree r q → t.emitted metadata.traceSet q = true → t.segs q = some s →
      s.Printable ∧ (∃ cs, t.traceName s = utf8 cs) ∧ Pprof.blank (t.traceName s) = false ∧
        s.stopTime/1000 ≤ 2^53)
    {agentAttributes userAttributes : Option NrHash} {intrinsics : NrHash}
    (hattr : AttributesPrintable agentAttributes userAttributes intrinsics) (createSpans : Bool)
    (out : TxnFinal) (traceName : Bytes) (start : ℚ) :
    ∃ t' out' text trace f, t.createData duration metadata agentAttributes userAttributes intrinsics
        true createSpans out = some (t',out') ∧ out'.traceJson = some text ∧
      decodeTrace nearest text traceName start = .ok trace ∧ trace.name = traceName ∧
      TreeForest t r f ∧ trace.tree.map Pprof.Segment.told =
        .node (ascii "ROOT",0,((duration/1000 : ℕ) : ℤ))
          ((f.prune (t.emitted metadata.traceSet)).map t.written) .nil := by
  have htimes : ∀ q s, t.InTree r q → t.emitted metadata.traceSet q = true → t.segs q = some s →
      nearest (startMs s) = some (startMs s : ℚ) ∧ nearest (stopMs s) = some (stopMs s : ℚ) := by
    intro q s htree hemit hs
    have hstop := (hsegs q s htree hemit hs).2.2.2
    have hstart : s.startTime/1000 ≤ s.stopTime/1000 :=
      Nat.div_le_div_right ((emitted_iff hs).mp hemit).1.le
    refine ⟨hnear _ (hstart.trans hstop),hnear _ ?_⟩
    rw [stopMs,max_eq_right hstart]
    exact hstop
  have hread : ∀ q s, t.InTree r q → t.emitted metadata.traceSet q = true → t.segs q = some s →
      Readable nearest t s := by
    intro q s htree hemit hs
    obtain ⟨hprint,hutf8,hblank,-⟩ := hsegs q s htree hemit hs
    obtain ⟨hstart,hstop⟩ := htimes q s htree hemit hs
    exact ⟨hprint,hutf8,hblank,by rw [hstart]; rfl,by rw [hstop]; rfl⟩
  have hzero := hnear 0 (Nat.zero_le _)
  have hroots := hnear _ hduration
  obtain ⟨t',out',text,trace,f,heq,htext,htrace,hname,hf,htold⟩ := createData_decoded h
    (by rw [hzero]; rfl) (by rw [hroots]; rfl) hwritten hroot hread hattr createSpans out traceName start
  refine ⟨t',out',text,trace,f,heq,htext,htrace,hname,hf,?_⟩
  rw [htold,rounded_of_exact hzero,rounded_of_exact hroots]
  congr 1
  apply Forest.map_congr
  intro q hq
  obtain ⟨htree,hemit⟩ := (hf.mem_prune q).mp hq
  obtain ⟨s,hs⟩ := hf.live q ((hf.mem_iff q).mpr htree)
  obtain ⟨hstart,hstop⟩ := htimes q s htree hemit hs
  simp only [returned,written,hs,Option.getD_some,rounded_of_exact hstart,rounded_of_exact hstop]

end Trace

/-- The segments of the pair, which have no names and no data. -/
theorem pairTxn_segments (stop : ℕ) : ∃ t, pairTxn stop = some t ∧ PairOf t ∧
    (∀ q s, t.segs q = some s → s.Printable ∧ t.traceName s = ascii "<unknown>" ∧
      s.stopTime ≤ max stop 5000) ∧ ∃ s, t.segs 2 = some s ∧ s.startTime = 0 ∧ s.stopTime = stop := by
  obtain ⟨t,ht,hpair⟩ := exists_pairTxn stop
  have hdata : ∃ t x y, pairTxn stop = some t ∧ t.slab.next = 3 ∧ t.segs 0 = none ∧ t.segs 1 = some x ∧
      t.segs 2 = some y ∧ t.traceName x = ascii "<unknown>" ∧ x.typedAttributes = none ∧
      x.attributes = none ∧ x.stopTime = 5000 ∧ t.traceName y = ascii "<unknown>" ∧
      y.typedAttributes = none ∧ y.attributes = none ∧ y.startTime = 0 ∧ y.stopTime = stop :=
    ⟨_,_,_,rfl,rfl,rfl,rfl,rfl,rfl,rfl,rfl,rfl,rfl,rfl,rfl,rfl,rfl⟩
  obtain ⟨t',x,y,ht',hnext,h0,h1,h2,hxn,hxt,hxa,hxs,hyn,hyt,hya,hyb,hys⟩ := hdata
  rw [ht,Option.some_inj] at ht'
  subst ht'
  have hprint : ∀ s : Segment, s.typedAttributes = none → s.attributes = none → s.Printable := by
    intro s htyped hattrs
    constructor
    · intro a ha
      rw [htyped] at ha
      cases ha
    · intro a ha
      rw [hattrs] at ha
      cases ha
  refine ⟨t,ht,hpair,fun q s hq => ?_,y,h2,hyb,hys⟩
  have hlt := hpair.oneColour.inv.live_lt hq
  rw [hnext] at hlt
  interval_cases q
  · rw [h0] at hq
    cases hq
  · rw [h1,Option.some_inj] at hq
    subst hq
    exact ⟨hprint x hxt hxa,hxn,hxs ▸ le_max_right ..⟩
  · rw [h2,Option.some_inj] at hq
    subst hq
    exact ⟨hprint y hyt hya,hyn,hys ▸ le_max_left ..⟩

lemma unknown_readable : (∃ cs, ascii "<unknown>" = utf8 cs) ∧ Pprof.blank (ascii "<unknown>") = false :=
  ⟨⟨"<unknown>".toList,by decide +kernel⟩,by decide +kernel⟩

/-- The pair is written, and its root is emitted. -/
theorem PairOf.written {t : Txn} (h : PairOf t) :
    t.Written 1 (some {1,2}) 5000 ∧ t.emitted (some {1,2}) 1 = true := by
  constructor
  · refine ⟨by rw [h.count]; decide,by decide,by decide,fun q s _ hs => ?_⟩
    rw [h.times q s hs]
    exact Nat.zero_le _
  · obtain ⟨x,hx,-⟩ := h.oneColour.tree
    obtain ⟨hstart,hstop⟩ := h.rootTimes x hx
    exact (emitted_iff hx).mpr ⟨by omega,by simp [isSampled]⟩

lemma attributesPrintable_none : AttributesPrintable none none [] :=
  ⟨fun a ha => by (cases ha),fun a ha => by (cases ha),trivial⟩

/-- Both segments take time, and both come back. -/
theorem trace_decoded_pair : ∃ t t' out text trace f, pairTxn 4000 = some t ∧
    t.createData 5000 ⟨some {1,2},none⟩ none none [] true false ⟨none,none,0⟩ = some (t',out) ∧
    out.traceJson = some text ∧ decodeTrace some text (ascii "name") 0 = .ok trace ∧
    trace.name = ascii "name" ∧ TreeForest t 1 f ∧ trace.tree.map Pprof.Segment.told =
      .node (ascii "ROOT",0,((5000/1000 : ℕ) : ℤ))
        ((f.prune (t.emitted (some {1,2}))).map t.written) .nil := by
  obtain ⟨t,ht,hpair,hsegs,-⟩ := pairTxn_segments 4000
  have hread : ∀ q s, t.InTree 1 q → t.emitted (some {1,2}) q = true → t.segs q = some s →
      s.Printable ∧ (∃ cs, t.traceName s = utf8 cs) ∧ Pprof.blank (t.traceName s) = false ∧
        s.stopTime/1000 ≤ 2^53 := by
    intro q s _ _ hs
    obtain ⟨hprint,hnamed,hle⟩ := hsegs q s hs
    have hsmall : s.stopTime ≤ 2^53 := hle.trans (by norm_num)
    rw [hnamed]
    exact ⟨hprint,unknown_readable.1,unknown_readable.2,(Nat.div_le_self ..).trans hsmall⟩
  obtain ⟨t',out,text,trace,f,heq,htext,htrace,hname,hf,htold⟩ := @trace_decoded t some 1
    hpair.oneColour (fun _ _ => rfl) 5000 (by norm_num) ⟨some {1,2},none⟩ hpair.written.1
    hpair.written.2 hread none none [] attributesPrintable_none false ⟨none,none,0⟩ (ascii "name") 0
  exact ⟨t,t',out,text,trace,f,ht,heq,htext,htrace,hname,hf,htold⟩

/-- What the daemon reads of the pair. -/
def pairDecoded (stop : ℕ) (nearest : ℚ → Option ℚ) : Option Trace := do
  let t ← pairTxn stop
  let (_,out) ← t.createData 5000 ⟨some {1,2},none⟩ none none [] true false ⟨none,none,0⟩
  let text ← out.traceJson
  (decodeTrace nearest text [] 0).toOption

/-- Rounding of the number behind `2^53`, to the even neighbour. -/
def roundBehind (q : ℚ) : Option ℚ := some (if q = 2^53+1 then 2^53 else q)

lemma rounded_roundBehind (n : ℕ) : rounded roundBehind n ≠ 2^53+1 := by
  unfold rounded roundBehind
  split_ifs with h
  · norm_num [toInt64]
  · simp only [Option.getD_some,toInt64,Rat.num_natCast,Rat.den_natCast]
    intro heq
    apply h
    have hint : (n : ℤ) = 2^53+1 := by simpa using heq
    exact_mod_cast hint

/-- A sampled segment of no duration does not come back, and the millisecond behind `2^53` comes back as
the one before. -/
theorem trace_not_decoded :
    (∃ t trace root below, pairTxn 0 = some t ∧ OneColour t 1 ∧ t.InTree 1 2 ∧
      pairDecoded 0 some = some trace ∧ trace.root = some (root,below) ∧ root.name = ascii "ROOT" ∧
      below.toList.length = 1) ∧
    ∃ t trace s, pairTxn ((2^53+1)*1000) = some t ∧ OneColour t 1 ∧ t.segs 2 = some s ∧
      stopMs s = 2^53+1 ∧ pairDecoded ((2^53+1)*1000) roundBehind = some trace ∧
      ∀ seg ∈ trace.tree.toList, seg.stopMs ≠ 2^53+1 := by
  constructor
  · obtain ⟨t,ht,hpair⟩ := exists_pairTxn 0
    have hdecoded : ((pairDecoded 0 some).bind (·.root)).map (fun r => (r.1.name,r.2.toList.length)) =
        some (ascii "ROOT",1) := by decide +kernel
    obtain ⟨⟨root,below⟩,hroot,hdata⟩ := Option.map_eq_some_iff.mp hdecoded
    obtain ⟨trace,htrace,hroot⟩ := Option.bind_eq_some_iff.mp hroot
    obtain ⟨hname,hlen⟩ := Prod.mk.inj hdata
    exact ⟨t,trace,root,below,ht,hpair.oneColour,hpair.child,htrace,hroot,hname,hlen⟩
  · generalize hstopTime : (2^53+1)*1000 = stop
    obtain ⟨t,ht,hpair,hsegs,s,hs,hstart,hstop⟩ := pairTxn_segments stop
    have hread : ∀ q s, t.InTree 1 q → t.emitted (some {1,2}) q = true → t.segs q = some s →
        Readable roundBehind t s := by
      intro q s _ _ hs
      obtain ⟨hprint,hnamed,-⟩ := hsegs q s hs
      refine ⟨hprint,?_,?_,rfl,rfl⟩
      · rw [hnamed]
        exact unknown_readable.1
      · rw [hnamed]
        exact unknown_readable.2
    obtain ⟨t',out,text,trace,f,heq,htext,htrace,-,-,htold⟩ := @createData_decoded t roundBehind 5000
      1 hpair.oneColour rfl rfl ⟨some {1,2},none⟩ hpair.written.1 hpair.written.2 hread none none []
      attributesPrintable_none false ⟨none,none,0⟩ [] 0
    have hdecoded : pairDecoded stop roundBehind = some trace := by
      simp only [pairDecoded,ht,heq,htext,htrace,Option.bind_eq_bind,Option.bind_some]
      rfl
    have hms : stopMs s = 2^53+1 := by
      rw [stopMs,hstart,hstop,← hstopTime]
      norm_num
    refine ⟨t,trace,s,ht,hpair.oneColour,hs,hms,hdecoded,fun seg hseg => ?_⟩
    have hmem : seg.told ∈ (trace.tree.map Pprof.Segment.told).toList := by
      rw [Forest.toList_map]
      exact List.mem_map_of_mem hseg
    rw [htold,Forest.toList,Forest.toList_map] at hmem
    have hround : ∃ n, seg.stopMs = rounded roundBehind n := by
      rcases List.mem_cons.mp hmem with hroot | hmem
      · exact ⟨_,congrArg (fun r => r.2.2) hroot⟩
      · rcases List.mem_append.mp hmem with hmem | hmem
        · obtain ⟨q,-,hq⟩ := List.mem_map.mp hmem
          exact ⟨_,(congrArg (fun r => r.2.2) hq).symm⟩
        · cases hmem
    obtain ⟨n,hn⟩ := hround
    rw [hn]
    exact rounded_roundBehind n

end Txn
end PhpAgent

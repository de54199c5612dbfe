import PhpAgent.Util.FlatbufferContents

/-! The span events of a transaction message, after `nr_txndata_prepend_span_events` of
`cmd_txndata_transmit.c`. The JSON of a span event is a parameter. -/
namespace PhpAgent.TxndataSpans
open Flat FlatBuilder FlatBuilder.Builder

variable {E : Type}

/-- The table of one event with its JSON. -/
def prependEvent (malloc : ℕ → ℕ) (fb : Builder) (json : Bytes) : Except FlatBuilder.Fault (ℕ × Builder) := do
  let (data,fb) ← fb.prependBytes malloc json
  let fb := (fb.objectBegin 1).2
  let fb ← fb.objectPrependUoffset malloc 0 data 0
  FlatBuilder.objectEnd malloc fb

/-- A round of the first loop. An event without JSON is logged only. -/
def encodeRound (malloc : ℕ → ℕ) (encode : E → Option Bytes) (spanEvents : List E) (s : List ℕ × Builder) (i : ℕ) :
    Except FlatBuilder.Fault (List ℕ × Builder) :=
  match spanEvents[i]? >>= encode with
  | none => .ok s
  | some json => do
    let (offset,fb) ← prependEvent malloc s.2 json
    if i < s.1.length then .ok (s.1.set i offset,fb) else .error .outside

/-- The second loop from an `i` on, which it counts down before it reads. The predecessor of 0 is the
greatest `size_t`, where no array reaches. -/
def prependFrom (malloc : ℕ → ℕ) (offsets : List ℕ) : ℕ → Builder → Except FlatBuilder.Fault Builder
  | 0,_ => .error .outside
  | i + 1,fb =>
    match offsets[i]? with
    | none => .error .outside
    | some offset => fb.prependUoffset malloc offset >>= fun fb =>
      if 0 < i then prependFrom malloc offsets i fb else .ok fb

/-- `nr_txndata_prepend_span_events`. -/
def prependSpanEvents (malloc : ℕ → ℕ) (encode : E → Option Bytes) (fb : Builder) (spanEvents : List E)
    (spanEventLimit : ℕ) : Except FlatBuilder.Fault (ℕ × Builder) :=
  if spanEvents.length = 0 then .ok (0,fb)
  else do
    let eventCount := if spanEventLimit < spanEvents.length then spanEventLimit else spanEvents.length
    let (offsets,fb) ← (List.range eventCount).foldlM (encodeRound malloc encode spanEvents)
      (List.replicate eventCount 0,fb)
    let fb ← fb.vectorBegin malloc 4 eventCount 4
    let fb ← prependFrom malloc offsets eventCount fb
    fb.vectorEnd eventCount

/-! ### What is promised -/

/-- A reader finds the JSON in the only field of a table. -/
def ShowsEvent (data : Memory) (pos : ℕ) (json : Bytes) : Prop :=
  tableReadVectorLen (tableInit data pos) 0 = json.length ∧
    if json = [] then tableReadBytes (tableInit data pos) 0 = none
    else ∃ start, tableReadBytes (tableInit data pos) 0 = some start ∧ bytesAt data start json.length = json

/-- A reader finds a vector of these events. -/
def ShowsEvents (data : Memory) (pos : ℕ) (jsons : List Bytes) : Prop :=
  readUoffset data pos = jsons.length ∧ ∀ (j : ℕ) json, jsons[j]? = some json →
    ShowsEvent data (readIndirect data (pos + 4 + 4 * j)) json

/-- More than this is not written for the events. -/
def bound (jsons : List Bytes) : ℕ := (jsons.map fun json => json.length + 32).sum + (4 * jsons.length + 11)

/-- The vector is written and no access leaves the offset array, or the buffer would have to grow
beyond two gigabytes. There is no vector, which an offset of 0 says, when there are no events. -/
def Delivers (malloc : ℕ → ℕ) (encode : E → Option Bytes) (fb : Builder) (spanEvents : List E) (limit : ℕ) : Prop :=
  let jsons := (spanEvents.take (min spanEvents.length limit)).filterMap encode
  Ends (fun fault => fault = .tooLarge ∧ 2 ^ 30 ≤ fb.len + bound jsons)
    (fun r => if r.1 = 0 then jsons = []
      else ∀ data, Contains data r.2.used → ShowsEvents data (r.2.len - r.1) jsons)
    (prependSpanEvents malloc encode fb spanEvents limit)

/-! ### Events -/

/-- Where the table of an event lies. -/
def EventAt (used : Bytes) (offset : ℕ) (json : Bytes) : Prop :=
  ∃ fields target, TableAt used offset fields ∧ OffsetField used offset fields 0 target ∧
    Lies used target (lowBytes 4 json.length ++ json)

section Events
variable {malloc : ℕ → ℕ} {encode : E → Option Bytes} {stops : FlatBuilder.Fault → Prop} {fb : Builder}
  {json : Bytes} {jsons : List Bytes} {spanEvents : List E}

lemma EventAt.mono {used used' : Bytes} {offset : ℕ} (h : EventAt used offset json)
    (hused : used <:+ used') : EventAt used' offset json := by
  obtain ⟨fields,target,htable,⟨place,htarget,hplace,hfield,hlies⟩,hjson⟩ := h
  exact ⟨fields,target,htable.mono hused,⟨place,htarget,hplace,hfield,hlies.mono hused⟩,hjson.mono hused⟩

lemma EventAt.shows {data : Memory} {used : Bytes} {offset : ℕ} (h : EventAt used offset json)
    (hdata : Contains data used) (hsmall : used.length < 2 ^ 31) :
    ShowsEvent data (used.length - offset) json := by
  obtain ⟨fields,target,htable,hfield,hlies⟩ := h
  have hle := hlies.length_le
  have hin := hlies.1
  rw [List.length_append,length_lowBytes] at hle
  have hread : readUoffset data (used.length - target : ℕ) = json.length :=
    hdata.readUoffset_lies (by omega) hlies
  refine ⟨(hfield.tableReadVectorLen hdata hsmall htable).trans hread,?_⟩
  have hbytes := hfield.tableReadBytes hdata hsmall htable
  rw [hread] at hbytes
  split_ifs with hnil
  · rw [hbytes,if_pos (by rw [hnil]; rfl)]
  · refine ⟨_,hbytes.trans (if_neg fun hzero => hnil (List.length_eq_zero_iff.mp hzero)),?_⟩
    have hrest := hlies.rest
    rw [length_lowBytes] at hrest
    have hpos : used.length - target + 4 = used.length - (target - 4) := by omega
    rw [hpos]
    exact hdata.bytesAt_of_lies hrest

lemma prependEvent_spec (hmalloc : EvenAddresses malloc) (h : fb.Sane) (houtside : fb.insideObject = false)
    (json : Bytes) (hstops : 2 ^ 30 ≤ fb.len + (json.length + 32) → stops .tooLarge) :
    Ends stops (fun r => Built fb (json.length + 32) r ∧ EventAt r.2.used r.1 json) (prependEvent malloc fb json) := by
  refine (block_spec hmalloc h json json.length fun hle => hstops (by omega)).bind fun r₁ ⟨hbuilt₁,hjson⟩ => ?_
  have hlt₁ := hbuilt₁.offset_lt
  have hle₁ := hbuilt₁.offset_le
  have hlen₁ := hbuilt₁.len_le
  obtain ⟨hbegun,hused₂,-⟩ := objectBegin_spec hbuilt₁.sane (hbuilt₁.insideObject.trans houtside) 1
  set fb₂ := (r₁.2.objectBegin 1).2
  have hlen₂ : fb₂.len = r₁.2.len := congrArg List.length hused₂
  change Ends stops _ (fb₂.objectPrependUoffset malloc 0 r₁.1 0 >>= FlatBuilder.objectEnd malloc)
  have hne : r₁.1 ≠ 0 := by omega
  rw [objectPrependUoffset,if_pos hne,bind_assoc]
  have hin : r₁.1 ≤ fb₂.len := hle₁.trans_eq hlen₂.symm
  refine (prependUoffset_spec hmalloc hbegun.sane hin fun hle => hstops (by omega)).bind fun fb₃ hput => ?_
  obtain ⟨hlen₃,hlen₃'⟩ := hput.len
  rw [length_lowBytes] at hlen₃ hlen₃'
  obtain ⟨fb₄,hset,hin₄,hused₄,hvtable₄⟩ := hbegun.setField hput Nat.one_pos (by rw [length_lowBytes]; decide)
  have hlen₄ : fb₄.len = fb₃.len := congrArg List.length hused₄
  rw [hset]
  refine (objectEnd_spec hmalloc hin₄ (by decide) (fun hle => hstops (by omega)) fun hle => absurd hle (by omega)).mono
    fun r ⟨hsane,hoff,hsuffix,hlt,hle,hbound,htable⟩ => ?_
  have hsuffix₃ : r₁.2.used <:+ fb₃.used := hused₂ ▸ hput.suffix
  have hsuffix₄ : fb₃.used <:+ r.2.used := hused₄ ▸ hsuffix
  refine ⟨⟨hsane,hoff.trans houtside.symm,hbuilt₁.suffix.trans (hsuffix₃.trans hsuffix₄),by omega,hle,by omega⟩,
    _,r₁.1,htable,⟨fb₃.len,by omega,by omega,?_,hput.lies.mono hsuffix₄⟩,hjson.mono (hsuffix₃.trans hsuffix₄)⟩
  have hroom := hbegun.room
  have hentry : fb₄.vtable.getD 0 0 = fb₃.len := by
    rw [hvtable₄,List.getD_eq_getElem?_getD,List.getElem?_set_self (by omega)]
    rfl
  rw [getD_distances _ Nat.one_pos,hentry,if_neg (by omega)]

/-! ### The loops -/

/-- The bytes of the first events at most. -/
def cost (jsons : List Bytes) : ℕ := (jsons.map fun json => json.length + 32).sum

lemma cost_take_succ {k : ℕ} (hk : jsons[k]? = some json) :
    cost (jsons.take (k + 1)) = cost (jsons.take k) + (json.length + 32) := by
  rw [List.take_add_one,hk,Option.toList_some,cost,List.map_append,List.sum_append]
  rfl

lemma cost_take_mono (jsons : List Bytes) {k n : ℕ} (h : k ≤ n) : cost (jsons.take k) ≤ cost (jsons.take n) := by
  induction n, h using Nat.le_induction with
  | base => exact le_rfl
  | succ n _ ih =>
    cases hn : jsons[n]? with
    | none =>
      have hlen := List.getElem?_eq_none_iff.mp hn
      have hsame : jsons.take (n + 1) = jsons.take n := by
        rw [List.take_of_length_le hlen,List.take_of_length_le (hlen.trans (Nat.le_succ n))]
      rw [hsame]
      exact ih
    | some json => exact ih.trans (Nat.le_add_right _ _ |>.trans_eq (cost_take_succ hn).symm)

/-- What the first loop has done after so many rounds. -/
structure Encoded (fb : Builder) (jsons : List Bytes) (n k : ℕ) (s : List ℕ × Builder) : Prop where
  sane : s.2.Sane
  insideObject : s.2.insideObject = false
  suffix : fb.used <:+ s.2.used
  length_offsets : s.1.length = n
  len_le : s.2.len ≤ fb.len + cost (jsons.take k)
  events : ∀ (i : ℕ) json, i < k → jsons[i]? = some json →
    ∃ offset, s.1[i]? = some offset ∧ offset ≤ s.2.len ∧ EventAt s.2.used offset json

lemma encodeLoop_spec (hmalloc : EvenAddresses malloc) (h : fb.Sane) (houtside : fb.insideObject = false)
    (hjsons : ∀ i : ℕ, spanEvents[i]? >>= encode = jsons[i]?) (n : ℕ)
    (hn : n ≤ jsons.length) (hstops : 2 ^ 30 ≤ fb.len + cost (jsons.take n) → stops .tooLarge) {k : ℕ} (hk : k ≤ n) :
    Ends stops (Encoded fb jsons n k)
      ((List.range k).foldlM (encodeRound malloc encode spanEvents) (List.replicate n 0,fb)) := by
  induction k with
  | zero =>
    exact ⟨h,houtside,List.suffix_rfl,List.length_replicate,Nat.le_add_right _ _,fun i _ hi =>
      absurd hi (Nat.not_lt_zero i)⟩
  | succ k ih =>
    rw [List.range_succ,List.foldlM_append]
    refine (ih (Nat.le_of_succ_le hk)).bind fun s hs => ?_
    have hlt : k < jsons.length := hk.trans hn
    have hjson : jsons[k]? = some jsons[k] := List.getElem?_eq_getElem hlt
    have hcost := cost_take_succ hjson
    have hle := hs.len_le
    have hmono := cost_take_mono jsons hk
    have hround : Ends stops (Encoded fb jsons n (k + 1)) (encodeRound malloc encode spanEvents s k) := by
      rw [encodeRound,hjsons,hjson]
      refine (prependEvent_spec hmalloc hs.sane hs.insideObject jsons[k] fun hle => hstops (by omega)).bind
        fun ⟨offset,fb'⟩ ⟨hbuilt,hat⟩ => ?_
      have hin : k < s.1.length := hs.length_offsets.symm ▸ hk
      have hbound : fb'.len ≤ fb.len + cost (jsons.take (k + 1)) := by
        have hlen : fb'.len ≤ s.2.len + (jsons[k].length + 32) := hbuilt.len_le
        omega
      dsimp only
      rw [if_pos hin]
      refine ⟨hbuilt.sane,hbuilt.insideObject.trans hs.insideObject,hs.suffix.trans hbuilt.suffix,
        List.length_set.trans hs.length_offsets,hbound,fun i json hi hjsoni => ?_⟩
      obtain hi | rfl := Nat.lt_succ_iff_lt_or_eq.mp hi
      · obtain ⟨offset,hoffset,hoffsetLe,hevent⟩ := hs.events i json hi hjsoni
        refine ⟨offset,?_,hoffsetLe.trans hbuilt.suffix.length_le,hevent.mono hbuilt.suffix⟩
        rw [List.getElem?_set_ne hi.ne']
        exact hoffset
      · cases hjson.symm.trans hjsoni
        exact ⟨offset,List.getElem?_set_self hin,hbuilt.offset_le,hat⟩
    rw [List.foldlM_cons]
    exact hround.bind fun s' hs' => hs'

/-- The second loop takes the offsets from the last one on. -/
theorem prependFrom_eq {offsets : List ℕ} {i : ℕ} (hi : i < offsets.length) (fb : Builder) :
    prependFrom malloc offsets (i + 1) fb =
      (offsets.take (i + 1)).reverse.foldlM (fun fb offset => fb.prependUoffset malloc offset) fb := by
  induction i generalizing fb with
  | zero =>
    have hget : offsets[0]? = some offsets[0] := List.getElem?_eq_getElem hi
    rw [prependFrom,hget,List.take_add_one,hget]
    rfl
  | succ i ih =>
    have hget : offsets[i + 1]? = some offsets[i + 1] := List.getElem?_eq_getElem hi
    rw [prependFrom,hget,List.take_add_one,hget,Option.toList_some,List.reverse_append,List.reverse_singleton,
      List.singleton_append,List.foldlM_cons]
    refine congrArg (fb.prependUoffset malloc offsets[i + 1] >>= ·) (funext fun fb' => ?_)
    rw [if_pos (Nat.succ_pos i)]
    exact ih (Nat.lt_of_succ_lt hi) fb'

lemma exists_jsons (h : ∀ e ∈ spanEvents, ∃ json, encode e = some json) :
    ∃ jsons : List Bytes, jsons.length = spanEvents.length ∧ (∀ i : ℕ, spanEvents[i]? >>= encode = jsons[i]?) ∧
      ∀ k, (spanEvents.take k).filterMap encode = jsons.take k := by
  induction spanEvents with
  | nil => exact ⟨[],rfl,fun i => rfl,fun k => by rw [List.take_nil,List.take_nil]; rfl⟩
  | cons e spanEvents ih =>
    rw [List.forall_mem_cons] at h
    obtain ⟨json,hjson⟩ := h.1
    obtain ⟨jsons,hlen,hget,htake⟩ := ih h.2
    refine ⟨json :: jsons,congrArg Nat.succ hlen,fun i => ?_,fun k => ?_⟩
    · cases i with
      | zero => exact hjson
      | succ i => exact hget i
    · cases k with
      | zero => rfl
      | succ k => rw [List.take_succ_cons,List.filterMap_cons_some hjson,htake,List.take_succ_cons]

/-- The offsets that the first loop leaves. -/
theorem Encoded.forall₂ {n : ℕ} {s : List ℕ × Builder} (h : Encoded fb jsons n n s) (hn : n ≤ jsons.length) :
    List.Forall₂ (fun json offset => offset ≤ s.2.used.length ∧ EventAt s.2.used offset json) (jsons.take n) s.1 := by
  refine List.forall₂_iff_get.mpr ⟨(List.length_take_of_le hn).trans h.length_offsets.symm,fun i hi hi' => ?_⟩
  rw [List.length_take_of_le hn] at hi
  obtain ⟨offset,hoffset,hle,hat⟩ := h.events i _ hi (List.getElem?_eq_getElem (hi.trans_le hn))
  have hget : s.1[i] = offset := Option.some.inj ((List.getElem?_eq_getElem hi').symm.trans hoffset)
  rw [List.get_eq_getElem,List.get_eq_getElem,List.getElem_take]
  dsimp only
  rw [hget]
  exact ⟨hle,hat⟩

/-- The first loop leaves the events at the offsets. -/
theorem leaves_encoded (hmalloc : EvenAddresses malloc) {total : ℕ} {pre : Bytes → Prop}
    (htotal : 2 ^ 30 ≤ total → stops .tooLarge)
    (hjsons : ∀ i : ℕ, spanEvents[i]? >>= encode = jsons[i]?) {n : ℕ} (hn : n ≤ jsons.length) :
    Leaves buffered stops total (cost (jsons.take n)) pre
      (fun offsets used => List.Forall₂ (fun json o => o ≤ used.length ∧ EventAt used o json) (jsons.take n) offsets)
      (fun fb => (List.range n).foldlM (encodeRound malloc encode spanEvents) (List.replicate n 0,fb)) := by
  intro fb ⟨hsane,houtside⟩ _ hroom
  change fb.len + _ ≤ total at hroom
  refine (encodeLoop_spec hmalloc hsane houtside hjsons n hn (fun hlarge => htotal (by omega)) le_rfl).mono fun s hs => ?_
  exact ⟨⟨hs.sane,hs.insideObject⟩,hs.suffix,hs.len_le,hs.forall₂ hn⟩

lemma bound_take {n : ℕ} (hn : n ≤ jsons.length) :
    bound (jsons.take n) = cost (jsons.take n) + (4 * n + 11) := by
  rw [bound,List.length_take_of_le hn]
  rfl

lemma lasting_eventAt (json : Bytes) (o : ℕ) : Lasting fun used => EventAt used o json := fun _ _ h hused => h.mono hused

/-! ### The message -/

/-- Events that are counted are written, in their order. -/
theorem leaves_spanEvents (hmalloc : EvenAddresses malloc) {total : ℕ} {pre : Bytes → Prop} (hpre : Lasting pre)
    (htotal : 2 ^ 30 ≤ total → stops .tooLarge) (hall : ∀ e ∈ spanEvents, ∃ json, encode e = some json)
    {limit : ℕ} (hcount : spanEvents = [] ∨ limit ≠ 0)
    (hjsons : (spanEvents.take (min spanEvents.length limit)).filterMap encode = jsons) :
    Leaves buffered stops total (bound jsons) pre
      (fun o used => o ≤ used.length ∧ ListAt (fun json o used => EventAt used o json) used o jsons)
      (fun fb => prependSpanEvents malloc encode fb spanEvents limit) := by
  obtain ⟨all,hlen,hget,htake⟩ := exists_jsons hall
  rw [htake] at hjsons
  subst hjsons
  by_cases hnone : spanEvents.length = 0
  · have hempty : all.take (min spanEvents.length limit) = [] := by rw [hnone,Nat.zero_min,List.take_zero]
    intro fb hok _ _
    change Ends stops _ (prependSpanEvents malloc encode fb spanEvents limit)
    rw [hempty,prependSpanEvents,if_pos hnone]
    exact ⟨hok,List.suffix_rfl,Nat.le_add_right _ _,Nat.zero_le _,.inl ⟨rfl,rfl⟩⟩
  have hn : (if limit < spanEvents.length then limit else spanEvents.length) = min spanEvents.length limit := by
    split_ifs <;> omega
  have hlimit := hcount.resolve_left fun hnil => hnone (hnil ▸ rfl)
  set n := min spanEvents.length limit with hmin
  have hpos : 0 < n := by omega
  have hle : n ≤ all.length := by omega
  have hprogram : (fun fb => prependSpanEvents malloc encode fb spanEvents limit) = fun fb =>
      (List.range n).foldlM (encodeRound malloc encode spanEvents) (List.replicate n 0,fb) >>= fun s =>
        s.2.vectorBegin malloc 4 n 4 >>= fun fb => prependFrom malloc s.1 n fb >>= fun fb => fb.vectorEnd n := by
    funext fb
    rw [prependSpanEvents,if_neg hnone,hn]
  rw [hprogram,bound_take hle]
  refine (leaves_encoded hmalloc htotal hget hle).bind hpre fun offsets fb hok hbefore hroom => ?_
  have hlength : offsets.length = n := hbefore.2.length_eq.symm.trans (List.length_take_of_le hle)
  have hsecond : ∀ fb, prependFrom malloc offsets n fb =
      offsets.reverse.foldlM (fun fb offset => fb.prependUoffset malloc offset) fb := by
    intro fb
    obtain ⟨m,hm⟩ := Nat.exists_eq_succ_of_ne_zero hpos.ne'
    rw [hm,prependFrom_eq (by omega),List.take_of_length_le (by omega)]
  have hvector : Leaves buffered stops total _ _ _ (prependVector malloc offsets.reverse) :=
    leaves_vectorOf hmalloc htotal lasting_eventAt (all.take n).reverse offsets.reverse
  rw [List.length_reverse,List.length_take_of_le hle,List.reverse_reverse] at hvector
  have hvector' := hvector fb hok (List.rel_reverse hbefore.2) hroom
  simp only [prependVector,List.length_reverse,hlength] at hvector'
  simp only [hsecond]
  exact hvector'

/-- Events that are counted are shown to a reader. -/
theorem delivers_of_counted (hmalloc : EvenAddresses malloc) (h : fb.Sane)
    (houtside : fb.insideObject = false) (hall : ∀ e ∈ spanEvents, ∃ json, encode e = some json) {limit : ℕ}
    (hcount : spanEvents = [] ∨ limit ≠ 0) : Delivers malloc encode fb spanEvents limit := by
  unfold Delivers
  set jsons := (spanEvents.take (min spanEvents.length limit)).filterMap encode with hjsons
  have hleaves : Leaves buffered (fun fault : FlatBuilder.Fault => fault = .tooLarge ∧ 2 ^ 30 ≤ fb.len + bound jsons) (fb.len + bound jsons)
      (bound jsons) (fun _ => True) _ _ :=
    leaves_spanEvents hmalloc (lasting_const _) (fun hlarge => ⟨rfl,hlarge⟩) hall hcount hjsons.symm
  refine (hleaves fb ⟨h,houtside⟩ trivial le_rfl).mono fun r ⟨⟨hsane,_⟩,_,_,_,hlist⟩ => ?_
  have hsmall : r.2.used.length < 2 ^ 31 := hsane.fits.trans_lt hsane.small
  obtain ⟨hzero,hnil⟩ | ⟨hne,targets,hevents,hvector,hbelow⟩ := hlist
  · rwa [if_pos hzero]
  rw [if_neg hne]
  intro data hdata
  have hfits : r.1 ≤ r.2.used.length := hvector.1.1
  have hlength := hevents.length_eq
  have hmany : targets.length < 2 ^ 32 := by
    obtain rfl | ⟨front,last,hsplit⟩ := targets.eq_nil_or_concat'
    · decide
    · have hle := hbelow last (by rw [hsplit]; exact List.mem_concat_self)
      omega
  refine ⟨?_,fun j json hj => ?_⟩
  · rw [hlength]
    exact hdata.readUoffset_lies (s := []) hmany (by rw [List.append_nil]; exact hvector.1)
  · obtain ⟨target,htarget,hat⟩ := forall₂_getElem? hevents.flip hj
    have hindirect := hvector.readIndirect hdata hsmall hbelow htarget
    change ShowsEvent data (readIndirect data (r.2.used.length - r.1 + 4 + 4 * j)) json
    rw [hindirect]
    exact EventAt.shows hat hdata hsmall

/-- With a limit of zero the second loop starts below the array. -/
theorem not_delivers_zero (hmalloc : EvenAddresses malloc) (h : fb.Sane) (hfb : fb.len + 32 < 2 ^ 30)
    (hne : spanEvents ≠ []) : ¬Delivers malloc encode fb spanEvents 0 := by
  intro hdelivers
  have hlength : spanEvents.length ≠ 0 := fun hzero => hne (List.length_eq_zero_iff.mp hzero)
  have hbegin : Ends (fun _ => False) (fun _ => True) (fb.vectorBegin malloc 4 0 4) := by
    refine (prep_spec hmalloc h (by decide) fun hlarge => by omega).bind fun fb₁ hprep => ?_
    have hlen := hprep.len_le
    exact (prep_spec hmalloc hprep.sane (by decide) fun hlarge => by omega).mono fun _ _ => trivial
  obtain ⟨fb₁,hok,-⟩ := hbegin.exists_ok
  unfold Delivers prependSpanEvents at hdelivers
  rw [if_neg hlength,if_pos (Nat.pos_of_ne_zero hlength)] at hdelivers
  change Ends _ _ (fb.vectorBegin malloc 4 0 4 >>= fun fb => prependFrom malloc [] 0 fb >>= fun fb => fb.vectorEnd 0)
    at hdelivers
  rw [hok] at hdelivers
  exact absurd hdelivers.1 (by decide)

/-- Events are delivered exactly when there are none or the limit lets one through. -/
theorem delivers_iff (hmalloc : EvenAddresses malloc) (h : fb.Sane) (houtside : fb.insideObject = false)
    (hfb : fb.len + 32 < 2 ^ 30) {spanEvents : List E} (hall : ∀ e ∈ spanEvents, ∃ json, encode e = some json)
    (limit : ℕ) : Delivers malloc encode fb spanEvents limit ↔ spanEvents = [] ∨ limit ≠ 0 := by
  refine ⟨fun hdelivers => ?_,delivers_of_counted hmalloc h houtside hall⟩
  by_contra hnot
  rw [not_or,not_not] at hnot
  obtain ⟨hne,rfl⟩ := hnot
  exact not_delivers_zero hmalloc h hfb hne hdelivers

/-- Three events of different lengths and a limit of two, in a buffer that starts empty. -/
theorem delivers_three :
    Delivers sixteens (fun n : ℕ => some (List.replicate n 48)) (create sixteens 0) [1,20,300] 2 :=
  (delivers_iff evenAddresses_sixteens (sane_create evenAddresses_sixteens (by decide) (by decide)) rfl
    (by decide) (fun _ _ => ⟨_,rfl⟩) 2).mpr (.inr (by decide))

/-- One event and a limit of zero. -/
theorem not_delivers_one : ¬∀ (malloc : ℕ → ℕ) (encode : Unit → Option Bytes) (fb : Builder)
    (spanEvents : List Unit) (limit : ℕ), EvenAddresses malloc → fb.Sane → fb.insideObject = false →
    (∀ e ∈ spanEvents, ∃ json, encode e = some json) → Delivers malloc encode fb spanEvents limit := by
  intro h
  have hsane : (create sixteens 0).Sane := sane_create evenAddresses_sixteens (by decide) (by decide)
  have hdelivers := h sixteens (fun _ => some [123,125]) (create sixteens 0) [()] 0 evenAddresses_sixteens hsane rfl
    fun _ _ => ⟨_,rfl⟩
  exact not_delivers_zero evenAddresses_sixteens hsane (by decide) (List.cons_ne_nil _ _) hdelivers

end Events

end PhpAgent.TxndataSpans

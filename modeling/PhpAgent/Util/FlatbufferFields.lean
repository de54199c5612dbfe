import PhpAgent.Lib.Prepending
import PhpAgent.Util.FlatbufferMessages

/-! Tables that are built by one write after the other, in general. -/
namespace PhpAgent.FlatBuilder
open Flat Builder

/-- The buffer of a builder that is outside of an object. -/
def buffered : Buffered Builder UInt8 := ⟨fun fb => fb.Sane ∧ fb.insideObject = false,Builder.used⟩

/-- A table from the writes of its fields. -/
def prependObject (malloc : ℕ → ℕ) (numFields : ℕ) (writes : List (Builder → Except Fault Builder)) (fb : Builder) :
    Except Fault (ℕ × Builder) := do
  let fb ← writes.foldlM (fun fb write => write fb) (fb.objectBegin numFields).2
  FlatBuilder.objectEnd malloc fb

/-- A vector of offsets, from its last element on. -/
def prependVector (malloc : ℕ → ℕ) (offsets : List ℕ) (fb : Builder) : Except Fault (ℕ × Builder) := do
  let fb ← fb.vectorBegin malloc 4 offsets.length 4
  let fb ← offsets.foldlM (fun fb offset => fb.prependUoffset malloc offset) fb
  fb.vectorEnd offsets.length

/-! ### Strings and vectors -/

section Leaves
variable {malloc : ℕ → ℕ} {stops : Fault → Prop} {total bound : ℕ} {pre : Bytes → Prop} {P : ℕ → Bytes → Prop}

lemma leaves_of_built {f : Builder → Except Fault (ℕ × Builder)}
    (h : ∀ fb : Builder, fb.Sane → pre fb.used → fb.len + bound ≤ total →
      Ends stops (fun r => Built fb bound r ∧ P r.1 r.2.used) (f fb)) :
    Leaves buffered stops total bound pre (fun o used => o ≠ 0 ∧ o ≤ used.length ∧ P o used) f := by
  intro fb ⟨hsane,houtside⟩ hpre hroom
  refine (h fb hsane hpre hroom).mono fun r ⟨hbuilt,hP⟩ => ?_
  have hlt := hbuilt.offset_lt
  exact ⟨⟨hbuilt.sane,hbuilt.insideObject.trans houtside⟩,hbuilt.suffix,hbuilt.len_le,by omega,hbuilt.offset_le,hP⟩

lemma Builder.Built.weaken {fb : Builder} {bound' : ℕ} {r : ℕ × Builder} (h : Built fb bound r)
    (hle : bound ≤ bound') : Built fb bound' r :=
  ⟨h.sane,h.insideObject,h.suffix,h.offset_lt,h.offset_le,h.len_le.trans (Nat.add_le_add_left hle _)⟩

variable (hmalloc : EvenAddresses malloc) (htotal : 2 ^ 30 ≤ total → stops .tooLarge)
include hmalloc htotal

lemma leaves_bytes (s : Bytes) : Leaves buffered stops total (s.length + 8) pre
    (fun o used => o ≠ 0 ∧ o ≤ used.length ∧ Lies used o (lowBytes 4 s.length ++ s))
    (fun fb => fb.prependBytes malloc s) := by
  refine leaves_of_built fun fb hsane _ hroom => ?_
  exact (block_spec hmalloc hsane s s.length fun hle => htotal (by omega)).mono fun r hr =>
    ⟨hr.1.weaken (by omega),hr.2⟩

lemma leaves_string (s : Bytes) : Leaves buffered stops total (s.length + 9) pre
    (fun o used => o ≠ 0 ∧ o ≤ used.length ∧ Lies used o (lowBytes 4 s.length ++ (s ++ [0])))
    (fun fb => fb.prependString malloc (some s)) := by
  refine leaves_of_built fun fb hsane _ hroom => ?_
  have hlen : (s ++ [0]).length = s.length + 1 := by rw [List.length_append,List.length_singleton]
  have hblock : Ends stops _ _ := block_spec hmalloc hsane (s ++ [0]) s.length fun hle => htotal (by omega)
  rw [hlen] at hblock
  exact hblock.mono fun r hr => ⟨hr.1.weaken (by omega),hr.2⟩

lemma leaves_vector {offsets : List ℕ} (hin : ∀ used, pre used → ∀ o ∈ offsets, o ≤ used.length) :
    Leaves buffered stops total (4 * offsets.length + 11) pre
      (fun o used => o ≠ 0 ∧ o ≤ used.length ∧ VectorAt used o offsets.reverse ∧
        ∀ target ∈ offsets, target + (4 * offsets.length + 4) ≤ o) (prependVector malloc offsets) := by
  refine leaves_of_built fun fb hsane hpre hroom => ?_
  have hmem : ∀ o ∈ offsets.reverse, o ≤ fb.len := fun o ho => hin _ hpre o (List.mem_reverse.mp ho)
  have hvector : Ends stops _ _ := vector_spec hmalloc hsane offsets.reverse hmem fun hle => htotal (by
    rw [List.length_reverse] at hle
    omega)
  simp only [List.reverse_reverse,List.length_reverse] at hvector
  refine hvector.mono fun r ⟨hbuilt,hbelow,hat⟩ => ⟨hbuilt.weaken (by omega),hat,fun target htarget => ?_⟩
  have hle := hin _ hpre target htarget
  change target ≤ fb.len at hle
  omega

end Leaves

/-! ### Writes -/

/-- The write of a field, what then holds of its place, and a bound on its bytes. At place 0 there is
nothing. -/
structure FieldWrite where
  index : ℕ
  holds : Bytes → ℕ → Prop
  cost : ℕ
  write : Builder → Except Fault Builder

/-- A bound on the bytes of the fields of a table. -/
def inlineBytes (writes : List FieldWrite) : ℕ := (writes.map FieldWrite.cost).sum

/-- What lies at the offset of a table. -/
def TableWith (used : Bytes) (offset : ℕ) (fields : List (ℕ × (Bytes → ℕ → Prop))) : Prop :=
  ∃ (distances : List ℕ) (place : ℕ → ℕ), TableAt used offset distances ∧
    (∀ i, place i + 4 ≤ offset ∧ distances.getD i 0 = if place i = 0 then 0 else offset - place i) ∧
    (∀ f ∈ fields, f.2 used (place f.1)) ∧ ∀ i, i ∉ fields.map Prod.fst → place i = 0

/-- What is known of the fields that were written. -/
def fieldsOf (writes : List FieldWrite) : List (ℕ × (Bytes → ℕ → Prop)) := writes.map fun w => (w.index,w.holds)

section Writes
variable {malloc : ℕ → ℕ} {stops : Fault → Prop} {begun fb : Builder} {numFields total : ℕ} {pre : Bytes → Prop}

/-- One more field may have been set. -/
structure Wrote (begun : Builder) (numFields : ℕ) (w : FieldWrite) (fb fb' : Builder) : Prop where
  inObject : InObject begun numFields fb'
  suffix : fb.used <:+ fb'.used
  len_le : fb'.len ≤ fb.len + w.cost
  written : w.holds fb'.used (fb'.vtable.getD w.index 0)
  others : ∀ m, m ≠ w.index → fb'.vtable.getD m 0 = fb.vtable.getD m 0

/-- A write does what it says in a table that does not have the field yet, when `pre` held before the
table was begun. -/
def FieldWrite.Writes (w : FieldWrite) (stops : Fault → Prop) (total : ℕ) (pre : Bytes → Prop) : Prop :=
  ∀ begun numFields fb, InObject begun numFields fb → w.index < numFields → fb.vtable.getD w.index 0 = 0 →
    pre begun.used → fb.len + w.cost ≤ total → Ends stops (Wrote begun numFields w fb) (w.write fb)

/-- A field is set to what was put. -/
theorem Builder.InObject.wrote {fb' : Builder} {size : ℕ} {s : Bytes} {w : FieldWrite} (h : InObject begun numFields fb)
    (hput : Put size s fb fb') (hi : w.index < numFields) (hs : 0 < s.length) (hcost : fb'.len ≤ fb.len + w.cost)
    (hat : w.holds fb'.used fb'.len) : Ends stops (Wrote begun numFields w fb) (fb'.setField w.index) := by
  obtain ⟨fb'',hset,hin,hused,hvtable⟩ := h.setField hput hi hs
  have hlen : fb''.len = fb'.len := congrArg List.length hused
  rw [hset]
  refine ⟨hin,hused ▸ hput.suffix,by omega,?_,fun m hm => ?_⟩
  · rw [hvtable,List.getD_eq_getElem?_getD,List.getElem?_set_self (hi.trans_le h.room),hused]
    exact hat
  · rw [hvtable,List.getD_eq_getElem?_getD,List.getElem?_set_ne hm.symm,List.getD_eq_getElem?_getD]

/-- Nothing is written. -/
theorem Builder.InObject.wrote_nothing {w : FieldWrite} (h : InObject begun numFields fb)
    (hat : w.holds fb.used (fb.vtable.getD w.index 0)) : Wrote begun numFields w fb fb :=
  ⟨h,List.suffix_rfl,Nat.le_add_right _ _,hat,fun _ _ => rfl⟩

section Kinds
variable (malloc)

def FieldWrite.number (k : Kind) (i : ℕ) (x d : ℤ) : FieldWrite where
  index := i
  holds := fun used place => NumberAt used place k x d
  cost := 2 * k.size
  write := fun fb => fb.objectPrependNumber malloc k i x d

def FieldWrite.bool (i : ℕ) (x d : ℤ) : FieldWrite where
  index := i
  holds := fun used place => NumberAt used place .u8 (truth x) (truth d)
  cost := 2
  write := fun fb => fb.objectPrependBool malloc i x d

/-- The place of the offset of something else. -/
def OffsetAt (used : Bytes) (place x : ℕ) : Prop :=
  if x = 0 then place = 0 else x + 4 ≤ place ∧ Lies used place (lowBytes 4 (place - x))

def FieldWrite.uoffset (i x : ℕ) : FieldWrite where
  index := i
  holds := fun used place => OffsetAt used place x
  cost := 8
  write := fun fb => fb.objectPrependUoffset malloc i x 0

end Kinds

variable (hmalloc : EvenAddresses malloc) (htotal : 2 ^ 30 ≤ total → stops .tooLarge)
include hmalloc htotal

lemma writes_number (k : Kind) (i : ℕ) (x d : ℤ) : (FieldWrite.number malloc k i x d).Writes stops total pre := by
  intro begun numFields fb h hi habsent _ hroom
  have hcost : (FieldWrite.number malloc k i x d).cost = 2 * k.size := rfl
  change Ends stops _ (fb.objectPrependNumber malloc k i x d)
  unfold objectPrependNumber
  by_cases hdiffers : k.differs x d
  · rw [if_pos hdiffers]
    refine (prependNumber_spec hmalloc h.sane k x fun hle => htotal (by omega)).bind fun fb' hput => ?_
    have hlen := hput.len
    have hpos := k.size_pos_le.1
    rw [length_lowBytes] at hlen
    refine h.wrote hput hi (by rwa [length_lowBytes]) (by omega) ?_
    change NumberAt _ _ _ _ _
    rw [NumberAt,if_pos hdiffers]
    exact ⟨by omega,hput.lies⟩
  · rw [if_neg hdiffers]
    refine h.wrote_nothing ?_
    change NumberAt _ _ _ _ _
    rw [NumberAt,if_neg hdiffers]
    exact habsent

lemma writes_bool (i : ℕ) (x d : ℤ) : (FieldWrite.bool malloc i x d).Writes stops total pre := by
  intro begun numFields fb h hi habsent hpre hroom
  have hsame : fb.objectPrependBool malloc i x d = fb.objectPrependNumber malloc .u8 i (truth x) (truth d) := by
    unfold objectPrependBool objectPrependNumber Kind.differs truth
    simp only [decide_eq_true_eq]
  change Ends stops _ (fb.objectPrependBool malloc i x d)
  rw [hsame]
  exact (writes_number hmalloc htotal .u8 i (truth x) (truth d) begun numFields fb h hi habsent hpre hroom).mono
    fun fb' hwrote => ⟨hwrote.1,hwrote.2,hwrote.3,hwrote.4,hwrote.5⟩

lemma writes_uoffset (i : ℕ) {x : ℕ} (hx : ∀ used, pre used → x ≤ used.length) :
    (FieldWrite.uoffset malloc i x).Writes stops total pre := by
  intro begun numFields fb h hi habsent hpre hroom
  have hcost : (FieldWrite.uoffset malloc i x).cost = 8 := rfl
  change Ends stops _ (fb.objectPrependUoffset malloc i x 0)
  unfold objectPrependUoffset
  by_cases hzero : x = 0
  · rw [if_neg (not_not.mpr hzero)]
    refine h.wrote_nothing ?_
    change OffsetAt _ _ _
    rw [OffsetAt,if_pos hzero]
    exact habsent
  · rw [if_pos hzero]
    have hin : x ≤ fb.len := (hx _ hpre).trans h.suffix.length_le
    refine (prependUoffset_spec hmalloc h.sane hin fun hle => htotal (by omega)).bind fun fb' hput => ?_
    have hlen := hput.len
    rw [length_lowBytes] at hlen
    refine h.wrote hput hi (by rw [length_lowBytes]; decide) (by omega) ?_
    change OffsetAt _ _ _
    rw [OffsetAt,if_neg hzero]
    exact ⟨by omega,hput.lies⟩

end Writes

lemma lasting_numberAt (place : ℕ) (k : Kind) (x d : ℤ) : Lasting fun used => NumberAt used place k x d :=
  fun _ _ h hused => h.mono hused

lemma lasting_offsetAt (place x : ℕ) : Lasting fun used => OffsetAt used place x := by
  intro used used' h hused
  unfold OffsetAt at h ⊢
  split_ifs at h ⊢
  · exact h
  · exact ⟨h.1,h.2.mono hused⟩

/-! ### Tables -/

section Tables
variable {malloc : ℕ → ℕ} {stops : Fault → Prop} {begun fb : Builder} {numFields total : ℕ} {pre : Bytes → Prop}

lemma inlineBytes_append (before after : List FieldWrite) :
    inlineBytes (before ++ after) = inlineBytes before + inlineBytes after := by
  rw [inlineBytes,List.map_append,List.sum_append]
  rfl

/-- The fields that have been written so far, and no others. -/
structure Filled (begun : Builder) (numFields : ℕ) (before : List FieldWrite) (fb : Builder) : Prop where
  inObject : InObject begun numFields fb
  len_le : fb.len ≤ begun.len + inlineBytes before
  written : ∀ w ∈ before, w.holds fb.used (fb.vtable.getD w.index 0)
  unwritten : ∀ i, i ∉ before.map FieldWrite.index → fb.vtable.getD i 0 = 0

lemma Filled.write {before : List FieldWrite} {w : FieldWrite} (h : Filled begun numFields before fb)
    (hnew : w.index ∉ before.map FieldWrite.index) (hi : w.index < numFields) (hw : w.Writes stops total pre)
    (hlasting : ∀ w ∈ before, ∀ place, Lasting fun l => w.holds l place) (hpre : pre begun.used)
    (hroom : begun.len + inlineBytes (before ++ [w]) ≤ total) :
    Ends stops (Filled begun numFields (before ++ [w])) (w.write fb) := by
  have hcost : inlineBytes (before ++ [w]) = inlineBytes before + w.cost := by
    rw [inlineBytes_append]
    exact congrArg _ (Nat.add_zero _)
  have hle := h.len_le
  refine (hw begun numFields fb h.inObject hi (h.unwritten w.index hnew) hpre (by omega)).mono fun fb' hwrote => ?_
  have hlen := hwrote.len_le
  refine ⟨hwrote.inObject,by omega,?_,fun i hi => ?_⟩
  · intro w' hw'
    obtain hold | hlast := List.mem_append.mp hw'
    · have hne : w'.index ≠ w.index := fun heq => hnew (heq ▸ List.mem_map_of_mem hold)
      rw [hwrote.others w'.index hne]
      exact hlasting w' hold _ (h.written w' hold) hwrote.suffix
    · rw [List.mem_singleton.mp hlast]
      exact hwrote.written
  · rw [List.map_append,List.mem_append,not_or] at hi
    have hne : i ≠ w.index := fun heq => hi.2 (List.mem_singleton.mpr heq)
    rw [hwrote.others i hne]
    exact h.unwritten i hi.1

/-- All fields of a table, one after the other. -/
theorem writes_spec {writes : List FieldWrite} (h : fb.Sane) (houtside : fb.insideObject = false)
    (hnodup : (writes.map FieldWrite.index).Nodup) (hlt : ∀ w ∈ writes, w.index < numFields)
    (hw : ∀ w ∈ writes, w.Writes stops total pre)
    (hlasting : ∀ w ∈ writes, ∀ place, Lasting fun l => w.holds l place) (hpre : pre fb.used)
    (hroom : fb.len + inlineBytes writes ≤ total) :
    Ends stops (Filled fb numFields writes)
      ((writes.map FieldWrite.write).foldlM (fun fb write => write fb) (fb.objectBegin numFields).2) := by
  obtain ⟨hbegun,hused,hzero⟩ := objectBegin_spec h houtside numFields
  have hstart : Filled fb numFields [] (fb.objectBegin numFields).2 := by
    refine ⟨hbegun,(congrArg List.length hused).le,List.forall_mem_nil _,fun i _ => ?_⟩
    rw [List.getD_eq_getElem?_getD]
    cases hget : (fb.objectBegin numFields).2.vtable[i]? with
    | none => rfl
    | some e => exact hzero e (List.mem_of_getElem? hget)
  rw [List.foldlM_map]
  refine Ends.foldlM writes (fun before w fb' hsplit hfilled => ?_) hstart
  obtain ⟨after,rfl⟩ := hsplit
  have hmem : w ∈ before ++ [w] ++ after :=
    List.mem_append_left _ (List.mem_append_right _ (List.mem_singleton_self _))
  have hbefore : ∀ w' ∈ before, w' ∈ before ++ [w] ++ after := fun w' hw' =>
    List.mem_append_left _ (List.mem_append_left _ hw')
  have hnew : w.index ∉ before.map FieldWrite.index := by
    rw [List.map_append,List.map_append] at hnodup
    have hfirst := (List.nodup_append.mp hnodup).1
    exact fun hold => (List.nodup_append.mp hfirst).2.2 _ hold _ (List.mem_singleton_self _) rfl
  rw [inlineBytes_append] at hroom
  exact hfilled.write hnew (hlt w hmem) (hw w hmem) (fun w' hw' => hlasting w' (hbefore w' hw')) hpre (by omega)

/-- A table with the fields that were written. -/
theorem leaves_object (hmalloc : EvenAddresses malloc) (htotal : 2 ^ 30 ≤ total → stops .tooLarge)
    {writes : List FieldWrite} (hmany : numFields < 32766) (hfar : 0xFFFF ≤ inlineBytes writes + 7 → stops .fieldOffset)
    (hnodup : (writes.map FieldWrite.index).Nodup) (hlt : ∀ w ∈ writes, w.index < numFields)
    (hw : ∀ w ∈ writes, w.Writes stops total pre)
    (hlasting : ∀ w ∈ writes, ∀ place, Lasting fun l => w.holds l place) :
    Leaves buffered stops total (inlineBytes writes + (2 * numFields + 15)) pre
      (fun offset used => offset ≠ 0 ∧ offset ≤ used.length ∧ TableWith used offset (fieldsOf writes))
      (prependObject malloc numFields (writes.map FieldWrite.write)) := by
  intro fb ⟨hsane,houtside⟩ hpre hroom
  change fb.len + (inlineBytes writes + (2 * numFields + 15)) ≤ total at hroom
  refine (writes_spec hsane houtside hnodup hlt hw hlasting hpre (by omega)).bind fun fb₁ hfilled => ?_
  have hle := hfilled.len_le
  refine (objectEnd_spec hmalloc hfilled.inObject hmany (fun hle => htotal (by omega)) fun hle =>
    hfar (by omega)).mono fun r ⟨hsane',hoff,hsuffix,hlt',hrle,hbound,htable⟩ => ?_
  have hbegun : fb.len ≤ fb₁.len := hfilled.inObject.suffix.length_le
  refine ⟨⟨hsane',hoff⟩,hfilled.inObject.suffix.trans hsuffix,?_,by omega,hrle,
    _,fun i => if i < numFields then fb₁.vtable.getD i 0 else 0,htable,fun i => ?_,?_,fun i hi => ?_⟩
  · change r.2.len ≤ fb.len + _
    omega
  · by_cases hi : i < numFields
    · simp only [if_pos hi]
      refine ⟨?_,getD_distances _ hi⟩
      have hplaces := hi.trans_le hfilled.inObject.room
      rw [List.getD_eq_getElem _ _ hplaces]
      by_cases hzero : fb₁.vtable[i] = 0
      · omega
      · have hentry := hfilled.inObject.fields _ (List.getElem_mem hplaces) hzero
        omega
    · simp only [if_neg hi,if_true]
      refine ⟨by omega,List.getD_eq_default _ _ ?_⟩
      rw [distances,List.length_map,List.length_take]
      omega
  · intro f hf
    obtain ⟨w,hmem,rfl⟩ := List.mem_map.mp hf
    dsimp only
    rw [if_pos (hlt w hmem)]
    exact hlasting w hmem _ (hfilled.written w hmem) hsuffix
  · have hnone : i ∉ writes.map FieldWrite.index := by
      rw [fieldsOf,List.map_map] at hi
      exact hi
    dsimp only
    rw [hfilled.unwritten i hnone,ite_self]

/-- The root goes in front of the message. -/
theorem finish_spec (hmalloc : EvenAddresses malloc) (h : fb.Sane) {root : ℕ} (hin : root ≤ fb.len)
    (hlarge : 2 ^ 30 ≤ fb.len + 20 → stops .tooLarge) :
    Ends stops (fun fb' => fb'.Sane ∧ fb.used <:+ fb'.used ∧ Lies fb'.used fb'.len (lowBytes 4 (fb'.len - root)))
      (fb.finish malloc root) := by
  have hmin := h.minAlign
  refine (prep_spec hmalloc h hmin fun hle => hlarge (by omega)).bind fun fb₁ hprep => ?_
  have hlen := hprep.len_le
  obtain ⟨p,-,hpadded⟩ := hprep.padded
  have hsuffix : fb.used <:+ fb₁.used := ⟨_,hpadded.symm⟩
  refine (prependUoffset_spec hmalloc hprep.sane (hin.trans hlen.1) fun hle => hlarge (by omega)).mono fun fb₂ hput => ?_
  exact ⟨hput.sane,hsuffix.trans hput.suffix,hput.lies⟩

end Tables

end PhpAgent.FlatBuilder

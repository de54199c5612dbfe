import PhpAgent.Util.FlatbufferLayout

/-! What each operation of the builder puts in front of what has been built. -/
namespace PhpAgent.FlatBuilder
open Flat

/-- Memory is handed out at even addresses. -/
def EvenAddresses (malloc : ℕ → ℕ) : Prop := ∀ n, malloc n % 2 = 0

/-- An allocator with one block after the other. -/
def sixteens (n : ℕ) : ℕ := 16 * (n + 1)

lemma evenAddresses_sixteens : EvenAddresses sixteens := by
  intro n
  unfold sixteens
  omega

lemma Kind.size_pos_le (k : Kind) : 0 < k.size ∧ k.size ≤ 8 := by
  cases k <;> decide

lemma Kind.lowBytes_bits (k : Kind) (x : ℕ) : lowBytes k.size (k.bits x) = lowBytes k.size x := by
  have hbits : k.bits x = x % 256 ^ k.size := by
    have hpow : (256 : ℕ) ^ k.size = 2 ^ (8 * k.size) := (pow_mul 2 8 k.size).symm
    rw [bits,hpow]
    exact_mod_cast rfl
  rw [hbits,lowBytes_mod]

namespace Builder

/-- The buffer is in order, and the saved vtables are in it. -/
structure Sane (fb : Builder) : Prop where
  fits : fb.len ≤ fb.capacity
  small : fb.capacity < 2 ^ 31
  even : fb.capacity % 2 = 0
  aligned : fb.front % 2 = 0
  saved : ∀ vtable ∈ fb.vtables, ∃ fields, VtableAt fb.used vtable fields
  minAlign : 0 < fb.minAlign ∧ fb.minAlign ≤ 8

/-- The object that is being built is the same. -/
structure SameObject (fb fb' : Builder) : Prop where
  insideObject : fb'.insideObject = fb.insideObject
  objectEnd : fb'.objectEnd = fb.objectEnd
  vtable : fb'.vtable = fb.vtable
  vtableLen : fb'.vtableLen = fb.vtableLen
  vtables : fb'.vtables = fb.vtables

lemma SameObject.refl (fb : Builder) : SameObject fb fb := ⟨rfl,rfl,rfl,rfl,rfl⟩

lemma SameObject.trans {fb fb' fb'' : Builder} (h : SameObject fb fb') (h' : SameObject fb' fb'') :
    SameObject fb fb'' :=
  ⟨h'.1.trans h.1,h'.2.trans h.2,h'.3.trans h.3,h'.4.trans h.4,h'.5.trans h.5⟩

variable {malloc : ℕ → ℕ} {stops : Fault → Prop} {fb fb' : Builder} {size additionalBytes : ℕ}
  {s : Bytes} {offset : ℕ} {begun : Builder}

lemma sane_create (hmalloc : EvenAddresses malloc) {initialSize : ℕ} (heven : initialSize % 2 = 0)
    (hsmall : initialSize < 2 ^ 31) : (create malloc initialSize).Sane := by
  unfold create
  split_ifs
  · exact ⟨Nat.zero_le _,hsmall,heven,hmalloc 0,List.forall_mem_nil _,⟨Nat.one_pos,Nat.one_le_ofNat⟩⟩
  · exact ⟨Nat.zero_le _,hsmall,heven,rfl,List.forall_mem_nil _,⟨Nat.one_pos,Nat.one_le_ofNat⟩⟩

/-! ### Room -/

lemma grow_spec (hmalloc : EvenAddresses malloc) (hstops : 2 ^ 30 ≤ fb.capacity → stops .tooLarge)
    (hsmall : fb.capacity < 2 ^ 31) :
    Ends stops (fun fb' => SameObject fb fb' ∧ fb'.used = fb.used ∧ fb.capacity < fb'.capacity ∧
      fb'.capacity < 2 ^ 31 ∧ (fb'.capacity % 2 = 0 ∨ fb'.capacity = 1) ∧ fb'.front % 2 = 0 ∧
      fb'.minAlign = fb.minAlign) (fb.grow malloc) := by
  unfold grow
  by_cases hlarge : fb.capacity / 2 ^ 30 % 4 ≠ 0
  · rw [if_pos hlarge]
    exact hstops (by omega)
  · rw [if_neg hlarge]
    set newSize := if fb.capacity * 2 = 0 then 1 else fb.capacity * 2 with hnew
    have hsize : fb.capacity < newSize ∧ newSize < 2 ^ 31 ∧ (newSize % 2 = 0 ∨ newSize = 1) := by
      rw [hnew]
      split_ifs <;> omega
    exact ⟨⟨rfl,rfl,rfl,rfl,rfl⟩,rfl,hsize.1,hsize.2.1,hsize.2.2,hmalloc _,rfl⟩

/-- The loop ends with room, unless the buffer is to grow beyond two gigabytes. -/
theorem growWhile_spec (hmalloc : EvenAddresses malloc) {need : ℕ} (hneed : 2 ≤ need)
    (hstops : 2 ^ 30 ≤ fb.len + need → stops .tooLarge) (n : ℕ) (hn : need < fb.capacity - fb.len + n)
    (hfits : fb.len ≤ fb.capacity) (hsmall : fb.capacity < 2 ^ 31)
    (heven : fb.capacity % 2 = 0 ∨ fb.capacity = 1) (haligned : fb.front % 2 = 0) :
    Ends stops (fun fb' => SameObject fb fb' ∧ fb'.used = fb.used ∧ need < fb'.capacity - fb'.len ∧
      fb'.capacity < 2 ^ 31 ∧ fb'.capacity % 2 = 0 ∧ fb'.front % 2 = 0 ∧ fb'.minAlign = fb.minAlign)
      (growWhile malloc need n fb) := by
  induction n generalizing fb with
  | zero =>
    have heven' : fb.capacity % 2 = 0 := heven.resolve_right (by omega)
    exact ⟨.refl fb,rfl,hn,hsmall,heven',haligned,rfl⟩
  | succ n ih =>
    unfold growWhile
    split_ifs with hroom
    · refine (grow_spec hmalloc (fun hle => hstops (by omega)) hsmall).bind
        fun fb₁ ⟨hsame,hused,hlt,hsmall₁,heven₁,haligned₁,hmin₁⟩ => ?_
      have hlen : fb₁.len = fb.len := congrArg List.length hused
      have hrec : Ends stops _ (growWhile malloc need n fb₁) :=
        ih (by rwa [hlen]) (by omega) (by omega) hsmall₁ heven₁ haligned₁
      refine hrec.mono fun fb₂ ⟨hsame',hused',hroom',hsmall',heven',haligned',hmin'⟩ => ?_
      exact ⟨hsame.trans hsame',hused'.trans hused,hroom',hsmall',heven',haligned',hmin'.trans hmin₁⟩
    · have heven' : fb.capacity % 2 = 0 := heven.resolve_right (by omega)
      exact ⟨.refl fb,rfl,by omega,hsmall,heven',haligned,rfl⟩

lemma Sane.saved_mono (h : fb.Sane) (hsame : SameObject fb fb') (hused : fb.used <:+ fb'.used) :
    ∀ vtable ∈ fb'.vtables, ∃ fields, VtableAt fb'.used vtable fields := by
  rw [hsame.vtables]
  intro vtable hvtable
  obtain ⟨fields,hat⟩ := h.saved vtable hvtable
  exact ⟨fields,hat.mono hused⟩

/-- What `prep` leaves: zeros in front, and room for what is to come, which then is aligned. -/
structure Prepared (size additionalBytes : ℕ) (fb fb' : Builder) : Prop where
  sane : fb'.Sane
  same : SameObject fb fb'
  padded : ∃ p < size, fb'.used = List.replicate p 0 ++ fb.used
  room : fb'.len + size + additionalBytes < fb'.capacity
  aligned : size ∣ fb'.pos - additionalBytes - size

lemma prep_spec (hmalloc : EvenAddresses malloc) (h : fb.Sane) (hsize : 0 < size ∧ size ≤ 8)
    (hstops : 2 ^ 30 ≤ fb.len + (2 * size + additionalBytes) → stops .tooLarge) :
    Ends stops (Prepared size additionalBytes fb) (fb.prep malloc size additionalBytes) := by
  unfold prep
  set fb₁ : Builder := { fb with minAlign := max fb.minAlign size }
  have hlen : fb₁.len = fb.len := rfl
  have hneed : 2 ≤ 2 * size + additionalBytes := by omega
  have hmin : 0 < fb₁.minAlign ∧ fb₁.minAlign ≤ 8 :=
    ⟨lt_max_of_lt_right hsize.1,max_le h.minAlign.2 hsize.2⟩
  have hsane₁ : fb₁.Sane := ⟨h.1,h.2,h.3,h.4,h.5,hmin⟩
  have hstops₁ : 2 ^ 30 ≤ fb₁.len + (2 * size + additionalBytes) → stops .tooLarge := hstops
  have hgrow := growWhile_spec hmalloc hneed hstops₁ (2 * size + additionalBytes + 1) (by omega) hsane₁.fits
    hsane₁.small (.inl hsane₁.even) hsane₁.aligned
  refine hgrow.bind fun fb₂ ⟨hsame,hused,hroom,hsmall,heven,haligned,hmin₂⟩ => ?_
  have hlen₂ : fb₂.len = fb.len := congrArg List.length hused
  set pad := (fb₂.pos - additionalBytes - size) % size with hpad
  have hlt : pad < size := Nat.mod_lt _ hsize.1
  have hfits : fb₂.len + (List.replicate pad (0 : UInt8)).length ≤ fb₂.capacity := by
    rw [List.length_replicate]
    omega
  rw [put,if_pos hfits]
  set fb₃ : Builder := { fb₂ with used := List.replicate pad 0 ++ fb₂.used }
  have hlen₃ : fb₃.len = fb₂.len + pad := by
    change (List.replicate pad 0 ++ fb₂.used).length = _
    rw [List.length_append,List.length_replicate,Nat.add_comm]
    rfl
  have hsame₃ : SameObject fb fb₃ := ⟨hsame.1,hsame.2,hsame.3,hsame.4,hsame.5⟩
  have hused₃ : fb₃.used = List.replicate pad 0 ++ fb.used := congrArg _ hused
  have hcap₃ : fb₃.capacity = fb₂.capacity := rfl
  have hfront₃ : fb₃.front = fb₂.front := rfl
  have hpos : fb₃.pos - additionalBytes - size = fb₂.pos - additionalBytes - size - pad := by
    unfold pos
    rw [hlen₃,hcap₃,hfront₃]
    omega
  refine ⟨⟨by omega,by omega,heven,haligned,h.saved_mono hsame₃ ⟨_,hused₃.symm⟩,hmin₂ ▸ hmin⟩,hsame₃,⟨pad,hlt,hused₃⟩,
    by omega,?_⟩
  rw [hpos,hpad]
  exact Nat.dvd_sub_mod _

lemma Prepared.len_le (h : Prepared size additionalBytes fb fb') :
    fb.len ≤ fb'.len ∧ fb'.len < fb.len + size := by
  obtain ⟨p,hp,hused⟩ := h.padded
  have hlen : fb'.len = p + fb.len := by
    rw [len,hused,List.length_append,List.length_replicate]
    rfl
  omega

/-- Writing where there is room. -/
theorem put_spec (h : fb.Sane) (hroom : fb.len + s.length ≤ fb.capacity) :
    ∃ fb', fb.put s = .ok fb' ∧ fb'.Sane ∧ SameObject fb fb' ∧ fb'.used = s ++ fb.used ∧
      fb'.capacity = fb.capacity ∧ fb'.front = fb.front := by
  have hlen : (s ++ fb.used).length = fb.len + s.length := by
    rw [List.length_append,Nat.add_comm]
    rfl
  have hsame : SameObject fb { fb with used := s ++ fb.used } := ⟨rfl,rfl,rfl,rfl,rfl⟩
  exact ⟨_,if_pos hroom,⟨hlen.trans_le hroom,h.small,h.even,h.aligned,
    h.saved_mono hsame (List.suffix_append s fb.used),h.minAlign⟩,hsame,rfl,rfl,rfl⟩

/-! ### Numbers and offsets -/

/-- Something of a size was put in front, aligned to it. -/
structure Put (size : ℕ) (s : Bytes) (fb fb' : Builder) : Prop where
  sane : fb'.Sane
  same : SameObject fb fb'
  padded : ∃ p < size, fb'.used = s ++ (List.replicate p 0 ++ fb.used)
  aligned : size ∣ fb'.pos

lemma Put.suffix {size : ℕ} (h : Put size s fb fb') : fb.used <:+ fb'.used := by
  obtain ⟨p,-,hused⟩ := h.padded
  exact ⟨s ++ List.replicate p 0,by rw [hused,List.append_assoc]⟩

lemma Put.lies {size : ℕ} (h : Put size s fb fb') : Lies fb'.used fb'.len s := by
  obtain ⟨p,-,hused⟩ := h.padded
  rw [len,hused]
  exact lies_append _ _

lemma Put.len {size : ℕ} (h : Put size s fb fb') :
    fb.len + s.length ≤ fb'.len ∧ fb'.len < fb.len + s.length + size := by
  obtain ⟨p,hp,hused⟩ := h.padded
  have hlen : fb'.len = s.length + (p + fb.len) := by
    rw [Builder.len,hused,List.length_append,List.length_append,List.length_replicate]
    rfl
  omega

/-- What is put in front of what was prepared. -/
theorem Prepared.put {size : ℕ} (h : Prepared size 0 fb fb') (hs : s.length = size) :
    Ends stops (fun fb'' => Put size s fb fb'' ∧ fb''.len = fb'.len + size) (fb'.put s) := by
  have hroom := h.room
  obtain ⟨fb'',hput,hsane,hsame,hused,hcap,hfront⟩ := put_spec h.sane (s := s) (by omega)
  rw [hput]
  obtain ⟨p,hp,hpadded⟩ := h.padded
  have hlen : fb''.len = fb'.len + size := by
    rw [Builder.len,hused,List.length_append,hs,Nat.add_comm]
    rfl
  have hpos : fb''.pos = fb'.pos - 0 - size := by
    unfold pos
    rw [hlen,hcap,hfront]
    omega
  exact ⟨⟨hsane,h.same.trans hsame,⟨p,hp,by rw [hused,hpadded]⟩,hpos ▸ h.aligned⟩,hlen⟩

lemma prependNumber_spec (hmalloc : EvenAddresses malloc) (h : fb.Sane) (k : Kind) (x : ℤ)
    (hstops : 2 ^ 30 ≤ fb.len + 2 * k.size → stops .tooLarge) :
    Ends stops (Put k.size (lowBytes k.size (k.bits x)) fb) (fb.prependNumber malloc k x) :=
  (prep_spec hmalloc h k.size_pos_le hstops).bind fun _ hprep =>
    (hprep.put (length_lowBytes _ _)).mono fun _ hput => hput.1

lemma prependUoffset_spec (hmalloc : EvenAddresses malloc) (h : fb.Sane) (hin : offset ≤ fb.len)
    (hstops : 2 ^ 30 ≤ fb.len + 8 → stops .tooLarge) :
    Ends stops (fun fb' => Put 4 (lowBytes 4 (fb'.len - offset)) fb fb') (fb.prependUoffset malloc offset) := by
  refine (prep_spec hmalloc h (by decide) hstops).bind fun fb₁ hprep => ?_
  have hle : offset ≤ fb₁.len := hin.trans hprep.len_le.1
  rw [if_neg (Nat.not_lt.mpr hle)]
  refine (hprep.put (length_lowBytes _ _)).mono fun fb₂ ⟨hput,hlen⟩ => ?_
  rwa [hlen,Nat.sub_add_comm hle]

/-! ### Vtables -/

lemma Put.even {size : ℕ} (h : Put size s fb fb') (hsize : 2 ∣ size) : fb'.len % 2 = 0 := by
  obtain ⟨k,hk⟩ := hsize.trans h.aligned
  have heven := h.sane.even
  have haligned := h.sane.aligned
  have hfits := h.sane.fits
  unfold pos at hk
  omega

/-- Numbers of 16 bits follow each other without padding when there is an even number of bytes. -/
theorem prependU16_spec (hmalloc : EvenAddresses malloc) (h : fb.Sane) (heven : fb.len % 2 = 0) (x : ℕ)
    (hstops : 2 ^ 30 ≤ fb.len + 4 → stops .tooLarge) :
    Ends stops (fun fb' => fb'.Sane ∧ SameObject fb fb' ∧ fb'.used = lowBytes 2 x ++ fb.used)
      (fb.prependNumber malloc .u16 x) := by
  refine (prependNumber_spec hmalloc h .u16 x hstops).mono fun fb' hput => ⟨hput.sane,hput.same,?_⟩
  have heven' := hput.even (dvd_refl 2)
  obtain ⟨p,hp,hused⟩ := hput.padded
  have hlen : fb'.len = 2 + (p + fb.len) := by
    rw [len,hused,List.length_append,List.length_append,List.length_replicate,length_lowBytes]
    rfl
  have hzero : p = 0 := by
    have hlt : p < 2 := hp
    omega
  rw [hused,hzero,List.replicate_zero,List.nil_append,Kind.lowBytes_bits]
  rfl

lemma prependFields_spec (hmalloc : EvenAddresses malloc) (h : fb.Sane) (heven : fb.len % 2 = 0)
    (fields : List ℕ) (hstops : 2 ^ 30 ≤ fb.len + (2 * fields.length + 2) → stops .tooLarge) :
    Ends stops (fun fb' => fb'.Sane ∧ SameObject fb fb' ∧ fb'.used = fields.flatMap (lowBytes 2) ++ fb.used)
      (fields.reverse.foldlM (fun fb field => fb.prependNumber malloc .u16 (field : ℕ)) fb) := by
  induction fields with
  | nil => exact ⟨h,.refl fb,rfl⟩
  | cons f fields ih =>
    rw [List.length_cons] at hstops
    rw [List.reverse_cons,List.foldlM_append]
    refine (ih fun hle => hstops (by omega)).bind fun fb₁ ⟨hsane,hsame,hused⟩ => ?_
    have hlen : fb₁.len = 2 * fields.length + fb.len := by
      rw [len,hused,List.length_append,List.length_flatMap,
        List.map_congr_left fun f _ => length_lowBytes 2 f,List.map_const',List.sum_replicate_nat,
        Nat.mul_comm]
      rfl
    rw [List.foldlM_cons]
    refine (prependU16_spec hmalloc hsane (by omega) f fun hle => hstops (by omega)).bind fun fb₂ ⟨hsane₂,hsame₂,hused₂⟩ => ?_
    exact ⟨hsane₂,hsame.trans hsame₂,by rw [hused₂,hused,List.flatMap_cons,List.append_assoc]⟩

lemma mapM_fieldOffset (objectOffset : ℕ) (fields : List ℕ)
    (hin : ∀ f ∈ fields, f ≠ 0 → f < objectOffset)
    (hstops : ∀ f ∈ fields, f ≠ 0 → 0xFFFF ≤ objectOffset - f → stops .fieldOffset) :
    Ends stops (fun distances => distances = fields.map (fun f => if f = 0 then 0 else objectOffset - f) ∧
      ∀ d ∈ distances, d < 0xFFFF) (fields.mapM (fieldOffset objectOffset)) := by
  induction fields with
  | nil => exact ⟨rfl,List.forall_mem_nil _⟩
  | cons f fields ih =>
    rw [List.forall_mem_cons] at hin hstops
    have hhead : Ends stops (fun d => d = (if f = 0 then 0 else objectOffset - f) ∧ d < 0xFFFF)
        (fieldOffset objectOffset f) := by
      unfold fieldOffset
      split_ifs with hzero hsmall
      · exact ⟨rfl,by decide⟩
      · exact ⟨rfl,hsmall.2⟩
      · have hlt := hin.1 hzero
        exact hstops.1 hzero (by omega)
    rw [List.mapM_cons]
    refine hhead.bind fun d ⟨hd,hlt⟩ => (ih hin.2 hstops.2).bind fun distances ⟨heq,hall⟩ => ?_
    exact ⟨by rw [hd,heq,List.map_cons],List.forall_mem_cons.mpr ⟨hlt,hall⟩⟩

/-- A vtable that is found has the fields that are sought. -/
theorem findExistingVtable_spec (hlen : fb.vtableLen ≤ fb.vtable.length) :
    fb.findExistingVtable = 0 ∨ (fb.findExistingVtable ∈ fb.vtables ∧ ∀ fields,
      VtableAt fb.used fb.findExistingVtable fields → fields = fb.vtable.take fb.vtableLen) := by
  unfold findExistingVtable
  cases hfind : fb.vtables.reverse.find? fb.matchVtable with
  | none => exact .inl rfl
  | some vtable =>
    refine .inr ⟨List.mem_reverse.mp (List.mem_of_find?_eq_some hfind),fun fields hat => ?_⟩
    have hmatch := List.find?_some hfind
    have hdata := contains_memoryOf fb.used
    rw [matchVtable,decide_eq_true_iff,vtableNumFields] at hmatch
    obtain ⟨hnum,hfields⟩ := hmatch
    have hsize : fb.vtableLen = fields.length := by
      have hread := hat.size hdata
      rw [Option.getD_some] at hread
      have heq : readU16 (memoryOf fb.used) (fb.len - vtable : ℕ) = (fields.length + 2) * 2 := hread
      omega
    refine List.ext_getElem? fun i => ?_
    obtain hlt | hge := Nat.lt_or_ge i fields.length
    · have hget : fields[i]? = some fields[i] := List.getElem?_eq_getElem hlt
      have hread : fb.vtableField vtable i = fields[i] := hat.field hdata hget
      have hltv : i < fb.vtable.length := by omega
      rw [hget,List.getElem?_take_of_lt (by omega),List.getElem?_eq_getElem hltv,← hread,
        hfields i (by omega),List.getD_eq_getElem _ _ hltv]
    · rw [List.getElem?_eq_none hge,List.getElem?_eq_none]
      rw [List.length_take]
      omega

lemma encodeI32_append {front z rest : Bytes} (x : ℤ) (hused : fb.used = front ++ (z ++ rest))
    (hz : z.length = 4) (hoffset : offset = (z ++ rest).length) :
    fb.encodeI32 offset x = .ok { fb with used := front ++ (lowBytes 4 (Kind.bits .i32 x) ++ rest) } := by
  have hlen : fb.len = front.length + offset := by rw [len,hused,List.length_append,hoffset]
  have hfour : 4 ≤ offset := by
    rw [hoffset,List.length_append]
    omega
  have hdrop : fb.used.drop (front.length + 4) = rest := by
    rw [hused,← List.drop_drop,List.drop_left,← hz,List.drop_left]
  rw [encodeI32,if_pos ⟨hfour,by omega⟩,hlen,Nat.add_sub_cancel,hdrop,hused,List.take_left,
    List.append_assoc]

/-! ### Objects -/

/-- An object with so many fields was begun and is not yet at its end. -/
structure InObject (begun : Builder) (numFields : ℕ) (fb : Builder) : Prop where
  sane : fb.Sane
  insideObject : fb.insideObject = true
  objectEnd : fb.objectEnd = begun.len
  vtableLen : fb.vtableLen = numFields
  room : numFields ≤ fb.vtable.length
  vtables : fb.vtables = begun.vtables
  suffix : begun.used <:+ fb.used
  fields : ∀ e ∈ fb.vtable, e ≠ 0 → begun.len < e ∧ e ≤ fb.len

/-- The distances of fields from the start of their object. -/
def distances (objectOffset : ℕ) (fields : List ℕ) : List ℕ :=
  fields.map fun f => if f = 0 then 0 else objectOffset - f

lemma getD_distances (objectOffset : ℕ) {fields : List ℕ} {numFields i : ℕ} (hi : i < numFields) :
    (distances objectOffset (fields.take numFields)).getD i 0 =
      if fields.getD i 0 = 0 then 0 else objectOffset - fields.getD i 0 := by
  rw [distances,List.getD_eq_getElem?_getD,List.getElem?_map,List.getElem?_take_of_lt hi,
    List.getD_eq_getElem?_getD]
  cases fields[i]? with
  | none => rfl
  | some f => rfl

lemma writeVtable_spec (hmalloc : EvenAddresses malloc) (h : fb.Sane) {z rest : Bytes} {fields : List ℕ}
    (hused : fb.used = z ++ rest) (hz : z.length = 4) (heven : fb.len % 2 = 0)
    (hsaved : ∀ vtable ∈ fb.vtables, ∃ fields, VtableAt rest vtable fields)
    (hnum : fb.vtableLen = fields.length) (hmany : fields.length < 32766) (hsmall : ∀ f ∈ fields, f < 0xFFFF)
    (hstops : 2 ^ 30 ≤ fb.len + (2 * fields.length + 8) → stops .tooLarge) :
    Ends stops (fun fb' => fb'.Sane ∧ rest <:+ fb'.used ∧ fb'.len = fb.len + (2 * fields.length + 4) ∧
      TableAt fb'.used fb.len fields)
      (fb.writeVtable malloc fb.len fields) := by
  unfold writeVtable
  refine (prependFields_spec hmalloc h heven fields fun hle => hstops (by omega)).bind
    fun fb₁ ⟨hsane₁,hsame₁,hused₁⟩ => ?_
  have hfields : (fields.flatMap (lowBytes 2)).length = 2 * fields.length := by
    rw [List.length_flatMap,List.map_congr_left fun f _ => length_lowBytes 2 f,List.map_const',
      List.sum_replicate_nat,Nat.mul_comm]
  have hlen₁ : fb₁.len = 2 * fields.length + fb.len := by
    rw [len,hused₁,List.length_append,hfields]
    rfl
  refine (prependU16_spec hmalloc hsane₁ (by omega) _ fun hle => hstops (by omega)).bind
    fun fb₂ ⟨hsane₂,hsame₂,hused₂⟩ => ?_
  have hlen₂ : fb₂.len = 2 + fb₁.len := by
    rw [len,hused₂,List.length_append,length_lowBytes]
    rfl
  refine (prependU16_spec hmalloc hsane₂ (by omega) _ fun hle => hstops (by omega)).bind
    fun fb₃ ⟨hsane₃,hsame₃,hused₃⟩ => ?_
  have hlen₃ : fb₃.len = 2 + fb₂.len := by
    rw [len,hused₃,List.length_append,length_lowBytes]
    rfl
  have hsame : SameObject fb fb₃ := hsame₁.trans (hsame₂.trans hsame₃)
  set vt := lowBytes 2 ((fields.length + 2) * 2) ++
    (lowBytes 2 (fb.len - fb.objectEnd) ++ fields.flatMap (lowBytes 2)) with hvt
  have hvtLen : vt.length = 2 * fields.length + 4 := by
    rw [hvt,List.length_append,List.length_append,length_lowBytes,length_lowBytes,hfields]
    omega
  have hall : fb₃.used = vt ++ (z ++ rest) := by
    rw [hused₃,hused₂,hused₁,hused,hvt,(hsame₁.trans hsame₂).vtableLen,hsame₁.objectEnd,hnum,
      List.append_assoc,List.append_assoc]
  have hoffset : fb.len = (z ++ rest).length := congrArg List.length hused
  rw [encodeI32_append _ hall hz hoffset]
  set patch := lowBytes 4 (Kind.bits .i32 (fb₃.len - fb.len)) with hpatch
  have hpatchLen : (patch ++ rest).length = fb.len := by
    rw [hoffset,List.length_append,List.length_append,hz,hpatch,length_lowBytes]
  have htotal : (vt ++ (patch ++ rest)).length = fb₃.len := by
    rw [List.length_append,hpatchLen]
    omega
  have hrest : rest <:+ vt ++ (patch ++ rest) :=
    ⟨vt ++ patch,by rw [List.append_assoc]⟩
  have hvtable : VtableAt (vt ++ (patch ++ rest)) (vt ++ (patch ++ rest)).length fields :=
    ⟨hmany,fun f hf => (hsmall f hf).trans (by norm_num),fb.len - fb.objectEnd,lies_append vt _⟩
  have htable : Lies (vt ++ (patch ++ rest)) fb.len patch := by
    have hlies := lies_append patch rest
    rw [hpatchLen] at hlies
    exact hlies.mono (List.suffix_append vt _)
  refine ⟨⟨htotal.trans_le hsane₃.fits,hsane₃.small,hsane₃.even,hsane₃.aligned,?_,hsane₃.minAlign⟩,hrest,?_,
    fb₃.len,htotal ▸ hvtable,htable⟩
  · intro vtable hmem
    obtain hold | hnew := List.mem_append.mp hmem
    · obtain ⟨fields',hat⟩ := hsaved vtable (hsame.vtables ▸ hold)
      exact ⟨fields',hat.mono hrest⟩
    · refine ⟨fields,?_⟩
      rw [List.mem_singleton.mp hnew]
      exact hvtable
  · exact htotal.trans (by omega)

lemma prependVtable_spec (hmalloc : EvenAddresses malloc) {numFields : ℕ}
    (h : InObject begun numFields fb) (hmany : numFields < 32766)
    (hlarge : 2 ^ 30 ≤ fb.len + (2 * numFields + 15) → stops .tooLarge)
    (hfar : 0xFFFF ≤ fb.len + 7 - begun.len → stops .fieldOffset) :
    Ends stops (fun r => r.2.Sane ∧ fb.used <:+ r.2.used ∧ fb.len + 4 ≤ r.1 ∧ r.1 ≤ r.2.len ∧
      r.2.len < fb.len + (2 * numFields + 12) ∧
      TableAt r.2.used r.1 (distances r.1 (fb.vtable.take numFields))) (fb.prependVtable malloc) := by
  unfold prependVtable
  have hfour : Kind.size .i32 = 4 := rfl
  refine (prependNumber_spec hmalloc h.sane .i32 0 fun hle => hlarge (by omega)).bind fun fb₁ hput => ?_
  obtain ⟨hlen₁,hlen₁'⟩ := hput.len
  rw [length_lowBytes,hfour] at hlen₁ hlen₁'
  have heven := hput.even (by decide)
  have hentries : ∀ e ∈ fb₁.vtable.take fb₁.vtableLen, e ≠ 0 → begun.len < e ∧ e ≤ fb.len := by
    intro e he
    rw [hput.same.vtable] at he
    exact h.fields e (List.mem_of_mem_take he)
  have hmap : Ends stops _ ((fb₁.vtable.take fb₁.vtableLen).mapM (fieldOffset fb₁.len)) := mapM_fieldOffset _ _
    (fun e he hne => by have hin := hentries e he hne; omega)
    (fun e he hne hle => hfar (by have hin := hentries e he hne; omega))
  refine hmap.bind fun fields ⟨hfields,hsmall⟩ => ?_
  have hlenFields : fields.length = numFields := by
    rw [hfields,List.length_map,List.length_take,hput.same.vtable,hput.same.vtableLen,h.vtableLen]
    exact Nat.min_eq_left h.room
  have hdist : fields = distances fb₁.len (fb.vtable.take numFields) := by
    rw [hfields,hput.same.vtable,hput.same.vtableLen,h.vtableLen]
    rfl
  obtain ⟨rest,hused,hsuffix⟩ : ∃ rest, fb₁.used = lowBytes Kind.i32.size (Kind.i32.bits 0) ++ rest ∧
      fb.used <:+ rest := by
    obtain ⟨p,-,hused⟩ := hput.padded
    exact ⟨_,hused,List.suffix_append _ _⟩
  set fb₂ : Builder := { fb₁ with vtable := fields ++ fb₁.vtable.drop fb₁.vtableLen } with hfb₂
  have hsane₂ : fb₂.Sane := ⟨hput.sane.1,hput.sane.2,hput.sane.3,hput.sane.4,hput.sane.5,hput.sane.6⟩
  have hnum : fb₂.vtableLen = fields.length := by
    rw [hlenFields,← h.vtableLen]
    exact hput.same.vtableLen
  have htake : fb₂.vtable.take fb₂.vtableLen = fields := by rw [hnum]; exact List.take_left
  have hsaved : ∀ vtable ∈ fb₂.vtables, ∃ fields, VtableAt rest vtable fields := by
    intro vtable hmem
    obtain ⟨fields',hat⟩ := h.sane.saved vtable (hput.same.vtables ▸ hmem)
    exact ⟨fields',hat.mono hsuffix⟩
  have hused₂ : fb₂.used = lowBytes Kind.i32.size (Kind.i32.bits 0) ++ rest := hused
  have hlen₂ : fb₂.len = fb₁.len := rfl
  dsimp only
  by_cases hnone : fb₂.findExistingVtable = 0
  · rw [if_pos hnone]
    have hwrite : Ends stops _ (fb₂.writeVtable malloc fb₂.len fields) := writeVtable_spec hmalloc hsane₂ hused₂ (length_lowBytes _ _) heven hsaved hnum
      (hlenFields ▸ hmany) hsmall fun hle => hlarge (by omega)
    refine hwrite.bind fun fb₃ ⟨hsane₃,hrest₃,hlen₃,htable⟩ => ?_
    have hge : fb₁.len ≤ fb₃.len := by omega
    have hlt : fb₃.len < fb.len + (2 * numFields + 12) := by omega
    refine ⟨⟨hsane₃.1,hsane₃.2,hsane₃.3,hsane₃.4,hsane₃.5,hsane₃.6⟩,hsuffix.trans hrest₃,by omega,hge,hlt,?_⟩
    rw [← hdist]
    exact htable
  · rw [if_neg hnone]
    have hroom : fb₂.vtableLen ≤ fb₂.vtable.length := by
      rw [hnum,hfb₂,List.length_append]
      exact Nat.le_add_right _ _
    obtain ⟨hmem,hunique⟩ := (findExistingVtable_spec hroom).resolve_left hnone
    obtain ⟨fields',hat⟩ := hsaved _ hmem
    have hfound : VtableAt rest fb₂.findExistingVtable fields := by
      have hsame := hunique fields' (hat.mono ⟨_,hused₂.symm⟩)
      rw [htake] at hsame
      exact hsame ▸ hat
    have hoffset : fb₁.len = (lowBytes Kind.i32.size (Kind.i32.bits 0) ++ rest).length :=
      congrArg List.length hused
    have hfront : fb₂.used = [] ++ (lowBytes Kind.i32.size (Kind.i32.bits 0) ++ rest) := hused₂
    have hencode := encodeI32_append ((fb₂.findExistingVtable : ℤ) - fb₁.len) hfront (length_lowBytes _ _) hoffset
    rw [hencode]
    set patch := lowBytes 4 (Kind.bits .i32 ((fb₂.findExistingVtable : ℤ) - fb₁.len)) with hpatch
    have htotal : (patch ++ rest).length = fb₁.len := by
      rw [hoffset,List.length_append,List.length_append,hpatch,length_lowBytes,length_lowBytes,hfour]
    have hlt : fb₁.len < fb.len + (2 * numFields + 12) := by omega
    refine ⟨⟨htotal.trans_le hsane₂.fits,hsane₂.small,hsane₂.even,hsane₂.aligned,fun vtable hmem => ?_,
      hsane₂.minAlign⟩,      hsuffix.trans (List.suffix_append _ _),by omega,htotal.ge,htotal.trans_lt hlt,?_⟩
    · obtain ⟨fields'',hat''⟩ := hsaved vtable hmem
      exact ⟨fields'',hat''.mono (List.suffix_append _ _)⟩
    · rw [← hdist]
      have hlies := lies_append patch rest
      rw [htotal] at hlies
      exact ⟨fb₂.findExistingVtable,hfound.mono (List.suffix_append _ _),hlies⟩

/-- An object that is ended is a table with the fields that were set. -/
theorem objectEnd_spec (hmalloc : EvenAddresses malloc) {numFields : ℕ}
    (h : InObject begun numFields fb) (hmany : numFields < 32766)
    (hlarge : 2 ^ 30 ≤ fb.len + (2 * numFields + 15) → stops .tooLarge)
    (hfar : 0xFFFF ≤ fb.len + 7 - begun.len → stops .fieldOffset) :
    Ends stops (fun r => r.2.Sane ∧ r.2.insideObject = false ∧ fb.used <:+ r.2.used ∧
      fb.len + 4 ≤ r.1 ∧ r.1 ≤ r.2.len ∧ r.2.len < fb.len + (2 * numFields + 12) ∧
      TableAt r.2.used r.1 (distances r.1 (fb.vtable.take numFields))) (FlatBuilder.objectEnd malloc fb) := by
  rw [FlatBuilder.objectEnd,if_pos h.insideObject]
  refine (prependVtable_spec hmalloc h hmany hlarge hfar).bind fun r ⟨hsane,hrest⟩ => ?_
  exact ⟨⟨hsane.1,hsane.2,hsane.3,hsane.4,hsane.5,hsane.6⟩,rfl,hrest⟩

/-- What beginning an object leaves; all its fields are absent. -/
theorem objectBegin_spec (h : fb.Sane) (houtside : fb.insideObject = false) (numFields : ℕ) :
    InObject fb numFields (fb.objectBegin numFields).2 ∧ (fb.objectBegin numFields).2.used = fb.used ∧
      ∀ e ∈ (fb.objectBegin numFields).2.vtable, e = 0 := by
  rw [objectBegin,if_neg (Bool.eq_false_iff.mp houtside)]
  have hzero : ∀ e ∈ List.replicate (max fb.vtable.length numFields) 0, e = 0 := fun e he =>
    List.eq_of_mem_replicate he
  refine ⟨⟨⟨h.1,h.2,h.3,h.4,h.5,⟨Nat.one_pos,Nat.one_le_ofNat⟩⟩,rfl,rfl,rfl,?_,rfl,List.suffix_rfl,fun e he hne => ?_⟩,rfl,hzero⟩
  · dsimp only
    rw [List.length_replicate]
    exact Nat.le_max_right _ _
  · exact absurd (hzero e he) hne

/-- A field is set to what was just put. -/
theorem InObject.setField {numFields i size : ℕ} (h : InObject begun numFields fb)
    (hput : Put size s fb fb') (hi : i < numFields) (hs : 0 < s.length) :
    ∃ fb'', fb'.setField i = .ok fb'' ∧ InObject begun numFields fb'' ∧ fb''.used = fb'.used ∧
      fb''.vtable = fb.vtable.set i fb'.len := by
  have hlt : i < fb'.vtable.length := by
    rw [hput.same.vtable]
    exact hi.trans_le h.room
  have hfits := hput.sane.fits
  have hsmall := hput.sane.small
  have hmod : fb'.len % 2 ^ 32 = fb'.len := Nat.mod_eq_of_lt (by omega)
  have hsuffix := h.suffix.length_le
  have hbegun : begun.len ≤ fb.len := hsuffix
  have hlen := hput.len.1
  refine ⟨_,if_pos hlt,⟨⟨hput.sane.1,hput.sane.2,hput.sane.3,hput.sane.4,hput.sane.5,hput.sane.6⟩,?_,?_,?_,?_,?_,?_,?_⟩,
    rfl,?_⟩
  · exact hput.same.insideObject.trans h.insideObject
  · exact hput.same.objectEnd.trans h.objectEnd
  · exact hput.same.vtableLen.trans h.vtableLen
  · dsimp only
    rw [List.length_set,hput.same.vtable]
    exact h.room
  · exact hput.same.vtables.trans h.vtables
  · exact h.suffix.trans hput.suffix
  · intro e he hne
    change begun.len < e ∧ e ≤ fb'.len
    dsimp only at he
    rw [hmod,hput.same.vtable] at he
    obtain hold | rfl := List.mem_or_eq_of_mem_set he
    · have hin := h.fields e hold hne
      omega
    · omega
  · dsimp only
    rw [hmod,hput.same.vtable]

/-! ### Vectors -/

/-- What was built at an offset, with a bound on its bytes. -/
structure Built (fb : Builder) (bound : ℕ) (r : ℕ × Builder) : Prop where
  sane : r.2.Sane
  insideObject : r.2.insideObject = fb.insideObject
  suffix : fb.used <:+ r.2.used
  offset_lt : fb.len < r.1
  offset_le : r.1 ≤ r.2.len
  len_le : r.2.len ≤ fb.len + bound

/-- The length of a vector goes in front of its elements. -/
theorem vectorEnd_spec (h : fb.Sane) (hroom : fb.len + 4 ≤ fb.capacity) (numElems : ℕ) :
    ∃ r, fb.vectorEnd numElems = .ok r ∧ r.2.Sane ∧ SameObject fb r.2 ∧ r.1 = r.2.len ∧
      r.2.used = lowBytes 4 numElems ++ fb.used := by
  have hlen : (lowBytes 4 numElems).length = 4 := length_lowBytes _ _
  obtain ⟨fb',hput,hsane,hsame,hused,-,-⟩ := put_spec h (s := lowBytes 4 numElems) (by omega)
  have hfits := hsane.fits
  have hsmall := hsane.small
  refine ⟨(fb'.len % 2 ^ 32,fb'),?_,hsane,hsame,Nat.mod_eq_of_lt (by omega),hused⟩
  rw [vectorEnd,hput]
  rfl

/-- Bytes with a length in front of them. -/
theorem block_spec (hmalloc : EvenAddresses malloc) (h : fb.Sane) (s : Bytes) (numElems : ℕ)
    (hstops : 2 ^ 30 ≤ fb.len + (s.length + 8) → stops .tooLarge) :
    Ends stops (fun r => Built fb (s.length + 7) r ∧ Lies r.2.used r.1 (lowBytes 4 numElems ++ s))
      (fb.prep malloc 4 s.length >>= fun fb => fb.put s >>= fun fb => fb.vectorEnd numElems) := by
  refine (prep_spec hmalloc h (by decide) fun hle => hstops (by omega)).bind fun fb₁ hprep => ?_
  have hroom := hprep.room
  obtain ⟨fb₂,hput,hsane₂,hsame₂,hused₂,hcap₂,-⟩ := put_spec hprep.sane (s := s) (by omega)
  have hlen₂ : fb₂.len = s.length + fb₁.len := by
    rw [len,hused₂,List.length_append]
    rfl
  rw [hput]
  obtain ⟨r,hend,hsane,hsame,hoffset,hused⟩ := vectorEnd_spec hsane₂ (by omega) numElems
  have hlen : r.2.len = 4 + fb₂.len := by
    rw [len,hused,List.length_append,length_lowBytes]
    rfl
  have hbound := hprep.len_le
  obtain ⟨p,-,hpadded⟩ := hprep.padded
  have hall : r.2.used = lowBytes 4 numElems ++ s ++ (List.replicate p 0 ++ fb.used) := by
    rw [hused,hused₂,hpadded,List.append_assoc]
  change Ends stops _ (fb₂.vectorEnd numElems)
  rw [hend]
  refine ⟨⟨hsane,(hsame.insideObject.trans hsame₂.insideObject).trans hprep.same.insideObject,?_,?_,?_,?_⟩,?_⟩
  · exact ⟨lowBytes 4 numElems ++ s ++ List.replicate p 0,by rw [hall,List.append_assoc]⟩
  · omega
  · omega
  · omega
  · have hlies := lies_append (lowBytes 4 numElems ++ s) (List.replicate p 0 ++ fb.used)
    rw [← hall] at hlies
    rw [hoffset]
    exact hlies

/-- There is room already, and nothing to pad. -/
theorem prep_of_room (h : fb.Sane)
    (hroom : fb.len + (2 * size + additionalBytes) < fb.capacity) (haligned : size ∣ fb.pos - additionalBytes - size) :
    fb.prep malloc size additionalBytes = .ok { fb with minAlign := max fb.minAlign size } := by
  have hfits := h.fits
  unfold prep growWhile
  have hlen : ({ fb with minAlign := max fb.minAlign size } : Builder).len = fb.len := rfl
  have hpos : ({ fb with minAlign := max fb.minAlign size } : Builder).pos = fb.pos := rfl
  dsimp only
  rw [hlen,if_neg (by omega)]
  change Builder.put _ (List.replicate ((fb.pos - additionalBytes - size) % size) 0) = _
  rw [Nat.mod_eq_zero_of_dvd haligned,List.replicate_zero,put,hlen,if_pos (by rw [List.length_nil]; exact hfits)]
  rfl

lemma prependUoffset_of_room (malloc : ℕ → ℕ) (h : fb.Sane) (hroom : fb.len + 8 < fb.capacity)
    (haligned : 4 ∣ fb.pos) (hin : offset ≤ fb.len) :
    ∃ fb', fb.prependUoffset malloc offset = .ok fb' ∧ fb'.Sane ∧ SameObject fb fb' ∧
      fb'.used = lowBytes 4 (fb'.len - offset) ++ fb.used ∧ fb'.len = fb.len + 4 ∧ fb'.capacity = fb.capacity ∧
      4 ∣ fb'.pos := by
  have hdvd : 4 ∣ fb.pos - 0 - 4 := Nat.dvd_sub haligned (dvd_refl 4)
  have hprep : fb.prep malloc 4 0 = .ok { fb with minAlign := max fb.minAlign 4 } := prep_of_room h hroom hdvd
  set fb₁ : Builder := { fb with minAlign := max fb.minAlign 4 }
  have hsane₁ : fb₁.Sane := ⟨h.1,h.2,h.3,h.4,h.5,lt_max_of_lt_left h.minAlign.1,max_le h.minAlign.2 (by decide)⟩
  have hlen₁ : fb₁.len = fb.len := rfl
  have hcap₁ : fb₁.capacity = fb.capacity := rfl
  have hlow : (lowBytes 4 (fb₁.len - offset + 4)).length = 4 := length_lowBytes _ _
  obtain ⟨fb₂,hput,hsane,hsame,hused,hcap,hfront⟩ :=
    put_spec hsane₁ (s := lowBytes 4 (fb₁.len - offset + 4)) (by omega)
  have hlen₂ : fb₂.len = fb.len + 4 := by
    rw [len,hused,List.length_append,hlow,Nat.add_comm]
    rfl
  refine ⟨fb₂,?_,hsane,⟨hsame.1,hsame.2,hsame.3,hsame.4,hsame.5⟩,?_,hlen₂,hcap,?_⟩
  · rw [prependUoffset,hprep]
    change (if fb₁.len < offset then throw .unreachable else fb₁.put _) = _
    rw [if_neg (by omega),hput]
  · rw [hused,hlen₂,Nat.sub_add_comm hin]
    rfl
  · have hpos : fb₂.pos = fb.pos - 0 - 4 := by
      unfold pos
      rw [hlen₂,hcap,hfront]
      change fb.front + fb.capacity - _ = _
      omega
    rwa [hpos]

/-- Offsets from the last one on, where there is room for all and for a length in front. -/
theorem prependOffsets_spec (malloc : ℕ → ℕ) (h : fb.Sane) (offsets : List ℕ)
    (hroom : fb.len + (4 * offsets.length + 4) < fb.capacity) (haligned : 4 ∣ fb.pos)
    (hin : ∀ offset ∈ offsets, offset ≤ fb.len) :
    ∃ fb', offsets.reverse.foldlM (fun fb offset => fb.prependUoffset malloc offset) fb = .ok fb' ∧ fb'.Sane ∧
      SameObject fb fb' ∧ fb.used <:+ fb'.used ∧ fb'.len = fb.len + 4 * offsets.length ∧
      fb'.capacity = fb.capacity ∧ 4 ∣ fb'.pos ∧ ∀ (j : ℕ) offset, offsets[j]? = some offset →
        Lies fb'.used (fb'.len - 4 * j) (lowBytes 4 (fb'.len - 4 * j - offset)) := by
  induction offsets with
  | nil =>
    refine ⟨fb,rfl,h,.refl fb,List.suffix_rfl,rfl,rfl,haligned,fun j offset hj => ?_⟩
    rw [List.getElem?_nil] at hj
    cases hj
  | cons offset offsets ih =>
    rw [List.length_cons] at hroom
    rw [List.forall_mem_cons] at hin
    obtain ⟨fb₁,hfold,hsane₁,hsame₁,hsuffix₁,hlen₁,hcap₁,haligned₁,hlies₁⟩ := ih (by omega) hin.2
    obtain ⟨fb₂,hput,hsane₂,hsame₂,hused₂,hlen₂,hcap₂,haligned₂⟩ :=
      prependUoffset_of_room malloc hsane₁ (by omega) haligned₁ (hin.1.trans (by omega))
    have hsuffix₂ : fb₁.used <:+ fb₂.used := ⟨_,hused₂.symm⟩
    refine ⟨fb₂,?_,hsane₂,hsame₁.trans hsame₂,hsuffix₁.trans hsuffix₂,?_,hcap₂.trans hcap₁,haligned₂,?_⟩
    · rw [List.reverse_cons,List.foldlM_append,hfold]
      change (fb₁.prependUoffset malloc offset >>= fun fb => pure fb) = _
      rw [hput]
      rfl
    · rw [List.length_cons,hlen₂,hlen₁]
      omega
    · intro j off hj
      cases j with
      | zero =>
        have heq : offset = off := Option.some.inj hj
        have hlies := lies_append (lowBytes 4 (fb₂.len - offset)) fb₁.used
        rw [← hused₂,heq] at hlies
        exact hlies
      | succ j =>
        have hback : fb₂.len - 4 * (j + 1) = fb₁.len - 4 * j := by omega
        rw [hback]
        exact (hlies₁ j off hj).mono hsuffix₂

lemma vector_spec (hmalloc : EvenAddresses malloc) (h : fb.Sane) (offsets : List ℕ)
    (hin : ∀ offset ∈ offsets, offset ≤ fb.len)
    (hstops : 2 ^ 30 ≤ fb.len + (4 * offsets.length + 11) → stops .tooLarge) :
    Ends stops (fun r => Built fb (4 * offsets.length + 10) r ∧ fb.len + (4 * offsets.length + 4) ≤ r.1 ∧
        VectorAt r.2.used r.1 offsets)
      (fb.vectorBegin malloc 4 offsets.length 4 >>= fun fb =>
        offsets.reverse.foldlM (fun fb offset => fb.prependUoffset malloc offset) fb >>= fun fb =>
          fb.vectorEnd offsets.length) := by
  unfold vectorBegin
  rw [bind_assoc]
  refine (prep_spec hmalloc h (by decide) fun hle => hstops (by omega)).bind fun fb₁ hprep₁ => ?_
  have hbound₁ := hprep₁.len_le
  refine (prep_spec hmalloc hprep₁.sane (by decide) fun hle => hstops (by omega)).bind fun fb₂ hprep₂ => ?_
  have hbound₂ := hprep₂.len_le
  have hroom := hprep₂.room
  have haligned : 4 ∣ fb₂.pos := by
    have hdvd : 4 ∣ fb₂.pos - 4 * offsets.length - 4 := hprep₂.aligned
    unfold pos at hdvd ⊢
    omega
  obtain ⟨fb₃,hfold,hsane₃,hsame₃,hsuffix₃,hlen₃,hcap₃,-,hlies₃⟩ := prependOffsets_spec malloc
    hprep₂.sane offsets (by omega) haligned fun offset hmem => (hin offset hmem).trans (by omega)
  rw [hfold]
  obtain ⟨r,hend,hsane,hsame,hoffset,hused⟩ := vectorEnd_spec hsane₃ (by omega) offsets.length
  have hlen : r.2.len = 4 + fb₃.len := by
    rw [len,hused,List.length_append,length_lowBytes]
    rfl
  have hsuffix : fb₃.used <:+ r.2.used := ⟨_,hused.symm⟩
  have hpadded : ∀ {fb fb' : Builder}, Prepared 4 (4 * offsets.length) fb fb' → fb.used <:+ fb'.used := by
    rintro fb fb' ⟨-,-,⟨p,-,hp⟩,-,-⟩
    exact ⟨_,hp.symm⟩
  change Ends stops _ (fb₃.vectorEnd offsets.length)
  rw [hend]
  refine ⟨⟨hsane,?_,?_,?_,hoffset.le,?_⟩,by omega,?_,fun j target hj => ?_⟩
  · rw [hsame.insideObject,hsame₃.insideObject,hprep₂.same.insideObject,hprep₁.same.insideObject]
  · exact (hpadded hprep₁).trans ((hpadded hprep₂).trans (hsuffix₃.trans hsuffix))
  · omega
  · omega
  · have hlies := lies_append (lowBytes 4 offsets.length) fb₃.used
    rw [← hused] at hlies
    rw [hoffset]
    exact hlies
  · have hback : r.1 - 4 - 4 * j = fb₃.len - 4 * j := by omega
    rw [hback]
    exact (hlies₃ j target hj).mono hsuffix

end Builder

end PhpAgent.FlatBuilder

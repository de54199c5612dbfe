import PhpAgent.Daemon.Commands
import PhpAgent.Util.FlatbufferContents

/-! What the daemon reads in the tables that the agent's builder makes. -/
namespace PhpAgent.BuiltTables
open FlatBuilder Flatbuf

/-! ### Positions -/

section Positions
variable {b s t : Bytes} {o x place n : ℕ}

/-- The table so far from the end. -/
def tableAt (b : Bytes) (o : ℕ) : Table := ⟨b,b.length - o⟩

lemma numberAt_lies (h : Lies b o (s ++ t)) : numberAt b (b.length - o) s.length = littleEndian s := by
  obtain ⟨-,rest,hrest⟩ := h
  rw [numberAt,← hrest,List.append_assoc,List.take_left]

lemma inside_lies (h : Lies b o (s ++ t)) : Inside b (b.length - o) s.length := by
  have hin := h.1
  have hle := h.length_le
  rw [List.length_append] at hle
  change b.length - o + s.length ≤ b.length
  omega

lemma numberAt_lowBytes (h : Lies b o (lowBytes n x ++ t)) :
    Inside b (b.length - o) n ∧ numberAt b (b.length - o) n = x % 256 ^ n := by
  have hinside := inside_lies h
  have hnumber := numberAt_lies h
  rw [length_lowBytes] at hinside hnumber
  rw [littleEndian_lowBytes] at hnumber
  exact ⟨hinside,hnumber⟩

lemma wrap_of_lt (h : n < 2 ^ 31) : wrap n = n := by
  unfold wrap
  omega

/-- An offset leads to what it was made for. -/
theorem target_lies (hsmall : b.length < 2 ^ 31) (hlt : x < place)
    (h : Lies b place (lowBytes 4 (place - x))) :
    Inside b (b.length - place) 4 ∧ target b (b.length - place) = b.length - x := by
  have hin := h.1
  obtain ⟨hinside,hnumber⟩ := numberAt_lowBytes (t := []) (by rwa [List.append_nil])
  have hpow : (256 : ℕ) ^ 4 = 2 ^ 32 := by norm_num
  rw [hpow,Nat.mod_eq_of_lt (by omega)] at hnumber
  refine ⟨hinside,?_⟩
  rw [target,hnumber,wrap_of_lt (by omega)]
  omega

end Positions

/-! ### Fields -/

section Fields
variable {b : Bytes} {offset i place x : ℕ} {fields : List ℕ}

/-- Where the daemon finds the vtable. -/
theorem vtable_tableAt (hsmall : b.length < 2 ^ 31) (h : TableAt b offset fields) :
    ∃ vtable, VtableAt b vtable fields ∧ Inside b (b.length - offset) 4 ∧
      (tableAt b offset).vtable = b.length - vtable := by
  obtain ⟨vtable,hvtable,hlies⟩ := h
  obtain ⟨hmany,hfields,size,hstart⟩ := hvtable
  have hin := hlies.1
  have hin' := hstart.1
  obtain ⟨hinside,hnumber⟩ := numberAt_lowBytes (t := []) (by rwa [List.append_nil])
  refine ⟨vtable,⟨hmany,hfields,size,hstart⟩,hinside,?_⟩
  have hbits : Kind.bits .i32 (vtable - offset) = (vtable + 2 ^ 32 - offset) % 2 ^ 32 := by
    have hcast : ((vtable : ℤ) - offset) % 2 ^ 32 = ((vtable + 2 ^ 32 - offset : ℕ) : ℤ) % 2 ^ 32 := by omega
    unfold Kind.bits
    change (((vtable : ℤ) - offset) % 2 ^ 32).toNat = _
    omega
  have hpow : (256 : ℕ) ^ 4 = 2 ^ 32 := by norm_num
  rw [hbits,hpow] at hnumber
  rw [Table.vtable]
  change wrap (b.length - offset + 2 ^ 32 - numberAt b (b.length - offset) 4) = _
  rw [hnumber]
  unfold wrap
  omega

/-- A slot of a table with the place of its field. -/
structure Placed (b : Bytes) (offset i place : ℕ) : Prop where
  lt : place < offset
  within : offset ≤ b.length
  small : b.length < 2 ^ 31
  hasSlot : (tableAt b offset).HasSlot (4 + 2 * i)
  entry : (tableAt b offset).entry (4 + 2 * i) = if place = 0 then 0 else offset - place

lemma placed_of_table (hsmall : b.length < 2 ^ 31) (h : TableAt b offset fields) (hlt : place < offset)
    (hfield : fields.getD i 0 = if place = 0 then 0 else offset - place) : Placed b offset i place := by
  obtain ⟨vtable,⟨hmany,hfields,size,hlies⟩,hinside,hvtable⟩ := vtable_tableAt hsmall h
  have hin := hlies.1
  have hle := hlies.length_le
  have hwithin : offset ≤ b.length := by
    obtain ⟨_,_,hstart⟩ := h
    exact hstart.1
  obtain ⟨hsizeIn,hsize⟩ := numberAt_lowBytes hlies
  have hpow : (256 : ℕ) ^ 2 = 2 ^ 16 := by norm_num
  rw [hpow,Nat.mod_eq_of_lt (by omega)] at hsize
  have hentry : ∀ f, fields[i]? = some f → Inside b (wrap (b.length - vtable + (4 + 2 * i))) 2 ∧
      numberAt b (wrap (b.length - vtable + (4 + 2 * i))) 2 = f := by
    intro f hf
    obtain ⟨front,rest,hsplit,hfront⟩ := flatMap_split (length_lowBytes 2) fields hf
    have hrest := hlies.rest.rest
    rw [hsplit] at hrest
    have hplace := hrest.rest
    rw [length_lowBytes,length_lowBytes,hfront] at hplace
    rw [List.length_append,length_lowBytes,List.length_append,length_lowBytes,hsplit,List.length_append,
      hfront,List.length_append,length_lowBytes] at hle
    obtain ⟨hfieldIn,hfieldAt⟩ := numberAt_lowBytes hplace
    have hlt' := hfields f (List.mem_of_getElem? hf)
    rw [hpow,Nat.mod_eq_of_lt hlt'] at hfieldAt
    have hpos : wrap (b.length - vtable + (4 + 2 * i)) = b.length - (vtable - 2 - 2 - 2 * i) := by
      rw [wrap_of_lt (by omega)]
      omega
    rw [hpos]
    exact ⟨hfieldIn,hfieldAt⟩
  have hslot : 4 + 2 * i < (fields.length + 2) * 2 ↔ i < fields.length := by omega
  refine ⟨hlt,hwithin,hsmall,⟨hinside,?_,fun hlong => ?_⟩,?_⟩
  · rw [hvtable]
    exact hsizeIn
  · rw [hvtable] at hlong ⊢
    change 4 + 2 * i < numberAt b (b.length - vtable) 2 at hlong
    rw [hsize,hslot] at hlong
    exact (hentry _ (List.getElem?_eq_getElem hlong)).1
  · rw [Table.entry,hvtable]
    change (if 4 + 2 * i < numberAt b (b.length - vtable) 2 then numberAt b _ 2 else 0) = _
    rw [hsize,← hfield]
    by_cases hlong : i < fields.length
    · rw [if_pos (hslot.mpr hlong),(hentry _ (List.getElem?_eq_getElem hlong)).2,List.getD_eq_getElem _ _ hlong]
    · rw [if_neg fun hlt => hlong (hslot.mp hlt),List.getD_eq_default _ _ (by omega)]

end Fields

/-! ### Readers -/

/-- The bits that are read for a number. -/
def wire (k : Kind) (x : ℤ) : ℕ := if k.differs x 0 then k.bits x else 0

/-- Whole numbers without a sign are read as they are. -/
theorem wire_nat {k : Kind} (hk : k ∈ [.u8,.u16,.u32,.u64]) {n : ℕ} (hn : n < 2 ^ (8 * k.size)) : wire k n = n := by
  have hbits : k.bits n = n := by
    unfold Kind.bits
    rw [Int.emod_eq_of_lt (Int.natCast_nonneg n) (by exact_mod_cast hn),Int.toNat_natCast]
  have hdiffers : k.differs n 0 = decide ((n : ℤ) ≠ 0) := by
    fin_cases hk <;> rfl
  rw [wire,hdiffers,hbits]
  simp only [decide_eq_true_eq]
  split_ifs with hzero
  · rfl
  · omega

lemma int32OfBits_wire {y : ℤ} (hy : -2 ^ 31 ≤ y ∧ y < 2 ^ 31) : int32OfBits (wire .i32 y) = y := by
  have hdiffers : Kind.differs .i32 y 0 = decide (y ≠ 0) := rfl
  rw [wire,hdiffers]
  simp only [decide_eq_true_eq]
  unfold int32OfBits
  split_ifs with hzero
  · have hbits : ((Kind.bits .i32 y : ℕ) : ℤ) = y % 2 ^ 32 :=
      Int.toNat_of_nonneg (Int.emod_nonneg y (by decide))
    have hpow : (2 : ℤ) ^ 32 = ((2 ^ 32 : ℕ) : ℤ) := by norm_num
    rw [hbits,hpow,Int.emod_bmod]
    exact Int.bmod_eq_of_le (by omega) (by omega)
  · rw [not_not.mp hzero]
    rfl

lemma boolOfByte_wire (y : ℤ) : boolOfByte (wire .u8 (truth y)) = decide (y ≠ 0) := by
  unfold truth
  by_cases hy : y = 0
  · simp [hy,boolOfByte,wire,Kind.differs]
  · simp [hy,boolOfByte,wire,Kind.differs,Kind.bits,Kind.size]

/-! ### Vectors -/

section Vectors
variable {b : Bytes} {x : ℕ} {targets : List ℕ}

lemma vectorAt_readLength (h : VectorAt b x targets) (hsmall : b.length < 2 ^ 31)
    (hbelow : ∀ target ∈ targets, target + (4 * targets.length + 4) ≤ x) :
    Inside b (b.length - x) 4 ∧ numberAt b (b.length - x) 4 = targets.length := by
  have hin := h.1.1
  obtain ⟨hinside,hnumber⟩ := numberAt_lowBytes (t := []) (by rw [List.append_nil]; exact h.1)
  have hpow : (256 : ℕ) ^ 4 = 2 ^ 32 := by norm_num
  have hlt : targets.length < 2 ^ 32 := by
    obtain rfl | ⟨front,last,hsplit⟩ := targets.eq_nil_or_concat'
    · decide
    · have hle := hbelow last (by rw [hsplit]; exact List.mem_concat_self)
      omega
  rw [hpow,Nat.mod_eq_of_lt hlt] at hnumber
  exact ⟨hinside,hnumber⟩

lemma vectorAt_readElement (h : VectorAt b x targets) (hsmall : b.length < 2 ^ 31)
    (hbelow : ∀ target ∈ targets, target + (4 * targets.length + 4) ≤ x) {j o : ℕ} (hj : targets[j]? = some o) :
    Inside b (wrap (wrap (b.length - x + 4) + 4 * j)) 4 ∧
      target b (wrap (wrap (b.length - x + 4) + 4 * j)) = b.length - o := by
  have hlies := h.2 j o hj
  have hin := h.1.1
  have hle := hbelow o (List.mem_of_getElem? hj)
  obtain ⟨hlt,-⟩ := List.getElem?_eq_some_iff.mp hj
  have hpos : wrap (wrap (b.length - x + 4) + 4 * j) = b.length - (x - 4 - 4 * j) := by
    have hfirst : wrap (b.length - x + 4) = b.length - x + 4 := wrap_of_lt (by omega)
    rw [hfirst,wrap_of_lt (by omega)]
    omega
  rw [hpos]
  exact target_lies hsmall (by omega) hlies

end Vectors

section Readers
variable {fb : Runtime} (hfb : fb.Documented) {b : Bytes} {offset i place x slot : ℕ}
  (h : Placed b offset i place) (hslot : slot = 4 + 2 * i)
include h hslot

lemma Placed.field (hne : place ≠ 0) : (tableAt b offset).HasSlot slot ∧ (tableAt b offset).entry slot ≠ 0 ∧
    (tableAt b offset).field slot = b.length - place := by
  have hentry := h.entry
  have hlt := h.lt
  have hwithin := h.within
  have hsmall := h.small
  rw [← hslot,if_neg hne] at hentry
  refine ⟨hslot ▸ h.hasSlot,by omega,?_⟩
  rw [Table.field,hentry]
  change wrap (offset - place + (b.length - offset)) = _
  rw [wrap_of_lt (by omega)]
  omega

lemma Placed.absent (hzero : place = 0) :
    (tableAt b offset).HasSlot slot ∧ (tableAt b offset).entry slot = 0 := by
  have hentry := h.entry
  rw [← hslot,if_pos hzero] at hentry
  exact ⟨hslot ▸ h.hasSlot,hentry⟩

/-- What a field with an offset leads to. -/
theorem Placed.follow (hoffset : Leads b place x) (hx : x ≠ 0) :
    (tableAt b offset).HasSlot slot ∧ (tableAt b offset).entry slot ≠ 0 ∧
      Inside b ((tableAt b offset).field slot) 4 ∧ target b ((tableAt b offset).field slot) = b.length - x := by
  rw [Leads,if_neg hx] at hoffset
  have hne : place ≠ 0 := by omega
  obtain ⟨hhas,hentry,hfield⟩ := h.field hslot hne
  rw [hfield]
  exact ⟨hhas,hentry,target_lies h.small hoffset.1 hoffset.2⟩

lemma Placed.nothing (hoffset : Leads b place x) (hx : x = 0) :
    (tableAt b offset).HasSlot slot ∧ (tableAt b offset).entry slot = 0 := by
  rw [Leads,if_pos hx] at hoffset
  exact h.absent hslot hoffset

include hfb

lemma Placed.readNumber {k : Kind} {y : ℤ} {size : ℕ} (hsize : size = k.size) (hnumber : NumberAt b place k y 0) :
    Flatbuf.readNumber fb size (tableAt b offset) slot = some (wire k y) := by
  have hyields := readNumber_yields hfb (tableAt b offset) slot size
  unfold NumberAt at hnumber
  by_cases hdiffers : k.differs y 0
  · rw [if_pos hdiffers] at hnumber
    obtain ⟨hhas,hentry,hfield⟩ := h.field hslot hnumber.1
    obtain ⟨hinside,hat⟩ := numberAt_lowBytes (t := []) (by rw [List.append_nil]; exact hnumber.2)
    rw [Nat.mod_eq_of_lt (k.bits_lt y)] at hat
    subst hsize
    rw [hyields.some ⟨hhas,fun _ => by rw [hfield]; exact hinside⟩,Table.number,if_neg hentry,hfield,wire,
      if_pos hdiffers]
    exact congrArg some hat
  · rw [if_neg hdiffers] at hnumber
    obtain ⟨hhas,hentry⟩ := h.absent hslot hnumber
    rw [hyields.some ⟨hhas,fun hne => absurd hentry hne⟩,Table.number,if_pos hentry,wire,if_neg hdiffers]

lemma Placed.readBytes {s : Option Bytes} (hoffset : Leads b place x) (htext : TextAt b x s) :
    Flatbuf.readBytes fb (tableAt b offset) slot = some s := by
  have hyields := readBytes_yields hfb (tableAt b offset) slot
  cases s with
  | none =>
    obtain ⟨hhas,hentry⟩ := h.nothing hslot hoffset htext
    rw [hyields.some ⟨hhas,fun hne => absurd hentry hne⟩,if_pos hentry]
  | some s =>
    obtain ⟨hx,hlies⟩ := htext
    obtain ⟨hhas,hentry,hinside,htarget⟩ := h.follow hslot hoffset hx
    have hin := hlies.1
    have hle := hlies.length_le
    have hsmall := h.small
    rw [List.length_append,length_lowBytes] at hle
    obtain ⟨hlenIn,hlen⟩ := numberAt_lowBytes hlies
    have hpow : (256 : ℕ) ^ 4 = 2 ^ 32 := by norm_num
    rw [hpow,Nat.mod_eq_of_lt (by omega)] at hlen
    have hstart : wrap (b.length - x + 4) = b.length - x + 4 := wrap_of_lt (by omega)
    have hstop : wrap (b.length - x + 4 + s.length) = b.length - x + 4 + s.length := wrap_of_lt (by omega)
    have hbytes : BytesAt b ((tableAt b offset).field slot) := by
      refine ⟨hinside,?_,?_,?_⟩
      · rw [htarget]
        exact hlenIn
      · rw [htarget,hlen,hstart,hstop]
        omega
      · rw [htarget,hlen,hstart,hstop]
        omega
    rw [hyields.some ⟨hhas,fun _ => hbytes⟩,if_neg hentry,Table.text,if_neg hentry]
    change some (some ((b.drop (wrap (target b _ + 4))).take
      (wrap (wrap (target b _ + 4) + numberAt b (target b _) 4) - wrap (target b _ + 4)))) = _
    have hrest := hlies.rest
    rw [length_lowBytes] at hrest
    obtain ⟨-,rest,hrest⟩ := hrest
    have hpos : b.length - (x - 4) = b.length - x + 4 := by omega
    rw [hpos] at hrest
    rw [htarget,hlen,hstart,hstop,Nat.add_sub_cancel_left,← hrest,List.take_left]

lemma Placed.readTable {α : Type} {P : α → ℕ → Bytes → Prop} {a : Option α} (hoffset : Leads b place x)
    (hat : MaybeAt P b x a) :
    Flatbuf.readTable fb (tableAt b offset) slot = some (a.map fun _ => tableAt b x) := by
  have hyields := readTable_yields hfb (tableAt b offset) slot
  cases a with
  | none =>
    obtain ⟨hhas,hentry⟩ := h.nothing hslot hoffset hat
    rw [hyields.some ⟨hhas,fun hne => absurd hentry hne⟩,if_pos hentry]
    rfl
  | some a =>
    obtain ⟨hhas,hentry,hinside,htarget⟩ := h.follow hslot hoffset hat.1
    rw [hyields.some ⟨hhas,fun _ => hinside⟩,if_neg hentry]
    change some (some (Table.mk b (target b _))) = _
    rw [htarget]
    rfl

lemma Placed.readUnion (hoffset : Leads b place x) (hx : x ≠ 0) :
    Flatbuf.readUnion fb (tableAt b offset) slot = some (some (tableAt b x)) := by
  have hyields := readUnion_yields hfb (tableAt b offset) slot
  obtain ⟨hhas,hentry,hinside,htarget⟩ := h.follow hslot hoffset hx
  rw [hyields.some ⟨hhas,fun _ => hinside⟩,if_neg hentry]
  change some (some (Table.mk b (target b _))) = _
  rw [htarget]
  rfl

lemma Placed.readStruct (hne : place ≠ 0) :
    Flatbuf.readStruct fb (tableAt b offset) slot = some (some (tableAt b place)) := by
  have hyields := readStruct_yields hfb (tableAt b offset) slot
  obtain ⟨hhas,hentry,hfield⟩ := h.field hslot hne
  rw [hyields.some hhas,if_neg hentry,hfield]
  rfl

lemma Placed.readLength {α : Type} {P : α → ℕ → Bytes → Prop} {l : List α} (hoffset : Leads b place x)
    (hlist : ListAt P b x l) : Flatbuf.readLength fb (tableAt b offset) slot = some l.length := by
  have hyields := readLength_yields hfb (tableAt b offset) slot
  obtain ⟨hx,rfl⟩ | ⟨hx,targets,hall,hvector,hbelow⟩ := hlist
  · obtain ⟨hhas,hentry⟩ := h.nothing hslot hoffset hx
    rw [hyields.some ⟨hhas,fun hne => absurd hentry hne⟩,Table.length,if_pos hentry]
    rfl
  · obtain ⟨hhas,hentry,hinside,htarget⟩ := h.follow hslot hoffset hx
    obtain ⟨hlenIn,hlen⟩ := vectorAt_readLength hvector h.small hbelow
    rw [hyields.some ⟨hhas,fun _ => ⟨hinside,by change Inside b (target b _) 4; rw [htarget]; exact hlenIn⟩⟩,
      Table.length,if_neg hentry]
    change some (numberAt b (target b _) 4) = _
    rw [htarget,hlen,hall.length_eq]

lemma Placed.readElement {α : Type} {P : α → ℕ → Bytes → Prop} {l : List α} (hoffset : Leads b place x)
    (hlist : ListAt P b x l) {j : ℕ} {a : α} (hj : l[j]? = some a) :
    ∃ o, P a o b ∧ Flatbuf.readElement fb (tableAt b offset) slot j = some (some (tableAt b o)) := by
  have hlength := h.readLength hfb hslot hoffset hlist
  obtain ⟨hx,rfl⟩ | ⟨hx,targets,hall,hvector,hbelow⟩ := hlist
  · cases hj
  · obtain ⟨hhas,hentry,hinside,htarget⟩ := h.follow hslot hoffset hx
    obtain ⟨hlenIn,hlen⟩ := vectorAt_readLength hvector h.small hbelow
    obtain ⟨o,ho,hP⟩ := forall₂_getElem? hall.flip hj
    have hhasLength : (tableAt b offset).HasLength slot :=
      ⟨hhas,fun _ => ⟨hinside,by change Inside b (target b _) 4; rw [htarget]; exact hlenIn⟩⟩
    have hlt : j < (tableAt b offset).length slot := by
      rw [Table.length,if_neg hentry]
      change j < numberAt b (target b _) 4
      rw [htarget,hlen]
      exact (List.getElem?_eq_some_iff.mp ho).1
    obtain ⟨helementIn,helement⟩ := vectorAt_readElement hvector h.small hbelow ho
    have hpos : (tableAt b offset).elementPos slot j = wrap (wrap (b.length - x + 4) + 4 * j) := by
      rw [Table.elementPos]
      change wrap (wrap (target b _ + 4) + 4 * j) = _
      rw [htarget]
    refine ⟨o,hP,?_⟩
    rw [(readElement_yields hfb (tableAt b offset) slot hhasLength hlt).some (by rw [hpos]; exact helementIn),
      Table.element]
    change some (some (Table.mk b (target b _))) = _
    rw [hpos,helement]
    rfl

end Readers

/-! ### Loops over vectors -/

lemma mapM_range {α β : Type} {f : ℕ → Option β} {g : α → β} {l : List α}
    (hf : ∀ (j : ℕ) a, l[j]? = some a → f j = some (g a)) : (List.range l.length).mapM f = some (l.map g) := by
  induction l generalizing f with
  | nil => rfl
  | cons a l ih =>
    have hhead := hf 0 a rfl
    have htail := ih fun j a hj => hf (j + 1) a hj
    rw [List.length_cons,List.range_succ_eq_map,List.mapM_cons,hhead,List.mapM_map,List.map_cons]
    exact congrArg (fun r => r >>= fun bs => some (g a :: bs)) htail

section Loops
variable {fb : Runtime} (hfb : fb.Documented) {b : Bytes} {offset i place x slot : ℕ}
  (h : Placed b offset i place) (hslot : slot = 4 + 2 * i) (hoffset : Leads b place x)
  {α β : Type} {P : α → ℕ → Bytes → Prop} {body : Table → Option β} {g : α → β}
include hfb h hslot hoffset

/-- All elements are read, in their order. -/
theorem Placed.forElements {l : List α} (hbody : ∀ a ∈ l, ∀ o, P a o b → body (tableAt b o) = some (g a))
    (hlist : ListAt P b x l) :
    PhpAgent.forElements (Flatbuf.readLength fb (tableAt b offset) slot)
      (Flatbuf.readElement fb (tableAt b offset) slot) body = some (l.map g) := by
  rw [PhpAgent.forElements,h.readLength hfb hslot hoffset hlist]
  refine mapM_range fun j a hj => ?_
  obtain ⟨o,hP,helement⟩ := h.readElement hfb hslot hoffset hlist hj
  rw [helement]
  exact hbody a (List.mem_of_getElem? hj) o hP

lemma Placed.ifPresent {a : Option α} (hbody : ∀ a o, P a o b → body (tableAt b o) = some (g a))
    (hat : MaybeAt P b x a) :
    PhpAgent.ifPresent (Flatbuf.readTable fb (tableAt b offset) slot) body = some (a.toList.map g) := by
  rw [PhpAgent.ifPresent,h.readTable hfb hslot hoffset hat]
  cases a with
  | none => rfl
  | some a =>
    change (body (tableAt b x) >>= fun y => some [y]) = _
    rw [hbody a x hat.2]
    rfl

end Loops

/-! ### What tables hold -/

section Holdings
variable {fb : Runtime} (hfb : fb.Documented) {b : Bytes} (hsmall : b.length < 2 ^ 31) {o i slot : ℕ}
include hsmall

lemma placed_of_field {Q : Bytes → ℕ → Prop} (h : FieldOf b o i Q) : ∃ place, Placed b o i place ∧ Q b place := by
  obtain ⟨distances,place,htable,hlt,hdistance,hplace⟩ := h
  exact ⟨place,placed_of_table hsmall htable hlt hdistance,hplace⟩

include hfb

lemma readNumber_of_has {k : Kind} {y : ℤ} (h : HasNumber b o i k y) :
    Flatbuf.readNumber fb k.size (tableAt b o) (4 + 2 * i) = some (wire k y) := by
  obtain ⟨place,hplaced,hnumber⟩ := placed_of_field hsmall h
  exact hplaced.readNumber hfb rfl rfl hnumber

lemma readBytes_of_has {s : Option Bytes} (h : HasText b o i s) :
    Flatbuf.readBytes fb (tableAt b o) (4 + 2 * i) = some s := by
  obtain ⟨x,hfield,htext⟩ := h
  obtain ⟨place,hplaced,hleads⟩ := placed_of_field hsmall hfield
  exact hplaced.readBytes hfb rfl hleads htext

variable {α β : Type} {P : α → ℕ → Bytes → Prop} {l : List α}

lemma readUnion_of_has {a : α} (h : HasTable P b o i (some a)) :
    ∃ x, P a x b ∧ Flatbuf.readUnion fb (tableAt b o) (4 + 2 * i) = some (some (tableAt b x)) := by
  obtain ⟨x,hfield,hx,hat⟩ := h
  obtain ⟨place,hplaced,hleads⟩ := placed_of_field hsmall hfield
  exact ⟨x,hat,hplaced.readUnion hfb rfl hleads hx⟩

lemma readLength_of_has (h : HasList P b o i l) :
    Flatbuf.readLength fb (tableAt b o) (4 + 2 * i) = some l.length := by
  obtain ⟨x,hfield,hlist⟩ := h
  obtain ⟨place,hplaced,hleads⟩ := placed_of_field hsmall hfield
  exact hplaced.readLength hfb rfl hleads hlist

lemma readElement_of_has (h : HasList P b o i l) {j : ℕ} {a : α} (hj : l[j]? = some a) :
    ∃ x, P a x b ∧ Flatbuf.readElement fb (tableAt b o) (4 + 2 * i) j = some (some (tableAt b x)) := by
  obtain ⟨x,hfield,hlist⟩ := h
  obtain ⟨place,hplaced,hleads⟩ := placed_of_field hsmall hfield
  exact hplaced.readElement hfb rfl hleads hlist hj

variable {body : Table → Option β} {g : α → β}

lemma forElements_of_has (h : HasList P b o i l)
    (hbody : ∀ a ∈ l, ∀ x, P a x b → body (tableAt b x) = some (g a)) :
    PhpAgent.forElements (Flatbuf.readLength fb (tableAt b o) (4 + 2 * i))
      (Flatbuf.readElement fb (tableAt b o) (4 + 2 * i)) body = some (l.map g) := by
  obtain ⟨x,hfield,hlist⟩ := h
  obtain ⟨place,hplaced,hleads⟩ := placed_of_field hsmall hfield
  exact hplaced.forElements hfb rfl hleads hbody hlist

lemma ifPresent_of_has {a : Option α} (h : HasTable P b o i a)
    (hbody : ∀ a x, P a x b → body (tableAt b x) = some (g a)) :
    PhpAgent.ifPresent (Flatbuf.readTable fb (tableAt b o) (4 + 2 * i)) body = some (a.toList.map g) := by
  obtain ⟨x,hfield,hat⟩ := h
  obtain ⟨place,hplaced,hleads⟩ := placed_of_field hsmall hfield
  exact hplaced.ifPresent hfb rfl hleads hbody hat

end Holdings

end PhpAgent.BuiltTables

import Mathlib.Data.List.GetD
import PhpAgent.Util.FlatbufferBuilder

/-! What the operations of the builder leave in the buffer, and what a reader finds there. -/
namespace PhpAgent.FlatBuilder
open Flat
open Flatbuf (littleEndian)

/-! ### Reading what lies in the buffer -/

/-- The memory of a finished buffer. -/
def Contains (data : Memory) (used : Bytes) : Prop := ∀ i (h : i < used.length), data i = used[i]

lemma contains_memoryOf (used : Bytes) : Contains (memoryOf used) used := by
  intro i h
  have hnonneg : (0 : ℤ) ≤ i := Int.natCast_nonneg i
  rw [memoryOf,if_pos hnonneg,Int.toNat_natCast,List.getD_eq_getElem _ _ h]

lemma forall_cons {data : Memory} {c : UInt8} {s : Bytes} {pos : ℤ}
    (h : ∀ i (hi : i < (c :: s).length), data (pos + i) = (c :: s)[i]) :
    data pos = c ∧ ∀ i (hi : i < s.length), data (pos + 1 + i) = s[i] := by
  refine ⟨by simpa using h 0 (Nat.zero_lt_succ _),fun i hi => ?_⟩
  have hnext := h (i + 1) (Nat.succ_lt_succ hi)
  rwa [Nat.cast_succ,add_comm (i : ℤ) 1,← add_assoc] at hnext

lemma readLE_of_forall {data : Memory} {s : Bytes} {pos : ℤ}
    (h : ∀ i (hi : i < s.length), data (pos + i) = s[i]) : readLE data pos s.length = littleEndian s := by
  induction s generalizing pos with
  | nil => rfl
  | cons c s ih =>
    obtain ⟨hhead,htail⟩ := forall_cons h
    rw [List.length_cons,readLE,hhead,ih htail,littleEndian]

lemma bytesAt_of_forall {data : Memory} {s : Bytes} {pos : ℤ}
    (h : ∀ i (hi : i < s.length), data (pos + i) = s[i]) : bytesAt data pos s.length = s := by
  induction s generalizing pos with
  | nil => rfl
  | cons c s ih =>
    obtain ⟨hhead,htail⟩ := forall_cons h
    rw [List.length_cons,bytesAt,hhead,ih htail]

section Contains
variable {data : Memory} {used s t : Bytes} {offset : ℕ}

lemma Contains.forall_of_lies (hdata : Contains data used) (h : Lies used offset s) :
    ∀ i (hi : i < s.length), data ((used.length - offset : ℕ) + i) = s[i] := by
  intro i hi
  have hget := h.getElem? hi
  rw [List.getElem?_eq_getElem hi] at hget
  obtain ⟨hlt,hget⟩ := List.getElem?_eq_some_iff.mp hget
  have hat := hdata _ hlt
  rw [hget] at hat
  exact_mod_cast hat

lemma Contains.readLE_of_lies (hdata : Contains data used) (h : Lies used offset s) :
    readLE data (used.length - offset : ℕ) s.length = littleEndian s :=
  readLE_of_forall (hdata.forall_of_lies h)

lemma Contains.bytesAt_of_lies (hdata : Contains data used) (h : Lies used offset s) :
    bytesAt data (used.length - offset : ℕ) s.length = s :=
  bytesAt_of_forall (hdata.forall_of_lies h)

/-- A number in front of what lies at an offset. -/
theorem Contains.readLE_lowBytes (hdata : Contains data used) {n x : ℕ}
    (h : Lies used offset (lowBytes n x ++ s)) : readLE data (used.length - offset : ℕ) n = x % 256 ^ n := by
  have hread := hdata.readLE_of_lies h.initial
  rwa [length_lowBytes,littleEndian_lowBytes] at hread

end Contains

lemma Kind.bits_lt (k : Kind) (x : ℤ) : k.bits x < 256 ^ k.size := by
  have hpos : (0 : ℤ) < 2 ^ (8 * k.size) := by positivity
  have hlt : k.bits x < 2 ^ (8 * k.size) := by
    rw [Kind.bits,Int.toNat_lt (Int.emod_nonneg x hpos.ne')]
    exact_mod_cast Int.emod_lt_of_pos x hpos
  rwa [pow_mul] at hlt

lemma Kind.bmod_bits (k : Kind) (x : ℤ) :
    (k.bits x : ℤ).bmod (2 ^ (8 * k.size)) = x.bmod (2 ^ (8 * k.size)) := by
  have hpos : (0 : ℤ) < 2 ^ (8 * k.size) := by positivity
  rw [Kind.bits,Int.toNat_of_nonneg (Int.emod_nonneg x hpos.ne')]
  exact_mod_cast Int.emod_bmod x (2 ^ (8 * k.size))

/-! ### Vtables and tables -/

/-- A vtable with the distances of its fields. -/
def VtableAt (used : Bytes) (offset : ℕ) (fields : List ℕ) : Prop :=
  fields.length < 32766 ∧ (∀ f ∈ fields, f < 2 ^ 16) ∧ ∃ size, Lies used offset
    (lowBytes 2 ((fields.length + 2) * 2) ++ (lowBytes 2 size ++ fields.flatMap (lowBytes 2)))

/-- A table with the distances of its fields. -/
def TableAt (used : Bytes) (offset : ℕ) (fields : List ℕ) : Prop :=
  ∃ vtable, VtableAt used vtable fields ∧ Lies used offset (lowBytes 4 (Kind.bits .i32 (vtable - offset)))

section Tables
variable {data : Memory} {used used' : Bytes} {offset : ℕ} {fields : List ℕ}

lemma VtableAt.mono (h : VtableAt used offset fields) (hused : used <:+ used') :
    VtableAt used' offset fields := by
  obtain ⟨hlen,hsmall,size,hlies⟩ := h
  exact ⟨hlen,hsmall,size,hlies.mono hused⟩

lemma TableAt.mono (h : TableAt used offset fields) (hused : used <:+ used') :
    TableAt used' offset fields := by
  obtain ⟨vtable,hvtable,hlies⟩ := h
  exact ⟨vtable,hvtable.mono hused,hlies.mono hused⟩

lemma VtableAt.size (hdata : Contains data used) (h : VtableAt used offset fields) :
    readU16 data (used.length - offset : ℕ) = (fields.length + 2) * 2 := by
  obtain ⟨hlen,-,size,hlies⟩ := h
  rw [readU16,hdata.readLE_lowBytes hlies]
  omega

lemma VtableAt.field (hdata : Contains data used) (h : VtableAt used offset fields) {i f : ℕ}
    (hi : fields[i]? = some f) : readU16 data (used.length - offset + 4 + 2 * i : ℕ) = f := by
  obtain ⟨hlen,hsmall,size,hlies⟩ := h
  obtain ⟨front,rest,hsplit,hfront⟩ := flatMap_split (length_lowBytes 2) fields hi
  have hin := hlies.1
  have hrest := hlies.rest.rest
  rw [hsplit] at hrest
  have hfield := hrest.rest
  have hle := hrest.length_le
  have hle' := hlies.length_le
  rw [length_lowBytes,length_lowBytes,hfront] at hfield
  rw [List.length_append,length_lowBytes,List.length_append,length_lowBytes,hsplit,List.length_append,
    hfront] at hle'
  have hpos : used.length - offset + 4 + 2 * i = used.length - (offset - 2 - 2 - 2 * i) := by omega
  rw [readU16,hpos,hdata.readLE_lowBytes hfield]
  exact Nat.mod_eq_of_lt (hsmall f (List.mem_of_getElem? hi))

/-- Where a reader finds the vtable of a table. -/
theorem TableAt.vtable (hdata : Contains data used) (hsmall : used.length < 2 ^ 31)
    (h : TableAt used offset fields) :
    ∃ vtable, VtableAt used vtable fields ∧
      ((used.length - offset : ℕ) : ℤ) - readSoffset data (used.length - offset : ℕ) =
        (used.length - vtable : ℕ) := by
  obtain ⟨vtable,hvtable,hlies⟩ := h
  have hread : readLE data (used.length - offset : ℕ) 4 = Kind.bits .i32 (vtable - offset) % 256 ^ 4 := by
    have hread := hdata.readLE_of_lies hlies
    rwa [length_lowBytes,littleEndian_lowBytes] at hread
  refine ⟨vtable,hvtable,?_⟩
  obtain ⟨-,-,size,hin,-⟩ := hvtable
  have hin' := hlies.1
  have hsoffset : readSoffset data (used.length - offset : ℕ) = (vtable : ℤ) - offset := by
    have hsize : Kind.size .i32 = 4 := rfl
    have hbmod := Kind.bmod_bits .i32 ((vtable : ℤ) - offset)
    have hlt := Kind.bits_lt .i32 ((vtable : ℤ) - offset)
    rw [hsize] at hbmod hlt
    have hnum : (readLE data (used.length - offset : ℕ) 4 : ℤ) = Kind.bits .i32 (vtable - offset) := by
      rw [hread,Nat.mod_eq_of_lt hlt]
    calc readSoffset data (used.length - offset : ℕ)
        = (readLE data (used.length - offset : ℕ) 4 : ℤ).bmod (2 ^ 32) := rfl
      _ = ((vtable : ℤ) - offset).bmod (2 ^ 32) := hnum ▸ hbmod
      _ = vtable - offset := by
        apply Int.bmod_eq_of_le
        · norm_num
          omega
        · norm_num
          omega
  rw [hsoffset]
  omega

/-- The fields that a reader finds in a table. -/
theorem TableAt.lookup (hdata : Contains data used) (hsmall : used.length < 2 ^ 31)
    (h : TableAt used offset fields) (i : ℕ) :
    lookup (tableInit data (used.length - offset)) i =
      if fields.getD i 0 = 0 then 0 else fields.getD i 0 + (used.length - offset) := by
  obtain ⟨vtable,hvtable,hat⟩ := h.vtable hdata hsmall
  have hsize := hvtable.size hdata
  have heven : readU16 data ((used.length - offset : ℕ) - readSoffset data (used.length - offset : ℕ)) % 2 = 0 := by
    rw [hat,hsize,Nat.mul_mod_left]
  have hfield : fieldOffset data (used.length - offset) i = fields.getD i 0 := by
    rw [Flat.fieldOffset,hat,hsize]
    split_ifs with hlong
    · have hlt : i < fields.length := by omega
      have hget : fields[i]? = some fields[i] := List.getElem?_eq_getElem hlt
      have hpos : ((used.length - vtable : ℕ) : ℤ) + (4 + 2 * i : ℕ) =
          (used.length - vtable + 4 + 2 * i : ℕ) := by push_cast; ring
      rw [List.getD_eq_getElem _ _ hlt,hpos,hvtable.field hdata hget]
    · have hge : fields.length ≤ i := by omega
      rw [List.getD_eq_default _ _ hge]
  rw [lookup_tableInit heven,hfield]

end Tables

/-! ### Following offsets -/

/-- A vector of offsets. -/
def VectorAt (used : Bytes) (offset : ℕ) (offsets : List ℕ) : Prop :=
  Lies used offset (lowBytes 4 offsets.length) ∧ ∀ (j : ℕ) target, offsets[j]? = some target →
    Lies used (offset - 4 - 4 * j) (lowBytes 4 (offset - 4 - 4 * j - target))

lemma VectorAt.mono {used used' : Bytes} {offset : ℕ} {offsets : List ℕ} (h : VectorAt used offset offsets)
    (hused : used <:+ used') : VectorAt used' offset offsets :=
  ⟨h.1.mono hused,fun j target hj => (h.2 j target hj).mono hused⟩

/-- A field with the offset of something else. -/
def OffsetField (used : Bytes) (offset : ℕ) (fields : List ℕ) (i target : ℕ) : Prop :=
  ∃ place, target < place ∧ place < offset ∧ fields.getD i 0 = offset - place ∧
    Lies used place (lowBytes 4 (place - target))

section Follow
variable {data : Memory} {used : Bytes} {offset target : ℕ} {fields offsets : List ℕ} {i : ℕ}

lemma Contains.readUoffset_lies (hdata : Contains data used) {n : ℕ} {s : Bytes}
    (hn : n < 2 ^ 32) (h : Lies used offset (lowBytes 4 n ++ s)) : readUoffset data (used.length - offset : ℕ) = n := by
  have hread := hdata.readLE_lowBytes h
  rw [readUoffset,hread]
  exact Nat.mod_eq_of_lt (hn.trans_eq (by norm_num))

/-- Following the offset in a field leads to what it was made for. -/
theorem OffsetField.follow (hdata : Contains data used) (hsmall : used.length < 2 ^ 31)
    (htable : TableAt used offset fields) (h : OffsetField used offset fields i target) :
    lookup (tableInit data (used.length - offset)) i ≠ 0 ∧
      lookup (tableInit data (used.length - offset)) i +
        readUoffset data (lookup (tableInit data (used.length - offset)) i) = used.length - target := by
  obtain ⟨place,htarget,hplace,hfield,hlies⟩ := h
  have hin : offset ≤ used.length := by
    obtain ⟨_,_,hstart⟩ := htable
    exact hstart.1
  have hlookup : lookup (tableInit data (used.length - offset)) i = used.length - place := by
    rw [htable.lookup hdata hsmall,hfield,if_neg (by omega)]
    omega
  have hread : readUoffset data (used.length - place : ℕ) = place - target :=
    hdata.readUoffset_lies (s := []) (by omega) (by rwa [List.append_nil])
  rw [hlookup,hread]
  omega

section
variable (hdata : Contains data used) (hsmall : used.length < 2 ^ 31) (htable : TableAt used offset fields)
  (h : OffsetField used offset fields i target)
include hdata hsmall htable h

lemma OffsetField.tableReadVector :
    tableReadVector (tableInit data (used.length - offset)) i = used.length - target + 4 := by
  obtain ⟨hne,hfollow⟩ := h.follow hdata hsmall htable
  rw [FlatBuilder.tableReadVector,if_pos hne]
  exact congrArg (· + 4) hfollow

lemma OffsetField.tableReadVectorLen : Flat.tableReadVectorLen (tableInit data (used.length - offset)) i =
    readUoffset data (used.length - target : ℕ) := by
  obtain ⟨hne,hfollow⟩ := h.follow hdata hsmall htable
  rw [Flat.tableReadVectorLen,if_pos hne,← hfollow]
  push_cast
  rfl

lemma OffsetField.tableReadBytes : Flat.tableReadBytes (tableInit data (used.length - offset)) i =
    if readUoffset data (used.length - target : ℕ) = 0 then none else some (used.length - target + 4) := by
  obtain ⟨hne,hfollow⟩ := h.follow hdata hsmall htable
  rw [Flat.tableReadBytes,if_pos hne,← hfollow]
  rfl

lemma OffsetField.tableReadUnion : Flat.tableReadUnion (tableInit data (used.length - offset)) i =
    some (tableInit data (used.length - target)) := by
  obtain ⟨hne,hfollow⟩ := h.follow hdata hsmall htable
  rw [Flat.tableReadUnion,if_pos hne,← hfollow]
  rfl

end

/-- Following an element of a vector of offsets. -/
theorem VectorAt.readIndirect (hdata : Contains data used) (hsmall : used.length < 2 ^ 31)
    (h : VectorAt used offset offsets) (hin : ∀ target ∈ offsets, target + (4 * offsets.length + 4) ≤ offset)
    {j : ℕ} (hj : offsets[j]? = some target) :
    FlatBuilder.readIndirect data (used.length - offset + 4 + 4 * j) = used.length - target := by
  have hlies := h.2 j target hj
  obtain ⟨hlt,-⟩ := List.getElem?_eq_some_iff.mp hj
  have htarget := hin target (List.mem_of_getElem? hj)
  have hoffset := h.1.1
  have hplace : used.length - offset + 4 + 4 * j = used.length - (offset - 4 - 4 * j) := by omega
  have hread : readUoffset data (used.length - (offset - 4 - 4 * j) : ℕ) = offset - 4 - 4 * j - target :=
    hdata.readUoffset_lies (s := []) (by omega) (by rwa [List.append_nil])
  rw [FlatBuilder.readIndirect,hplace,hread]
  omega

end Follow

end PhpAgent.FlatBuilder

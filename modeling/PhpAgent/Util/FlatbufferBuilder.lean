import PhpAgent.Lib.Backfill
import PhpAgent.Util.Flatbuffers

/-! The builder of `util_flatbuffers.c`, and those of its readers that the agent has no message for. The
buffer is filled from its end. -/
namespace PhpAgent.FlatBuilder
open Flat

/-- What stops the builder: one of its assertions, or an access outside of an array. -/
inductive Fault
  | tooLarge
  | unreachable
  | fieldOffset
  | outside
deriving DecidableEq

/-- `nr_flatbuffer_t`. Pointers are addresses, `capacity` is from `front` to `back` and `used` what lies
from `pos` to `back`; the array of `vtable` has `vtable_cap` elements. -/
structure Builder where
  front : ℕ
  capacity : ℕ
  used : Bytes
  mallocs : ℕ
  minAlign : ℕ
  insideObject : Bool
  objectEnd : ℕ
  vtable : List ℕ
  vtableLen : ℕ
  vtables : List ℕ
deriving DecidableEq

/-! ### Numbers -/

/-- The types of numbers. A float is given by its bits. -/
inductive Kind
  | i8 | i16 | i32 | i64 | u8 | u16 | u32 | u64 | f32 | f64
deriving DecidableEq

namespace Kind

def size : Kind → ℕ
  | i8 | u8 => 1
  | i16 | u16 => 2
  | i32 | u32 | f32 => 4
  | i64 | u64 | f64 => 8

def signed : Kind → Bool
  | i8 | i16 | i32 | i64 => true
  | u8 | u16 | u32 | u64 | f32 | f64 => false

/-- The values of a type. -/
def Holds (k : Kind) (x : ℤ) : Prop :=
  if k.signed then -2 ^ (8 * k.size - 1) ≤ x ∧ x < 2 ^ (8 * k.size - 1) else 0 ≤ x ∧ x < 2 ^ (8 * k.size)

/-- The number as it is in memory. -/
def bits (k : Kind) (x : ℤ) : ℕ := (x % 2 ^ (8 * k.size)).toNat

/-- The bits of no number: the exponent has ones only and the mantissa has ones. -/
def isNaN (exponent mantissa : ℕ) (x : ℤ) : Bool :=
  (2 ^ exponent - 1) * 2 ^ mantissa < x % 2 ^ (exponent + mantissa)

/-- Floats compared: the zeros are equal, and what is no number equals nothing. -/
def floatDiffers (exponent mantissa : ℕ) (x d : ℤ) : Bool :=
  isNaN exponent mantissa x ∨ isNaN exponent mantissa d ∨
    (x ≠ d ∧ ¬(x % 2 ^ (exponent + mantissa) = 0 ∧ d % 2 ^ (exponent + mantissa) = 0))

/-- `x != d`. -/
def differs (k : Kind) (x d : ℤ) : Bool :=
  match k with
  | f32 => floatDiffers 8 23 x d
  | f64 => floatDiffers 11 52 x d
  | _ => x ≠ d

/-- `nr_flatbuffers_read_*`. -/
def read (k : Kind) (data : Memory) (offset : ℤ) : ℤ :=
  if k.signed then (readLE data offset k.size : ℤ).bmod (2 ^ (8 * k.size)) else readLE data offset k.size

end Kind

/-! ### Reading -/

/-- `nr_flatbuffers_read_indirect`. -/
def readIndirect (data : Memory) (pos : ℕ) : ℕ := readUoffset data pos + pos

/-- `nr_flatbuffers_table_read_*` of numbers. -/
def tableReadNumber (k : Kind) : Table → ℕ → ℤ → ℤ := tableRead k.read

/-- `nr_flatbuffers_table_read_bool`. -/
def tableReadBool (tbl : Table) (i : ℕ) (d : ℤ) : Bool := tableReadU8 tbl i (if d ≠ 0 then 1 else 0) ≠ 0

/-- `nr_flatbuffers_table_read_vector`: where the elements start, 0 without a vector. -/
def tableReadVector (tbl : Table) (i : ℕ) : ℕ :=
  let o := lookup tbl i
  if o ≠ 0 then o + readUoffset tbl.data o + 4 else 0

/-! ### Building -/

namespace Builder

def len (fb : Builder) : ℕ := fb.used.length

/-- The address of `pos`. -/
def pos (fb : Builder) : ℕ := fb.front + fb.capacity - fb.len

/-- Move `pos` down and write there. -/
def put (fb : Builder) (s : Bytes) : Except Fault Builder :=
  if fb.len + s.length ≤ fb.capacity then .ok { fb with used := s ++ fb.used } else .error .outside

/-- `nr_flatbuffers_encode_i32` at a distance from `back`. -/
def encodeI32 (fb : Builder) (offset : ℕ) (x : ℤ) : Except Fault Builder :=
  if 4 ≤ offset ∧ offset ≤ fb.len then
    .ok { fb with used := fb.used.take (fb.len - offset) ++ lowBytes 4 (Kind.bits .i32 x) ++
      fb.used.drop (fb.len - offset + 4) }
  else .error .outside

section
variable (malloc : ℕ → ℕ)

/-- `nr_flatbuffers_create`. -/
def create (initialSize : ℕ) : Builder :=
  let (front,mallocs) := if 0 < initialSize then (malloc 0,1) else (0,0)
  ⟨front,initialSize,[],mallocs,1,false,0,[],0,[]⟩

/-- `nr_flatbuffers_grow`. The assertion is about the bits 30 and 31 of the size. -/
def grow (fb : Builder) : Except Fault Builder :=
  if fb.capacity / 2 ^ 30 % 4 ≠ 0 then .error .tooLarge
  else
    let newSize := if fb.capacity * 2 = 0 then 1 else fb.capacity * 2
    .ok { fb with front := malloc fb.mallocs, capacity := newSize, mallocs := fb.mallocs + 1 }

/-- The loop of `nr_flatbuffers_prep`, in at most so many rounds. -/
def growWhile (need : ℕ) : ℕ → Builder → Except Fault Builder
  | 0,fb => .ok fb
  | n + 1,fb => if fb.capacity - fb.len ≤ need then fb.grow malloc >>= growWhile need n else .ok fb

/-- `nr_flatbuffers_prep`. Each round makes room for another byte or more. -/
def prep (fb : Builder) (size additionalBytes : ℕ) : Except Fault Builder := do
  let fb := { fb with minAlign := max fb.minAlign size }
  let need := 2 * size + additionalBytes
  let fb ← growWhile malloc need (need + 1) fb
  let padSize := (fb.pos - additionalBytes - size) % size
  fb.put (List.replicate padSize 0)

/-- `nr_flatbuffers_prepend_*` of numbers. -/
def prependNumber (fb : Builder) (k : Kind) (x : ℤ) : Except Fault Builder := do
  let fb ← fb.prep malloc k.size 0
  fb.put (lowBytes k.size (k.bits x))

/-- `nr_flatbuffers_prepend_uoffset`. -/
def prependUoffset (fb : Builder) (offset : ℕ) : Except Fault Builder := do
  let fb ← fb.prep malloc 4 0
  if fb.len < offset then throw .unreachable
  fb.put (lowBytes 4 (fb.len - offset + 4))

/-- `nr_flatbuffers_vector_end`. -/
def vectorEnd (fb : Builder) (numElems : ℕ) : Except Fault (ℕ × Builder) := do
  let fb ← fb.put (lowBytes 4 numElems)
  return (fb.len % 2 ^ 32,fb)

/-- `nr_flatbuffers_vector_begin`. -/
def vectorBegin (fb : Builder) (elemSize numElems alignment : ℕ) : Except Fault Builder := do
  let size := elemSize * numElems
  let fb ← fb.prep malloc 4 size
  fb.prep malloc alignment size

/-- `nr_flatbuffers_prepend_string`. -/
def prependString (fb : Builder) : Option Bytes → Except Fault (ℕ × Builder)
  | none => return (0,fb)
  | some s => do
    let fb ← fb.prep malloc 4 (s.length + 1)
    let fb ← fb.put (s ++ [0])
    fb.vectorEnd s.length

/-- `nr_flatbuffers_prepend_bytes`. -/
def prependBytes (fb : Builder) (src : Bytes) : Except Fault (ℕ × Builder) := do
  let fb ← fb.prep malloc 4 src.length
  let fb ← fb.put src
  fb.vectorEnd src.length

/-- `nr_flatbuffers_object_begin`. -/
def objectBegin (fb : Builder) (numFields : ℕ) : Bool × Builder :=
  if fb.insideObject then (false,fb)
  else
    (true,{ fb with
      insideObject := true
      objectEnd := fb.len
      minAlign := 1
      vtable := List.replicate (max fb.vtable.length numFields) 0
      vtableLen := numFields })

/-- The field is where `pos` is. -/
def setField (fb : Builder) (i : ℕ) : Except Fault Builder :=
  if i < fb.vtable.length then .ok { fb with vtable := fb.vtable.set i (fb.len % 2 ^ 32) }
  else .error .outside

/-- `nr_flatbuffers_object_prepend_*` of numbers. -/
def objectPrependNumber (fb : Builder) (k : Kind) (i : ℕ) (x d : ℤ) : Except Fault Builder :=
  if k.differs x d then fb.prependNumber malloc k x >>= fun fb => fb.setField i else .ok fb

/-- `nr_flatbuffers_object_prepend_uoffset`. -/
def objectPrependUoffset (fb : Builder) (i x d : ℕ) : Except Fault Builder :=
  if x ≠ d then fb.prependUoffset malloc x >>= fun fb => fb.setField i else .ok fb

/-- `nr_flatbuffers_object_prepend_bool`. -/
def objectPrependBool (fb : Builder) (i : ℕ) (x d : ℤ) : Except Fault Builder :=
  let x := if x ≠ 0 then 1 else 0
  let d := if d ≠ 0 then 1 else 0
  if x ≠ d then fb.prependNumber malloc .u8 x >>= fun fb => fb.setField i else .ok fb

/-- `nr_flatbuffers_vtable_num_fields` of a saved vtable. -/
def vtableNumFields (fb : Builder) (vtable : ℕ) : ℕ :=
  (readU16 (memoryOf fb.used) (fb.len - vtable : ℕ) - 4) / 2

/-- `nr_flatbuffers_vtable_field`. -/
def vtableField (fb : Builder) (vtable j : ℕ) : ℕ :=
  readU16 (memoryOf fb.used) (fb.len - vtable + 4 + 2 * j : ℕ)

/-- `nr_flatbuffers_match_vtable`. -/
def matchVtable (fb : Builder) (vtable : ℕ) : Bool :=
  fb.vtableLen = fb.vtableNumFields vtable ∧
    ∀ j < fb.vtableLen, fb.vtableField vtable j = fb.vtable.getD j 0

/-- `nr_flatbuffers_find_existing_vtable`, 0 for none. -/
def findExistingVtable (fb : Builder) : ℕ := (fb.vtables.reverse.find? fb.matchVtable).getD 0

/-- The distance of a field from the start of its object, with the assertions about it. -/
def fieldOffset (objectOffset field : ℕ) : Except Fault ℕ :=
  if field = 0 then .ok 0
  else if field < objectOffset ∧ objectOffset - field < 0xFFFF then .ok (objectOffset - field)
  else .error .fieldOffset

/-- The part of `nr_flatbuffers_prepend_vtable` that writes a vtable, from its last field on. -/
def writeVtable (fb : Builder) (objectOffset : ℕ) (fields : List ℕ) : Except Fault Builder := do
  let fb ← fields.reverse.foldlM (fun fb field => fb.prependNumber malloc .u16 (field : ℕ)) fb
  let fb ← fb.prependNumber malloc .u16 (objectOffset - fb.objectEnd : ℕ)
  let fb ← fb.prependNumber malloc .u16 ((fb.vtableLen + 2) * 2 : ℕ)
  let fb ← fb.encodeI32 objectOffset (fb.len - objectOffset)
  return { fb with vtables := fb.vtables ++ [fb.len] }

/-- `nr_flatbuffers_prepend_vtable`. -/
def prependVtable (fb : Builder) : Except Fault (ℕ × Builder) := do
  let fb ← fb.prependNumber malloc .i32 0
  let objectOffset := fb.len
  let fields ← (fb.vtable.take fb.vtableLen).mapM (fieldOffset objectOffset)
  let fb := { fb with vtable := fields ++ fb.vtable.drop fb.vtableLen }
  let existingVtable := fb.findExistingVtable
  let fb ←
    if existingVtable = 0 then fb.writeVtable malloc objectOffset fields
    else fb.encodeI32 objectOffset (existingVtable - objectOffset)
  return (objectOffset,{ fb with vtableLen := 0 })

/-- `nr_flatbuffers_finish`. -/
def finish (fb : Builder) (rootTable : ℕ) : Except Fault Builder := do
  let fb ← fb.prep malloc fb.minAlign 4
  fb.prependUoffset malloc rootTable

end

end Builder

/-- `nr_flatbuffers_object_end`. -/
def objectEnd (malloc : ℕ → ℕ) (fb : Builder) : Except Fault (ℕ × Builder) :=
  if fb.insideObject then do
    let (offset,fb) ← fb.prependVtable malloc
    return (offset,{ fb with insideObject := false })
  else return (0,fb)

end PhpAgent.FlatBuilder

import PhpAgent.Lib.Flatbuf
import PhpAgent.Util.Object

/-! The table readers of `util_flatbuffers.c`, on the tables the daemon's builder makes. -/
namespace PhpAgent
open Flatbuf (Field Slots)

/-- The bytes around a message by their distance from its start. A reader does not look at the
length of the message. -/
abbrev Memory : Type := ℤ → UInt8

namespace Flat

/-- A message with zeros around it. -/
def memoryOf (b : Bytes) : Memory := fun i => if 0 ≤ i then b.getD i.toNat 0 else 0

/-! ### Reading -/

/-- A little-endian number of the given number of bytes. -/
def readLE (data : Memory) (offset : ℤ) : ℕ → ℕ
  | 0 => 0
  | n+1 => (data offset).toNat+256*readLE data (offset+1) n

def readU8 (data : Memory) (offset : ℤ) : ℕ := readLE data offset 1
def readU16 (data : Memory) (offset : ℤ) : ℕ := readLE data offset 2
def readU64 (data : Memory) (offset : ℤ) : ℕ := readLE data offset 8
def readI8 (data : Memory) (offset : ℤ) : ℤ := (readLE data offset 1 : ℤ).bmod (2^8)
def readUoffset (data : Memory) (offset : ℤ) : ℕ := readLE data offset 4
def readSoffset (data : Memory) (offset : ℤ) : ℤ := (readLE data offset 4 : ℤ).bmod (2^32)
def readVoffset (data : Memory) (offset : ℤ) : ℕ := readLE data offset 2

/-- `nr_flatbuffers_table_t`. -/
structure Table where
  data : Memory
  offset : ℕ
  vtable : ℤ
  vsize : ℕ

def tableInit (data : Memory) (offset : ℕ) : Table :=
  let vtable := offset-readSoffset data offset
  { data := data, offset := offset, vtable := vtable, vsize := readU16 data vtable }

def tableInitRoot (data : Memory) : Table := tableInit data (readUoffset data 0)

/-- `nr_flatbuffers_table_lookup`: where the i-th field is, 0 when it is not there. -/
def lookup (tbl : Table) (i : ℕ) : ℕ :=
  let offset := 2*(2+i)
  if tbl.vsize ≤ offset then 0
  else
    let field := readVoffset tbl.data (tbl.vtable+offset)
    if field = 0 then 0 else field+tbl.offset

/-- The readers of a number; `d` is the default. -/
def tableRead {α : Type} (read : Memory → ℤ → α) (tbl : Table) (i : ℕ) (d : α) : α :=
  let o := lookup tbl i
  if o ≠ 0 then read tbl.data o else d

def tableReadU8 : Table → ℕ → ℕ → ℕ := tableRead readU8
def tableReadI8 : Table → ℕ → ℤ → ℤ := tableRead readI8
def tableReadU16 : Table → ℕ → ℕ → ℕ := tableRead readU16
def tableReadU64 : Table → ℕ → ℕ → ℕ := tableRead readU64

def tableReadVectorLen (tbl : Table) (i : ℕ) : ℕ :=
  let o := lookup tbl i
  if o ≠ 0 then readUoffset tbl.data (o+readUoffset tbl.data o) else 0

/-- Where the bytes of a vector start; an empty one has none. -/
def tableReadBytes (tbl : Table) (i : ℕ) : Option ℕ :=
  let o := lookup tbl i
  if o ≠ 0 then
    let o := o+readUoffset tbl.data o
    if readUoffset tbl.data o = 0 then none else some (o+4)
  else none

def tableReadUnion (parent : Table) (i : ℕ) : Option Table :=
  let o := lookup parent i
  if o ≠ 0 then some (tableInit parent.data (o+readUoffset parent.data o)) else none

/-- The bytes from a position on. -/
def bytesAt (data : Memory) (pos : ℤ) : ℕ → Bytes
  | 0 => []
  | n+1 => data pos :: bytesAt data (pos+1) n

/-! ### The format -/

/-- Where a field is from the start of its table: an entry of the vtable, 0 when the vtable is too
short or the field was not stored. -/
def fieldOffset (data : Memory) (offset : ℕ) (i : ℕ) : ℕ :=
  let vtable := offset-readSoffset data offset
  if 4+2*i+2 ≤ readU16 data vtable then readU16 data (vtable+(4+2*i : ℕ)) else 0

/-- A memory holds a field at a position. Vectors and tables are reached by an offset. -/
inductive Holds (data : Memory) : ℕ → Field → Prop
  | u8 {pos n : ℕ} (h : readU8 data pos = n) : Holds data pos (.u8 n)
  | i8 {pos : ℕ} {i : ℤ} (h : readI8 data pos = i) : Holds data pos (.i8 i)
  | u16 {pos n : ℕ} (h : readU16 data pos = n) : Holds data pos (.u16 n)
  | u64 {pos n : ℕ} (h : readU64 data pos = n) : Holds data pos (.u64 n)
  | bytes {pos start : ℕ} {b : Bytes} (hstart : start = pos+readUoffset data pos)
      (hlen : readUoffset data start = b.length) (hsmall : b.length < 2^31)
      (hbytes : bytesAt data (start+4) b.length = b) : Holds data pos (.bytes b)
  | table {pos start : ℕ} {slots : Slots} (hstart : start = pos+readUoffset data pos)
      (heven : readU16 data (start-readSoffset data start) % 2 = 0)
      (habsent : ∀ i, slots.getD i none = none → fieldOffset data start i = 0)
      (hpresent : ∀ i f, slots.getD i none = some f → fieldOffset data start i ≠ 0)
      (hfield : ∀ i f, slots.getD i none = some f →
        Holds data (fieldOffset data start i+start) f) : Holds data pos (.table slots)

lemma lookup_tableInit {data : Memory} {offset : ℕ}
    (heven : readU16 data (offset-readSoffset data offset) % 2 = 0) (i : ℕ) :
    lookup (tableInit data offset) i =
      if fieldOffset data offset i = 0 then 0 else fieldOffset data offset i+offset := by
  have hpos : 2*(2+i) = 4+2*i := by omega
  by_cases hsize : readU16 data (offset-readSoffset data offset) ≤ 2*(2+i)
  · have hshort : ¬ 4+2*i+2 ≤ readU16 data (offset-readSoffset data offset) := by omega
    simp [lookup,tableInit,fieldOffset,hsize,hshort]
  · have hlong : 4+2*i+2 ≤ readU16 data (offset-readSoffset data offset) := by omega
    have hlookup : lookup (tableInit data offset) i =
        if readVoffset data (offset-readSoffset data offset+(2*(2+i) : ℕ)) = 0 then 0
        else readVoffset data (offset-readSoffset data offset+(2*(2+i) : ℕ))+offset := by
      simp only [lookup,tableInit,hsize,if_false]
      rfl
    have hfield : fieldOffset data offset i =
        readVoffset data (offset-readSoffset data offset+(4+2*i : ℕ)) := by
      simp only [fieldOffset,hlong,if_true]
      rfl
    rw [hlookup,hfield,hpos]

/-! ### Reading what was stored -/

section Stored
variable {data : Memory} {start : ℕ} {slots : Slots}

/-- A memory holds a table that starts at a position. -/
structure HoldsTable (data : Memory) (start : ℕ) (slots : Slots) : Prop where
  even : readU16 data (start-readSoffset data start) % 2 = 0
  absent : ∀ i, slots.getD i none = none → fieldOffset data start i = 0
  present : ∀ i f, slots.getD i none = some f → fieldOffset data start i ≠ 0
  field : ∀ i f, slots.getD i none = some f → Holds data (fieldOffset data start i+start) f

lemma Holds.holdsTable {pos : ℕ} (h : Holds data pos (.table slots)) :
    HoldsTable data (pos+readUoffset data pos) slots := by
  cases h with
  | table hstart heven habsent hpresent hfield =>
    subst hstart
    exact ⟨heven,habsent,hpresent,hfield⟩

namespace HoldsTable

variable {i : ℕ}

lemma lookup_none (h : HoldsTable data start slots) (hi : slots.getD i none = none) :
    lookup (tableInit data start) i = 0 := by
  rw [lookup_tableInit h.even,if_pos (h.absent i hi)]

lemma lookup_some (h : HoldsTable data start slots) {f : Field} (hi : slots.getD i none = some f) :
    lookup (tableInit data start) i ≠ 0 ∧ Holds data (lookup (tableInit data start) i) f := by
  have hne := h.present i f hi
  rw [lookup_tableInit h.even,if_neg hne]
  exact ⟨by omega,h.field i f hi⟩

lemma tableRead_none (h : HoldsTable data start slots) {α : Type} (read : Memory → ℤ → α)
    (hi : slots.getD i none = none) (d : α) : tableRead read (tableInit data start) i d = d := by
  simp [tableRead,h.lookup_none hi]

lemma tableRead_some (h : HoldsTable data start slots) {α : Type} (read : Memory → ℤ → α)
    {f : Field} (hi : slots.getD i none = some f) (d : α) :
    tableRead read (tableInit data start) i d = read data (lookup (tableInit data start) i) := by
  simp only [tableRead,(h.lookup_some hi).1,ne_eq,not_false_eq_true,if_true]
  rfl

lemma readU8_some (h : HoldsTable data start slots) {i n : ℕ}
    (hi : slots.getD i none = some (.u8 n)) (d : ℕ) :
    tableReadU8 (tableInit data start) i d = n := by
  have hfield := (h.lookup_some hi).2
  cases hfield with
  | u8 hn => exact (h.tableRead_some readU8 hi d).trans hn

lemma readI8_some (h : HoldsTable data start slots) {n : ℤ} (hi : slots.getD i none = some (.i8 n)) (d : ℤ) :
    tableReadI8 (tableInit data start) i d = n := by
  have hfield := (h.lookup_some hi).2
  cases hfield with
  | i8 hn => exact (h.tableRead_some readI8 hi d).trans hn

/-- A 16-bit number that is stored unless it is zero; `d` is the default of the reader. -/
theorem readU16_stored (h : HoldsTable data start slots) {i n : ℕ}
    (hi : slots.getD i none = if n = 0 then none else some (.u16 n)) (d : ℕ) :
    tableReadU16 (tableInit data start) i d = if n = 0 then d else n := by
  split_ifs at hi ⊢ with hn
  · exact h.tableRead_none readU16 hi d
  · have hfield := (h.lookup_some hi).2
    cases hfield with
    | u16 hn => exact (h.tableRead_some readU16 hi d).trans hn

lemma readU64_stored (h : HoldsTable data start slots) {i n : ℕ}
    (hi : slots.getD i none = if n = 0 then none else some (.u64 n)) (d : ℕ) :
    tableReadU64 (tableInit data start) i d = if n = 0 then d else n := by
  split_ifs at hi ⊢ with hn
  · exact h.tableRead_none readU64 hi d
  · have hfield := (h.lookup_some hi).2
    cases hfield with
    | u64 hn => exact (h.tableRead_some readU64 hi d).trans hn

lemma readVector_some (h : HoldsTable data start slots) {b : Bytes}
    (hi : slots.getD i none = some (.bytes b)) :
    b.length < 2^31 ∧ tableReadVectorLen (tableInit data start) i = b.length ∧
      (b = [] → tableReadBytes (tableInit data start) i = none) ∧
      (b ≠ [] → ∃ pos : ℕ, tableReadBytes (tableInit data start) i = some pos ∧
        bytesAt data pos b.length = b) := by
  obtain ⟨hne,hfield⟩ := h.lookup_some hi
  have hdata : (tableInit data start).data = data := rfl
  cases hfield with
  | @bytes _ vec _ hvec hlen hsmall hbytes =>
    have hat : ((lookup (tableInit data start) i : ℕ) : ℤ)+
        (readUoffset data (lookup (tableInit data start) i) : ℕ) = (vec : ℤ) := by
      rw [hvec]
      push_cast
      rfl
    refine ⟨hsmall,?_,?_,?_⟩
    · simp only [tableReadVectorLen,hne,ne_eq,not_false_eq_true,if_true,hdata]
      rw [hat,hlen]
    · rintro rfl
      simp only [tableReadBytes,hne,ne_eq,not_false_eq_true,if_true,hdata]
      rw [← hvec,hlen]
      rfl
    · intro hb
      have hpos : b.length ≠ 0 := by simpa using hb
      refine ⟨vec+4,?_,?_⟩
      · simp only [tableReadBytes,hne,ne_eq,not_false_eq_true,if_true,hdata]
        rw [← hvec,hlen,if_neg hpos]
      · push_cast
        exact hbytes

lemma readUnion_some (h : HoldsTable data start slots) {child : Slots}
    (hi : slots.getD i none = some (.table child)) :
    ∃ start', tableReadUnion (tableInit data start) i = some (tableInit data start') ∧
      HoldsTable data start' child := by
  obtain ⟨hne,hfield⟩ := h.lookup_some hi
  refine ⟨_,?_,hfield.holdsTable⟩
  simp only [tableReadUnion,hne,ne_eq,not_false_eq_true,if_true]
  rfl

end HoldsTable
end Stored
end Flat
end PhpAgent

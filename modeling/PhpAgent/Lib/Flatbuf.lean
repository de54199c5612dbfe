import Mathlib.Tactic.Ring
import PhpAgent.Lib.Defined

/-! The flatbuffers format: tables with their vtables, vectors and byte vectors in a string of bytes,
which positions of 32 bits point into. -/
namespace PhpAgent.Flatbuf

/-- Arithmetic of positions. -/
def wrap (n : ℕ) : ℕ := n % 2^32

def littleEndian : List UInt8 → ℕ
  | [] => 0
  | c :: rest => c.toNat+256*littleEndian rest

def numberAt (b : List UInt8) (pos size : ℕ) : ℕ := littleEndian ((b.drop pos).take size)

abbrev Inside (b : List UInt8) (pos size : ℕ) : Prop := pos+size ≤ b.length

/-- Reading outside is a panic, which is none. -/
def load (b : List UInt8) (pos size : ℕ) : Option ℕ :=
  if Inside b pos size then some (numberAt b pos size) else none

def slice (b : List UInt8) (start stop : ℕ) : Option (List UInt8) :=
  if start ≤ stop ∧ stop ≤ b.length then some ((b.drop start).take (stop-start)) else none

structure Table where
  bytes : List UInt8
  pos : ℕ

/-- The zero value. -/
def Table.zero : Table := ⟨[],0⟩

/-- What a slot of a table holds while the table is built. -/
inductive Field
  | u8 (n : ℕ)
  | i8 (i : ℤ)
  | u16 (n : ℕ)
  | u64 (n : ℕ)
  | bytes (b : List UInt8)
  | table (slots : List (Option Field))

/-- The slots of a table; a slot that was not stored is `none`. -/
abbrev Slots : Type := List (Option Field)

/-- The functions of a flatbuffers package: its readers, where `get` stands for those of numbers, by their
sizes, and the `Prepend…Slot` functions of its builder, for the table that is open. -/
structure Runtime where
  getUOffsetT : List UInt8 → Option ℕ
  get : ℕ → Table → ℕ → Option ℕ
  offset : Table → ℕ → Option ℕ
  indirect : Table → ℕ → Option ℕ
  byteVector : Table → ℕ → Option (List UInt8)
  vectorLen : Table → ℕ → Option ℕ
  vector : Table → ℕ → Option ℕ
  union : Table → ℕ → Option Table
  startObject : ℕ → Slots
  prependByteSlot : Slots → ℕ → ℕ → ℕ → Option Slots
  prependInt8Slot : Slots → ℕ → ℤ → ℤ → Option Slots
  prependUint16Slot : Slots → ℕ → ℕ → ℕ → Option Slots
  prependUint64Slot : Slots → ℕ → ℕ → ℕ → Option Slots
  prependUOffsetTSlot : Slots → ℕ → Field → Option Slots

namespace Documentation

/-! What the functions are documented to do. -/

def get (size : ℕ) (t : Table) (pos : ℕ) : Option ℕ := load t.bytes pos size

/-- The vtable is where a signed offset at the start of the table says. It starts with its size. -/
def offset (t : Table) (slot : ℕ) : Option ℕ := do
  let back ← load t.bytes t.pos 4
  let vtable := wrap (t.pos+2^32-back)
  let size ← load t.bytes vtable 2
  if slot < size then load t.bytes (wrap (vtable+slot)) 2 else some 0

def indirect (t : Table) (pos : ℕ) : Option ℕ := do
  let relative ← load t.bytes pos 4
  return wrap (pos+relative)

def byteVector (t : Table) (pos : ℕ) : Option (List UInt8) := do
  let relative ← load t.bytes pos 4
  let start := wrap (pos+relative)
  let length ← load t.bytes start 4
  slice t.bytes (wrap (start+4)) (wrap (wrap (start+4)+length))

def vectorLen (t : Table) (o : ℕ) : Option ℕ := do
  let pos := wrap (o+t.pos)
  let relative ← load t.bytes pos 4
  load t.bytes (wrap (pos+relative)) 4

def vector (t : Table) (o : ℕ) : Option ℕ := do
  let pos := wrap (o+t.pos)
  let relative ← load t.bytes pos 4
  return wrap (wrap (pos+relative)+4)

def union (t : Table) (o : ℕ) : Option Table := do
  let pos := wrap (o+t.pos)
  let relative ← load t.bytes pos 4
  return ⟨t.bytes,wrap (pos+relative)⟩

/-- The open table must have the slot. -/
def store (slots : Slots) (i : ℕ) (f : Field) : Option Slots :=
  if i < slots.length then some (slots.set i (some f)) else none

/-- A number equal to its default is not stored. -/
def prependSlot {α : Type} [DecidableEq α] (field : α → Field) (slots : Slots) (i : ℕ) (n d : α) :
    Option Slots :=
  if n = d then some slots else store slots i (field n)

end Documentation

structure Runtime.Documented (fb : Runtime) : Prop where
  getUOffsetT : ∀ b, fb.getUOffsetT b = load b 0 4
  get : ∀ size t pos, fb.get size t pos = Documentation.get size t pos
  offset : ∀ t slot, fb.offset t slot = Documentation.offset t slot
  indirect : ∀ t pos, fb.indirect t pos = Documentation.indirect t pos
  byteVector : ∀ t pos, fb.byteVector t pos = Documentation.byteVector t pos
  vectorLen : ∀ t o, fb.vectorLen t o = Documentation.vectorLen t o
  vector : ∀ t o, fb.vector t o = Documentation.vector t o
  union : ∀ t o, fb.union t o = Documentation.union t o
  startObject : ∀ n, fb.startObject n = List.replicate n none
  prependByteSlot : ∀ slots i n d,
    fb.prependByteSlot slots i n d = Documentation.prependSlot .u8 slots i n d
  prependInt8Slot : ∀ slots i n d,
    fb.prependInt8Slot slots i n d = Documentation.prependSlot .i8 slots i n d
  prependUint16Slot : ∀ slots i n d,
    fb.prependUint16Slot slots i n d = Documentation.prependSlot .u16 slots i n d
  prependUint64Slot : ∀ slots i n d,
    fb.prependUint64Slot slots i n d = Documentation.prependSlot .u64 slots i n d
  prependUOffsetTSlot : ∀ slots i f, fb.prependUOffsetTSlot slots i f = Documentation.store slots i f

/-- Functions that do just that. -/
def Runtime.reference : Runtime where
  getUOffsetT := fun b => load b 0 4
  get := Documentation.get
  offset := Documentation.offset
  indirect := Documentation.indirect
  byteVector := Documentation.byteVector
  vectorLen := Documentation.vectorLen
  vector := Documentation.vector
  union := Documentation.union
  startObject := fun n => List.replicate n none
  prependByteSlot := Documentation.prependSlot .u8
  prependInt8Slot := Documentation.prependSlot .i8
  prependUint16Slot := Documentation.prependSlot .u16
  prependUint64Slot := Documentation.prependSlot .u64
  prependUOffsetTSlot := Documentation.store

lemma Runtime.reference_documented : Runtime.reference.Documented where
  getUOffsetT := fun _ => rfl
  get := fun _ _ _ => rfl
  offset := fun _ _ => rfl
  indirect := fun _ _ => rfl
  byteVector := fun _ _ => rfl
  vectorLen := fun _ _ => rfl
  vector := fun _ _ => rfl
  union := fun _ _ => rfl
  startObject := fun _ => rfl
  prependByteSlot := fun _ _ _ _ => rfl
  prependInt8Slot := fun _ _ _ _ => rfl
  prependUint16Slot := fun _ _ _ _ => rfl
  prependUint64Slot := fun _ _ _ _ => rfl
  prependUOffsetTSlot := fun _ _ _ => rfl

/-! ### The format -/

/-- Where the offset at a position leads. -/
def target (b : List UInt8) (pos : ℕ) : ℕ := wrap (pos+numberAt b pos 4)

/-- A byte vector that the offset at a position leads to. -/
structure BytesAt (b : List UInt8) (pos : ℕ) : Prop where
  offset : Inside b pos 4
  length : Inside b (target b pos) 4
  order : wrap (target b pos+4) ≤ wrap (wrap (target b pos+4)+numberAt b (target b pos) 4)
  stop : wrap (wrap (target b pos+4)+numberAt b (target b pos) 4) ≤ b.length

namespace Table

def vtable (t : Table) : ℕ := wrap (t.pos+2^32-numberAt t.bytes t.pos 4)

/-- The entry of a slot in the vtable, 0 when there is none. -/
def entry (t : Table) (slot : ℕ) : ℕ :=
  if slot < numberAt t.bytes t.vtable 2 then numberAt t.bytes (wrap (t.vtable+slot)) 2 else 0

/-- Where the field of a slot is. -/
def field (t : Table) (slot : ℕ) : ℕ := wrap (t.entry slot+t.pos)

def number (t : Table) (slot size : ℕ) : ℕ := if t.entry slot = 0 then 0 else numberAt t.bytes (t.field slot) size

/-- The bytes of a byte vector. -/
def text (t : Table) (slot : ℕ) : List UInt8 :=
  if t.entry slot = 0 then []
  else
    let start := target t.bytes (t.field slot)
    let stop := wrap (wrap (start+4)+numberAt t.bytes start 4)
    (t.bytes.drop (wrap (start+4))).take (stop-wrap (start+4))

structure HasSlot (t : Table) (slot : ℕ) : Prop where
  table : Inside t.bytes t.pos 4
  vtable : Inside t.bytes t.vtable 2
  entry : slot < numberAt t.bytes t.vtable 2 → Inside t.bytes (wrap (t.vtable+slot)) 2

/-- A field that is absent, or at a position with a property. -/
def HasField (t : Table) (slot : ℕ) (P : ℕ → Prop) : Prop :=
  t.HasSlot slot ∧ (t.entry slot ≠ 0 → P (t.field slot))

def HasNumber (t : Table) (slot size : ℕ) : Prop := t.HasField slot fun pos => Inside t.bytes pos size

def HasBytes (t : Table) (slot : ℕ) : Prop := t.HasField slot (BytesAt t.bytes)

def HasTable (t : Table) (slot : ℕ) (P : Table → Prop) : Prop :=
  t.HasField slot fun pos => Inside t.bytes pos 4 ∧ P ⟨t.bytes,target t.bytes pos⟩

def HasLength (t : Table) (slot : ℕ) : Prop :=
  t.HasField slot fun pos => Inside t.bytes pos 4 ∧ Inside t.bytes (target t.bytes pos) 4

def length (t : Table) (slot : ℕ) : ℕ :=
  if t.entry slot = 0 then 0 else numberAt t.bytes (target t.bytes (t.field slot)) 4

/-- Where the offset to an element of a vector of tables is. -/
def elementPos (t : Table) (slot j : ℕ) : ℕ := wrap (wrap (target t.bytes (t.field slot)+4)+4*j)

def element (t : Table) (slot j : ℕ) : Table := ⟨t.bytes,target t.bytes (t.elementPos slot j)⟩

structure HasVector (t : Table) (slot : ℕ) (P : Table → Prop) : Prop where
  length : t.HasLength slot
  elements : ∀ j < t.length slot, Inside t.bytes (t.elementPos slot j) 4 ∧ P (t.element slot j)

end Table

/-! ### The readers of the generated code -/

section Readers
variable (fb : Runtime)

/-- A field, or the default when the vtable has no entry. -/
def readField {α : Type} (t : Table) (slot : ℕ) (d : α) (read : ℕ → Option α) : Option α := do
  let o ← fb.offset t slot
  if o ≠ 0 then read o else some d

def readNumber (size : ℕ) (t : Table) (slot : ℕ) : Option ℕ :=
  readField fb t slot 0 fun o => fb.get size t (wrap (o+t.pos))

/-- Absent bytes are nil. -/
def readBytes (t : Table) (slot : ℕ) : Option (Option (List UInt8)) :=
  readField fb t slot none fun o => (fb.byteVector t (wrap (o+t.pos))).map some

def readTable (t : Table) (slot : ℕ) : Option (Option Table) :=
  readField fb t slot none fun o => (fb.indirect t (wrap (o+t.pos))).map fun x => some ⟨t.bytes,x⟩

def readUnion (t : Table) (slot : ℕ) : Option (Option Table) :=
  readField fb t slot none fun o => (fb.union t o).map some

/-- A struct, which lies in its table. -/
def readStruct (t : Table) (slot : ℕ) : Option (Option Table) :=
  readField fb t slot none fun o => some (some ⟨t.bytes,wrap (o+t.pos)⟩)

def readLength (t : Table) (slot : ℕ) : Option ℕ := readField fb t slot 0 fun o => fb.vectorLen t o

def readElement (t : Table) (slot j : ℕ) : Option (Option Table) :=
  readField fb t slot none fun o => do
    let x ← fb.vector t o
    let x ← fb.indirect t (wrap (x+4*j))
    return some ⟨t.bytes,x⟩

end Readers

/-! ### When they have a result -/

lemma load_yields (b : List UInt8) (pos size : ℕ) :
    Yields (load b pos size) (Inside b pos size) (numberAt b pos size) := Yields.ite

lemma slice_yields (b : List UInt8) (start stop : ℕ) :
    Yields (slice b start stop) (start ≤ stop ∧ stop ≤ b.length) ((b.drop start).take (stop-start)) :=
  Yields.ite

section Documented
variable {fb : Runtime} (h : fb.Documented)
include h

lemma offset_yields (t : Table) (slot : ℕ) : Yields (fb.offset t slot) (t.HasSlot slot) (t.entry slot) := by
  rw [h.offset,Documentation.offset]
  have hlast : Yields
      (if slot < numberAt t.bytes t.vtable 2 then load t.bytes (wrap (t.vtable+slot)) 2 else some 0)
      (slot < numberAt t.bytes t.vtable 2 → Inside t.bytes (wrap (t.vtable+slot)) 2) (t.entry slot) := by
    unfold Table.entry
    split_ifs with hslot
    · exact (load_yields _ _ _).congr ⟨fun hinside _ => hinside,fun hinside => hinside hslot⟩
    · exact ⟨fun _ => rfl,fun hnot => absurd (fun hlt => absurd hlt hslot) hnot⟩
  refine ((load_yields _ _ _).bind fun _ => (load_yields _ _ _).bind fun _ => hlast).congr ?_
  exact ⟨fun ⟨htable,hvtable,hentry⟩ => ⟨htable,hvtable,hentry⟩,
    fun hslot => ⟨hslot.table,hslot.vtable,hslot.entry⟩⟩

variable {α : Type} {t : Table} {slot : ℕ} {d v : α} {read : ℕ → Option α} {P : ℕ → Prop}

lemma readField_yields (hread : t.entry slot ≠ 0 → Yields (read (t.entry slot)) (P (t.field slot)) v) :
    Yields (readField fb t slot d read) (t.HasField slot P) (if t.entry slot = 0 then d else v) := by
  refine (offset_yields h t slot).bind fun _ => ?_
  by_cases hentry : t.entry slot = 0
  · rw [if_neg (not_not.mpr hentry),if_pos hentry]
    exact ⟨fun _ => rfl,fun hnot => absurd (fun hne => absurd hentry hne) hnot⟩
  · rw [if_pos hentry,if_neg hentry]
    exact (hread hentry).congr ⟨fun hP _ => hP,fun hP => hP hentry⟩

variable (t slot)

lemma readNumber_yields (size : ℕ) :
    Yields (readNumber fb size t slot) (t.HasNumber slot size) (t.number slot size) := by
  refine readField_yields h fun _ => ?_
  rw [h.get,Documentation.get]
  exact load_yields _ _ _

lemma readNumber_definedIff (size : ℕ) : DefinedIff (readNumber fb size t slot) (t.HasNumber slot size) :=
  (readNumber_yields h t slot size).definedIff

lemma byteVector_yields (hentry : t.entry slot ≠ 0) :
    Yields (fb.byteVector t (t.field slot)) (BytesAt t.bytes (t.field slot)) (t.text slot) := by
  rw [h.byteVector,Documentation.byteVector,Table.text,if_neg hentry]
  have hslice : Yields
      (do
        let length ← load t.bytes (target t.bytes (t.field slot)) 4
        slice t.bytes (wrap (target t.bytes (t.field slot)+4))
          (wrap (wrap (target t.bytes (t.field slot)+4)+length))) _ _ :=
    (load_yields _ _ _).bind fun _ => slice_yields _ _ _
  refine ((load_yields _ _ _).bind fun _ => hslice).congr ?_
  exact ⟨fun ⟨hoffset,hlength,horder,hstop⟩ => ⟨hoffset,hlength,horder,hstop⟩,
    fun hbytes => ⟨hbytes.offset,hbytes.length,hbytes.order,hbytes.stop⟩⟩

lemma readBytes_yields : Yields (readBytes fb t slot) (t.HasBytes slot)
    (if t.entry slot = 0 then none else some (t.text slot)) :=
  readField_yields h fun hentry => (byteVector_yields h t slot hentry).map some

lemma readBytes_definedIff : DefinedIff (readBytes fb t slot) (t.HasBytes slot) :=
  (readBytes_yields h t slot).definedIff

lemma indirect_yields (pos : ℕ) :
    Yields (fb.indirect t pos) (Inside t.bytes pos 4) (target t.bytes pos) := by
  rw [h.indirect,Documentation.indirect]
  exact (load_yields t.bytes pos 4).bind_pure fun relative => wrap (pos+relative)

/-- The table that a field leads to. -/
theorem readTable_yields : Yields (readTable fb t slot)
    (t.HasField slot fun pos => Inside t.bytes pos 4)
    (if t.entry slot = 0 then none else some ⟨t.bytes,target t.bytes (t.field slot)⟩) :=
  readField_yields h fun _ => (indirect_yields h t (t.field slot)).map fun x => some (Table.mk t.bytes x)

lemma readUnion_yields : Yields (readUnion fb t slot)
    (t.HasField slot fun pos => Inside t.bytes pos 4)
    (if t.entry slot = 0 then none else some ⟨t.bytes,target t.bytes (t.field slot)⟩) := by
  have hunion : Yields (fb.union t (t.entry slot)) (Inside t.bytes (t.field slot) 4)
      ⟨t.bytes,target t.bytes (t.field slot)⟩ := by
    rw [h.union,Documentation.union]
    exact (load_yields t.bytes (t.field slot) 4).bind_pure fun relative =>
      Table.mk t.bytes (wrap (t.field slot+relative))
  exact readField_yields h fun _ => hunion.map some

lemma readStruct_yields : Yields (readStruct fb t slot) (t.HasSlot slot)
    (if t.entry slot = 0 then none else some ⟨t.bytes,t.field slot⟩) := by
  have hfield : Yields (readStruct fb t slot) (t.HasField slot fun _ => True)
      (if t.entry slot = 0 then none else some ⟨t.bytes,t.field slot⟩) :=
    readField_yields h fun _ => ⟨fun _ => rfl,fun hnot => absurd trivial hnot⟩
  exact hfield.congr ⟨fun hslot => hslot.1,fun hslot => ⟨hslot,fun _ => trivial⟩⟩

lemma readLength_yields : Yields (readLength fb t slot) (t.HasLength slot) (t.length slot) := by
  refine readField_yields h fun _ => ?_
  rw [h.vectorLen,Documentation.vectorLen]
  exact (load_yields _ _ _).bind fun _ => load_yields _ _ _

lemma vector_yields : Yields (fb.vector t (t.entry slot)) (Inside t.bytes (t.field slot) 4)
    (wrap (target t.bytes (t.field slot)+4)) := by
  rw [h.vector,Documentation.vector]
  exact (load_yields t.bytes (t.field slot) 4).bind_pure fun relative =>
    wrap (wrap (t.field slot+relative)+4)

omit h in
lemma entry_ne_zero {j : ℕ} (hj : j < t.length slot) : t.entry slot ≠ 0 := by
  intro hzero
  rw [Table.length,if_pos hzero] at hj
  exact absurd hj (Nat.not_lt_zero j)

lemma readField_eq {α : Type} {d : α} {read : ℕ → Option α} (hslot : t.HasSlot slot)
    (hentry : t.entry slot ≠ 0) : readField fb t slot d read = read (t.entry slot) := by
  rw [readField,(offset_yields h t slot).some hslot,Option.bind_eq_bind,Option.bind_some,if_pos hentry]

lemma readElement_eq {j : ℕ} (hlength : t.HasLength slot) (hj : j < t.length slot) :
    readElement fb t slot j = (do
      let x ← fb.indirect t (t.elementPos slot j)
      return some (Table.mk t.bytes x)) := by
  have hentry := entry_ne_zero t slot hj
  have hvector := (vector_yields h t slot).some (hlength.2 hentry).1
  rw [readElement,readField_eq h t slot hlength.1 hentry,hvector]
  rfl

lemma readElement_yields {j : ℕ} (hlength : t.HasLength slot) (hj : j < t.length slot) :
    Yields (readElement fb t slot j) (Inside t.bytes (t.elementPos slot j) 4) (some (t.element slot j)) := by
  rw [readElement_eq h t slot hlength hj]
  exact (indirect_yields h t (t.elementPos slot j)).bind_pure fun x => some (Table.mk t.bytes x)

end Documented
end PhpAgent.Flatbuf

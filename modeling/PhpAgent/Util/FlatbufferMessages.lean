import PhpAgent.Util.FlatbufferSteps

/-! Messages that are built item by item, and what a reader finds in them. -/
namespace PhpAgent.FlatBuilder
open Flat Builder

/-! ### Messages -/

/-- What is written into a field of a table. An offset is given by the number of an item, and is 0
without one. -/
inductive Slot
  | number (k : Kind) (x d : ℤ)
  | bool (x d : ℤ)
  | uoffset (item : Option ℕ)
deriving DecidableEq

/-- What a message is made of. A string is given without its NUL, a vector and a table refer to other
items by their numbers. -/
inductive Item
  | string (s : Bytes)
  | bytes (s : Bytes)
  | vector (items : List ℕ)
  | table (numFields : ℕ) (slots : List (ℕ × Slot))
deriving DecidableEq

section Build
variable (malloc : ℕ → ℕ) (offsets : List ℕ)

def buildSlot (fb : Builder) : ℕ × Slot → Except Fault Builder
  | (i,.number k x d) => fb.objectPrependNumber malloc k i x d
  | (i,.bool x d) => fb.objectPrependBool malloc i x d
  | (i,.uoffset item) => fb.objectPrependUoffset malloc i (item.elim 0 fun j => offsets.getD j 0) 0

def buildItem (fb : Builder) : Item → Except Fault (ℕ × Builder)
  | .string s => fb.prependString malloc (some s)
  | .bytes s => fb.prependBytes malloc s
  | .vector items => do
    let fb ← fb.vectorBegin malloc 4 items.length 4
    let fb ← items.reverse.foldlM (fun fb j => fb.prependUoffset malloc (offsets.getD j 0)) fb
    fb.vectorEnd items.length
  | .table numFields slots => do
    let fb ← slots.foldlM (buildSlot malloc offsets) (fb.objectBegin numFields).2
    FlatBuilder.objectEnd malloc fb

/-- The offset of an item is kept for the items that refer to it. -/
def buildNext (s : List ℕ × Builder) (item : Item) : Except Fault (List ℕ × Builder) := do
  let (offset,fb) ← buildItem malloc s.1 s.2 item
  return (s.1 ++ [offset],fb)

/-- The items one after the other, and then the root. -/
def build (initialSize : ℕ) (items : List Item) (root : ℕ) : Except Fault Builder := do
  let (offsets,fb) ← items.foldlM (buildNext malloc) ([],create malloc initialSize)
  fb.finish malloc (offsets.getD root 0)

end Build

/-- Values are in their types, and only earlier items are referred to. -/
def Slot.Fine (before : ℕ) : Slot → Prop
  | .number k x d => k.Holds x ∧ k.Holds d
  | .bool _ _ => True
  | .uoffset item => ∀ j ∈ item, j < before

/-- The fields of a table are written once at most. The size of its vtable is a number of 16 bits. -/
def Item.Fine (before : ℕ) : Item → Prop
  | .string _ | .bytes _ => True
  | .vector items => ∀ j ∈ items, j < before
  | .table numFields slots =>
    numFields < 32766 ∧ (slots.map Prod.fst).Nodup ∧ ∀ s ∈ slots, s.1 < numFields ∧ s.2.Fine before

/-! ### Their sizes -/

/-- A bound on the bytes of a field. -/
def Slot.cost : Slot → ℕ
  | .number k _ _ => 2 * k.size
  | .bool _ _ => 2
  | .uoffset _ => 8

/-- A bound on the bytes of the fields of a table. -/
def inlineCost (slots : List (ℕ × Slot)) : ℕ := (slots.map fun s => s.2.cost).sum

/-- A bound on the bytes of an item. -/
def Item.cost : Item → ℕ
  | .string s => s.length + 9
  | .bytes s => s.length + 8
  | .vector items => 4 * items.length + 11
  | .table numFields slots => inlineCost slots + (2 * numFields + 15)

def messageCost (items : List Item) : ℕ := (items.map Item.cost).sum

/-- What the assertions of the builder stop: a buffer of two gigabytes, and fields too far from the
start of their table. -/
def Excused (items : List Item) : Fault → Prop
  | .tooLarge => 2 ^ 30 ≤ messageCost items + 20
  | .fieldOffset => ∃ numFields slots, .table numFields slots ∈ items ∧ 0xFFFF ≤ inlineCost slots + 7
  | .unreachable | .outside => False

/-! ### Reading them -/

/-- A reader finds no field. -/
def Absent (tbl : Table) (i : ℕ) : Prop :=
  (∀ k d, tableReadNumber k tbl i d = d) ∧ (∀ d, tableReadBool tbl i d = decide (d ≠ 0)) ∧
    tableReadVector tbl i = 0 ∧ tableReadVectorLen tbl i = 0 ∧ tableReadBytes tbl i = none ∧
    tableReadUnion tbl i = none

/-- A reader finds an item that lies at a place in a field. No bytes are read as none. -/
def ShowsRef (tbl : Table) (i place : ℕ) : Item → Prop
  | .string s | .bytes s =>
    tableReadVectorLen tbl i = s.length ∧ tableReadBytes tbl i = if s = [] then none else some (place + 4)
  | .vector items => tableReadVectorLen tbl i = items.length ∧ tableReadVector tbl i = place + 4
  | .table _ _ => tableReadUnion tbl i = some (tableInit tbl.data place)

/-- A reader finds what was written into a field. -/
def ShowsSlot (items : List Item) (places : List ℕ) (tbl : Table) (i : ℕ) : Slot → Prop
  | .number k x d => tableReadNumber k tbl i d = if k.differs x d then x else d
  | .bool x d => tableReadBool tbl i d = decide (x ≠ 0)
  | .uoffset none => Absent tbl i
  | .uoffset (some j) => ∃ item place, items[j]? = some item ∧ places[j]? = some place ∧
      ShowsRef tbl i place item

/-- A reader finds the item at a place. -/
def ShowsItem (items : List Item) (places : List ℕ) (data : Memory) (place : ℕ) : Item → Prop
  | .string s => bytesAt data (place + 4 : ℕ) (s.length + 1) = s ++ [0]
  | .bytes s => bytesAt data (place + 4 : ℕ) s.length = s
  | .vector l => ∀ (m j : ℕ), l[m]? = some j →
      places[j]? = some (readIndirect data (place + 4 + 4 * m))
  | .table _ slots => (∀ s ∈ slots, ShowsSlot items places (tableInit data place) s.1 s.2) ∧
      ∀ i, i ∉ slots.map Prod.fst → Absent (tableInit data place) i

/-- All items are read back, from the root on. -/
def ReadsBack (items : List Item) (root : ℕ) (data : Memory) : Prop :=
  ∃ places, List.Forall₂ (fun item place => ShowsItem items places data place item) items places ∧
    ∃ place, places[root]? = some place ∧ tableInitRoot data = tableInit data place

/-! ### Where things lie -/

def truth (x : ℤ) : ℤ := if x ≠ 0 then 1 else 0

/-- Where a number was put; a default is put nowhere, which 0 says. -/
def NumberAt (used : Bytes) (place : ℕ) (k : Kind) (x d : ℤ) : Prop :=
  if k.differs x d then place ≠ 0 ∧ Lies used place (lowBytes k.size (k.bits x)) else place = 0

/-- Where the content of a field was put. -/
def SlotAt (used : Bytes) (offsets : List ℕ) (place : ℕ) : Slot → Prop
  | .number k x d => NumberAt used place k x d
  | .bool x d => NumberAt used place .u8 (truth x) (truth d)
  | .uoffset none => place = 0
  | .uoffset (some j) =>
    ∃ target, offsets[j]? = some target ∧ target < place ∧ Lies used place (lowBytes 4 (place - target))

/-- What lies at the offset of an item. -/
def ItemAt (used : Bytes) (offsets : List ℕ) (offset : ℕ) : Item → Prop
  | .string s => Lies used offset (lowBytes 4 s.length ++ (s ++ [0]))
  | .bytes s => Lies used offset (lowBytes 4 s.length ++ s)
  | .vector items => ∃ targets, List.Forall₂ (fun (j : ℕ) target => offsets[j]? = some target) items targets ∧
      VectorAt used offset targets ∧ ∀ target ∈ targets, target + (4 * targets.length + 4) ≤ offset
  | .table _ slots => ∃ (fields : List ℕ) (place : ℕ → ℕ), TableAt used offset fields ∧
      (∀ i, place i < offset ∧ fields.getD i 0 = if place i = 0 then 0 else offset - place i) ∧
      (∀ s ∈ slots, SlotAt used offsets (place s.1) s.2) ∧ ∀ i, i ∉ slots.map Prod.fst → place i = 0

section Places
variable {used used' : Bytes} {offsets later : List ℕ} {place offset : ℕ}

lemma NumberAt.mono {k : Kind} {x d : ℤ} (h : NumberAt used place k x d) (hused : used <:+ used') :
    NumberAt used' place k x d := by
  unfold NumberAt at h ⊢
  split_ifs at h ⊢
  · exact ⟨h.1,h.2.mono hused⟩
  · exact h

lemma getElem?_append_some {α : Type} {l m : List α} {j : ℕ} {a : α} (h : l[j]? = some a) :
    (l ++ m)[j]? = some a := by
  rw [List.getElem?_append_left (List.getElem?_eq_some_iff.mp h).1]
  exact h

lemma SlotAt.mono {slot : Slot} (h : SlotAt used offsets place slot) (hused : used <:+ used') :
    SlotAt used' (offsets ++ later) place slot := by
  cases slot with
  | number k x d => exact NumberAt.mono h hused
  | bool x d => exact NumberAt.mono h hused
  | uoffset item =>
    cases item with
    | none => exact h
    | some j =>
      obtain ⟨target,htarget,hlt,hlies⟩ := h
      exact ⟨target,getElem?_append_some htarget,hlt,hlies.mono hused⟩

lemma ItemAt.mono {item : Item} (h : ItemAt used offsets offset item) (hused : used <:+ used') :
    ItemAt used' (offsets ++ later) offset item := by
  cases item with
  | string s => exact Lies.mono h hused
  | bytes s => exact Lies.mono h hused
  | vector items =>
    obtain ⟨targets,htargets,hvector,hbelow⟩ := h
    exact ⟨targets,htargets.imp fun _ _ => getElem?_append_some,hvector.mono hused,hbelow⟩
  | table numFields slots =>
    obtain ⟨fields,place,htable,hplace,hslots,habsent⟩ := h
    exact ⟨fields,place,htable.mono hused,hplace,fun s hs => (hslots s hs).mono hused,habsent⟩

end Places

/-! ### Readers find what lies there -/

section Readers
variable {data : Memory} {used : Bytes} {offset place i : ℕ} {fields : List ℕ}

/-- A number is read from its bytes. -/
theorem Kind.read_lies (hdata : Contains data used) (k : Kind) {x : ℤ} (hx : k.Holds x)
    (h : Lies used place (lowBytes k.size (k.bits x))) : k.read data (used.length - place : ℕ) = x := by
  have hsize := k.size_pos_le
  have hread : readLE data (used.length - place : ℕ) k.size = k.bits x := by
    have hread := hdata.readLE_lowBytes (s := []) (by rwa [List.append_nil])
    rwa [Nat.mod_eq_of_lt (k.bits_lt x)] at hread
  unfold Kind.Holds at hx
  rw [Kind.read,hread]
  split_ifs at hx ⊢ with hsigned
  · rw [k.bmod_bits]
    have hpow : (2 : ℤ) ^ (8 * k.size) = 2 * 2 ^ (8 * k.size - 1) := by
      rw [← pow_succ']
      congr 1
      omega
    have hcast : ((2 ^ (8 * k.size) : ℕ) : ℤ) = 2 ^ (8 * k.size) := by push_cast; rfl
    apply Int.bmod_eq_of_le
    · rw [hcast,hpow]
      omega
    · rw [hcast,hpow]
      omega
  · rw [Kind.bits,Int.emod_eq_of_lt hx.1 hx.2,Int.toNat_of_nonneg hx.1]

lemma absent_of_lookup {tbl : Table} (h : lookup tbl i = 0) : Absent tbl i := by
  refine ⟨fun k d => ?_,fun d => ?_,?_,?_,?_,?_⟩
  · simp [tableReadNumber,tableRead,h]
  · simp [tableReadBool,tableReadU8,tableRead,h]
  · simp [tableReadVector,h]
  · simp [tableReadVectorLen,h]
  · simp [tableReadBytes,h]
  · simp [tableReadUnion,h]

/-- Where a reader finds a field. -/
theorem lookup_place (hdata : Contains data used) (hsmall : used.length < 2 ^ 31)
    (htable : TableAt used offset fields) (hlt : place < offset)
    (hfield : fields.getD i 0 = if place = 0 then 0 else offset - place) :
    lookup (tableInit data (used.length - offset)) i = if place = 0 then 0 else used.length - place := by
  have hin : offset ≤ used.length := by
    obtain ⟨_,_,hstart⟩ := htable
    exact hstart.1
  rw [htable.lookup hdata hsmall,hfield]
  split_ifs with hzero
  · rfl
  · omega
  · omega
  · omega

section Lookup
variable {k : Kind} {x d : ℤ} (hdata : Contains data used) (hlt : place < used.length)
  (hlookup : lookup (tableInit data offset) i = if place = 0 then 0 else used.length - place)
  (h : NumberAt used place k x d)
include hdata hlt hlookup h

lemma NumberAt.shows (hx : k.Holds x) :
    tableReadNumber k (tableInit data offset) i d = if k.differs x d then x else d := by
  unfold NumberAt at h
  by_cases hdiffers : k.differs x d
  · rw [if_pos hdiffers] at h ⊢
    rw [if_neg h.1] at hlookup
    rw [tableReadNumber,tableRead,hlookup,if_pos (by omega)]
    exact k.read_lies hdata hx h.2
  · rw [if_neg hdiffers] at h ⊢
    rw [if_pos h] at hlookup
    rw [tableReadNumber,tableRead,hlookup]
    rfl

/-- A number of one byte, read as such. -/
theorem NumberAt.shows_u8 (hk : k = .u8) (hx : k.Holds x) {m : ℕ} (hm : (m : ℤ) = d) :
    (tableReadU8 (tableInit data offset) i m : ℤ) = if k.differs x d then x else d := by
  subst hk hm
  rw [← h.shows hdata hlt hlookup hx]
  unfold tableReadU8 tableReadNumber tableRead
  dsimp only
  split_ifs <;> rfl

end Lookup

lemma truth_holds (x : ℤ) : Kind.Holds .u8 (truth x) := by
  unfold truth Kind.Holds
  split_ifs <;> decide

/-- A reader that follows an offset to an item. -/
theorem ItemAt.showsRef {item : Item} {offsets : List ℕ} {target : ℕ} (hdata : Contains data used)
    (hsmall : used.length < 2 ^ 31) (htable : TableAt used offset fields)
    (hfield : OffsetField used offset fields i target) (h : ItemAt used offsets target item) :
    ShowsRef (tableInit data (used.length - offset)) i (used.length - target) item := by
  have hlen := hfield.tableReadVectorLen hdata hsmall htable
  have hblock : ∀ {s t : Bytes}, Lies used target (lowBytes 4 s.length ++ (s ++ t)) →
      readUoffset data (used.length - target : ℕ) = s.length := by
    intro s t hlies
    have hin := hlies.1
    have hle := hlies.length_le
    rw [List.length_append,List.length_append,length_lowBytes] at hle
    exact hdata.readUoffset_lies (by omega) hlies
  have hbytes : ∀ {s t : Bytes}, Lies used target (lowBytes 4 s.length ++ (s ++ t)) →
      Flat.tableReadBytes (tableInit data (used.length - offset)) i =
        if s = [] then none else some (used.length - target + 4) := by
    intro s t hlies
    rw [hfield.tableReadBytes hdata hsmall htable,hblock hlies]
    simp only [List.length_eq_zero_iff]
  cases item with
  | string s => exact ⟨hlen.trans (hblock h),hbytes h⟩
  | bytes s =>
    have hlies : Lies used target (lowBytes 4 s.length ++ (s ++ [])) := by
      rw [List.append_nil]
      exact h
    exact ⟨hlen.trans (hblock hlies),hbytes hlies⟩
  | vector items =>
    obtain ⟨targets,htargets,hvector,hbelow⟩ := h
    have hread : readUoffset data (used.length - target : ℕ) = targets.length := by
      have hin := hvector.1.1
      refine hdata.readUoffset_lies (s := []) ?_ (by rw [List.append_nil]; exact hvector.1)
      obtain hnil | hcons := targets.eq_nil_or_concat'
      · rw [hnil]
        decide
      · obtain ⟨front,last,hsplit⟩ := hcons
        have hle := hbelow last (by rw [hsplit]; exact List.mem_concat_self)
        omega
    refine ⟨?_,hfield.tableReadVector hdata hsmall htable⟩
    rw [hlen,hread,htargets.length_eq]
  | table numFields slots => exact hfield.tableReadUnion hdata hsmall htable

lemma forall₂_getElem? {α β : Type} {r : α → β → Prop} {l : List α} {m : List β} (h : List.Forall₂ r l m) {j : ℕ}
    {b : β} (hj : m[j]? = some b) : ∃ a, l[j]? = some a ∧ r a b := by
  induction h generalizing j with
  | nil => cases hj
  | @cons a b' l m hab _ ih =>
    cases j with
    | zero =>
      cases Option.some.inj hj
      exact ⟨a,rfl,hab⟩
    | succ j => exact ih hj

section Message
variable {items : List Item} {offsets : List ℕ} (hdata : Contains data used) (hsmall : used.length < 2 ^ 31)
  (hall : List.Forall₂ (fun item o => ItemAt used offsets o item) items offsets)
include hdata hsmall hall

/-- A reader of a field finds what was put at its place. -/
theorem SlotAt.shows {slot : Slot} {before : ℕ} (htable : TableAt used offset fields) (hlt : place < offset)
    (hfield : fields.getD i 0 = if place = 0 then 0 else offset - place) (hfine : slot.Fine before)
    (h : SlotAt used offsets place slot) :
    ShowsSlot items (offsets.map (used.length - ·)) (tableInit data (used.length - offset)) i slot := by
  have hin : offset ≤ used.length := by
    obtain ⟨_,_,hstart⟩ := htable
    exact hstart.1
  have hlookup := lookup_place hdata hsmall htable hlt hfield
  cases slot with
  | number k x d => exact NumberAt.shows hdata (hlt.trans_le hin) hlookup h hfine.1
  | bool x d =>
    have hm : ((if d ≠ 0 then 1 else 0 : ℕ) : ℤ) = truth d := by
      unfold truth
      split_ifs <;> rfl
    have hread := NumberAt.shows_u8 hdata (hlt.trans_le hin) hlookup h rfl (truth_holds x) hm
    have hvalue : (tableReadU8 (tableInit data (used.length - offset)) i (if d ≠ 0 then 1 else 0) : ℤ) = truth x := by
      rw [hread]
      split_ifs with hdiffers
      · rfl
      · exact (not_not.mp fun hne => hdiffers (decide_eq_true hne)).symm
    change decide (tableReadU8 _ i _ ≠ 0) = decide (x ≠ 0)
    refine decide_eq_decide.mpr ?_
    rw [← Int.natCast_ne_zero,hvalue]
    unfold truth
    split_ifs with hx
    · exact ⟨fun _ => hx,fun _ => one_ne_zero⟩
    · exact ⟨fun h => absurd rfl h,fun h => absurd h hx⟩
  | uoffset item =>
    cases item with
    | none => exact absent_of_lookup (hlookup.trans (if_pos h))
    | some j =>
      obtain ⟨target,htarget,hbelow,hlies⟩ := h
      obtain ⟨item,hitem,hat⟩ := forall₂_getElem? hall htarget
      have hoffset : OffsetField used offset fields i target := by
        rw [if_neg (by omega)] at hfield
        exact ⟨place,hbelow,hlt,hfield,hlies⟩
      refine ⟨item,used.length - target,hitem,?_,hat.showsRef hdata hsmall htable hoffset⟩
      rw [List.getElem?_map,htarget]
      rfl

/-- A reader finds an item where it lies. -/
theorem ItemAt.shows {item : Item} {before : ℕ} (hfine : item.Fine before) (h : ItemAt used offsets offset item) :
    ShowsItem items (offsets.map (used.length - ·)) data (used.length - offset) item := by
  have hblock : ∀ {s t : Bytes}, Lies used offset (lowBytes 4 s.length ++ t) →
      bytesAt data (used.length - offset + 4 : ℕ) t.length = t := by
    intro s t hlies
    have hin := hlies.1
    have hle := hlies.length_le
    have hrest := hlies.rest
    rw [List.length_append,length_lowBytes] at hle
    rw [length_lowBytes] at hrest
    have hpos : used.length - offset + 4 = used.length - (offset - 4) := by omega
    rw [hpos]
    exact hdata.bytesAt_of_lies hrest
  cases item with
  | string s =>
    have hread := hblock h
    rwa [List.length_append,List.length_singleton] at hread
  | bytes s => exact hblock h
  | vector l =>
    obtain ⟨targets,htargets,hvector,hbelow⟩ := h
    intro m j hm
    obtain ⟨target,htarget,hj⟩ := forall₂_getElem? htargets.flip hm
    rw [List.getElem?_map,hj,hvector.readIndirect hdata hsmall hbelow htarget]
    rfl
  | table numFields slots =>
    obtain ⟨fields,place,htable,hplace,hslots,habsent⟩ := h
    refine ⟨fun s hs => ?_,fun i hi => ?_⟩
    · exact SlotAt.shows hdata hsmall hall htable (hplace s.1).1 (hplace s.1).2 (hfine.2.2 s hs).2 (hslots s hs)
    · have hlookup := lookup_place hdata hsmall htable (hplace i).1 (hplace i).2
      rw [habsent i hi,if_pos rfl] at hlookup
      exact absent_of_lookup hlookup

end Message

end Readers

end PhpAgent.FlatBuilder

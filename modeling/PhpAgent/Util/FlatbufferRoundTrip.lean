import PhpAgent.Util.FlatbufferFields

/-! The builder leaves messages as they are read back. -/
namespace PhpAgent.FlatBuilder
open Flat Builder

/-! ### Tables are built -/

section Tables
variable {malloc : ℕ → ℕ} {stops : Fault → Prop} {fb : Builder} {numFields total : ℕ} {offsets : List ℕ}

/-- The write of a slot. -/
def slotWrite (malloc : ℕ → ℕ) (offsets : List ℕ) (s : ℕ × Slot) : FieldWrite where
  index := s.1
  holds := fun used place => SlotAt used offsets place s.2
  cost := s.2.cost
  write := fun fb => buildSlot malloc offsets fb s

lemma writes_slot (hmalloc : EvenAddresses malloc) (htotal : 2 ^ 30 ≤ total → stops .tooLarge) {s : ℕ × Slot}
    (hfine : s.2.Fine offsets.length) :
    (slotWrite malloc offsets s).Writes stops total fun used => ∀ o ∈ offsets, 0 < o ∧ o ≤ used.length := by
  obtain ⟨i,slot⟩ := s
  cases slot with
  | number k x d => exact writes_number hmalloc htotal k i x d
  | bool x d => exact writes_bool hmalloc htotal i x d
  | uoffset item =>
    cases item with
    | none => exact writes_uoffset hmalloc htotal i fun _ _ => Nat.zero_le _
    | some j =>
      have hj : j < offsets.length := hfine j rfl
      have hget : offsets.getD j 0 = offsets[j] := List.getD_eq_getElem _ _ hj
      intro begun numFields fb h hi habsent hin hroom
      have hwrite : (FieldWrite.uoffset malloc i (offsets.getD j 0)).Writes stops total
          fun used => offsets.getD j 0 ≤ used.length := writes_uoffset hmalloc htotal i fun _ hle => hle
      obtain ⟨hpos,hle⟩ := hin _ (List.getElem_mem hj)
      refine (hwrite begun numFields fb h hi habsent (hget ▸ hle) hroom).mono fun fb' hwrote => ?_
      have hat : OffsetAt fb'.used (fb'.vtable.getD i 0) (offsets.getD j 0) := hwrote.written
      rw [OffsetAt,hget,if_neg hpos.ne'] at hat
      have hlt : offsets[j] < fb'.vtable.getD i 0 := by omega
      exact ⟨hwrote.1,hwrote.2,hwrote.3,⟨_,List.getElem?_eq_getElem hj,hlt,hat.2⟩,hwrote.5⟩

/-- A table with the fields that were written. -/
theorem leaves_table (hmalloc : EvenAddresses malloc) (htotal : 2 ^ 30 ≤ total → stops .tooLarge)
    {slots : List (ℕ × Slot)} (hfine : (Item.table numFields slots).Fine offsets.length)
    (hfar : 0xFFFF ≤ inlineCost slots + 7 → stops .fieldOffset) :
    Leaves buffered stops total (Item.table numFields slots).cost (fun used => ∀ o ∈ offsets, 0 < o ∧ o ≤ used.length)
      (fun o used => o ≠ 0 ∧ o ≤ used.length ∧ ItemAt used offsets o (.table numFields slots))
      (fun fb => buildItem malloc offsets fb (.table numFields slots)) := by
  obtain ⟨hmany,hnodup,hslots⟩ := hfine
  set writes := slots.map (slotWrite malloc offsets) with hwrites
  have hcost : inlineBytes writes = inlineCost slots := by
    rw [inlineBytes,hwrites,List.map_map]
    rfl
  have hindex : writes.map FieldWrite.index = slots.map Prod.fst := by
    rw [hwrites,List.map_map]
    rfl
  have hmem : ∀ w ∈ writes, ∃ s ∈ slots, slotWrite malloc offsets s = w := fun w hw => List.mem_map.mp hw
  have hobject : Leaves _ _ _ _ _ _ (prependObject malloc numFields (writes.map FieldWrite.write)) :=
    leaves_object hmalloc htotal hmany (hcost ▸ hfar) (hindex ▸ hnodup)
      (fun w hw => by obtain ⟨s,hs,rfl⟩ := hmem w hw; exact (hslots s hs).1)
      (fun w hw => by obtain ⟨s,hs,rfl⟩ := hmem w hw; exact writes_slot hmalloc htotal (hslots s hs).2)
      (fun w hw place => by
        obtain ⟨s,hs,rfl⟩ := hmem w hw
        intro used used' hat hused
        rw [← List.append_nil offsets]
        exact SlotAt.mono hat hused)
  have hprogram : prependObject malloc numFields (writes.map FieldWrite.write) =
      fun fb => buildItem malloc offsets fb (.table numFields slots) := by
    funext fb
    rw [prependObject,hwrites,List.map_map,List.foldlM_map]
    rfl
  rw [hprogram] at hobject
  refine hobject.weaken (by rw [hcost]; exact le_rfl) (fun _ h => h) fun o used hat => ?_
  obtain ⟨hne,hle,fields,place,htable,hplace,hwritten,habsent⟩ := hat
  refine ⟨hne,hle,?_⟩
  have hfields : (fieldsOf writes).map Prod.fst = slots.map Prod.fst := by
    rw [← hindex,fieldsOf,List.map_map]
    rfl
  refine ⟨fields,place,htable,fun i => ?_,fun s hs => ?_,fun i hi => habsent i (hfields ▸ hi)⟩
  · obtain ⟨hlt,hdistance⟩ := hplace i
    exact ⟨by omega,hdistance⟩
  · exact hwritten _ (List.mem_map_of_mem (List.mem_map_of_mem hs))

end Tables

/-! ### Messages are built -/

section Items
variable {malloc : ℕ → ℕ} {stops : Fault → Prop} {fb : Builder} {total : ℕ} {offsets : List ℕ}

lemma exists_targets {items : List ℕ} (h : ∀ j ∈ items, j < offsets.length) :
    List.Forall₂ (fun (j : ℕ) target => offsets[j]? = some target) items (items.map fun j => offsets.getD j 0) := by
  induction items with
  | nil => exact .nil
  | cons j items ih =>
    rw [List.forall_mem_cons] at h
    refine .cons ?_ (ih h.2)
    dsimp only
    rw [List.getD_eq_getElem _ _ h.1]
    exact List.getElem?_eq_getElem h.1

lemma leaves_item (hmalloc : EvenAddresses malloc) (htotal : 2 ^ 30 ≤ total → stops .tooLarge) {item : Item}
    (hfine : item.Fine offsets.length)
    (hfar : ∀ numFields slots, item = .table numFields slots → 0xFFFF ≤ inlineCost slots + 7 → stops .fieldOffset) :
    Leaves buffered stops total item.cost (fun used => ∀ o ∈ offsets, 0 < o ∧ o ≤ used.length)
      (fun o used => o ≠ 0 ∧ o ≤ used.length ∧ ItemAt used offsets o item)
      (fun fb => buildItem malloc offsets fb item) := by
  cases item with
  | string s => exact leaves_string hmalloc htotal s
  | bytes s => exact leaves_bytes hmalloc htotal s
  | vector items =>
    set targets := items.map fun j => offsets.getD j 0 with htargets
    have hlen : targets.reverse.length = items.length := by rw [List.length_reverse,htargets,List.length_map]
    have hin : ∀ used : Bytes, (∀ o ∈ offsets, 0 < o ∧ o ≤ used.length) →
        ∀ target ∈ targets.reverse, target ≤ used.length := by
      intro used hin target htarget
      obtain ⟨j,hj,rfl⟩ := List.mem_map.mp (List.mem_reverse.mp htarget)
      rw [List.getD_eq_getElem _ _ (hfine j hj)]
      exact (hin _ (List.getElem_mem _)).2
    have hvector := leaves_vector hmalloc htotal hin
    have hprogram : prependVector malloc targets.reverse = fun fb => buildItem malloc offsets fb (.vector items) := by
      funext fb
      simp only [prependVector,hlen]
      simp only [htargets,← List.map_reverse,List.foldlM_map]
      rfl
    rw [hprogram] at hvector
    refine hvector.weaken (by rw [hlen]; exact le_rfl) (fun _ h => h) fun o used ⟨hne,hle,hat,hbelow⟩ => ⟨hne,hle,?_⟩
    rw [List.reverse_reverse] at hat
    refine ⟨targets,exists_targets hfine,hat,fun target htarget => ?_⟩
    rw [← List.length_reverse]
    exact hbelow target (List.mem_reverse.mpr htarget)
  | table numFields slots => exact leaves_table hmalloc htotal hfine (hfar numFields slots rfl)

/-- The items that have been built so far. -/
structure Laid (items : List Item) (s : List ℕ × Builder) : Prop where
  sane : s.2.Sane
  insideObject : s.2.insideObject = false
  len_le : s.2.len ≤ messageCost items
  offsets : ∀ o ∈ s.1, 0 < o ∧ o ≤ s.2.len
  items : List.Forall₂ (fun item o => ItemAt s.2.used s.1 o item) items s.1

lemma messageCost_append (before after : List Item) :
    messageCost (before ++ after) = messageCost before + messageCost after := by
  rw [messageCost,List.map_append,List.sum_append]
  rfl

/-- One more item. -/
theorem Laid.buildItem (hmalloc : EvenAddresses malloc) {before : List Item} {item : Item} {s : List ℕ × Builder}
    (h : Laid before s) (hfine : item.Fine before.length)
    (hlarge : 2 ^ 30 ≤ messageCost (before ++ [item]) → stops .tooLarge)
    (hfar : ∀ numFields slots, item = .table numFields slots → 0xFFFF ≤ inlineCost slots + 7 → stops .fieldOffset) :
    Ends stops (fun r => Laid (before ++ [item]) (s.1 ++ [r.1],r.2)) (buildItem malloc s.1 s.2 item) := by
  have hcost : messageCost (before ++ [item]) = messageCost before + item.cost := by
    rw [messageCost_append]
    exact congrArg _ (Nat.add_zero _)
  have hle := h.len_le
  rw [h.items.length_eq] at hfine
  have hroom : s.2.len + item.cost ≤ messageCost (before ++ [item]) := by omega
  refine (leaves_item hmalloc hlarge hfine hfar s.2 ⟨h.sane,h.insideObject⟩ h.offsets hroom).mono
    fun r ⟨⟨hsane,houtside⟩,hsuffix,hlen,hne,hin,hat⟩ => ?_
  change r.2.len ≤ s.2.len + item.cost at hlen
  refine ⟨hsane,houtside,by dsimp only; omega,?_,?_⟩
  · intro o ho
    obtain hold | hnew := List.mem_append.mp ho
    · obtain ⟨hpos,hin⟩ := h.offsets o hold
      exact ⟨hpos,hin.trans hsuffix.length_le⟩
    · rw [List.mem_singleton.mp hnew]
      exact ⟨Nat.pos_of_ne_zero hne,hin⟩
  · refine List.rel_append (h.items.imp fun item o hat => hat.mono hsuffix) (.cons ?_ .nil)
    exact hat.mono List.suffix_rfl

lemma buildItems_spec (hmalloc : EvenAddresses malloc) {initialSize : ℕ} (heven : initialSize % 2 = 0)
    (hsmall : initialSize < 2 ^ 31) {items : List Item}
    (hfine : ∀ (i : ℕ) item, items[i]? = some item → item.Fine i) :
    Ends (Excused items) (Laid items) (items.foldlM (buildNext malloc) ([],create malloc initialSize)) := by
  have hstart : Laid [] ([],create malloc initialSize) := by
    refine ⟨sane_create hmalloc heven hsmall,?_,?_,List.forall_mem_nil _,.nil⟩
    · unfold create
      split_ifs <;> rfl
    · unfold create
      split_ifs <;> exact Nat.zero_le _
  refine Ends.foldlM items (fun before item s hsplit hlaid => ?_) hstart
  obtain ⟨after,rfl⟩ := hsplit
  have hget : (before ++ [item] ++ after)[before.length]? = some item := by
    rw [List.append_assoc,List.getElem?_append_right le_rfl,Nat.sub_self]
    rfl
  have hcost := messageCost_append (before ++ [item]) after
  refine (hlaid.buildItem hmalloc (hfine _ item hget) (fun hlarge => ?_) fun numFields slots heq hfar => ?_).bind
    fun r hr => hr
  · change 2 ^ 30 ≤ messageCost (before ++ [item] ++ after) + 20
    omega
  · exact ⟨numFields,slots,heq ▸ List.mem_of_getElem? hget,hfar⟩

/-- A finished message is read back. -/
theorem readsBack_of_items {data : Memory} {used : Bytes} {items : List Item} {root offset : ℕ}
    (hdata : Contains data used) (hsmall : used.length < 2 ^ 31)
    (hfine : ∀ (i : ℕ) item, items[i]? = some item → item.Fine i)
    (hall : List.Forall₂ (fun item o => ItemAt used offsets o item) items offsets)
    (hroot : offsets[root]? = some offset) (hlies : Lies used used.length (lowBytes 4 (used.length - offset))) :
    ReadsBack items root data := by
  refine ⟨offsets.map (used.length - ·),?_,used.length - offset,?_,?_⟩
  · rw [List.forall₂_map_right_iff]
    have hmem : ∀ item ∈ items, ∃ before, item.Fine before := by
      intro item hitem
      obtain ⟨i,hi⟩ := List.getElem?_of_mem hitem
      exact ⟨i,hfine i item hi⟩
    refine ((List.forall₂_and_left _ _).mpr ⟨hmem,hall⟩).imp fun item o ⟨⟨before,hitem⟩,hat⟩ => ?_
    exact hat.shows hdata hsmall hall hitem
  · rw [List.getElem?_map,hroot]
    rfl
  · have hread : readUoffset data (used.length - used.length : ℕ) = used.length - offset :=
      hdata.readUoffset_lies (s := []) (by omega) (by rwa [List.append_nil])
    rw [Nat.sub_self] at hread
    rw [tableInitRoot]
    exact congrArg (tableInit data) hread

end Items

/-- Whatever is built is read back, unless the builder stops at one of its bounds. -/
theorem build_readsBack {malloc : ℕ → ℕ} (hmalloc : EvenAddresses malloc) {initialSize : ℕ}
    (heven : initialSize % 2 = 0) (hsmall : initialSize < 2 ^ 31) {items : List Item}
    (hfine : ∀ (i : ℕ) item, items[i]? = some item → item.Fine i) {root : ℕ} (hroot : root < items.length) :
    Ends (Excused items) (fun fb => ∀ data, Contains data fb.used → ReadsBack items root data)
      (build malloc initialSize items root) := by
  refine (buildItems_spec hmalloc heven hsmall hfine).bind fun s hlaid => ?_
  have hlt : root < s.1.length := hlaid.items.length_eq ▸ hroot
  have hget : s.1[root]? = some s.1[root] := List.getElem?_eq_getElem hlt
  have hle := hlaid.len_le
  have hin := (hlaid.offsets _ (List.getElem_mem hlt)).2
  dsimp only
  rw [List.getD_eq_getElem _ _ hlt]
  refine (finish_spec hmalloc hlaid.sane hin fun hlarge => ?_).mono fun fb ⟨hsane,hsuffix,hlies⟩ data hdata => ?_
  · exact hlarge.trans (Nat.add_le_add_right hle _)
  · have hall : List.Forall₂ (fun item o => ItemAt fb.used s.1 o item) items s.1 :=
      hlaid.items.imp fun item o hat => by
        rw [← List.append_nil s.1]
        exact hat.mono hsuffix
    exact readsBack_of_items hdata (hsane.fits.trans_lt hsane.small) hfine hall hget hlies

/-- A greeting and a number. -/
theorem build_readsBack_greeting : Ends (Excused [.string [104,105],.table 3 [(0,.uoffset (some 0)),(2,.number .i32 (-5) 0)]])
    (fun fb => ∀ data, Contains data fb.used →
      ReadsBack [.string [104,105],.table 3 [(0,.uoffset (some 0)),(2,.number .i32 (-5) 0)]] 1 data)
    (build sixteens 0 [.string [104,105],.table 3 [(0,.uoffset (some 0)),(2,.number .i32 (-5) 0)]] 1) := by
  refine build_readsBack evenAddresses_sixteens rfl (by decide) (fun i item hi => ?_) (by decide)
  obtain rfl | rfl | hmany : i = 0 ∨ i = 1 ∨ 2 ≤ i := by omega
  · cases Option.some.inj hi
    trivial
  · cases Option.some.inj hi
    have hoffset : Slot.Fine 1 (.uoffset (some 0)) := fun j hj => by
      cases hj
      exact Nat.one_pos
    have hnumber : Slot.Fine 1 (.number .i32 (-5) 0) := by
      unfold Slot.Fine Kind.Holds
      decide
    exact ⟨by decide,by decide,List.forall_mem_cons.mpr ⟨⟨by decide,hoffset⟩,
      List.forall_mem_singleton.mpr ⟨by decide,hnumber⟩⟩⟩
  · rw [List.getElem?_eq_none hmany] at hi
    cases hi

/-- An empty string is read as if there were none. -/
theorem build_string_empty : ∃ fb, build sixteens 0 [.string [],.table 1 [(0,.uoffset (some 0))]] 1 = .ok fb ∧
    tableReadBytes (tableInitRoot (memoryOf fb.used)) 0 = none := by
  refine ⟨_,rfl,?_⟩
  decide

end PhpAgent.FlatBuilder

import PhpAgent.Util.FlatbufferFields

/-! What lies in a table: numbers, texts, other tables and vectors of tables. -/
namespace PhpAgent.FlatBuilder
open Flat Builder

/-- The place of an offset, 0 when the offset leads nowhere. -/
def Leads (used : Bytes) (place x : ℕ) : Prop :=
  if x = 0 then place = 0 else x < place ∧ Lies used place (lowBytes 4 (place - x))

/-- A text behind its length, at 0 when there is none. -/
def TextAt (used : Bytes) (x : ℕ) : Option Bytes → Prop
  | none => x = 0
  | some s => x ≠ 0 ∧ Lies used x (lowBytes 4 s.length ++ s)

section Contents
variable {α : Type}

/-- Something at an offset, at 0 when there is nothing. -/
def MaybeAt (P : α → ℕ → Bytes → Prop) (used : Bytes) (x : ℕ) : Option α → Prop
  | none => x = 0
  | some a => x ≠ 0 ∧ P a x used

/-- A vector of things, or nothing when there are none. -/
def ListAt (P : α → ℕ → Bytes → Prop) (used : Bytes) (x : ℕ) (l : List α) : Prop :=
  (x = 0 ∧ l = []) ∨ (x ≠ 0 ∧ ∃ targets, List.Forall₂ (fun a o => P a o used) l targets ∧ VectorAt used x targets ∧
    ∀ target ∈ targets, target + (4 * targets.length + 4) ≤ x)

/-- What holds of the place of a field. -/
def FieldOf (used : Bytes) (o i : ℕ) (P : Bytes → ℕ → Prop) : Prop :=
  ∃ (distances : List ℕ) (place : ℕ), TableAt used o distances ∧ place < o ∧
    distances.getD i 0 = (if place = 0 then 0 else o - place) ∧ P used place

def HasNumber (used : Bytes) (o i : ℕ) (k : Kind) (y : ℤ) : Prop :=
  FieldOf used o i fun used place => NumberAt used place k y 0

def HasText (used : Bytes) (o i : ℕ) (s : Option Bytes) : Prop :=
  ∃ x, FieldOf used o i (fun used place => Leads used place x) ∧ TextAt used x s

def HasTable (P : α → ℕ → Bytes → Prop) (used : Bytes) (o i : ℕ) (a : Option α) : Prop :=
  ∃ x, FieldOf used o i (fun used place => Leads used place x) ∧ MaybeAt P used x a

def HasList (P : α → ℕ → Bytes → Prop) (used : Bytes) (o i : ℕ) (l : List α) : Prop :=
  ∃ x, FieldOf used o i (fun used place => Leads used place x) ∧ ListAt P used x l

lemma ListAt.imp {P Q : α → ℕ → Bytes → Prop} {used : Bytes} {x : ℕ} {l : List α} (h : ListAt P used x l)
    (hPQ : ∀ a o, P a o used → Q a o used) : ListAt Q used x l := by
  obtain hnone | ⟨hx,targets,hall,hrest⟩ := h
  · exact .inl hnone
  · exact .inr ⟨hx,targets,hall.imp hPQ,hrest⟩

/-! ### What stays -/

lemma lasting_leads (place x : ℕ) : Lasting fun used => Leads used place x := by
  intro used used' h hused
  unfold Leads at h ⊢
  split_ifs at h ⊢
  · exact h
  · exact ⟨h.1,h.2.mono hused⟩

lemma lasting_textAt (x : ℕ) (s : Option Bytes) : Lasting fun used => TextAt used x s := by
  intro used used' h hused
  cases s with
  | none => exact h
  | some s => exact ⟨h.1,h.2.mono hused⟩

variable {P : α → ℕ → Bytes → Prop} (hP : ∀ a o, Lasting (P a o))
include hP

lemma lasting_maybeAt (x : ℕ) (a : Option α) : Lasting fun used => MaybeAt P used x a := by
  intro used used' h hused
  cases a with
  | none => exact h
  | some a => exact ⟨h.1,hP a x h.2 hused⟩

lemma lasting_listAt (x : ℕ) (l : List α) : Lasting fun used => ListAt P used x l := by
  rintro used used' (hnone | ⟨hx,targets,hall,hvector,hbelow⟩) hused
  · exact .inl hnone
  · exact .inr ⟨hx,targets,Lasting.forall₂ hP l targets hall hused,hvector.mono hused,hbelow⟩

omit hP

lemma lasting_fieldOf (o i : ℕ) {Q : Bytes → ℕ → Prop} (hQ : ∀ place, Lasting fun used => Q used place) :
    Lasting fun used => FieldOf used o i Q := by
  rintro used used' ⟨distances,place,htable,hlt,hdistance,hplace⟩ hused
  exact ⟨distances,place,htable.mono hused,hlt,hdistance,hQ place hplace hused⟩

lemma lasting_hasNumber (o i : ℕ) (k : Kind) (y : ℤ) : Lasting fun used => HasNumber used o i k y :=
  lasting_fieldOf o i fun place => lasting_numberAt place k y 0

lemma lasting_hasText (o i : ℕ) (s : Option Bytes) : Lasting fun used => HasText used o i s := by
  rintro used used' ⟨x,hfield,htext⟩ hused
  exact ⟨x,lasting_fieldOf o i (fun place => lasting_leads place x) hfield hused,lasting_textAt x s htext hused⟩

include hP

lemma lasting_hasTable (o i : ℕ) (a : Option α) : Lasting fun used => HasTable P used o i a := by
  rintro used used' ⟨x,hfield,hat⟩ hused
  exact ⟨x,lasting_fieldOf o i (fun place => lasting_leads place x) hfield hused,lasting_maybeAt hP x a hat hused⟩

lemma lasting_hasList (o i : ℕ) (l : List α) : Lasting fun used => HasList P used o i l := by
  rintro used used' ⟨x,hfield,hat⟩ hused
  exact ⟨x,lasting_fieldOf o i (fun place => lasting_leads place x) hfield hused,lasting_listAt hP x l hat hused⟩

end Contents

/-! ### Fields of tables -/

section Fields
variable {used : Bytes} {o x : ℕ} {fields : List (ℕ × (Bytes → ℕ → Prop))} {i : ℕ}

lemma OffsetAt.leads {place : ℕ} (h : OffsetAt used place x) : Leads used place x := by
  unfold OffsetAt at h
  unfold Leads
  split_ifs at h ⊢
  · exact h
  · exact ⟨by omega,h.2⟩

lemma TableWith.field (h : TableWith used o fields) (n : ℕ) {Q : Bytes → ℕ → Prop}
    (hn : fields[n]? = some (i,Q)) : FieldOf used o i Q := by
  obtain ⟨distances,place,htable,hplace,hfields,-⟩ := h
  obtain ⟨hlt,hdistance⟩ := hplace i
  exact ⟨distances,place i,htable,by omega,hdistance,hfields _ (List.mem_of_getElem? hn)⟩

/-- The table lies beyond what its field leads to. -/
theorem TableWith.beyond (h : TableWith used o fields) (n : ℕ)
    (hn : fields[n]? = some (i,fun used place => OffsetAt used place x)) (hx : x ≠ 0) : x + 8 ≤ o := by
  obtain ⟨distances,place,htable,hplace,hfields,-⟩ := h
  obtain ⟨hlt,hdistance⟩ := hplace i
  have hat : OffsetAt used (place i) x := hfields _ (List.mem_of_getElem? hn)
  rw [OffsetAt,if_neg hx] at hat
  omega

lemma TableWith.leads (h : TableWith used o fields) (n : ℕ)
    (hn : fields[n]? = some (i,fun used place => OffsetAt used place x)) :
    FieldOf used o i fun used place => Leads used place x := by
  obtain ⟨distances,place,htable,hlt,hdistance,hat⟩ := h.field n hn
  exact ⟨distances,place,htable,hlt,hdistance,hat.leads⟩

/-- A field that was not written. -/
theorem TableWith.absent (h : TableWith used o fields) (hi : i ∉ fields.map Prod.fst) :
    FieldOf used o i fun used place => Leads used place 0 := by
  obtain ⟨distances,place,htable,hplace,-,habsent⟩ := h
  obtain ⟨hlt,hdistance⟩ := hplace i
  refine ⟨distances,place i,htable,by omega,hdistance,?_⟩
  change Leads used (place i) 0
  rw [Leads,if_pos rfl]
  exact habsent i hi

end Fields

/-! ### Programs -/

section Programs
variable {malloc : ℕ → ℕ} {stops : Fault → Prop} {total : ℕ} {pre : Bytes → Prop} {α : Type}

/-- A bound on the bytes of a string. -/
def textCost : Option Bytes → ℕ
  | none => 0
  | some s => s.length + 9

/-- A vector of what is put for each element, where there are any. -/
def prependEach (malloc : ℕ → ℕ) (f : α → Builder → Except Fault (ℕ × Builder)) (l : List α) (fb : Builder) :
    Except Fault (ℕ × Builder) :=
  if l.length = 0 then .ok (0,fb)
  else do
    let (offsets,fb) ← forEach f l fb
    prependVector malloc offsets fb

/-- What is put when there is something. -/
def prependMaybe (f : α → Builder → Except Fault (ℕ × Builder)) : Option α → Builder → Except Fault (ℕ × Builder)
  | none,fb => .ok (0,fb)
  | some a,fb => f a fb

/-- A table with a text as its only field. -/
def prependTextTable (malloc : ℕ → ℕ) (f : Builder → Except Fault (ℕ × Builder)) (fb : Builder) :
    Except Fault (ℕ × Builder) := do
  let (data,fb) ← f fb
  prependObject malloc 1 [fun fb => fb.objectPrependUoffset malloc 0 data 0] fb

/-- The only field of a table. -/
def TextTableAt (text : Option Bytes) (o : ℕ) (used : Bytes) : Prop := HasText used o 0 text

lemma lasting_textTableAt (text : Option Bytes) (o : ℕ) : Lasting (TextTableAt text o) := lasting_hasText o 0 text

variable (hmalloc : EvenAddresses malloc) (htotal : 2 ^ 30 ≤ total → stops .tooLarge)
  {P : α → ℕ → Bytes → Prop}
include hmalloc htotal

lemma leaves_text (s : Option Bytes) : Leaves buffered stops total (textCost s) pre
    (fun o used => o ≤ used.length ∧ TextAt used o s ∧ (s ≠ none → 5 ≤ o)) (fun fb => fb.prependString malloc s) := by
  cases s with
  | none =>
    intro fb hok _ _
    exact ⟨hok,List.suffix_rfl,Nat.le_add_right _ _,Nat.zero_le _,rfl,fun hne => absurd rfl hne⟩
  | some s =>
    refine (leaves_string hmalloc htotal s).weaken le_rfl (fun _ h => h) fun o used ⟨hne,hle,hat⟩ => ?_
    have hlen := hat.length_le
    simp only [List.length_append,length_lowBytes,List.length_singleton] at hlen
    rw [← List.append_assoc] at hat
    exact ⟨hle,⟨hne,hat.initial⟩,fun _ => by omega⟩

omit hmalloc htotal

/-- A write that does what it says, and what it says stays. -/
def FieldWrite.Sound (w : FieldWrite) (stops : Fault → Prop) (total : ℕ) (pre : Bytes → Prop) : Prop :=
  w.Writes stops total pre ∧ ∀ place, Lasting fun used => w.holds used place

include hmalloc htotal

lemma sound_number (k : Kind) (i : ℕ) (y : ℤ) : (FieldWrite.number malloc k i y 0).Sound stops total pre :=
  ⟨writes_number hmalloc htotal k i y 0,fun place => lasting_numberAt place k y 0⟩

lemma sound_bool (i : ℕ) (y : ℤ) : (FieldWrite.bool malloc i y 0).Sound stops total pre :=
  ⟨writes_bool hmalloc htotal i y 0,fun place => lasting_numberAt place .u8 (truth y) (truth 0)⟩

lemma sound_uoffset (i : ℕ) {x : ℕ} (hx : ∀ used, pre used → x ≤ used.length) :
    (FieldWrite.uoffset malloc i x).Sound stops total pre :=
  ⟨writes_uoffset hmalloc htotal i hx,fun place => lasting_offsetAt place x⟩

/-- A table from its writes, which follows what was counted on. -/
theorem leaves_table_with (numFields inline : ℕ) (indices : List ℕ) (writes : List FieldWrite)
    (hindices : writes.map FieldWrite.index = indices) (hinline : inlineBytes writes = inline)
    (hfit : indices.Nodup ∧ (∀ i ∈ indices, i < numFields) ∧ numFields < 32766 ∧ inline + 7 < 0xFFFF)
    (hsound : ∀ w ∈ writes, w.Sound stops total pre) (hpre : Lasting pre) {post : ℕ → Bytes → Prop}
    (hpost : ∀ o used, pre used → TableWith used o (fieldsOf writes) → post o used) :
    Leaves buffered stops total (inline + (2 * numFields + 15)) pre
      (fun o used => o ≠ 0 ∧ o ≤ used.length ∧ post o used)
      (prependObject malloc numFields (writes.map FieldWrite.write)) := by
  obtain ⟨hnodup,hlt,hmany,hsmall⟩ := hfit
  have hobject : Leaves _ _ _ _ _ _ _ := leaves_object hmalloc htotal hmany (fun hfar => absurd hfar (by omega))
    (hindices ▸ hnodup) (fun w hw => hlt _ (hindices ▸ List.mem_map_of_mem hw)) (fun w hw => (hsound w hw).1)
    fun w hw => (hsound w hw).2
  rw [hinline] at hobject
  refine (hobject.keep hpre).weaken le_rfl (fun _ h => h) fun o used ⟨hbefore,hne,hle,htable⟩ => ?_
  exact ⟨hne,hle,hpost o used hbefore htable⟩

/-- A table from a text, which the program before it leaves. -/
theorem leaves_textTable {f : Builder → Except Fault (ℕ × Builder)} {cost : ℕ} {text : Option Bytes}
    (hf : Leaves buffered stops total cost pre (fun o used => o ≤ used.length ∧ TextAt used o text) f)
    (hpre : Lasting pre) :
    Leaves buffered stops total (cost + 25) pre (fun o used => o ≠ 0 ∧ o ≤ used.length ∧ TextTableAt text o used)
      (prependTextTable malloc f) := by
  change Leaves buffered stops total (cost + 25) _ _ fun fb => f fb >>= fun r =>
    prependObject malloc 1 ([FieldWrite.uoffset malloc 0 r.1].map FieldWrite.write) r.2
  refine hf.bind hpre fun x => ?_
  have htable : Leaves buffered stops total 25 (fun used => x ≤ used.length ∧ TextAt used x text)
      (fun o used => o ≠ 0 ∧ o ≤ used.length ∧ TextTableAt text o used) _ :=
    leaves_table_with hmalloc htotal 1 8 [0] [FieldWrite.uoffset malloc 0 x] rfl rfl (by decide)
      (List.forall_mem_singleton.mpr (sound_uoffset hmalloc htotal 0 fun _ h => h.1))
      ((lasting_le_length x).and (lasting_textAt x text)) fun o used hbefore htable => ⟨x,htable.leads 0 rfl,hbefore.2⟩
  exact htable.weaken le_rfl (fun _ h => h.2) fun _ _ h => h

/-- A vector of what is there has the elements in the opposite order. -/
theorem leaves_vectorOf (hP : ∀ a o, Lasting (P a o)) (l : List α) (offsets : List ℕ) :
    Leaves buffered stops total (4 * l.length + 11)
      (fun used => List.Forall₂ (fun a o => o ≤ used.length ∧ P a o used) l offsets)
      (fun o used => o ≤ used.length ∧ ListAt P used o l.reverse) (prependVector malloc offsets) := by
  intro fb hok hall hroom
  have hlen : offsets.length = l.length := hall.length_eq.symm
  have hin : ∀ used, List.Forall₂ (fun a o => o ≤ used.length ∧ P a o used) l offsets →
      ∀ o ∈ offsets, o ≤ used.length := by
    intro used hall o ho
    obtain ⟨j,hj⟩ := List.getElem?_of_mem ho
    obtain ⟨hlt,-⟩ := List.getElem?_eq_some_iff.mp hj
    have ha : l[j]? = some l[j] := List.getElem?_eq_getElem (hlen ▸ hlt)
    obtain ⟨o',ho',hat⟩ := forall₂_getElem? hall.flip ha
    cases hj.symm.trans ho'
    exact hat.1
  have hvector : Leaves _ _ _ _ _ _ _ := leaves_vector hmalloc htotal hin
  rw [hlen] at hvector
  have hlasting : Lasting fun used => List.Forall₂ (fun a o => o ≤ used.length ∧ P a o used) l offsets :=
    Lasting.forall₂ (fun a o => (lasting_le_length o).and (hP a o)) l offsets
  refine ((hvector.keep hlasting) fb hok hall hroom).mono
    fun r ⟨hok',hsuffix,hgrown,hall',hne,hle,hat,hbelow⟩ => ⟨hok',hsuffix,hgrown,hle,.inr ⟨hne,offsets.reverse,?_,hat,?_⟩⟩
  · exact List.rel_reverse (hall'.imp fun a o h => h.2)
  · intro target htarget
    rw [List.length_reverse,hlen]
    exact hbelow target (List.mem_reverse.mp htarget)

/-- What is put for each element, in a vector in the opposite order. -/
theorem leaves_each {f : α → Builder → Except Fault (ℕ × Builder)} {cost : α → ℕ}
    {l : List α} (hpre : Lasting pre) (hP : ∀ a o, Lasting (P a o))
    (hf : ∀ a ∈ l, Leaves buffered stops total (cost a) pre (fun o used => o ≠ 0 ∧ o ≤ used.length ∧ P a o used) (f a)) :
    Leaves buffered stops total ((l.map cost).sum + (4 * l.length + 11)) pre
      (fun o used => o ≤ used.length ∧ ListAt P used o l.reverse) (prependEach malloc f l) := by
  by_cases hnone : l.length = 0
  · obtain rfl := List.length_eq_zero_iff.mp hnone
    intro fb hok _ _
    exact ⟨hok,List.suffix_rfl,Nat.le_add_right _ _,Nat.zero_le _,.inl ⟨rfl,rfl⟩⟩
  · have hprogram : prependEach malloc f l = fun fb => forEach f l fb >>= fun r => prependVector malloc r.1 r.2 := by
      funext fb
      rw [prependEach,if_neg hnone]
    have hloop : Leaves buffered stops total _ pre _ _ := Leaves.forEach hpre
      (fun a o => (lasting_le_length o).and (hP a o)) fun a ha => (hf a ha).weaken le_rfl (fun _ h => h)
        fun o used h => h.2
    rw [hprogram]
    refine hloop.bind hpre fun offsets => ?_
    exact (leaves_vectorOf hmalloc htotal hP l offsets).weaken le_rfl (fun _ h => h.2) fun _ _ h => h

omit hmalloc htotal

lemma leaves_maybe {f : α → Builder → Except Fault (ℕ × Builder)} {cost : α → ℕ}
    (hf : ∀ a, Leaves buffered stops total (cost a) pre (fun o used => o ≠ 0 ∧ o ≤ used.length ∧ P a o used) (f a))
    (a : Option α) : Leaves buffered stops total (a.elim 0 cost) pre
      (fun o used => o ≤ used.length ∧ MaybeAt P used o a) (prependMaybe f a) := by
  cases a with
  | none =>
    intro fb hok _ _
    exact ⟨hok,List.suffix_rfl,Nat.le_add_right _ _,Nat.zero_le _,rfl⟩
  | some a => exact (hf a).weaken le_rfl (fun _ h => h) fun o used h => ⟨h.2.1,h.1,h.2.2⟩

end Programs

end PhpAgent.FlatBuilder

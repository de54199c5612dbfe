import Mathlib.Data.List.AList

/-! Tables that number their entries from 1 and hand out one entry for a key. -/
namespace PhpAgent.Interning

variable {κ β : Type} [DecidableEq κ]

structure Table (κ β : Type) where
  ids : AList fun _ : κ => ℕ
  entries : List β

namespace Table

def empty : Table κ β := ⟨∅,[]⟩

/-- The entry of a key. -/
def find (t : Table κ β) (k : κ) : Option β := (t.ids.lookup k).bind fun id => t.entries[id-1]?

/-- The entry of a key, which is made of the next number when the key is new. There is none when the
number of the key is that of no entry. -/
def intern (t : Table κ β) (k : κ) (make : ℕ → β) : Option (β × Table κ β) :=
  match t.ids.lookup k with
  | some id => t.entries[id-1]?.map fun b => (b,t)
  | none =>
    let id := t.entries.length+1
    some (make id,⟨t.ids.insert k id,t.entries ++ [make id]⟩)

/-- Every key has an entry that was made for it, under its number, and every number is given. -/
structure Sound (made : κ → ℕ → β → Prop) (t : Table κ β) : Prop where
  found : ∀ k id, t.ids.lookup k = some id →
    0 < id ∧ ∃ b, t.entries[id-1]? = some b ∧ made k id b
  given : ∀ i < t.entries.length, ∃ k, t.ids.lookup k = some (i+1)

/-- Entries are kept. -/
def Extends (t t' : Table κ β) : Prop := ∀ k b, t.find k = some b → t'.find k = some b

variable {made : κ → ℕ → β → Prop} {t t' t'' : Table κ β} {k : κ} {b : β}

lemma Extends.refl (t : Table κ β) : t.Extends t := fun _ _ h => h

lemma Extends.trans (h : t.Extends t') (h' : t'.Extends t'') : t.Extends t'' :=
  fun k b hb => h' k b (h k b hb)

lemma sound_empty : Sound made (empty : Table κ β) where
  found k id h := by cases h
  given i hi := absurd hi (Nat.not_lt_zero i)

lemma Sound.made_of_find (h : t.Sound made) (hfind : t.find k = some b) : ∃ id, made k id b := by
  obtain ⟨id,hid,hget⟩ := Option.bind_eq_some_iff.mp hfind
  obtain ⟨_,b',hget',hmade⟩ := h.found k id hid
  rw [hget,Option.some_inj] at hget'
  exact ⟨id,hget' ▸ hmade⟩

/-- Entries are numbered from 1. -/
theorem Sound.getElem_made (h : t.Sound made) {i : ℕ} (hi : i < t.entries.length) :
    ∃ k, made k (i+1) t.entries[i] := by
  obtain ⟨k,hk⟩ := h.given i hi
  obtain ⟨_,b,hget,hmade⟩ := h.found k (i+1) hk
  rw [Nat.add_sub_cancel,List.getElem?_eq_getElem hi,Option.some_inj] at hget
  exact ⟨k,hget ▸ hmade⟩

lemma mem_entries_of_find (hfind : t.find k = some b) : b ∈ t.entries := by
  obtain ⟨id,_,hget⟩ := Option.bind_eq_some_iff.mp hfind
  exact List.mem_of_getElem? hget

lemma getElem?_concat {l : List β} {i : ℕ} {c : β} (h : l[i]? = some b) :
    (l ++ [c])[i]? = some b := by
  rw [List.getElem?_append_left (List.getElem?_eq_some_iff.mp h).1,h]

/-- A new key, with the next number. -/
theorem Sound.insert (h : t.Sound made) (hk : t.ids.lookup k = none)
    (hmade : made k (t.entries.length+1) b) :
    let t' : Table κ β := ⟨t.ids.insert k (t.entries.length+1),t.entries ++ [b]⟩
    t'.Sound made ∧ t.Extends t' ∧ t'.find k = some b := by
  have hold : ∀ k', k' ≠ k → (t.ids.insert k (t.entries.length+1)).lookup k' = t.ids.lookup k' :=
    fun k' hne => AList.lookup_insert_ne hne
  have hself : (t.ids.insert k (t.entries.length+1)).lookup k = some (t.entries.length+1) :=
    AList.lookup_insert _
  have hne : ∀ {k' id}, t.ids.lookup k' = some id → k' ≠ k := by
    rintro k' id hid rfl
    rw [hk] at hid
    cases hid
  refine ⟨⟨?_,?_⟩,?_,?_⟩
  · intro k' id hid
    by_cases heq : k' = k
    · subst heq
      obtain rfl := Option.some.inj (hself.symm.trans hid)
      exact ⟨Nat.succ_pos _,b,by simp,hmade⟩
    · obtain ⟨hpos,b',hget,hb'⟩ := h.found k' id ((hold k' heq).symm.trans hid)
      exact ⟨hpos,b',getElem?_concat hget,hb'⟩
  · intro i hi
    rw [List.length_append,List.length_singleton] at hi
    rcases Nat.lt_succ_iff_lt_or_eq.mp hi with hi | rfl
    · obtain ⟨k',hk'⟩ := h.given i hi
      exact ⟨k',(hold k' (hne hk')).trans hk'⟩
    · exact ⟨k,hself⟩
  · intro k' b' hfind
    obtain ⟨id,hid,hget⟩ := Option.bind_eq_some_iff.mp hfind
    exact Option.bind_eq_some_iff.mpr
      ⟨id,(hold k' (hne hid)).trans hid,getElem?_concat hget⟩
  · exact Option.bind_eq_some_iff.mpr ⟨_,hself,by simp⟩

/-- Interning succeeds and keeps what is there. -/
theorem Sound.intern (h : t.Sound made) (make : ℕ → β) (hmake : ∀ id, made k id (make id)) :
    ∃ b t', t.intern k make = some (b,t') ∧ t'.Sound made ∧ t.Extends t' ∧ t'.find k = some b := by
  unfold Table.intern
  cases hk : t.ids.lookup k with
  | some id =>
    obtain ⟨_,b,hget,_⟩ := h.found k id hk
    exact ⟨b,t,by simp [hget],h,Extends.refl t,Option.bind_eq_some_iff.mpr ⟨id,hk,hget⟩⟩
  | none => exact ⟨_,_,rfl,h.insert hk (hmake _)⟩

end Table
end PhpAgent.Interning

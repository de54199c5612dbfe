import Mathlib.Data.List.DropRight

/-! Runes: reading the characters of a text that is meant to be UTF-8. -/
namespace PhpAgent.Runes

/-- What is read in place of a byte that begins no character. -/
def runeError : Char := Char.ofNat 0xfffd

/-- The first rune, and what is behind it. -/
def readRune (text : List UInt8) : Option (Char × List UInt8) :=
  match text with
  | [] => none
  | _ :: rest =>
    match text.toByteArray.utf8DecodeChar? 0 with
    | some c => some (c,text.drop c.utf8Size)
    | none => some (runeError,rest)

variable {text rest : List UInt8}

lemma length_of_readRune {c : Char} (h : readRune text = some (c,rest)) : rest.length < text.length := by
  cases text with
  | nil => cases h
  | cons b text =>
    simp only [readRune] at h
    cases hdecode : (b :: text).toByteArray.utf8DecodeChar? 0 with
    | some d =>
      rw [hdecode] at h
      cases h
      have hpos := c.utf8Size_pos
      rw [List.length_drop,List.length_cons]
      omega
    | none =>
      rw [hdecode] at h
      cases h
      exact Nat.lt_succ_self _

lemma readRune_eq_none {text : List UInt8} : readRune text = none ↔ text = [] := by
  cases text with
  | nil => exact iff_of_true rfl rfl
  | cons b text =>
    refine iff_of_false ?_ (List.cons_ne_nil b text)
    simp only [readRune]
    cases (b :: text).toByteArray.utf8DecodeChar? 0 with
    | some c => simp
    | none => simp

/-- Writing a rune, and reading it. -/
theorem readRune_encode (c : Char) (rest : List UInt8) :
    readRune (String.utf8EncodeChar c ++ rest) = some (c,rest) := by
  have hdecode : (String.utf8EncodeChar c ++ rest).toByteArray.utf8DecodeChar? 0 = some c := by
    rw [List.toByteArray_append]
    exact ByteArray.utf8DecodeChar?_utf8EncodeChar_append
  have hlen : c.utf8Size = (String.utf8EncodeChar c).length := (String.length_utf8EncodeChar c).symm
  cases htext : String.utf8EncodeChar c ++ rest with
  | nil =>
    have hpos := c.utf8Size_pos
    rw [hlen,(List.append_eq_nil_iff.mp htext).1] at hpos
    exact absurd hpos (by simp)
  | cons b text =>
    rw [htext] at hdecode
    simp only [readRune,hdecode]
    rw [← htext,hlen,List.drop_left]

/-- The last rune, and how many bytes it has; a byte that ends no character is an error of its own. -/
def lastRune (text : List UInt8) : Char × ℕ :=
  let wholes := [1,2,3,4].filterMap fun n =>
    ((text.rtake n).toByteArray.utf8DecodeChar? 0).bind fun c =>
      if c.utf8Size = (text.rtake n).length then some (c,c.utf8Size) else none
  wholes.head?.getD (runeError,1)

/-- The text without the runes at its end that satisfy `p`, as `bytes.TrimRightFunc`. -/
def trimRightFunc (p : Char → Bool) (text : List UInt8) : List UInt8 :=
  if text = [] then []
  else
    let (c,n) := lastRune text
    if p c ∧ 0 < n then trimRightFunc p (text.rdrop n) else text
termination_by text.length
decreasing_by
  have hpos : 0 < text.length := List.length_pos_of_ne_nil (by assumption)
  rw [List.rdrop,List.length_take]
  omega

lemma trimRightFunc_initial (p : Char → Bool) (text : List UInt8) : trimRightFunc p text <+: text := by
  induction hn : text.length using Nat.strongRecOn generalizing text with
  | ind n ih =>
    rw [trimRightFunc]
    split_ifs with hnil
    · exact List.nil_prefix
    · simp only
      split_ifs with hp
      · have hinitial : text.rdrop (lastRune text).2 <+: text := List.take_prefix _ _
        refine (ih _ ?_ _ rfl).trans hinitial
        have hpos : 0 < text.length := List.length_pos_of_ne_nil hnil
        rw [← hn,List.rdrop,List.length_take]
        omega
      · exact List.prefix_rfl

/-- The text reads as these runes, up to the rest. -/
inductive Reads : List UInt8 → List Char → List UInt8 → Prop
  | nil (text : List UInt8) : Reads text [] text
  | cons {text text' rest : List UInt8} {c : Char} {cs : List Char} :
      readRune text = some (c,text') → Reads text' cs rest → Reads text (c :: cs) rest

def encode (cs : List Char) : List UInt8 := cs.flatMap String.utf8EncodeChar

lemma reads_encode (cs : List Char) (rest : List UInt8) : Reads (encode cs ++ rest) cs rest := by
  induction cs with
  | nil => exact .nil rest
  | cons c cs ih =>
    have hsplit : encode (c :: cs) ++ rest = String.utf8EncodeChar c ++ (encode cs ++ rest) := by
      simp [encode]
    rw [hsplit]
    exact .cons (readRune_encode c _) ih

variable {b : UInt8}

lemma encode_ascii (hb : b.toNat < 128) : String.utf8EncodeChar (Char.ofNat b.toNat) = [b] := by
  have hall : ∀ n : Fin 256, n.val < 128 →
      String.utf8EncodeChar (Char.ofNat (UInt8.ofFin n).toNat) = [UInt8.ofFin n] := by decide +kernel
  exact hall b.toFin hb

/-- A byte below 128 is its own rune. -/
theorem readRune_ascii (hb : b.toNat < 128) (rest : List UInt8) :
    readRune (b :: rest) = some (Char.ofNat b.toNat,rest) := by
  have hencode := readRune_encode (Char.ofNat b.toNat) rest
  rw [encode_ascii hb] at hencode
  exact hencode

/-- A byte below 128 stands for itself only. -/
theorem eq_of_mem_encode {c : Char} (h : b ∈ String.utf8EncodeChar c) (hb : b.toNat < 128) :
    c = Char.ofNat b.toNat := by
  obtain ⟨i,hi,hget⟩ := List.getElem_of_mem h
  have hall : ∀ n : Fin 256, n.val < 128 → (UInt8.ofFin n).IsUTF8FirstByte := by decide +kernel
  have hfirst : (String.utf8EncodeChar c)[i].IsUTF8FirstByte := by
    rw [hget]
    exact hall b.toFin hb
  have hzero : i = 0 := UInt8.isUTF8FirstByte_getElem_utf8EncodeChar.mp hfirst
  subst hzero
  have hcons : String.utf8EncodeChar c = b :: (String.utf8EncodeChar c).tail := by
    cases hencode : String.utf8EncodeChar c with
    | nil =>
      rw [hencode] at h
      exact absurd h List.not_mem_nil
    | cons b' rest =>
      simp only [hencode,List.getElem_cons_zero] at hget
      rw [hget,List.tail_cons]
  have hread := readRune_encode c []
  rw [List.append_nil,hcons,readRune_ascii hb] at hread
  exact (congrArg Prod.fst (Option.some.inj hread)).symm

/-- What is read stands in front of the rest, and has no byte below 128 but its own. -/
theorem exists_of_readRune {c : Char} (h : readRune text = some (c,rest)) :
    ∃ pre, text = pre ++ rest ∧ (∀ b ∈ pre, b.toNat < 128 → c = Char.ofNat b.toNat) ∧
      (c ≠ runeError → pre = String.utf8EncodeChar c) := by
  cases text with
  | nil => cases h
  | cons b text =>
    have h' := h
    simp only [readRune] at h
    cases hdecode : (b :: text).toByteArray.utf8DecodeChar? 0 with
    | some d =>
      rw [hdecode] at h
      cases h
      have hsplit := congrArg (fun b : ByteArray => b.data.toList)
        (ByteArray.eq_of_utf8DecodeChar?_eq_some hdecode)
      simp only [List.data_toByteArray,List.toList_toArray,ByteArray.data_append,Array.toList_append] at hsplit
      refine ⟨String.utf8EncodeChar c,?_,fun b hb => eq_of_mem_encode hb,fun _ => rfl⟩
      rw [← String.length_utf8EncodeChar,hsplit,List.drop_left]
    | none =>
      rw [hdecode] at h
      cases h
      refine ⟨[b],rfl,?_,fun hne => absurd rfl hne⟩
      intro b' hb' hlt
      rw [List.mem_singleton.mp hb'] at hlt ⊢
      rw [readRune_ascii hlt] at h'
      exact (congrArg Prod.fst (Option.some.inj h')).symm

/-- A rune below 128 was read from its byte. -/
theorem eq_cons_of_readRune (hb : b.toNat < 128)
    (h : readRune text = some (Char.ofNat b.toNat,rest)) : text = b :: rest := by
  have hne : ∀ n : Fin 256, n.val < 128 → Char.ofNat (UInt8.ofFin n).toNat ≠ runeError := by
    decide +kernel
  obtain ⟨pre,htext,_,hpre⟩ := exists_of_readRune h
  have hencode : pre = [b] := (hpre (hne b.toFin hb)).trans (encode_ascii hb)
  rw [htext,hencode]
  rfl

end PhpAgent.Runes

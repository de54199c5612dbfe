import PhpAgent.Util.Utf8Escape

/-! Growing buffers, after `util_buffer.c`, and how much of one an escaped string takes. Sizes, `int`s of
the source, are numbers; `grown_le` says how large they get. -/
namespace PhpAgent
open Json

/-! ### The length of an escaped string -/

lemma hexDigit_lt (n : ℕ) : hexDigit n < 0x80 := by
  have h : ∀ m < 16, code (Nat.digitChar m) < 0x80 := by decide
  exact h _ (Nat.mod_lt _ (by decide))

lemma length_unicodeEscape (n : ℕ) : (unicodeEscape n).length = 6 := rfl

lemma ascii_unicodeEscape (n : ℕ) : ∀ b ∈ unicodeEscape n, b < 0x80 := by
  simp only [unicodeEscape,List.forall_mem_cons]
  exact ⟨by decide,by decide,hexDigit_lt _,hexDigit_lt _,hexDigit_lt _,hexDigit_lt _,by simp⟩

lemma utf8Tail_length {n : ℕ} {rest : Bytes} {codePoint v : UInt32}
    (h : utf8Tail n rest codePoint = some v) : n ≤ rest.length := by
  induction n generalizing rest codePoint with
  | zero => exact Nat.zero_le _
  | succ n ih =>
    cases rest with
    | nil => cases h
    | cons b rest =>
      rw [utf8Tail] at h
      split_ifs at h
      exact Nat.succ_le_succ (ih h)

lemma utf8Lead_pos {b : UInt8} {n : ℕ} {mask : UInt8} (h : utf8Lead b = some (n,mask)) :
    2 ≤ n := by
  unfold utf8Lead at h
  split_ifs at h <;> cases h <;> decide

/-- A piece of text for so many bytes of a string: ASCII, and at most six bytes for each. -/
structure EscapedPiece (text : Bytes) (n : ℕ) (rest : Bytes) : Prop where
  ascii : ∀ b ∈ text, b < 0x80
  length_le : text.length ≤ 6*n
  pos : 0 < n
  within : n ≤ rest.length+1

lemma piece_unicodeEscape (n : ℕ) (rest : Bytes) : EscapedPiece (unicodeEscape n) 1 rest :=
  ⟨ascii_unicodeEscape n,le_rfl,Nat.one_pos,Nat.le_add_left ..⟩

lemma piece_utf8Escape {b : UInt8} {rest text : Bytes} {n : ℕ}
    (h : utf8Escape b rest = some (text,n)) : EscapedPiece text n rest := by
  unfold utf8Escape at h
  obtain ⟨⟨nbytes,mask⟩,hlead,h⟩ := Option.bind_eq_some_iff.mp h
  obtain ⟨codePoint,htail,h⟩ := Option.bind_eq_some_iff.mp h
  obtain ⟨text',htext,h⟩ := Option.bind_eq_some_iff.mp h
  cases h
  have hpos := utf8Lead_pos hlead
  have hlength := utf8Tail_length htail
  unfold codePointEscape at htext
  split_ifs at htext with hthree hfour
  · cases htext
    exact ⟨ascii_unicodeEscape _,by rw [length_unicodeEscape]; omega,by omega,by omega⟩
  · cases htext
    refine ⟨?_,?_,by omega,by omega⟩
    · exact List.forall_mem_append.mpr ⟨ascii_unicodeEscape _,ascii_unicodeEscape _⟩
    · rw [List.length_append,length_unicodeEscape,length_unicodeEscape]
      omega

lemma piece_escapeByte (b : UInt8) (rest : Bytes) :
    EscapedPiece (escapeByte b rest).1 (escapeByte b rest).2 rest := by
  unfold escapeByte
  cases hshort : shortEscape b with
  | some c =>
    refine ⟨?_,Nat.le_add_left 2 4,Nat.one_pos,Nat.le_add_left ..⟩
    have hc : c < 0x80 := by
      unfold shortEscape at hshort
      split_ifs at hshort <;> cases hshort <;> decide
    exact List.forall_mem_cons.mpr ⟨by decide,List.forall_mem_singleton.mpr hc⟩
  | none =>
    dsimp only
    split_ifs with hlead hcontrol
    · cases hescape : utf8Escape b rest with
      | none => exact piece_unicodeEscape _ rest
      | some r => exact piece_utf8Escape hescape
    · exact piece_unicodeEscape _ rest
    · rw [not_or,UInt8.not_le,UInt8.not_le] at hcontrol
      refine ⟨?_,by simp,Nat.one_pos,Nat.le_add_left ..⟩
      have hdel : (0x7f : UInt8) < 0x80 := by decide
      exact List.forall_mem_singleton.mpr (UInt8.lt_trans hcontrol.2 hdel)

lemma ascii_escapeBytes (skip : ℕ) (json : Bytes) : ∀ b ∈ escapeBytes skip json, b < 0x80 := by
  induction json generalizing skip with
  | nil =>
    cases skip <;> exact fun b hb => by cases hb
  | cons b rest ih =>
    cases skip with
    | zero => exact List.forall_mem_append.mpr ⟨(piece_escapeByte b rest).ascii,ih _⟩
    | succ skip => exact ih skip

/-- Each byte that is not skipped takes at most six. -/
theorem length_escapeBytes_le (skip : ℕ) (json : Bytes) :
    (escapeBytes skip json).length ≤ 6*(json.length-skip) := by
  induction json generalizing skip with
  | nil => cases skip <;> exact Nat.zero_le _
  | cons b rest ih =>
    cases skip with
    | zero =>
      have hpiece := piece_escapeByte b rest
      have hrest := ih ((escapeByte b rest).2-1)
      have hlength := hpiece.length_le
      have hpos := hpiece.pos
      have hwithin := hpiece.within
      rw [escapeBytes,List.length_append,List.length_cons]
      omega
    | succ skip =>
      have hrest := ih skip
      rw [escapeBytes,List.length_cons]
      omega

lemma ascii_jsonEscape (s : Bytes) : ∀ b ∈ jsonEscape s, b < 0x80 := by
  unfold jsonEscape quoted
  exact List.forall_mem_cons.mpr ⟨by decide,List.forall_mem_append.mpr
    ⟨ascii_escapeBytes 0 s,List.forall_mem_singleton.mpr (by decide)⟩⟩

lemma length_jsonEscape_le (s : Bytes) : (jsonEscape s).length ≤ 6*s.length+2 := by
  have hbytes := length_escapeBytes_le 0 s
  simp only [jsonEscape,quoted,List.length_cons,List.length_append,List.length_nil]
  omega

/-! ### Buffers -/

/-- `nrbuf_t`; what was read already is not kept. -/
structure NrBuffer where
  bsize : ℕ
  extsize : ℕ
  contents : Bytes
  fits : contents.length ≤ bsize
  extsize_pos : 0 < extsize

namespace NrBuffer

/-- `nr_buffer_create`. -/
def create (estsize extsize : ℕ) : NrBuffer where
  bsize := max estsize 1024
  extsize := max (if extsize = 0 then max estsize 1024/3 else extsize) 512
  contents := []
  fits := Nat.zero_le _
  extsize_pos := by omega

/-- The size that `nr_buffer_add` and `nr_buffer_ensure` grow a buffer to. -/
def grown (b : NrBuffer) (reqsize : ℕ) : ℕ :=
  let remaining := b.bsize-b.contents.length
  let needed := reqsize+b.contents.length
  if remaining < needed then
    let extra := needed-remaining
    if extra < b.extsize then b.bsize+b.extsize else b.bsize+(extra/b.extsize+1)*b.extsize
  else b.bsize

lemma le_grown (b : NrBuffer) (reqsize : ℕ) : b.contents.length+reqsize ≤ b.grown reqsize := by
  have hfits := b.fits
  unfold grown
  dsimp only
  split_ifs with hgrow hsmall
  · omega
  · have hdiv := Nat.lt_div_mul_add (a := reqsize+b.contents.length-(b.bsize-b.contents.length))
      b.extsize_pos
    rw [Nat.add_mul,Nat.one_mul]
    omega
  · omega

/-- Below 2^31 the sizes are those of the source. -/
theorem grown_le (b : NrBuffer) (reqsize : ℕ) :
    b.grown reqsize ≤ max b.bsize (reqsize+2*b.contents.length+b.extsize) := by
  have hfits := b.fits
  unfold grown
  dsimp only
  split_ifs with hgrow hsmall
  · omega
  · have hdiv := Nat.div_mul_le_self (reqsize+b.contents.length-(b.bsize-b.contents.length)) b.extsize
    rw [Nat.add_mul,Nat.one_mul]
    omega
  · exact le_max_left ..

/-- `nr_buffer_ensure`. -/
def ensure (b : NrBuffer) (reqsize : ℕ) : NrBuffer where
  bsize := b.grown reqsize
  extsize := b.extsize
  contents := b.contents
  fits := (Nat.le_add_right ..).trans (b.le_grown reqsize)
  extsize_pos := b.extsize_pos

/-- `nr_buffer_add`. -/
def add (b : NrBuffer) (data : Bytes) : NrBuffer where
  bsize := b.grown data.length
  extsize := b.extsize
  contents := b.contents ++ data
  fits := List.length_append ▸ b.le_grown data.length
  extsize_pos := b.extsize_pos

/-- The bytes behind the contents. -/
def room (b : NrBuffer) : ℕ := b.bsize-b.contents.length

/-- `nr_buffer_add_escape_json`; there is no result when `nr_json_escape` writes beyond the buffer,
its terminator included. -/
def addEscapeJson (b : NrBuffer) (rawString : Bytes) : Option NrBuffer :=
  let b := b.ensure (rawString.length*6+3)
  let text := jsonEscape rawString
  if text.length+1 ≤ b.room then some (b.add text) else none

lemma addEscapeJson_fits (b : NrBuffer) (rawString : Bytes) :
    ∃ b', b.addEscapeJson rawString = some b' ∧ b'.contents = b.contents ++ jsonEscape rawString ∧
      b'.bsize ≤ max b.bsize (6*rawString.length+3+2*b.contents.length+b.extsize) := by
  have hlength := length_jsonEscape_le rawString
  have hroom : (jsonEscape rawString).length+1 ≤ (b.ensure (rawString.length*6+3)).room := by
    have hgrown := b.le_grown (rawString.length*6+3)
    unfold room ensure
    dsimp only
    omega
  refine ⟨_,if_pos hroom,rfl,?_⟩
  have hensured := b.grown_le (rawString.length*6+3)
  have hadded := (b.ensure (rawString.length*6+3)).grown_le (jsonEscape rawString).length
  unfold ensure at hadded
  dsimp only [add,ensure] at hadded ⊢
  omega

end NrBuffer

/-- Every string is escaped to a string of JSON that is ASCII and fits the space that is reserved for
it, and one in UTF-8 is read back as itself. The buffer is the one of the source as long as the bound of
its size is an `int`. -/
theorem jsonEscape_literal (s : Bytes) :
    (accepts (jsonEscape s) = true ∧ ∃ body, jsonEscape s = quoted body ∧ Plain body) ∧
      (∀ b ∈ jsonEscape s, b < 0x80) ∧ (jsonEscape s).length ≤ 6*s.length+2 ∧
      (∀ b : NrBuffer, ∃ b', b.addEscapeJson s = some b' ∧
        b'.contents = b.contents ++ jsonEscape s ∧
        b'.bsize ≤ max b.bsize (6*s.length+3+2*b.contents.length+b.extsize)) ∧
      ∀ cs : List Char, s = utf8 cs → stringValue (jsonEscape s) = some s := by
  refine ⟨⟨accepts_jsonEscape s,escapeBytes 0 s,rfl,plain_escapeBytes s 0⟩,ascii_jsonEscape s,
    length_jsonEscape_le s,fun b => b.addEscapeJson_fits s,?_⟩
  rintro cs rfl
  exact stringValue_jsonEscape cs

end PhpAgent

import PhpAgent.Lib.Memory
import PhpAgent.Util.Buffer

/-! Buffers as they lie in memory, after `util_buffer.c`, and the queue of bytes they stand for. Sizes
are unbounded. -/
namespace PhpAgent
open Json

/-- `nrbuf_t`; the allocated size is that of the array. -/
structure Nrbuf where
  avail : ℕ
  bptr : ℕ
  extsize : ℕ
  buf : Bytes
deriving DecidableEq

namespace Nrbuf

/-- The memory of a new size. What is behind the old contents is any byte. -/
def realloc (junk : ℕ → UInt8) (buf : Bytes) (size : ℕ) : Bytes :=
  buf.take size ++ (List.range' buf.length (size - buf.length)).map junk

/-- `nr_buffer_create`. -/
def create (junk : ℕ → UInt8) (estsize extsize : ℤ) : Nrbuf :=
  let estsize := max estsize 1024
  let extsize := if extsize ≤ 0 then estsize / 3 else extsize
  ⟨0,0,(max extsize 512).toNat,realloc junk [] estsize.toNat⟩

/-- `nr_buffer_len`. -/
def len (b : Nrbuf) : ℕ := b.avail

/-- `nr_buffer_cptr`, as an index of the array. -/
def cptr (b : Nrbuf) : Option ℕ := if b.avail = 0 then none else some b.bptr

/-- `nr_buffer_reset`. -/
def reset (b : Nrbuf) : Nrbuf := { b with avail := 0, bptr := 0 }

/-- The beginning of `nr_buffer_add` and `nr_buffer_ensure`: the array grows where it has to. -/
def grow (junk : ℕ → UInt8) (b : Nrbuf) (reqsize : ℕ) : Nrbuf :=
  let remaining := b.buf.length - b.avail
  let needed := reqsize + b.avail
  if remaining < needed then
    let extra := needed - remaining
    let added := if extra < b.extsize then b.extsize else (extra / b.extsize + 1) * b.extsize
    { b with buf := realloc junk b.buf (b.buf.length + added) }
  else b

/-- What was not read is moved to the front. -/
def moveToFront (b : Nrbuf) : Except Stop Nrbuf :=
  if b.bptr ≠ 0 then do
    let unread ← getRange b.buf b.bptr b.avail
    let buf ← put b.buf 0 unread
    return { b with buf := buf, bptr := 0 }
  else return b

/-- `nr_buffer_add`. Without data the bytes that are there already are added. -/
def add (junk : ℕ → UInt8) (b : Nrbuf) (data : Option Bytes) (dlen : ℕ) : Except Stop Nrbuf :=
  if dlen = 0 then return b
  else do
    let b ← (b.grow junk dlen).moveToFront
    let buf ← match data with
      | some data => put b.buf b.avail (data.take dlen)
      | none => pure b.buf
    return { b with buf := buf, avail := b.avail + dlen }

/-- `nr_buffer_ensure`. -/
def ensure (junk : ℕ → UInt8) (b : Nrbuf) (reqsize : ℕ) : Except Stop Nrbuf :=
  (b.grow junk reqsize).moveToFront

/-- `nr_buffer_add_escape_json`. `nr_json_escape` writes the text and its terminator. -/
def addEscapeJson (junk : ℕ → UInt8) (b : Nrbuf) (rawString : Bytes) : Except Stop Nrbuf := do
  let b ← b.ensure junk (rawString.length * 6 + 3)
  let buf ← put b.buf b.avail (jsonEscape rawString ++ [0])
  { b with buf := buf }.add junk none (jsonEscape rawString).length

/-- What `nr_buffer_use` copies, if there is a place for it. -/
def copied (b : Nrbuf) (dest : Bool) (n : ℕ) : Except Stop (Option Bytes) :=
  if dest then some <$> getRange b.buf b.bptr n else return none

/-- `nr_buffer_use`: the number that is returned and what is copied. -/
def use (b : Nrbuf) (dest : Bool) (dlen : ℤ) : Except Stop ((ℤ × Option Bytes) × Nrbuf) :=
  if dlen < 0 then return ((-1,none),b)
  else do
    let n := min dlen.toNat b.avail
    let copied ← b.copied dest n
    let avail := b.avail - n
    return ((n,copied),{ b with avail := avail, bptr := if avail = 0 then 0 else b.bptr + n })

/-- The bytes of a number, the lowest first. -/
def leBytes (val : UInt32) : Bytes :=
  [val.toUInt8,(val >>> 8).toUInt8,(val >>> 16).toUInt8,(val >>> 24).toUInt8]

def ofLeBytes (bytes : Bytes) : UInt32 :=
  (bytes.getD 0 0).toUInt32 ||| (bytes.getD 1 0).toUInt32 <<< 8 ||| (bytes.getD 2 0).toUInt32 <<< 16 |||
    (bytes.getD 3 0).toUInt32 <<< 24

/-- `nr_buffer_write_uint32_t_le`. -/
def writeUint32Le (junk : ℕ → UInt8) (b : Nrbuf) (val : UInt32) : Except Stop Nrbuf :=
  b.add junk (some (leBytes val)) 4

/-- `nr_buffer_write_uint64_t_as_text`. -/
def writeUint64AsText (junk : ℕ → UInt8) (b : Nrbuf) (val : UInt64) : Except Stop Nrbuf :=
  b.add junk (some (decimal val.toNat)) (decimal val.toNat).length

/-- `nr_buffer_read_uint32_t_le`; there is no number when fewer than four bytes are left, which are
used up all the same. -/
def readUint32Le (b : Nrbuf) : Except Stop (Option UInt32 × Nrbuf) := do
  let ((n,copied),b) ← b.use true 4
  return (if n = 4 then copied.map ofLeBytes else none,b)

/-- `nr_buffer_peek_end`. -/
def peekEnd (b : Nrbuf) : Except Stop UInt8 := if b.avail = 0 then return 0 else get b.buf (b.avail - 1)

end Nrbuf

/-! ### Runs -/

inductive BufferOp
  | add (data : Bytes)
  | addEscapeJson (rawString : Bytes)
  | writeUint32Le (val : UInt32)
  | writeUint64AsText (val : UInt64)
  | use (dest : Bool) (dlen : ℤ)
  | readUint32Le
  | reset
  | len
  | cptr
  | peekEnd
deriving DecidableEq

/-- What a call returns. Of a pointer it is the bytes it points at, as many as the buffer says. -/
inductive BufferAnswer
  | nothing
  | used (n : ℤ) (copied : Option Bytes)
  | number (val : Option UInt32)
  | length (n : ℕ)
  | unread (bytes : Option Bytes)
  | byte (c : UInt8)
deriving DecidableEq

namespace Nrbuf

/-- One call. -/
def step (junk : ℕ → UInt8) (b : Nrbuf) : BufferOp → Except Stop (BufferAnswer × Nrbuf)
  | .add data => do return (.nothing,← b.add junk (some data) data.length)
  | .addEscapeJson rawString => do return (.nothing,← b.addEscapeJson junk rawString)
  | .writeUint32Le val => do return (.nothing,← b.writeUint32Le junk val)
  | .writeUint64AsText val => do return (.nothing,← b.writeUint64AsText junk val)
  | .use dest dlen => do
    let ((n,copied),b) ← b.use dest dlen
    return (.used n copied,b)
  | .readUint32Le => do
    let (val,b) ← b.readUint32Le
    return (.number val,b)
  | .reset => return (.nothing,b.reset)
  | .len => return (.length b.len,b)
  | .cptr => do
    match b.cptr with
    | none => return (.unread none,b)
    | some p => return (.unread (some (← getRange b.buf p b.len)),b)
  | .peekEnd => do return (.byte (← b.peekEnd),b)

def run (junk : ℕ → UInt8) (b : Nrbuf) : List BufferOp → Except Stop (List BufferAnswer × Nrbuf)
  | [] => return ([],b)
  | op :: ops => do
    let (answer,b) ← b.step junk op
    let (answers,b) ← run junk b ops
    return (answer :: answers,b)

end Nrbuf

/-! ### The queue -/

/-- A queue of bytes, with those that were read since the array was last written, reset or used up. -/
structure ByteQueue where
  gone : Bytes
  unread : Bytes
deriving DecidableEq

namespace ByteQueue

def push (q : ByteQueue) (data : Bytes) : ByteQueue :=
  if data = [] then q else ⟨[],q.unread ++ data⟩

/-- The oldest bytes are read. -/
def pop (q : ByteQueue) (n : ℕ) : ByteQueue :=
  if q.unread.length ≤ n then ⟨[],[]⟩ else ⟨q.gone ++ q.unread.take n,q.unread.drop n⟩

/-- What a queue answers, first in, first out. -/
def answer (unread : Bytes) : BufferOp → BufferAnswer
  | .use dest dlen =>
    if dlen < 0 then .used (-1) none
    else .used (min dlen.toNat unread.length : ℕ) (if dest then some (unread.take dlen.toNat) else none)
  | .readUint32Le => .number (if 4 ≤ unread.length then some (Nrbuf.ofLeBytes (unread.take 4)) else none)
  | .len => .length unread.length
  | .cptr => .unread (if unread = [] then none else some unread)
  | .peekEnd => .byte (unread.getLast?.getD 0)
  | _ => .nothing

def next (q : ByteQueue) : BufferOp → ByteQueue
  | .add data => q.push data
  | .addEscapeJson rawString => q.push (jsonEscape rawString)
  | .writeUint32Le val => q.push (Nrbuf.leBytes val)
  | .writeUint64AsText val => q.push (decimal val.toNat)
  | .use _ dlen => if dlen < 0 then q else q.pop dlen.toNat
  | .readUint32Le => q.pop 4
  | .reset => ⟨[],[]⟩
  | .len | .cptr | .peekEnd => q

def answers (q : ByteQueue) : List BufferOp → List BufferAnswer
  | [] => []
  | op :: ops => answer q.unread op :: (q.next op).answers ops

/-- Counted from the first byte that is gone, the last byte stands where it would stand were none
gone. -/
def EndInPlace (q : ByteQueue) : Prop :=
  q.unread ≠ [] → (q.gone ++ q.unread)[q.unread.length - 1]? = q.unread.getLast?

/-- The end is only looked at when it is in its place. -/
def EndsInPlace (q : ByteQueue) : List BufferOp → Prop
  | [] => True
  | op :: ops => (op = .peekEnd → q.EndInPlace) ∧ (q.next op).EndsInPlace ops

end ByteQueue

namespace Nrbuf

variable (junk : ℕ → UInt8) {b : Nrbuf} {q : ByteQueue}

lemma realloc_spec {buf : Bytes} {size : ℕ} (h : buf.length ≤ size) :
    buf <+: realloc junk buf size ∧ (realloc junk buf size).length = size := by
  rw [realloc,List.take_of_length_le h]
  refine ⟨List.prefix_append _ _,?_⟩
  rw [List.length_append,List.length_map,List.length_range']
  omega

/-! ### What the array holds -/

/-- The array holds what was read and behind it what was not. -/
structure Holds (b : Nrbuf) (q : ByteQueue) : Prop where
  bptr : b.bptr = q.gone.length
  avail : b.avail = q.unread.length
  contents : q.gone ++ q.unread <+: b.buf
  extsize_pos : 0 < b.extsize
  gone_nil : q.unread = [] → q.gone = []

lemma create_holds (estsize extsize : ℤ) :
    (create junk estsize extsize).Holds ⟨[],[]⟩ where
  bptr := rfl
  avail := rfl
  contents := List.nil_prefix
  extsize_pos := by
    rw [create]
    dsimp only
    omega
  gone_nil _ := rfl

/-- Growing keeps what the array holds and makes room. -/
theorem Holds.grow (h : b.Holds q) (n : ℕ) :
    (b.grow junk n).Holds q ∧ b.buf <+: (b.grow junk n).buf ∧
      q.unread.length + n ≤ (b.grow junk n).buf.length := by
  have hfits : q.gone.length + q.unread.length ≤ b.buf.length := by
    rw [← List.length_append]
    exact h.contents.length_le
  have havail := h.avail
  unfold Nrbuf.grow
  dsimp only
  split_ifs with hgrow hsmall
  · obtain ⟨hinitial,hlen⟩ := realloc_spec junk (Nat.le_add_right b.buf.length b.extsize)
    refine ⟨⟨h.bptr,h.avail,h.contents.trans hinitial,h.extsize_pos,h.gone_nil⟩,hinitial,?_⟩
    rw [hlen]
    omega
  · obtain ⟨hinitial,hlen⟩ := realloc_spec junk (Nat.le_add_right b.buf.length
      (((n + b.avail - (b.buf.length - b.avail)) / b.extsize + 1) * b.extsize))
    refine ⟨⟨h.bptr,h.avail,h.contents.trans hinitial,h.extsize_pos,h.gone_nil⟩,hinitial,?_⟩
    have hdiv := Nat.lt_div_mul_add (a := n + b.avail - (b.buf.length - b.avail)) h.extsize_pos
    rw [hlen,Nat.add_mul,Nat.one_mul]
    omega
  · exact ⟨h,List.prefix_refl _,by omega⟩

lemma Holds.moveToFront (h : b.Holds q) :
    ∃ b', b.moveToFront = .ok b' ∧ b'.Holds ⟨[],q.unread⟩ ∧ b'.buf.length = b.buf.length ∧
      (q.gone = [] → b' = b) := by
  unfold Nrbuf.moveToFront
  split_ifs with hmoved
  · have hread : getRange b.buf b.bptr b.avail = .ok q.unread := by
      rw [h.bptr,h.avail]
      exact getRange_of_prefix h.contents
    have hle := h.contents.length_le
    rw [List.length_append] at hle
    obtain ⟨buf,hput,hinitial,hlen⟩ :=
      put_of_prefix (a := []) (List.nil_prefix (l := b.buf)) (s := q.unread) (by simp; omega)
    refine ⟨{ b with buf := buf, bptr := 0 },?_,⟨rfl,h.avail,hinitial,h.extsize_pos,fun _ => rfl⟩,hlen,?_⟩
    · rw [hread,ok_bind]
      change (put b.buf ([] : Bytes).length q.unread >>= _) = _
      rw [hput]
      rfl
    · intro hnil
      rw [h.bptr,hnil] at hmoved
      exact absurd rfl hmoved
  · rw [not_not,h.bptr,List.length_eq_zero_iff] at hmoved
    have hcontents := h.contents
    rw [hmoved] at hcontents
    refine ⟨b,rfl,⟨?_,h.avail,hcontents,h.extsize_pos,fun _ => rfl⟩,rfl,fun _ => rfl⟩
    rw [h.bptr,hmoved]

lemma Holds.ensure (h : b.Holds q) (n : ℕ) :
    ∃ b', b.ensure junk n = .ok b' ∧ b'.Holds ⟨[],q.unread⟩ ∧ q.unread.length + n ≤ b'.buf.length := by
  obtain ⟨hgrow,-,hroom⟩ := h.grow junk n
  obtain ⟨b',hmove,hholds,hlen,-⟩ := hgrow.moveToFront
  exact ⟨b',hmove,hholds,hlen ▸ hroom⟩

/-- Bytes that stand behind the contents become contents. -/
theorem Holds.extend {unread data : Bytes} (h : b.Holds ⟨[],unread⟩) {buf : Bytes}
    (hbuf : unread ++ data <+: buf) :
    Holds { b with buf := buf, avail := b.avail + data.length } ⟨[],unread ++ data⟩ where
  bptr := h.bptr
  avail := by rw [List.length_append,h.avail]
  contents := hbuf
  extsize_pos := h.extsize_pos
  gone_nil _ := rfl

lemma Holds.add (h : b.Holds q) (data : Bytes) :
    ∃ b', b.add junk (some data) data.length = .ok b' ∧ b'.Holds (q.push data) := by
  unfold Nrbuf.add ByteQueue.push
  by_cases hdata : data = []
  · rw [if_pos hdata,if_pos (by rw [hdata]; rfl)]
    exact ⟨b,rfl,h⟩
  · rw [if_neg hdata,if_neg (mt List.length_eq_zero_iff.mp hdata)]
    obtain ⟨b₁,hensure,h₁,hroom⟩ := h.ensure junk data.length
    obtain ⟨buf,hput,hinitial,-⟩ := put_of_prefix h₁.contents (s := data) (by simpa using hroom)
    refine ⟨_,?_,h₁.extend hinitial⟩
    have hput' : put b₁.buf b₁.avail (data.take data.length) = .ok buf := by
      rw [h₁.avail,List.take_length]
      exact hput
    rw [Nrbuf.ensure] at hensure
    rw [hensure,ok_bind]
    dsimp only
    rw [hput',ok_bind]
    rfl

/-- Bytes are added that stand behind the contents. -/
theorem Holds.add_none {unread data : Bytes} (h : b.Holds ⟨[],unread⟩) (hne : data ≠ [])
    (hbuf : unread ++ data <+: b.buf) :
    ∃ b', b.add junk none data.length = .ok b' ∧ b'.Holds ⟨[],unread ++ data⟩ := by
  obtain ⟨hgrow,hkept,-⟩ := h.grow junk data.length
  obtain ⟨b₁,hmove,h₁,-,hsame⟩ := hgrow.moveToFront
  obtain rfl := hsame rfl
  refine ⟨_,?_,h₁.extend (hbuf.trans hkept)⟩
  rw [Nrbuf.add,if_neg (mt List.length_eq_zero_iff.mp hne),hmove,ok_bind]
  rfl

lemma Holds.addEscapeJson (h : b.Holds q) (rawString : Bytes) :
    ∃ b', b.addEscapeJson junk rawString = .ok b' ∧ b'.Holds (q.push (jsonEscape rawString)) := by
  have hne : jsonEscape rawString ≠ [] := List.cons_ne_nil _ _
  have hlength := length_jsonEscape_le rawString
  obtain ⟨b₁,hensure,h₁,hroom⟩ := h.ensure junk (rawString.length * 6 + 3)
  obtain ⟨buf,hput,hinitial,-⟩ := put_of_prefix h₁.contents (s := jsonEscape rawString ++ [0]) (by
    rw [List.nil_append,List.length_append,List.length_singleton]
    dsimp only
    omega)
  rw [← List.append_assoc] at hinitial
  have hwhole := (List.prefix_append _ [0]).trans hinitial
  have hkept : Holds { b₁ with buf := buf } ⟨[],q.unread⟩ :=
    ⟨h₁.bptr,h₁.avail,(List.prefix_append _ _).trans hwhole,h₁.extsize_pos,fun _ => rfl⟩
  obtain ⟨b₂,hadd,h₂⟩ := hkept.add_none junk hne hwhole
  refine ⟨b₂,?_,?_⟩
  · have hput' : put b₁.buf b₁.avail (jsonEscape rawString ++ [0]) = .ok buf := by
      rw [h₁.avail]
      exact hput
    rw [Nrbuf.addEscapeJson,hensure,ok_bind,hput',ok_bind,hadd]
  · rw [ByteQueue.push,if_neg hne]
    exact h₂

lemma Holds.use (h : b.Holds q) (dest : Bool) {dlen : ℤ} (hlow : 0 ≤ dlen) :
    ∃ b', b.use dest dlen =
        .ok (((min dlen.toNat q.unread.length : ℕ),if dest then some (q.unread.take dlen.toNat) else none),b') ∧
      b'.Holds (q.pop dlen.toNat) := by
  have hread : getRange b.buf b.bptr (min dlen.toNat b.avail) = .ok (q.unread.take dlen.toNat) := by
    have hsplit : q.gone ++ q.unread.take dlen.toNat <+: b.buf := by
      refine List.IsPrefix.trans ?_ h.contents
      rw [List.prefix_append_right_inj]
      exact List.take_prefix _ _
    rw [h.bptr,h.avail,← List.length_take]
    exact getRange_of_prefix hsplit
  have havail := h.avail
  have hcopied : b.copied dest (min dlen.toNat b.avail) =
      .ok (if dest then some (q.unread.take dlen.toNat) else none) := by
    cases dest with
    | false => rfl
    | true =>
      rw [Nrbuf.copied,if_pos rfl,hread]
      rfl
  rw [havail] at hcopied
  set n := min dlen.toNat q.unread.length with hn
  have huse : b.use dest dlen = .ok ((n,if dest then some (q.unread.take dlen.toNat) else none),
      { b with
        avail := q.unread.length - n
        bptr := if q.unread.length - n = 0 then 0 else b.bptr + n }) := by
    rw [Nrbuf.use,if_neg (by omega)]
    simp only [havail,← hn,hcopied,ok_bind]
    rfl
  refine ⟨_,huse,?_⟩
  unfold ByteQueue.pop
  by_cases hall : q.unread.length ≤ dlen.toNat
  · have hzero : q.unread.length - n = 0 := by omega
    rw [if_pos hall,if_pos hzero]
    exact ⟨rfl,hzero,List.nil_prefix,h.extsize_pos,fun _ => rfl⟩
  · have hsome : q.unread.length - n ≠ 0 := by omega
    rw [if_neg hall,if_neg hsome]
    refine ⟨?_,?_,?_,h.extsize_pos,fun hnil => absurd (List.drop_eq_nil_iff.mp hnil) hall⟩
    · rw [h.bptr,List.length_append,List.length_take,hn]
    · rw [List.length_drop]
      dsimp only
      omega
    · rw [List.append_assoc,List.take_append_drop]
      exact h.contents

lemma Holds.readUint32Le (h : b.Holds q) :
    ∃ b', b.readUint32Le =
        .ok (if 4 ≤ q.unread.length then some (ofLeBytes (q.unread.take 4)) else none,b') ∧
      b'.Holds (q.pop 4) := by
  obtain ⟨b',huse,hholds⟩ := h.use true (show (0 : ℤ) ≤ 4 by decide)
  refine ⟨b',?_,hholds⟩
  rw [Nrbuf.readUint32Le,huse,ok_bind]
  have hfour : (((min (Int.toNat 4) q.unread.length : ℕ) : ℤ) = 4) ↔ 4 ≤ q.unread.length := by
    have htoNat : Int.toNat 4 = 4 := rfl
    omega
  simp only [hfour]
  rfl

/-- The pointer points at what was not read. -/
theorem Holds.cptr (h : b.Holds q) :
    (b.cptr = none ∧ q.unread = []) ∨
      ∃ p, b.cptr = some p ∧ getRange b.buf p b.len = .ok q.unread ∧ q.unread ≠ [] := by
  unfold Nrbuf.cptr Nrbuf.len
  split_ifs with hzero
  · rw [h.avail,List.length_eq_zero_iff] at hzero
    exact .inl ⟨rfl,hzero⟩
  · rw [h.avail,List.length_eq_zero_iff] at hzero
    refine .inr ⟨_,rfl,?_,hzero⟩
    rw [h.bptr,h.avail]
    exact getRange_of_prefix h.contents

/-- The byte that is looked at as the last one. -/
theorem Holds.peekEnd (h : b.Holds q) :
    ∃ c, b.peekEnd = .ok c ∧ (c = q.unread.getLast?.getD 0 ↔ q.EndInPlace) := by
  unfold Nrbuf.peekEnd
  split_ifs with hzero
  · rw [h.avail,List.length_eq_zero_iff] at hzero
    refine ⟨0,rfl,?_⟩
    rw [hzero]
    exact ⟨fun _ hne => absurd hzero hne,fun _ => rfl⟩
  · rw [h.avail,List.length_eq_zero_iff] at hzero
    have hpos := List.length_pos_of_ne_nil hzero
    have hin : q.unread.length - 1 < (q.gone ++ q.unread).length := by
      rw [List.length_append]
      omega
    obtain ⟨rest,hrest⟩ := h.contents
    have hget : b.buf[b.avail - 1]? = some (q.gone ++ q.unread)[q.unread.length - 1] := by
      rw [h.avail,← hrest,List.getElem?_append_left hin,List.getElem?_eq_getElem hin]
    refine ⟨(q.gone ++ q.unread)[q.unread.length - 1],by rw [get,hget],?_⟩
    rw [ByteQueue.EndInPlace,List.getElem?_eq_getElem hin,List.getLast?_eq_some_getLast hzero]
    simp [hzero]

/-! ### Runs -/

/-- A call answers as the queue does, but for the last byte, which has to be in its place. -/
theorem Holds.step (h : b.Holds q) (op : BufferOp) :
    ∃ answer b', b.step junk op = .ok (answer,b') ∧ b'.Holds (q.next op) ∧
      (answer = ByteQueue.answer q.unread op ↔ (op = .peekEnd → q.EndInPlace)) := by
  have hsame {answer : BufferAnswer} {op : BufferOp} (hop : op ≠ .peekEnd)
      (heq : answer = ByteQueue.answer q.unread op) :
      answer = ByteQueue.answer q.unread op ↔ (op = .peekEnd → q.EndInPlace) :=
    ⟨fun _ hpeek => absurd hpeek hop,fun _ => heq⟩
  cases op with
  | add data =>
    obtain ⟨b',hadd,h'⟩ := h.add junk data
    exact ⟨_,b',by rw [Nrbuf.step,hadd]; rfl,h',hsame (by simp) rfl⟩
  | addEscapeJson rawString =>
    obtain ⟨b',hadd,h'⟩ := h.addEscapeJson junk rawString
    exact ⟨_,b',by rw [Nrbuf.step,hadd]; rfl,h',hsame (by simp) rfl⟩
  | writeUint32Le val =>
    obtain ⟨b',hadd,h'⟩ := h.add junk (leBytes val)
    have hwrite : b.writeUint32Le junk val = .ok b' := hadd
    exact ⟨_,b',by rw [Nrbuf.step,hwrite]; rfl,h',hsame (by simp) rfl⟩
  | writeUint64AsText val =>
    obtain ⟨b',hadd,h'⟩ := h.add junk (decimal val.toNat)
    exact ⟨_,b',by rw [Nrbuf.step,Nrbuf.writeUint64AsText,hadd]; rfl,h',hsame (by simp) rfl⟩
  | use dest dlen =>
    by_cases hneg : dlen < 0
    · refine ⟨.used (-1) none,b,?_,?_,hsame (by simp) ?_⟩
      · rw [Nrbuf.step,Nrbuf.use,if_pos hneg]
        rfl
      · rwa [ByteQueue.next,if_pos hneg]
      · rw [ByteQueue.answer,if_pos hneg]
    · obtain ⟨b',huse,h'⟩ := h.use dest (not_lt.mp hneg)
      refine ⟨_,b',by rw [Nrbuf.step,huse]; rfl,?_,hsame (by simp) ?_⟩
      · rwa [ByteQueue.next,if_neg hneg]
      · rw [ByteQueue.answer,if_neg hneg]
  | readUint32Le =>
    obtain ⟨b',hread,h'⟩ := h.readUint32Le
    exact ⟨_,b',by rw [Nrbuf.step,hread]; rfl,h',hsame (by simp) rfl⟩
  | reset =>
    exact ⟨_,b.reset,rfl,⟨rfl,rfl,List.nil_prefix,h.extsize_pos,fun _ => rfl⟩,hsame (by simp) rfl⟩
  | len => exact ⟨_,b,rfl,h,hsame (by simp) (by rw [ByteQueue.answer,Nrbuf.len,h.avail])⟩
  | cptr =>
    obtain ⟨hnone,hnil⟩ | ⟨p,hp,hread,hne⟩ := h.cptr
    · exact ⟨_,b,by simp only [Nrbuf.step,hnone]; rfl,h,hsame (by simp) (by simp [ByteQueue.answer,hnil])⟩
    · exact ⟨_,b,by simp only [Nrbuf.step,hp,hread]; rfl,h,hsame (by simp) (by simp [ByteQueue.answer,hne])⟩
  | peekEnd =>
    obtain ⟨c,hpeek,hiff⟩ := h.peekEnd
    refine ⟨.byte c,b,by rw [Nrbuf.step,hpeek]; rfl,h,?_⟩
    rw [ByteQueue.answer,BufferAnswer.byte.injEq,hiff]
    exact ⟨fun hplace _ => hplace,fun hplace => hplace rfl⟩

lemma Holds.run (h : b.Holds q) (ops : List BufferOp) :
    ∃ answers b', b.run junk ops = .ok (answers,b') ∧
      (answers = q.answers ops ↔ q.EndsInPlace ops) := by
  induction ops generalizing b q with
  | nil => exact ⟨[],b,rfl,iff_of_true rfl trivial⟩
  | cons op ops ih =>
    obtain ⟨answer,b₁,hstep,h₁,hanswer⟩ := h.step junk op
    obtain ⟨answers,b₂,hrun,hanswers⟩ := ih h₁
    refine ⟨answer :: answers,b₂,?_,?_⟩
    · rw [Nrbuf.run,hstep,ok_bind]
      dsimp only
      rw [hrun]
      rfl
    · rw [ByteQueue.answers,ByteQueue.EndsInPlace,List.cons.injEq,hanswer,hanswers]

/-- Nothing outside the array is touched, and the buffer is a queue of bytes exactly when its end is
only looked at in its place. -/
theorem run_fifo_iff (estsize extsize : ℤ) (ops : List BufferOp) :
    ∃ answers b, run junk (create junk estsize extsize) ops = .ok (answers,b) ∧
      (answers = (⟨[],[]⟩ : ByteQueue).answers ops ↔ (⟨[],[]⟩ : ByteQueue).EndsInPlace ops) :=
  (create_holds junk estsize extsize).run junk ops

/-- Of three bytes one is read, and then the middle one is taken for the last. -/
theorem not_run_fifo : ¬∀ (junk : ℕ → UInt8) (estsize extsize : ℤ) (ops : List BufferOp),
    ∃ b, run junk (create junk estsize extsize) ops =
      .ok ((⟨[],[]⟩ : ByteQueue).answers ops,b) := by
  intro h
  obtain ⟨b,hb⟩ := h (fun _ => 0) 0 0 [.add (ascii "abc"),.use true 1,.peekEnd]
  have hanswers := congrArg (fun r => (r.map Prod.fst).toOption) hb
  change _ = some ((⟨[],[]⟩ : ByteQueue).answers [.add (ascii "abc"),.use true 1,.peekEnd]) at hanswers
  clear hb
  revert hanswers
  decide +kernel

end Nrbuf
end PhpAgent

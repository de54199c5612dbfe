import PhpAgent.Agent.DistributedTrace
import PhpAgent.Segment.SpanEvent

/-! Span events for the trace observer, after `nr_span_encoding.c`, and what becomes of the numbers in
them. -/
namespace PhpAgent

/-! ### Numbers in an object -/

namespace NrObj

/-- The integer an object holds. -/
def integer : NrObj → Option ℤ
  | .int i _ => some i
  | .long i => some i
  | .ulong n => some n
  | _ => Option.none

/-- The integers of an object are in the ranges of their types. -/
def Fits : NrObj → Prop
  | .int i _ => -2^31 ≤ i ∧ i < 2^31
  | .long i => -2^63 ≤ i ∧ i < 2^63
  | .ulong n => n < 2^64
  | _ => True

/-- The first eight bytes of the union, of which an `int` has set the lower four. -/
def word : NrObj → BitVec 64
  | .int i above => above.toBitVec ++ BitVec.ofInt 32 i
  | .long i => BitVec.ofInt 64 i
  | .ulong n => BitVec.ofNat 64 n
  | _ => 0

/-- The four bytes above an `int` repeat its sign. -/
def Extended : NrObj → Prop
  | .int i above => above = if i < 0 then 0xffffffff else 0
  | _ => True

/-- `nro_get_ulong`. -/
def getUlong : NrObj → Option ℕ
  | .ulong n => some n
  | _ => Option.none

lemma toNat_word_int (i : ℤ) (above : UInt32) :
    ((NrObj.int i above).word.toNat : ℤ) = above.toNat * 2^32 + i % 2^32 := by
  have hlt : (BitVec.ofInt 32 i).toNat < 2^32 := (BitVec.ofInt 32 i).isLt
  rw [word,BitVec.toNat_append,← Nat.shiftLeft_add_eq_or_of_lt hlt,Nat.shiftLeft_eq,BitVec.toNat_ofInt,
    UInt32.toNat_toBitVec]
  push_cast
  omega

/-- `nro_get_long` reads all eight bytes. -/
theorem getLong_eq_word {o : NrObj} {i : ℤ} (hfits : o.Fits) (h : o.getLong = some i) :
    i = o.word.toInt := by
  cases o with
  | int j above =>
    rw [BitVec.toInt_eq_toNat_bmod,toNat_word_int]
    exact (Option.some.inj h).symm
  | long j =>
    have hword : (NrObj.long j).word.toInt = j := by
      unfold Fits at hfits
      rw [word,BitVec.toInt_ofInt,Int.bmod_eq_of_le] <;> omega
    rw [hword]
    exact (Option.some.inj h).symm
  | _ => cases h

end NrObj

/-! ### Encoding -/

namespace SpanEncoding

/-- `Com__Newrelic__Trace__V1__AttributeValue`. -/
inductive AttributeValue
  | notSet
  | string (s : Bytes)
  | bool (b : Bool)
  | int (i : ℤ)
  | double (d : Double)
deriving DecidableEq

/-- `nr_span_encoding_encode_attribute_value_v1`, with its answer. -/
def encodeAttributeValueV1 (obj : NrObj) : AttributeValue × Bool :=
  match obj with
  | .int _ _ | .long _ => (.int (obj.getLong.getD (-1)),true)
  | .ulong _ => (.int (((obj.getUlong.getD (2^64-1) : ℕ) : ℤ).bmod (2^64)),true)
  | .double d => (.double d,true)
  | .boolean b => (.bool b,true)
  | .string s => (.string s,true)
  | _ => (.notSet,false)

/-- The functions that `GENERATE_SERIALISE_FUNC` makes; the answer for a value is not looked at. -/
def serialise (h : NrHash) : List (Bytes × AttributeValue) :=
  h.map fun entry => (entry.1,(encodeAttributeValueV1 entry.2).1)

/-- `Com__Newrelic__Trace__V1__Span`. -/
structure InfiniteSpan where
  traceId : Option Bytes
  intrinsics : List (Bytes × AttributeValue)
  agentAttributes : List (Bytes × AttributeValue)
  userAttributes : List (Bytes × AttributeValue)

/-- `nr_span_encoding_encode_span_v1`. -/
def encodeSpanV1 (event : SpanEvent) : InfiniteSpan where
  traceId := event.traceId
  intrinsics := serialise event.intrinsics
  agentAttributes := serialise event.agentAttributes
  userAttributes := serialise event.userAttributes

/-- All eight bytes stand for the `int` exactly when the upper ones repeat its sign. -/
theorem getLong_int_iff {j : ℤ} (above : UInt32) (hmin : -2^31 ≤ j) (hmax : j < 2^31) :
    (NrObj.int j above).getLong = some j ↔ (NrObj.int j above).Extended := by
  have hlt := above.toNat_lt
  have hones : (0xffffffff : UInt32).toNat = 2^32-1 := rfl
  rw [NrObj.getLong,NrObj.Extended,Option.some.injEq,Int.bmod_def,← UInt32.toNat_inj]
  by_cases hneg : j < 0
  · rw [if_pos hneg,hones]
    split_ifs <;> omega
  · rw [if_neg hneg,UInt32.toNat_zero]
    split_ifs <;> omega

/-- A number is written as it is, or reported as not encodable, exactly when it is no `int` below bytes
that do not repeat its sign and no `ulong` beyond the `long`s. -/
theorem encodeAttributeValueV1_survives_iff {o : NrObj} {i : ℤ} (hi : o.integer = some i)
    (hfits : o.Fits) :
    (encodeAttributeValueV1 o).2 = false ∨ (encodeAttributeValueV1 o).1 = .int i ↔
      o.Extended ∧ ∀ n, o = .ulong n → n < 2^63 := by
  cases o with
  | int j above =>
    obtain rfl := Option.some.inj hi
    have hsome : (NrObj.int j above).getLong = some ((NrObj.int j above).getLong.getD (-1)) := rfl
    have hread := getLong_int_iff above hfits.1 hfits.2
    rw [hsome,Option.some.injEq] at hread
    simp only [encodeAttributeValueV1,Bool.true_eq_false,false_or,AttributeValue.int.injEq,hread]
    simp
  | long j =>
    obtain rfl := Option.some.inj hi
    simp [encodeAttributeValueV1,NrObj.getLong,NrObj.Extended]
  | ulong n =>
    obtain rfl := Option.some.inj hi
    have hmod : (n : ℤ).bmod (2^64) = n ↔ n < 2^63 := by
      unfold NrObj.Fits at hfits
      rw [Int.bmod_def]
      omega
    simp only [encodeAttributeValueV1,NrObj.getUlong,Option.getD_some,Bool.true_eq_false,false_or,
      AttributeValue.int.injEq,hmod]
    simp [NrObj.Extended]
  | _ => cases hi

theorem encodeAttributeValueV1_survives_port :
    (encodeAttributeValueV1 (.int 3306)).2 = false ∨
      (encodeAttributeValueV1 (.int 3306)).1 = .int 3306 :=
  (encodeAttributeValueV1_survives_iff rfl (by norm_num [NrObj.Fits])).mpr
    ⟨rfl,fun n hn => by cases hn⟩

/-- A negative number in a zeroed object turns into a large one. -/
theorem encodeAttributeValueV1_negative :
    encodeAttributeValueV1 (.int (-1)) = (.int 4294967295,true) ∧
      encodeAttributeValueV1 (.ulong (2^64-1)) = (.int (-1),true) := by
  decide

end SpanEncoding
end PhpAgent

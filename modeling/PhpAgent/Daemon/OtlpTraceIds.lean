import PhpAgent.Agent.TraceContextRoundTrip
import PhpAgent.Daemon.OtlpTraces
import PhpAgent.Util.JsonRoundTrip

/-! The trace identifier of an exported span beside the one in the trace parent of the agent. -/
namespace PhpAgent.Otlp
open PhpAgent Json NrDistributedTrace NrDistributedTrace.Outbound

/-- The digits of bytes, in lower case. -/
def hexForm (b : Bytes) : Bytes := b.flatMap fun c => [hexDigit (c.toNat/16),hexDigit c.toNat]

@[simp] lemma hexForm_nil : hexForm [] = [] := rfl

@[simp] lemma hexForm_cons (c : UInt8) (b : Bytes) :
    hexForm (c :: b) = hexDigit (c.toNat/16) :: hexDigit c.toNat :: hexForm b := rfl

@[simp] lemma hexForm_append (b b' : Bytes) : hexForm (b ++ b') = hexForm b ++ hexForm b' :=
  List.flatMap_append

lemma hexForm_zeros (n : ℕ) : hexForm (List.replicate n 0) = List.replicate (2*n) (code '0') := by
  induction n with
  | zero => rfl
  | succ n ih =>
    rw [List.replicate_succ,hexForm_cons,ih]
    rfl

lemma lowerHex_chars (c : UInt8) :
    isLowerHex c = true → hexValue c < 16 ∧ hexDigit (hexValue c) = c ∧ isHex c = true :=
  forall_char (P := fun c => isLowerHex c = true →
    hexValue c < 16 ∧ hexDigit (hexValue c) = c ∧ isHex c = true) (by decide +kernel) c

lemma hexValue_lt (c : UInt8) (h : isLowerHex c = true) : hexValue c < 16 := (lowerHex_chars c h).1

lemma hexDigit_hexValue (c : UInt8) (h : isLowerHex c = true) : hexDigit (hexValue c) = c :=
  (lowerHex_chars c h).2.1

lemma isHex_of_isLowerHex (c : UInt8) (h : isLowerHex c = true) : isHex c = true := (lowerHex_chars c h).2.2

lemma hexDigit_mod (n : ℕ) : hexDigit (n%16) = hexDigit n := by
  unfold hexDigit
  rw [Nat.mod_mod]

variable {h : Bytes}

/-- An even number of digits is decoded to the bytes that have them. -/
theorem decodeString_even (hdigits : ∀ c ∈ h, isLowerHex c = true) (heven : Even h.length) :
    ∃ b, decodeString h = some b ∧ hexForm b = h ∧ 2*b.length = h.length := by
  induction h using decodeString.induct with
  | case1 => exact ⟨[],rfl,rfl,rfl⟩
  | case2 c => simp at heven
  | case3 a b rest hhex ih =>
    obtain ⟨bytes,hdecode,hform,hlen⟩ := ih
      (fun c hc => hdigits c (List.mem_cons_of_mem _ (List.mem_cons_of_mem _ hc)))
      (by simpa [Nat.even_add_one] using heven)
    have ha := hdigits a List.mem_cons_self
    have hb := hdigits b (List.mem_cons_of_mem _ List.mem_cons_self)
    have hva := hexValue_lt a ha
    have hvb := hexValue_lt b hb
    have hvalue : (16*hexValue a+hexValue b).toUInt8.toNat = 16*hexValue a+hexValue b := by
      rw [Nat.toUInt8_eq,UInt8.toNat_ofNat']
      omega
    refine ⟨(16*hexValue a+hexValue b).toUInt8 :: bytes,?_,?_,?_⟩
    · rw [decodeString,if_pos hhex,hdecode]
      rfl
    · have hhigh : (16*hexValue a+hexValue b)/16 = hexValue a := by omega
      have hlow : (16*hexValue a+hexValue b)%16 = hexValue b := by omega
      rw [hexForm_cons,hvalue,hform,hhigh,← hexDigit_mod (16*hexValue a+hexValue b),hlow,
        hexDigit_hexValue a ha,hexDigit_hexValue b hb]
    · simp only [List.length_cons]
      omega
  | case4 a b rest hhex =>
    have ha := isHex_of_isLowerHex a (hdigits a List.mem_cons_self)
    have hb := isHex_of_isLowerHex b (hdigits b (List.mem_cons_of_mem _ List.mem_cons_self))
    exact absurd (by rw [ha,hb]; rfl) hhex

lemma decodeString_odd (hodd : ¬Even h.length) : decodeString h = none := by
  induction h using decodeString.induct with
  | case1 => simp at hodd
  | case2 c => rfl
  | case3 a b rest hhex ih =>
    rw [decodeString,if_pos hhex,ih (by simpa [Nat.even_add_one] using hodd)]
    rfl
  | case4 a b rest hhex => rw [decodeString,if_neg hhex]

lemma hexForm_leftPadded {n : ℕ} {b : Bytes} (h : b.length ≤ n) :
    hexForm (leftPadded n b).val = List.replicate (2*(n-b.length)) (code '0') ++ hexForm b := by
  have hval : (leftPadded n b).val = List.replicate (n-b.length) 0 ++ b := by
    simp only [leftPadded,if_neg (Nat.not_lt.mpr h)]
  rw [hval,hexForm_append,hexForm_zeros]

lemma hexToTraceID_even (hdigits : ∀ c ∈ h, isHex c = true) (hlen : h.length ≤ 32) (heven : Even h.length) :
    hexForm (hexToTraceID h).val = formattedTraceId h := by
  rw [formattedTraceId_eq hlen]
  obtain ⟨b,hdecode,hform,hb⟩ := decodeString_even (h := h.map tolower)
    (List.forall_mem_map.mpr fun c hc => isLowerHex_tolower c (hdigits c hc))
    (by rwa [List.length_map])
  rw [List.length_map] at hb
  unfold hexToTraceID hexToID
  split_ifs with hnil
  · rw [hnil]
    rfl
  · rw [hdecode]
    have hne : b ≠ [] := by
      rintro rfl
      exact hnil (List.length_eq_zero_iff.mp hb.symm)
    simp only [if_neg hne]
    have hpad : 2*(16-b.length) = 32-h.length := by omega
    rw [hexForm_leftPadded (by omega),hform,hpad]

lemma hexToTraceID_odd (hodd : ¬Even h.length) :
    hexForm (hexToTraceID h).val = List.replicate 32 (code '0') := by
  have hne : h ≠ [] := by
    rintro rfl
    simp at hodd
  have hdecode : decodeString (h.map tolower) = none :=
    decodeString_odd (by rwa [List.length_map])
  unfold hexToTraceID hexToID
  rw [if_neg hne,hdecode]
  exact hexForm_zeros 16

lemma formattedTraceId_eq_zeros_iff (hlen : h.length ≤ 32) :
    formattedTraceId h = List.replicate 32 (code '0') ↔ ∀ c ∈ h, c = code '0' := by
  rw [formattedTraceId_eq hlen,List.eq_replicate_iff]
  constructor
  · intro hall c hc
    exact tolower_eq_zero c
      (hall.2 _ (List.mem_append_right _ (List.mem_map_of_mem hc)))
  · intro hall
    refine ⟨by simp; omega,fun c hc => ?_⟩
    rcases List.mem_append.mp hc with hc | hc
    · exact List.eq_of_mem_replicate hc
    · obtain ⟨d,hd,rfl⟩ := List.mem_map.mp hc
      rw [hall d hd]
      rfl

/-- A span joins the trace that is announced in the trace parent exactly when the identifier has an
even number of digits, or only zeros. -/
theorem traceparent_agrees_iff {traceId : Bytes} (spanId : Bytes) (sampled : Bool)
    (hdigits : ∀ c ∈ traceId, isHex c = true) (hlen : traceId.length ≤ 32) :
    createW3cTraceparentHeader (some traceId) (some spanId) sampled =
        some (dashed [ascii "00",hexForm (hexToTraceID traceId).val,spanId,
          if sampled then ascii "01" else ascii "00"]) ↔
      Even traceId.length ∨ ∀ c ∈ traceId, c = code '0' := by
  have hsame : createW3cTraceparentHeader (some traceId) (some spanId) sampled =
        some (dashed [ascii "00",hexForm (hexToTraceID traceId).val,spanId,
          if sampled then ascii "01" else ascii "00"]) ↔
      formattedTraceId traceId = hexForm (hexToTraceID traceId).val := by
    constructor
    · intro h
      have h := Option.some.inj h
      simp only [dashed,List.append_cancel_left_eq,List.cons.injEq,true_and] at h
      exact List.append_cancel_right h
    · intro h
      rw [← h]
      rfl
  rw [hsame]
  by_cases heven : Even traceId.length
  · exact iff_of_true (hexToTraceID_even hdigits hlen heven).symm (Or.inl heven)
  · rw [hexToTraceID_odd heven,formattedTraceId_eq_zeros_iff hlen,or_iff_right heven]

theorem traceparent_agrees_sixteen :
    createW3cTraceparentHeader (some (ascii "74BE672B84DDC4E4")) (some (ascii "ffea6a4b7b9cd0f5"))
        true =
      some (dashed [ascii "00",hexForm (hexToTraceID (ascii "74BE672B84DDC4E4")).val,
        ascii "ffea6a4b7b9cd0f5",ascii "01"]) :=
  (traceparent_agrees_iff (ascii "ffea6a4b7b9cd0f5") true (by decide +kernel) (by decide)).mpr
    (Or.inl (by decide))

/-- With an odd number of digits the exported identifier is empty. -/
theorem hexToTraceID_three :
    hexForm (hexToTraceID (ascii "abc")).val ≠ formattedTraceId (ascii "abc") ∧
      hexToTraceID (ascii "abc") = zeroBytes 16 := by
  decide

end PhpAgent.Otlp

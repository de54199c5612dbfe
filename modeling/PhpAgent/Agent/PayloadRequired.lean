import PhpAgent.Agent.PayloadRoundTrip

/-! What the acceptance of a New Relic payload makes of the fields that the check before it requires. -/
namespace PhpAgent
namespace NrDistributedTrace

open NroParse

/-- The number given by an integer member; an `int` has 32 bits. -/
def givenInteger (data : NrObj) (key : String) : Option ℤ :=
  match data.getHashValue key with
  | some (.int i _) => some (toInt i)
  | some (.long i) => some i
  | some (.ulong n) => some n
  | _ => none

/-- The required texts. -/
def requiredTexts : List String := ["ty","ac","ap","tr"]

/-- The trace carries the strings and the time that the payload gives. -/
structure RequiredGiven (data : NrObj) (dt : NrDistributedTrace) : Prop where
  type : ∃ s, data.getHashString "ty" = some s ∧ dt.inbound.type = some s
  account : ∃ s, data.getHashString "ac" = some s ∧ dt.inbound.accountId = some s
  app : ∃ s, data.getHashString "ap" = some s ∧ dt.inbound.appId = some s
  trace : ∃ s, data.getHashString "tr" = some s ∧ dt.traceId = some s
  timestamp : ∃ n : ℕ, givenInteger data "ti" = some n ∧ dt.inbound.timestamp.toNat = 1000*n

/-- No number and no empty text stands for a text, and neither a text, a negative number nor one too
large to be counted in microseconds for the time; what is above an `int` for the time is lost when it is
counted in microseconds, as the zero above a first member is. -/
structure RequiredKinds (data : NrObj) : Prop where
  texts : ∀ key ∈ requiredTexts, data.getHashLong key = none ∧ data.getHashString key ≠ some []
  time : data.getHashString "ti" = none
  range : ∀ i, givenInteger data "ti" = some i → 0 ≤ i ∧ 1000*i < 2^64
  above : ∀ i above, data.getHashValue "ti" = some (.int i above) → above.toNat % 2^29 = 0

/-! ### Members and their kinds -/

section Kinds
variable {data : NrObj} {key : String}

/-- What stands for a member that passes the check. -/
theorem hasField_cases (h : hasField data key = true) :
    (∃ s, data.getHashValue key = some (.string s)) ∨ (∃ i, data.getHashValue key = some (.long i)) ∨
      ∃ i above, data.getHashValue key = some (.int i above) := by
  unfold hasField NrObj.getHashString NrObj.getHashLong at h
  cases hvalue : data.getHashValue key with
  | none => simp [hvalue] at h
  | some o =>
    rw [hvalue] at h
    cases o with
    | string s => exact .inl ⟨s,rfl⟩
    | long i => exact .inr (.inl ⟨i,rfl⟩)
    | int i above => exact .inr (.inr ⟨i,above,rfl⟩)
    | none => cases h
    | boolean b => cases h
    | ulong n => cases h
    | double q => cases h
    | array l => cases h
    | hash e => cases h
    | jstring s => cases h

lemma setDtField_eq_some_iff {value : Option Bytes} {s : Bytes} :
    setDtField value = some s ↔ value = some s ∧ s ≠ [] := by
  simp [setDtField,Option.filter_eq_some_iff]

/-- A text is given to a field exactly when it is one, and not empty. -/
theorem text_given_iff (h : hasField data key = true) :
    (∃ s, data.getHashString key = some s ∧ setDtField (data.getHashString key) = some s) ↔
      data.getHashLong key = none ∧ data.getHashString key ≠ some [] := by
  unfold NrObj.getHashString NrObj.getHashLong
  rcases hasField_cases h with ⟨s,hvalue⟩ | ⟨i,hvalue⟩ | ⟨i,above,hvalue⟩
  · simp [hvalue,NrObj.getString,NrObj.getLong,setDtField_eq_some_iff]
  · simp [hvalue,NrObj.getString,NrObj.getLong]
  · simp [hvalue,NrObj.getString,NrObj.getLong]

lemma toNat_timestampOf (i : ℤ) :
    ((timestampOf (some i)).toNat : ℤ) = 1000*i % 2^64 := by
  have hdivisor : timeDivisorMs.toNat = 1000 := rfl
  rw [timestampOf,Option.getD_some,toUint64,UInt64.toNat_mul,hdivisor,UInt64.toNat_ofNat']
  omega

/-- Of a number of 32 bits and what is above it, a thousandfold keeps the number alone exactly when the
lower 29 bits above are zero. -/
theorem thousandfold_iff {above n t : ℕ} (hn : n < 2^31)
    (ht : (t : ℤ) = 1000*((above : ℤ)*2^32 + n) % 2^64) : t = 1000*n ↔ above % 2^29 = 0 := by
  have hsplit : 1000*((above : ℤ)*2^32 + n) = ((2^35*(125*above) + 1000*n : ℕ) : ℤ) := by
    push_cast
    ring
  have htime : t = (2^35*(125*above) + 1000*n) % (2^35*2^29) := by
    rw [hsplit] at ht
    exact_mod_cast ht
  have hsmall : 1000*n < 2^35*2^29 := by omega
  calc t = 1000*n ↔ 2^35*(125*above) + 1000*n ≡ 0 + 1000*n [MOD 2^35*2^29] := by
        rw [htime,Nat.ModEq,Nat.zero_add,Nat.mod_eq_of_lt hsmall]
    _ ↔ 2^35*(125*above) ≡ 0 [MOD 2^35*2^29] :=
        ⟨Nat.ModEq.add_right_cancel' _,Nat.ModEq.add_right _⟩
    _ ↔ 2^29 ∣ 125*above := by rw [Nat.modEq_zero_iff_dvd,Nat.mul_dvd_mul_iff_left (by norm_num)]
    _ ↔ 2^29 ∣ above := Nat.Coprime.dvd_mul_left (by norm_num)
    _ ↔ above % 2^29 = 0 := Nat.dvd_iff_mod_eq_zero

/-- The time of an `int` is right exactly when what is above it is lost. -/
theorem timestampOf_int_iff {i : ℤ} {above : UInt32} {n : ℕ} (hn : toInt i = n) :
    (timestampOf (NrObj.int i above).getLong).toNat = 1000*n ↔ above.toNat % 2^29 = 0 := by
  have hlow : i % 2^32 = n ∧ (n : ℤ) < 2^31 := by
    unfold toInt at hn
    rw [Int.bmod_def] at hn
    omega
  have hmod : ((above.toNat : ℤ)*2^32 + n).bmod (2^64) % 2^64 = ((above.toNat : ℤ)*2^32 + n) % 2^64 :=
    Int.bmod_emod
  apply thousandfold_iff (by exact_mod_cast hlow.2)
  rw [NrObj.getLong,toNat_timestampOf,hlow.1,Int.mul_emod,hmod,← Int.mul_emod]

/-- The time is given exactly when it is a number that fits, and nothing is left above it. -/
theorem time_given_iff (h : hasField data key = true) :
    (∃ n : ℕ, givenInteger data key = some (n : ℤ) ∧
      (timestampOf (data.getHashLong key)).toNat = 1000*n) ↔
      data.getHashString key = none ∧
        (∀ i, givenInteger data key = some i → 0 ≤ i ∧ 1000*i < 2^64) ∧
        ∀ i above, data.getHashValue key = some (.int i above) → above.toNat % 2^29 = 0 := by
  unfold NrObj.getHashString NrObj.getHashLong givenInteger
  rcases hasField_cases h with ⟨s,hvalue⟩ | ⟨i,hvalue⟩ | ⟨i,above,hvalue⟩
  · simp [hvalue,NrObj.getString]
  · have htime := toNat_timestampOf i
    simp only [hvalue,Option.bind_some,NrObj.getLong,NrObj.getString,Option.some.injEq,true_and,forall_eq',
      reduceCtorEq,false_implies,implies_true,and_true]
    constructor
    · rintro ⟨n,rfl,hn⟩
      have hlt := (timestampOf (some (n : ℤ))).toNat_lt
      omega
    · rintro ⟨hnonneg,hlt⟩
      obtain ⟨n,rfl⟩ := Int.eq_ofNat_of_zero_le hnonneg
      refine ⟨n,rfl,?_⟩
      omega
  · simp only [hvalue,Option.bind_some,NrObj.getString,Option.some.injEq,NrObj.int.injEq,true_and,
      forall_eq',and_imp]
    have hrange : toInt i < 2^31 := by
      unfold toInt
      rw [Int.bmod_def]
      omega
    constructor
    · rintro ⟨n,hn,htime⟩
      refine ⟨by omega,?_⟩
      rintro i' above' rfl rfl
      exact (timestampOf_int_iff hn).mp htime
    · rintro ⟨⟨hnonneg,-⟩,habove⟩
      obtain ⟨n,hn⟩ := Int.eq_ofNat_of_zero_le hnonneg
      exact ⟨n,hn,(timestampOf_int_iff hn).mpr (habove i above rfl rfl)⟩

end Kinds

/-! ### Accepted payloads -/

variable {fromJson : Bytes → Option NrObj} {payload : Option Bytes} {obj : NrObj}

/-- What has passed the check has every required field. -/
theorem hasField_of_convert (h : convertPayloadToObject fromJson payload = .ok obj) :
    ∀ key ∈ requiredDataFields, hasField (payloadData obj) key = true := by
  unfold convertPayloadToObject at h
  cases htext : payload.filter (· ≠ []) with
  | none =>
    rw [htext] at h
    cases h
  | some text =>
    simp only [htext] at h
    cases hparsed : fromJson text with
    | none =>
      rw [hparsed] at h
      cases h
    | some o =>
      simp only [hparsed] at h
      cases hversion : o.getHashArray "v" with
      | none =>
        rw [hversion] at h
        cases h
      | some version =>
        simp only [hversion] at h
        split_ifs at h with _ _ hall
        obtain rfl := Except.ok.inj h
        exact List.all_eq_true.mp hall

/-- An accepted payload gives the trace its required strings and its time exactly when they are of the
kinds that the acceptance reads. -/
theorem required_iff (hconvert : convertPayloadToObject fromJson payload = .ok obj)
    {dt dt' : NrDistributedTrace} {transportType : Option Bytes}
    (haccept : acceptInboundPayload (some dt) (some obj) transportType = .ok dt') :
    RequiredGiven (payloadData obj) dt' ↔ RequiredKinds (payloadData obj) := by
  have hfield := hasField_of_convert hconvert
  obtain rfl := Except.ok.inj haccept
  have htype := text_given_iff (hfield "ty" (by decide))
  have haccount := text_given_iff (hfield "ac" (by decide))
  have happ := text_given_iff (hfield "ap" (by decide))
  have htrace := text_given_iff (hfield "tr" (by decide))
  have htime := time_given_iff (hfield "ti" (by decide))
  constructor
  · intro h
    obtain ⟨hnotext,hrange,habove⟩ := htime.mp h.timestamp
    refine ⟨?_,hnotext,hrange,habove⟩
    intro key hkey
    simp only [requiredTexts,List.mem_cons,List.not_mem_nil,or_false] at hkey
    rcases hkey with rfl | rfl | rfl | rfl
    · exact htype.mp h.type
    · exact haccount.mp h.account
    · exact happ.mp h.app
    · exact htrace.mp h.trace
  · intro h
    exact ⟨htype.mpr (h.texts "ty" (by decide)),haccount.mpr (h.texts "ac" (by decide)),
      happ.mpr (h.texts "ap" (by decide)),htrace.mpr (h.texts "tr" (by decide)),
      htime.mpr ⟨h.time,h.range,h.above⟩⟩

/-- A payload with this for the time. -/
def timed (time : NrObj) : NrObj :=
  .hash [(ascii "v",.array [.int 0,.int 1]),(ascii "d",.hash [(ascii "ty",.string (ascii "A")),
    (ascii "ac",.string (ascii "1")),(ascii "ap",.string (ascii "2")),(ascii "id",.string (ascii "3")),
    (ascii "tr",.string (ascii "4")),(ascii "ti",time)])]

/-- A time in milliseconds is given, whatever is above an `int`. -/
theorem required_timed : ∃ dt', convertPayloadToObject (NrDistributedTrace.fromJson some 0 0x7fff)
      (some (timed (.long 1482959525577)).toJson) = .ok (timed (.long 1482959525577)) ∧
    acceptInboundPayload (some create) (some (timed (.long 1482959525577))) none = .ok dt' ∧
    RequiredGiven (payloadData (timed (.long 1482959525577))) dt' := by
  have hconvert : convertPayloadToObject (NrDistributedTrace.fromJson some 0 0x7fff)
      (some (timed (.long 1482959525577)).toJson) = .ok (timed (.long 1482959525577)) := by rfl
  have haccept : acceptInboundPayload (some create) (some (timed (.long 1482959525577))) none = .ok _ := rfl
  refine ⟨_,hconvert,haccept,(required_iff hconvert haccept).mpr ⟨by decide,rfl,?_,?_⟩⟩
  · intro i hi
    cases hi
    decide
  · intro i above hi
    cases hi

/-- A text for the time passes the check, and the time becomes one far away. -/
theorem text_for_time : ¬ ∀ (payload : Option Bytes) (obj : NrObj) (dt dt' : NrDistributedTrace)
    (transportType : Option Bytes),
      convertPayloadToObject (NrDistributedTrace.fromJson some 0 0x7fff) payload = .ok obj →
      acceptInboundPayload (some dt) (some obj) transportType = .ok dt' →
      RequiredGiven (payloadData obj) dt' := by
  intro h
  have hconvert : convertPayloadToObject (NrDistributedTrace.fromJson some 0 0x7fff)
      (some (timed (.string (ascii "x"))).toJson) = .ok (timed (.string (ascii "x"))) := by rfl
  obtain ⟨n,hgiven,-⟩ := (h _ _ create _ none hconvert rfl).timestamp
  cases hgiven

end NrDistributedTrace
end PhpAgent

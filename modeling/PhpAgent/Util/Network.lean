import PhpAgent.Lib.Backfill
import PhpAgent.Lib.Pieces
import PhpAgent.Util.Object

/-! How the agent moves messages over the socket to the daemon, after `util_network.c`. Each system call
has an answer from the kernel, which may move fewer bytes than were asked for; a call that has no answer
does not return. -/
namespace PhpAgent.Network

open Flatbuf (littleEndian)
open Pieces

inductive Errno
  | EINTR
  | EAGAIN
  | EWOULDBLOCK
  | EINVAL
  | ETIMEDOUT
  /-- The own number for the end of a stream. -/
  | EEOF
  | other (n : ℕ)
deriving DecidableEq

/-- The answer to a `poll`. -/
inductive PollAnswer
  | ready
  | timeout
  | failed (e : Errno)
deriving DecidableEq

/-- The answers to come to `poll`, and the readings of the clock. -/
structure Waits where
  polls : List PollAnswer
  clock : List ℕ
deriving DecidableEq

/-- `nr_poll` until it says more than that it was interrupted. -/
def pollLoop : List PollAnswer → Returned Errno Unit × List PollAnswer
  | [] => (none,[])
  | .ready :: polls => (some (.ok ()),polls)
  | .timeout :: polls => (some (.error .ETIMEDOUT),polls)
  | .failed e :: polls =>
    if e = .EINTR then pollLoop polls
    else if e = .EAGAIN ∨ e = .EWOULDBLOCK then (some (.ok ()),polls)
    else (some (.error e),polls)

/-- `nr_wait_fd`. -/
def waitFd (deadline : ℕ) (w : Waits) : Returned Errno Unit × Waits :=
  let wait := fun w : Waits =>
    let (rv,polls) := pollLoop w.polls
    (rv,{ w with polls := polls })
  if 0 < deadline then
    match w.clock with
    | [] => (none,w)
    | now :: clock =>
      let w := { w with clock := clock }
      if deadline < now then (some (.error .ETIMEDOUT),w) else wait w
  else wait w

/-- What the loops do about an error of `read` or `write`: again after an interrupt, and after a wait when
the call would block. -/
def onError (deadline : ℕ) (err : Errno) (w : Waits) : Next Errno Waits :=
  if err = .EINTR then .again w
  else if err ≠ .EAGAIN ∧ err ≠ .EWOULDBLOCK then .stop err w
  else
    match waitFd deadline w with
    | (some (.ok ()),w) => .again w
    | (some (.error e),w) => .stop e w
    | (none,w) => .wait w

abbrev Call : Type := Answer Errno

/-- `nr_write_full`. -/
def nrWriteFull (fd : ℤ) (buf : Bytes) (deadline : ℕ) (calls : List Call) (w : Waits) :
    Written UInt8 Errno Waits :=
  if fd < 0 then ⟨[],some (.error .EINVAL),calls,w⟩ else drain (onError deadline) buf calls w

def NR_PREAMBLE_FORMAT : ℕ := 2
def NR_PROCOTOL_PREAMBLE_LENGTH : ℕ := 8
def NR_PROTOCOL_CMDLEN_MAX_BYTES : ℕ := 32*1024*1024

/-- `nr_protocol_write_preamble` to a fresh buffer. -/
def protocolWritePreamble (datalen : ℕ) : Bytes := lowBytes 4 datalen ++ lowBytes 4 NR_PREAMBLE_FORMAT

/-- `nr_write_message`. -/
def nrWriteMessage (fd : ℤ) (buf : Bytes) (deadline : ℕ) (calls : List Call) (w : Waits) :
    Written UInt8 Errno Waits :=
  if fd < 0 then ⟨[],some (.error .EINVAL),calls,w⟩
  else if NR_PROTOCOL_CMDLEN_MAX_BYTES < buf.length then ⟨[],some (.error .EINVAL),calls,w⟩
  else
    let header := nrWriteFull fd (protocolWritePreamble buf.length) deadline calls w
    if header.status = some (.ok ()) then
      let r := nrWriteFull fd buf deadline header.answers header.state
      { r with sent := header.sent ++ r.sent }
    else header

/-- `nrn_read`, with `nrn_read_internal`. -/
def nrnRead (fd nbytes : ℤ) (deadline : ℕ) (incoming : Bytes) (calls : List Call) (w : Waits) :
    Taken UInt8 Errno Waits Bytes :=
  if nbytes ≤ 0 then ⟨some (.error .EINVAL),incoming,calls,w⟩
  else if fd ≤ 0 then ⟨some (.error .EINVAL),incoming,calls,w⟩
  else fill (onError deadline) (fun _ => .EEOF) [] nbytes.toNat incoming calls w

/-- `nr_buffer_read_uint32_t_le`. -/
def readUint32Le (buf : Bytes) : Option (ℕ × Bytes) :=
  if buf.length < 4 then none else some (littleEndian (buf.take 4),buf.drop 4)

/-- `nr_protocol_parse_preamble`. -/
def protocolParsePreamble (buf : Bytes) : Option ℕ := do
  let (length,buf) ← readUint32Le buf
  let (format,_) ← readUint32Le buf
  if NR_PREAMBLE_FORMAT ≠ format then none
  else if NR_PROTOCOL_CMDLEN_MAX_BYTES < length then none
  else some length

/-- `nr_network_receive`. A preamble that is not one is no error of a system call. -/
def nrNetworkReceive (fd : ℤ) (deadline : ℕ) (incoming : Bytes) (calls : List Call) (w : Waits) :
    Taken UInt8 Errno Waits (Option Bytes) :=
  let preamble := nrnRead fd NR_PROCOTOL_PREAMBLE_LENGTH deadline incoming calls w
  match preamble.value with
  | none => ⟨none,preamble.rest,preamble.answers,preamble.state⟩
  | some (.error e) => ⟨some (.error e),preamble.rest,preamble.answers,preamble.state⟩
  | some (.ok bytes) =>
    match protocolParsePreamble bytes with
    | none => ⟨some (.ok none),preamble.rest,preamble.answers,preamble.state⟩
    | some len =>
      let msg := nrnRead fd len deadline preamble.rest preamble.answers preamble.state
      ⟨msg.value.map (Except.map some),msg.rest,msg.answers,msg.state⟩

/-! ### What is written -/

/-- A message as it goes over the socket. -/
def frame (buf : Bytes) : Bytes := protocolWritePreamble buf.length ++ buf

section Writing

lemma sends_nrWriteFull {fd : ℤ} (hfd : 0 ≤ fd) (deadline : ℕ) (p : Bytes) (calls : List Call)
    (w : Waits) : Sends p (nrWriteFull fd p deadline calls w) := by
  rw [nrWriteFull,if_neg (by omega)]
  exact sends_drain (onError deadline) p calls w

/-- However the kernel cuts it, what goes over the socket for a message is the start of its frame, and the
whole frame if and only if `nr_write_message` succeeds. -/
theorem sends_nrWriteMessage {fd : ℤ} (hfd : 0 ≤ fd) {buf : Bytes}
    (hlen : buf.length ≤ NR_PROTOCOL_CMDLEN_MAX_BYTES) (deadline : ℕ) (calls : List Call) (w : Waits) :
    Sends (frame buf) (nrWriteMessage fd buf deadline calls w) := by
  rw [nrWriteMessage,if_neg (by omega),if_neg (by omega)]
  have hheader := sends_nrWriteFull hfd deadline (protocolWritePreamble buf.length) calls w
  dsimp only
  split
  · exact hheader.append (sends_nrWriteFull hfd deadline buf _ _) ‹_›
  · exact hheader.short ‹_›

lemma nrWriteMessage_refused {fd : ℤ} {buf : Bytes}
    (h : fd < 0 ∨ NR_PROTOCOL_CMDLEN_MAX_BYTES < buf.length) (deadline : ℕ) (calls : List Call) (w : Waits) :
    nrWriteMessage fd buf deadline calls w = ⟨[],some (.error .EINVAL),calls,w⟩ := by
  unfold nrWriteMessage
  by_cases hfd : fd < 0
  · rw [if_pos hfd]
  · rw [if_neg hfd,if_pos (h.resolve_left hfd)]

end Writing

/-! ### What is read -/

section Reading
variable {deadline : ℕ} {incoming : Bytes} {calls : List Call} {w : Waits}

lemma takes_nrnRead {fd : ℤ} (hfd : 0 < fd) {n : ℕ} (hn : 0 < n) (deadline : ℕ) (incoming : Bytes)
    (calls : List Call) (w : Waits) : Takes [] n incoming (nrnRead fd n deadline incoming calls w) := by
  rw [nrnRead,if_neg (by omega),if_neg (by omega)]
  exact takes_fill _ _ [] n incoming calls w

lemma length_protocolWritePreamble (n : ℕ) : (protocolWritePreamble n).length = 8 := by
  rw [protocolWritePreamble,List.length_append,length_lowBytes,length_lowBytes]

/-- A preamble is parsed as a length if and only if it is the one that is written for the length. -/
theorem parsePreamble_eq_some {bytes : Bytes} (hlen : bytes.length = 8) {n : ℕ} :
    protocolParsePreamble bytes = some n ↔
      bytes = protocolWritePreamble n ∧ n ≤ NR_PROTOCOL_CMDLEN_MAX_BYTES := by
  obtain ⟨l,f,rfl,hl,hf⟩ : ∃ l f, bytes = l ++ f ∧ l.length = 4 ∧ f.length = 4 :=
    ⟨bytes.take 4,bytes.drop 4,(List.take_append_drop 4 bytes).symm,by simp [hlen],by simp [hlen]⟩
  have hread : protocolParsePreamble (l ++ f) =
      if NR_PREAMBLE_FORMAT ≠ littleEndian f then none
      else if NR_PROTOCOL_CMDLEN_MAX_BYTES < littleEndian l then none else some (littleEndian l) := by
    have hl4 : (l ++ f).take 4 = l := by rw [← hl,List.take_left]
    have hf4 : (l ++ f).drop 4 = f := by rw [← hl,List.drop_left]
    simp [protocolParsePreamble,readUint32Le,hlen,hl4,hf4,hf,List.take_of_length_le hf.le]
  have hlow : lowBytes 4 (littleEndian l) = l := by rw [← hl,lowBytes_littleEndian]
  have hformat : lowBytes 4 (littleEndian f) = f := by rw [← hf,lowBytes_littleEndian]
  rw [hread]
  constructor
  · intro h
    split at h
    · cases h
    · split at h
      · cases h
      · cases h
        have hfeq : NR_PREAMBLE_FORMAT = littleEndian f := by simpa using ‹¬ NR_PREAMBLE_FORMAT ≠ _›
        refine ⟨?_,by omega⟩
        rw [protocolWritePreamble,hlow,hfeq,hformat]
  · rintro ⟨heq,hle⟩
    obtain ⟨rfl,rfl⟩ := List.append_inj heq (by rw [hl,length_lowBytes])
    have hn : littleEndian (lowBytes 4 n) = n := by
      rw [littleEndian_lowBytes,Nat.mod_eq_of_lt]
      exact lt_of_le_of_lt hle (by decide)
    have hformat2 : littleEndian (lowBytes 4 NR_PREAMBLE_FORMAT) = NR_PREAMBLE_FORMAT := by decide
    rw [hn,hformat2,if_neg (by simp),if_neg (by omega)]

lemma value_of_map_some {v : Returned Errno Bytes} {b : Bytes}
    (h : v.map (Except.map some) = some (.ok (some b))) : v = some (.ok b) := by
  match v with
  | none => cases h
  | some (.error e) => cases h
  | some (.ok c) => cases h; rfl

/-- What `nr_network_receive` returns as a message was the frame of it at the head of the stream. -/
theorem receive_sound {fd : ℤ} (hfd : 0 < fd) {b : Bytes}
    (h : (nrNetworkReceive fd deadline incoming calls w).value = some (.ok (some b))) :
    b ≠ [] ∧ b.length ≤ NR_PROTOCOL_CMDLEN_MAX_BYTES ∧
      incoming = frame b ++ (nrNetworkReceive fd deadline incoming calls w).rest := by
  have hpreamble := takes_nrnRead hfd (n := 8) (by omega) deadline incoming calls w
  unfold nrNetworkReceive at h ⊢
  have hcast : (NR_PROCOTOL_PREAMBLE_LENGTH : ℤ) = ((8 : ℕ) : ℤ) := rfl
  rw [hcast] at h ⊢
  generalize nrnRead fd (8 : ℕ) deadline incoming calls w = r at hpreamble h ⊢
  match hr : r.value with
  | none => simp [hr] at h
  | some (.error e) => simp [hr] at h
  | some (.ok bytes) =>
    obtain ⟨hlen,hbytes,hrest⟩ := hpreamble bytes hr
    rw [List.nil_append] at hbytes
    have hlength : bytes.length = 8 := by rw [hbytes,List.length_take,Nat.min_eq_left hlen]
    simp only [hr] at h ⊢
    cases hparse : protocolParsePreamble bytes with
    | none => simp [hparse] at h
    | some n =>
      obtain ⟨hwritten,hle⟩ := (parsePreamble_eq_some hlength).mp hparse
      simp only [hparse] at h ⊢
      have hpos : 0 < n := by
        by_contra hzero
        rw [nrnRead,if_pos (by omega)] at h
        cases h
      have hmsg := takes_nrnRead hfd hpos deadline r.rest r.answers r.state
      generalize nrnRead fd n deadline r.rest r.answers r.state = r' at hmsg h ⊢
      obtain ⟨hin,hb,hleft⟩ := hmsg b (value_of_map_some h)
      have hbn : b.length = n := by rw [hb,List.nil_append,List.length_take,Nat.min_eq_left hin]
      refine ⟨List.ne_nil_of_length_pos (by omega),by omega,?_⟩
      rw [frame,hbn,← hwritten,hb,List.nil_append,hleft,List.append_assoc,List.take_append_drop,hrest,
        hbytes,List.take_append_drop]

lemma frame_split (b tail : Bytes) : (frame b ++ tail).take 8 = protocolWritePreamble b.length ∧
    (frame b ++ tail).drop 8 = b ++ tail := by
  have h8 := length_protocolWritePreamble b.length
  rw [frame,List.append_assoc]
  exact ⟨by rw [← h8,List.take_left],by rw [← h8,List.drop_left]⟩

/-- When no call fails, the message at the head of the stream is returned. -/
theorem receive_frame {fd : ℤ} (hfd : 0 < fd) {b : Bytes} (hne : b ≠ [])
    (hle : b.length ≤ NR_PROTOCOL_CMDLEN_MAX_BYTES) (hmoving : Moving calls)
    (hcalls : 8 + b.length ≤ calls.length) (tail : Bytes) :
    (nrNetworkReceive fd deadline (frame b ++ tail) calls w).value = some (.ok (some b)) := by
  obtain ⟨htake,hdrop⟩ := frame_split b tail
  have hpos : 0 < b.length := List.length_pos_iff.mpr hne
  have hlength : 8 ≤ (frame b ++ tail).length := by
    rw [frame,List.length_append,List.length_append,length_protocolWritePreamble]
    omega
  have hpreamble := fill_moving (onError deadline) (fun _ => .EEOF) [] 8 (frame b ++ tail) calls w hmoving hlength (by omega)
  have htaken := takes_fill (onError deadline) (fun _ => .EEOF) [] 8 (frame b ++ tail) calls w
  have hread : nrnRead fd NR_PROCOTOL_PREAMBLE_LENGTH deadline (frame b ++ tail) calls w =
      fill (onError deadline) (fun _ => .EEOF) [] 8 (frame b ++ tail) calls w := by
    rw [nrnRead,if_neg (by decide),if_neg (by omega)]
    rfl
  unfold nrNetworkReceive
  rw [hread]
  generalize fill (onError deadline) (fun _ => .EEOF) [] 8 (frame b ++ tail) calls w = r at hpreamble htaken ⊢
  obtain ⟨hvalue,hmoving',hcount⟩ := hpreamble
  obtain ⟨-,-,hrest⟩ := htaken _ hvalue
  rw [List.nil_append,htake] at hvalue
  have hparse := (parsePreamble_eq_some (length_protocolWritePreamble b.length)).mpr ⟨rfl,hle⟩
  simp only [hvalue,hparse]
  have hmsg := fill_moving (onError deadline) (fun _ => .EEOF) [] b.length (b ++ tail) r.answers r.state hmoving' (by simp) (by omega)
  rw [nrnRead,if_neg (by omega),if_neg (by omega),hrest,hdrop,Int.toNat_natCast,hmsg.1,List.nil_append,
    List.take_left]
  rfl

end Reading

/-! ### A connection -/

/-- Messages sent one after the other. After one that fails the connection is closed. What has gone over
the socket, and the messages that were sent. -/
def sendAll (fd : ℤ) : List (Bytes × ℕ) → List Call → Waits → Bytes × List Bytes
  | [],_,_ => ([],[])
  | (msg,deadline) :: msgs,calls,w =>
    let r := nrWriteMessage fd msg deadline calls w
    if r.status = some (.ok ()) then
      let (stream,sent) := sendAll fd msgs r.answers r.state
      (r.sent ++ stream,msg :: sent)
    else (r.sent,[])

/-- The frames of messages, and then the start of one more at most. -/
structure Streams (msgs : List Bytes) (stream : Bytes) : Prop where
  fits : ∀ msg ∈ msgs, msg.length ≤ NR_PROTOCOL_CMDLEN_MAX_BYTES
  frames : ∃ tail, stream = msgs.flatMap frame ++ tail ∧
    (tail = [] ∨ ∃ msg, msg.length ≤ NR_PROTOCOL_CMDLEN_MAX_BYTES ∧ tail <+: frame msg ∧ tail ≠ frame msg)

lemma streams_of_failed {fd : ℤ} {msg : Bytes} {deadline : ℕ} {calls : List Call} {w : Waits}
    (h : (nrWriteMessage fd msg deadline calls w).status ≠ some (.ok ())) :
    Streams [] (nrWriteMessage fd msg deadline calls w).sent := by
  refine ⟨fun _ hmem => (List.not_mem_nil hmem).elim,_,rfl,?_⟩
  by_cases hbad : fd < 0 ∨ NR_PROTOCOL_CMDLEN_MAX_BYTES < msg.length
  · rw [nrWriteMessage_refused hbad]
    exact .inl rfl
  · have hok := sends_nrWriteMessage (show 0 ≤ fd by omega)
        (show msg.length ≤ NR_PROTOCOL_CMDLEN_MAX_BYTES by omega) deadline calls w
    exact .inr ⟨msg,by omega,hok.sent,fun heq => h (hok.all.mpr heq)⟩

lemma streams_sendAll (fd : ℤ) (msgs : List (Bytes × ℕ)) (calls : List Call) (w : Waits) :
    Streams (sendAll fd msgs calls w).2 (sendAll fd msgs calls w).1 := by
  induction msgs generalizing calls w with
  | nil => exact ⟨fun _ hmem => (List.not_mem_nil hmem).elim,[],rfl,.inl rfl⟩
  | cons m msgs ih =>
    obtain ⟨msg,deadline⟩ := m
    rw [sendAll]
    dsimp only
    split
    · have hstatus := ‹(nrWriteMessage fd msg deadline calls w).status = some (.ok ())›
      have hgood : ¬ (fd < 0 ∨ NR_PROTOCOL_CMDLEN_MAX_BYTES < msg.length) := by
        intro hbad
        rw [nrWriteMessage_refused hbad] at hstatus
        cases hstatus
      have hok := sends_nrWriteMessage (show 0 ≤ fd by omega)
        (show msg.length ≤ NR_PROTOCOL_CMDLEN_MAX_BYTES by omega) deadline calls w
      obtain ⟨hfits,tail,hstream,htail⟩ := ih (nrWriteMessage fd msg deadline calls w).answers
        (nrWriteMessage fd msg deadline calls w).state
      refine ⟨List.forall_mem_cons.mpr ⟨by omega,hfits⟩,tail,?_,htail⟩
      rw [hok.all.mp hstatus,hstream,List.flatMap_cons,List.append_assoc]
    · exact streams_of_failed ‹_›

lemma sendAll_initial (fd : ℤ) (msgs : List (Bytes × ℕ)) (calls : List Call) (w : Waits) :
    (sendAll fd msgs calls w).2 <+: msgs.map Prod.fst := by
  induction msgs generalizing calls w with
  | nil => exact List.prefix_rfl
  | cons m msgs ih =>
    obtain ⟨msg,deadline⟩ := m
    rw [sendAll]
    dsimp only
    split
    · exact List.cons_prefix_cons.mpr ⟨rfl,ih _ _⟩
    · exact List.nil_prefix

end PhpAgent.Network

import PhpAgent.Daemon.Commands
import PhpAgent.Util.Network

/-! The daemon's end of a connection, after `listener.go`. -/
namespace PhpAgent.Listener

open Flatbuf (littleEndian)
open Pieces

def maxMessageSize : ℕ := 3 <<< 20
def msgHeaderSize : ℕ := 8

/-- A `MessageType`, which is a `uint32`. -/
abbrev MessageType : Type := ℕ

def MessageTypeRaw : MessageType := 0
def MessageTypeJSON : MessageType := 1
def MessageTypeBinary : MessageType := 2

structure RawMessage where
  type : MessageType
  bytes : Bytes
deriving DecidableEq

/-- The errors of a connection, and of `io.ReadFull`. -/
inductive ReadError
  | eof
  | unexpectedEOF
  | other (text : String)
deriving DecidableEq

abbrev Call : Type := Answer ReadError

/-- `io.ReadFull`: an error ends it, and is `io.EOF` only when there was nothing to read. -/
def readFull (n : ℕ) (incoming : Bytes) (calls : List Call) : Taken UInt8 ReadError Unit Bytes :=
  fill (fun e s => .stop e s) (fun buf => if buf.isEmpty then .eof else .unexpectedEOF) [] n incoming calls ()

section ReadFull
variable (n : ℕ) (incoming : Bytes) (calls : List Call)

lemma takes_readFull : Takes [] n incoming (readFull n incoming calls) :=
  takes_fill _ _ [] n incoming calls ()

lemma readFull_answers_le : (readFull n incoming calls).answers.length ≤ calls.length :=
  fill_answers_le _ _ [] n incoming calls ()

lemma readFull_answers_lt {n : ℕ} (hn : 0 < n) (h : (readFull n incoming calls).value ≠ none) :
    (readFull n incoming calls).answers.length < calls.length := fill_answers_lt _ _ hn h

lemma readFull_moving (hmoving : Moving calls) (hlen : n ≤ incoming.length) (hcalls : n ≤ calls.length) :
    (readFull n incoming calls).value = some (.ok (incoming.take n)) ∧
      Moving (readFull n incoming calls).answers ∧
      calls.length ≤ (readFull n incoming calls).answers.length + n :=
  fill_moving _ _ [] n incoming calls () hmoving hlen hcalls

end ReadFull

/-- The errors of `ReadMessage`. -/
inductive MessageError
  | eof
  | header (e : ReadError)
  | legacyAgent
  | tooLarge (dataSize : ℕ)
  | body (e : ReadError)
deriving DecidableEq

def isLegacyAgent : Bytes → Bool
  | p0 :: p1 :: p2 :: p3 :: p4 :: p5 :: _ =>
    if p0 < 48 || p0 > 57 then false
    else if p1 ≠ 32 then false
    else if p2 < 48 || p2 > 57 then false
    else if p3 ≠ 32 then false
    else if p4 ≠ 48 then false
    else if p5 ≠ 10 then false
    else true
  | _ => false

/-- What a header says: the size and the type of a message. -/
def readHeader (header : Bytes) : Except MessageError (ℕ × MessageType) :=
  if isLegacyAgent header then .error .legacyAgent
  else
    let msgType := littleEndian ((header.drop 4).take 4)
    let dataSize := littleEndian (header.take 4)
    if dataSize > maxMessageSize then .error (.tooLarge dataSize) else .ok (dataSize,msgType)

/-- What `ReadMessage` returns, and what is left of the stream and of the answers. -/
structure Received where
  value : Returned MessageError RawMessage
  rest : Bytes
  calls : List Call

/-- `ReadMessage`. -/
def readMessage (incoming : Bytes) (calls : List Call) : Received :=
  let header := readFull msgHeaderSize incoming calls
  match header.value with
  | none => ⟨none,header.rest,header.answers⟩
  | some (.error e) => ⟨some (.error (if e = .eof then .eof else .header e)),header.rest,header.answers⟩
  | some (.ok bytes) =>
    match readHeader bytes with
    | .error e => ⟨some (.error e),header.rest,header.answers⟩
    | .ok (dataSize,msgType) =>
      let msg := readFull dataSize header.rest header.answers
      match msg.value with
      | none => ⟨none,msg.rest,msg.answers⟩
      | some (.error e) => ⟨some (.error (.body e)),msg.rest,msg.answers⟩
      | some (.ok bytes) => ⟨some (.ok ⟨msgType,bytes⟩),msg.rest,msg.answers⟩

/-- The answer to a `Write` of the connection, which moves everything or ends with an error. -/
inductive WriteAnswer
  | written
  | failed (n : ℕ)
deriving DecidableEq

/-- The bytes moved, whether all went well, and the answers left. -/
structure Moved where
  sent : Bytes
  ok : Bool
  writes : List WriteAnswer
deriving DecidableEq

def writeBytes (p : Bytes) : List WriteAnswer → Moved
  | [] => ⟨[],false,[]⟩
  | .written :: writes => ⟨p,true,writes⟩
  | .failed n :: writes => ⟨p.take n,false,writes⟩

/-- The header of `MessageWriter.writeHeader`. -/
def writeHeader (type : MessageType) (length : ℕ) : Bytes := lowBytes 4 length ++ lowBytes 4 type

/-- `MessageWriter.Write`. -/
def writeMessage (type : MessageType) (p : Bytes) (writes : List WriteAnswer) : Moved :=
  let header := writeBytes (writeHeader type p.length) writes
  if header.ok && !p.isEmpty then
    let body := writeBytes p header.writes
    { body with sent := header.sent ++ body.sent }
  else header

/-- What a connection has done: its handler, the messages it has handled, and what it has sent. -/
structure Served (σ : Type) where
  handler : σ
  handled : List RawMessage
  sent : Bytes

/-- What an old agent is sent. -/
def legacyReply : Bytes := [53,32,48,32,48,10,0,0,0,0]

/-- What `ReadMessage` took for a message is the header and the bytes at the head of the stream. -/
theorem readMessage_ok {incoming : Bytes} {calls : List Call} {msg : RawMessage}
    (h : (readMessage incoming calls).value = some (.ok msg)) :
    8 ≤ incoming.length ∧ ∃ size, readHeader (incoming.take 8) = .ok (size,msg.type) ∧
      size ≤ (incoming.drop 8).length ∧ msg.bytes = (incoming.drop 8).take size ∧
      (readMessage incoming calls).rest = (incoming.drop 8).drop size ∧
      (readMessage incoming calls).calls.length < calls.length := by
  have hheader := takes_readFull msgHeaderSize incoming calls
  have hused := readFull_answers_lt incoming calls (show 0 < msgHeaderSize by decide)
  unfold readMessage at h ⊢
  generalize readFull msgHeaderSize incoming calls = r at hheader hused h ⊢
  match hr : r.value with
  | none => simp [hr] at h
  | some (.error e) => simp [hr] at h
  | some (.ok bytes) =>
    obtain ⟨hlen,hbytes,hrest⟩ := hheader bytes hr
    have hlt := hused (by rw [hr]; simp)
    rw [List.nil_append] at hbytes
    simp only [hr] at h ⊢
    match hread : readHeader bytes with
    | .error e => simp [hread] at h
    | .ok (size,type) =>
      have hbody := takes_readFull size r.rest r.answers
      have hle := readFull_answers_le size r.rest r.answers
      simp only [hread] at h ⊢
      generalize readFull size r.rest r.answers = r' at hbody hle h ⊢
      match hr' : r'.value with
      | none => simp [hr'] at h
      | some (.error e) => simp [hr'] at h
      | some (.ok body) =>
        simp only [hr'] at h ⊢
        cases h
        obtain ⟨hsize,hbody,hleft⟩ := hbody body hr'
        rw [hrest] at hsize hbody hleft
        rw [hbytes] at hread
        exact ⟨hlen,size,hread,hsize,hbody,hleft,by omega⟩

lemma readMessage_calls_lt {incoming : Bytes} {calls : List Call} {msg : RawMessage}
    (h : (readMessage incoming calls).value = some (.ok msg)) :
    (readMessage incoming calls).calls.length < calls.length := by
  obtain ⟨-,_,-,-,-,-,hlt⟩ := readMessage_ok h
  exact hlt

/-- `Serve`. The handler has a state and may reply; when it panics, the connection is closed. -/
def serve {σ : Type} (handle : σ → RawMessage → Option (σ × Option Bytes)) (s : σ) (incoming : Bytes)
    (calls : List Call) (writes : List WriteAnswer) : Served σ :=
  match h : (readMessage incoming calls).value with
  | none => ⟨s,[],[]⟩
  | some (.error e) => ⟨s,[],if e = .legacyAgent then (writeBytes legacyReply writes).sent else []⟩
  | some (.ok msg) =>
    have := readMessage_calls_lt h
    match handle s msg with
    | none => ⟨s,[msg],[]⟩
    | some (s',none) =>
      let t := serve handle s' (readMessage incoming calls).rest (readMessage incoming calls).calls writes
      { t with handled := msg :: t.handled }
    | some (s',some reply) =>
      let w := writeMessage msg.type reply writes
      if w.ok then
        let t := serve handle s' (readMessage incoming calls).rest (readMessage incoming calls).calls w.writes
        { t with handled := msg :: t.handled, sent := w.sent ++ t.sent }
      else ⟨s',[msg],w.sent⟩
termination_by calls.length

/-! ### What a stream says -/

/-- The messages of a stream, up to a header that is refused or a message that is not all there, and
whether it is the header of an old agent. -/
def scan (stream : Bytes) : List RawMessage × Bool :=
  if stream.length < msgHeaderSize then ([],false)
  else
    match readHeader (stream.take msgHeaderSize) with
    | .error e => ([],e == .legacyAgent)
    | .ok (size,type) =>
      let rest := stream.drop msgHeaderSize
      if rest.length < size then ([],false)
      else
        let (msgs,legacy) := scan (rest.drop size)
        (⟨type,rest.take size⟩ :: msgs,legacy)
termination_by stream.length
decreasing_by
  have h8 : msgHeaderSize = 8 := rfl
  simp only [List.length_drop]
  omega

/-- What the handler has been told replies to, when the connection writes everything. -/
def replies {σ : Type} (handle : σ → RawMessage → Option (σ × Option Bytes)) : σ → List RawMessage → Bytes
  | _,[] => []
  | s,msg :: msgs =>
    match handle s msg with
    | none => []
    | some (s',none) => replies handle s' msgs
    | some (s',some reply) => writeHeader msg.type reply.length ++ reply ++ replies handle s' msgs

section Serving
variable {σ : Type} {handle : σ → RawMessage → Option (σ × Option Bytes)} {s : σ} {incoming : Bytes}
  {calls : List Call} {writes : List WriteAnswer} {msg : RawMessage}

lemma scan_cons {stream : Bytes} {size : ℕ} (hlen : 8 ≤ stream.length)
    (hread : readHeader (stream.take 8) = .ok (size,msg.type)) (hsize : size ≤ (stream.drop 8).length)
    (hbytes : msg.bytes = (stream.drop 8).take size) :
    scan stream =
      (msg :: (scan ((stream.drop 8).drop size)).1,(scan ((stream.drop 8).drop size)).2) := by
  have h8 : msgHeaderSize = 8 := rfl
  obtain ⟨type,bytes⟩ := msg
  subst hbytes
  rw [scan,if_neg (by omega)]
  simp only [h8,hread,if_neg (show ¬ (stream.drop 8).length < size by omega)]

/-- A message that is read is the first one of the stream. -/
theorem scan_of_ok (h : (readMessage incoming calls).value = some (.ok msg)) :
    scan incoming = (msg :: (scan (readMessage incoming calls).rest).1,
      (scan (readMessage incoming calls).rest).2) := by
  obtain ⟨hlen,size,hread,hsize,hbytes,hrest,-⟩ := readMessage_ok h
  rw [scan_cons hlen hread hsize hbytes,hrest]

lemma scan_of_legacy (h : (readMessage incoming calls).value = some (.error .legacyAgent)) :
    scan incoming = ([],true) := by
  have hheader := takes_readFull msgHeaderSize incoming calls
  unfold readMessage at h
  generalize readFull msgHeaderSize incoming calls = r at hheader h
  match hr : r.value with
  | none => simp [hr] at h
  | some (.error e) =>
    simp only [hr] at h
    split at h <;> cases h
  | some (.ok bytes) =>
    obtain ⟨hlen,hbytes,-⟩ := hheader bytes hr
    rw [List.nil_append] at hbytes
    simp only [hr] at h
    match hread : readHeader bytes with
    | .error e =>
      simp only [hread] at h
      cases h
      rw [scan,if_neg (by omega),← hbytes]
      simp [hread]
    | .ok (size,type) =>
      simp only [hread] at h
      split at h <;> cases h

lemma writeBytes_sent (p : Bytes) (writes : List WriteAnswer) :
    (writeBytes p writes).sent <+: p ∧ ((writeBytes p writes).ok = true → (writeBytes p writes).sent = p) := by
  cases writes with
  | nil => exact ⟨List.nil_prefix,fun h => by cases h⟩
  | cons w writes =>
    cases w with
    | written => exact ⟨List.prefix_rfl,fun _ => rfl⟩
    | failed n => exact ⟨List.take_prefix n p,fun h => by cases h⟩

lemma writeMessage_sent (type : MessageType) (p : Bytes) (writes : List WriteAnswer) :
    (writeMessage type p writes).sent <+: writeHeader type p.length ++ p ∧
      ((writeMessage type p writes).ok = true →
        (writeMessage type p writes).sent = writeHeader type p.length ++ p) := by
  obtain ⟨hheader,hall⟩ := writeBytes_sent (writeHeader type p.length) writes
  unfold writeMessage
  dsimp only
  split
  · obtain ⟨hok,-⟩ : _ ∧ p ≠ [] := by simpa using ‹(_ && !p.isEmpty) = true›
    obtain ⟨hbody,hbodyAll⟩ := writeBytes_sent p (writeBytes (writeHeader type p.length) writes).writes
    dsimp only
    rw [hall hok]
    exact ⟨(List.prefix_append_right_inj _).mpr hbody,fun h => by rw [hbodyAll h]⟩
  · refine ⟨hheader.trans (List.prefix_append _ p),fun hok => ?_⟩
    have hnil : (writeBytes (writeHeader type p.length) writes).ok = true → p = [] := by
      simpa using ‹¬ (_ && !p.isEmpty) = true›
    rw [hall hok,hnil hok,List.append_nil]

/-- Whatever the reads and writes do, the messages handled are the first ones of the stream, each of them
whole, and what is sent is the start of the replies to them. -/
theorem serve_sound (handle : σ → RawMessage → Option (σ × Option Bytes)) (s : σ) (incoming : Bytes)
    (calls : List Call) (writes : List WriteAnswer) :
    (serve handle s incoming calls writes).handled <+: (scan incoming).1 ∧
      (serve handle s incoming calls writes).sent <+:
        replies handle s (scan incoming).1 ++ if (scan incoming).2 then legacyReply else [] := by
  fun_induction serve handle s incoming calls writes with
  | case1 => exact ⟨List.nil_prefix,List.nil_prefix⟩
  | case2 s incoming calls writes e h =>
    refine ⟨List.nil_prefix,?_⟩
    dsimp only
    split
    · obtain rfl : e = .legacyAgent := ‹_›
      rw [scan_of_legacy h]
      exact (writeBytes_sent legacyReply writes).1
    · exact List.nil_prefix
  | case3 s incoming calls writes msg h hlt hp =>
    rw [scan_of_ok h]
    exact ⟨by simp,List.nil_prefix⟩
  | case4 s incoming calls writes msg h hlt s' hp t ih =>
    obtain ⟨hhandled,hsent⟩ := ih
    rw [scan_of_ok h,replies,hp]
    exact ⟨List.cons_prefix_cons.mpr ⟨rfl,hhandled⟩,hsent⟩
  | case5 s incoming calls writes msg h hlt s' reply hp w hok t ih =>
    obtain ⟨hhandled,hsent⟩ := ih
    rw [scan_of_ok h,replies,hp]
    refine ⟨List.cons_prefix_cons.mpr ⟨rfl,hhandled⟩,?_⟩
    dsimp only
    rw [(writeMessage_sent msg.type reply writes).2 hok]
    generalize writeHeader msg.type reply.length ++ reply = frame
    rw [List.append_assoc frame]
    exact (List.prefix_append_right_inj frame).mpr hsent
  | case6 s incoming calls writes msg h hlt s' reply hp w hok =>
    rw [scan_of_ok h,replies,hp]
    refine ⟨by simp,?_⟩
    have hwritten := (writeMessage_sent msg.type reply writes).1
    dsimp only
    generalize writeHeader msg.type reply.length ++ reply = frame at hwritten ⊢
    rw [List.append_assoc frame]
    exact hwritten.trans (List.prefix_append frame _)

/-- When no read fails, a message that is there is read. -/
theorem readMessage_moving (hmoving : Moving calls) (hcalls : incoming.length ≤ calls.length)
    (h : (scan incoming).1 ≠ []) : ∃ msg, (readMessage incoming calls).value = some (.ok msg) ∧
      Moving (readMessage incoming calls).calls ∧
      (readMessage incoming calls).rest.length ≤ (readMessage incoming calls).calls.length := by
  have h8 : msgHeaderSize = 8 := rfl
  rw [scan] at h
  split at h
  · exact absurd rfl h
  · have hlen : msgHeaderSize ≤ incoming.length := by omega
    obtain ⟨hvalue,hmoving',hcount⟩ := readFull_moving msgHeaderSize incoming calls hmoving hlen (by omega)
    obtain ⟨-,-,hrest⟩ := takes_readFull msgHeaderSize incoming calls _ hvalue
    match hread : readHeader (incoming.take msgHeaderSize) with
    | .error e => simp [hread] at h
    | .ok (size,type) =>
      simp only [hread] at h
      split at h
      · exact absurd rfl h
      · unfold readMessage
        simp only [hvalue,hread]
        generalize readFull msgHeaderSize incoming calls = r at hmoving' hcount hrest ⊢
        have hsize : size ≤ r.rest.length := by
          rw [hrest]
          omega
        have hrestLength : r.rest.length = incoming.length - 8 := by rw [hrest,List.length_drop,h8]
        obtain ⟨hbody,hmoving'',hcount'⟩ :=
          readFull_moving size r.rest r.answers hmoving' hsize (by omega)
        obtain ⟨-,-,hleft⟩ := takes_readFull size r.rest r.answers _ hbody
        simp only [hbody]
        refine ⟨_,rfl,hmoving'',?_⟩
        rw [hleft,List.length_drop]
        omega

lemma writeMessage_written {writes : List WriteAnswer} (hall : ∀ a ∈ writes, a = .written)
    (hlen : 2 ≤ writes.length) (type : MessageType) (p : Bytes) :
    (writeMessage type p writes).ok = true ∧
      (∀ a ∈ (writeMessage type p writes).writes, a = .written) ∧
      writes.length ≤ (writeMessage type p writes).writes.length + 2 := by
  match writes,hall,hlen with
  | a :: b :: rest,hall,_ =>
    obtain rfl : a = .written := hall a List.mem_cons_self
    obtain rfl : b = .written := hall b (List.mem_cons_of_mem _ List.mem_cons_self)
    have hrest : ∀ a ∈ rest, a = WriteAnswer.written := fun a ha =>
      hall a (List.mem_cons_of_mem _ (List.mem_cons_of_mem _ ha))
    unfold writeMessage
    cases p with
    | nil => exact ⟨rfl,List.forall_mem_cons.mpr ⟨rfl,hrest⟩,by simp [writeBytes]⟩
    | cons c p => exact ⟨rfl,hrest,by simp [writeBytes]⟩

/-- When no read and no write fails and the handler never panics, every message is handled and every reply
is sent. -/
theorem serve_complete (handle : σ → RawMessage → Option (σ × Option Bytes)) (s : σ) (incoming : Bytes)
    (calls : List Call) (writes : List WriteAnswer) (hmoving : Moving calls)
    (hcalls : incoming.length ≤ calls.length) (hnever : ∀ s msg, handle s msg ≠ none)
    (hwrites : ∀ a ∈ writes, a = .written) (hcount : 2*(scan incoming).1.length ≤ writes.length)
    (hlegacy : (scan incoming).2 = false) :
    (serve handle s incoming calls writes).handled = (scan incoming).1 ∧
      (serve handle s incoming calls writes).sent = replies handle s (scan incoming).1 := by
  fun_induction serve handle s incoming calls writes with
  | case1 s incoming calls writes h =>
    have hnil : (scan incoming).1 = [] := by
      by_contra hne
      obtain ⟨msg,hvalue,-⟩ := readMessage_moving hmoving hcalls hne
      rw [h] at hvalue
      cases hvalue
    rw [hnil]
    exact ⟨rfl,rfl⟩
  | case2 s incoming calls writes e h =>
    have hnil : (scan incoming).1 = [] := by
      by_contra hne
      obtain ⟨msg,hvalue,-⟩ := readMessage_moving hmoving hcalls hne
      rw [h] at hvalue
      cases hvalue
    rw [hnil,if_neg]
    · exact ⟨rfl,rfl⟩
    · rintro rfl
      rw [scan_of_legacy h] at hlegacy
      cases hlegacy
  | case3 s incoming calls writes msg h hlt hp => exact absurd hp (hnever s msg)
  | case4 s incoming calls writes msg h hlt s' hp t ih =>
    have hscan := scan_of_ok h
    rw [hscan] at hcount hlegacy ⊢
    obtain ⟨-,-,hmoving',hcalls'⟩ := readMessage_moving hmoving hcalls (by rw [hscan]; simp)
    obtain ⟨hhandled,hsent⟩ := ih hmoving' hcalls' hwrites (by simp at hcount; omega) hlegacy
    rw [replies,hp]
    exact ⟨congrArg (msg :: ·) hhandled,hsent⟩
  | case5 s incoming calls writes msg h hlt s' reply hp w hok t ih =>
    have hscan := scan_of_ok h
    rw [hscan] at hcount hlegacy ⊢
    simp only [List.length_cons] at hcount
    obtain ⟨-,-,hmoving',hcalls'⟩ := readMessage_moving hmoving hcalls (by rw [hscan]; simp)
    obtain ⟨-,hwritten,hleft⟩ := writeMessage_written hwrites (by omega) msg.type reply
    obtain ⟨hhandled,hsent⟩ := ih hmoving' hcalls' hwritten
      (by change 2*(scan (readMessage incoming calls).rest).1.length ≤
            (writeMessage msg.type reply writes).writes.length
          omega) hlegacy
    rw [replies,hp]
    refine ⟨congrArg (msg :: ·) hhandled,?_⟩
    dsimp only
    rw [(writeMessage_sent msg.type reply writes).2 hok]
    exact congrArg _ hsent
  | case6 s incoming calls writes msg h hlt s' reply hp w hok =>
    have hscan := scan_of_ok h
    rw [hscan] at hcount
    simp only [List.length_cons] at hcount
    exact absurd (writeMessage_written hwrites (by omega) msg.type reply).1 hok

end Serving

/-! ### The stream of an agent -/

section Agents
open Network

lemma readHeader_preamble {n : ℕ} (h : n ≤ NR_PROTOCOL_CMDLEN_MAX_BYTES) :
    readHeader (protocolWritePreamble n) =
      if n > maxMessageSize then .error (.tooLarge n) else .ok (n,MessageTypeBinary) := by
  have hsize : littleEndian ((protocolWritePreamble n).take 4) = n := by
    have htake : (protocolWritePreamble n).take 4 = lowBytes 4 n := rfl
    rw [htake,littleEndian_lowBytes,Nat.mod_eq_of_lt (lt_of_le_of_lt h (by decide))]
  have htype : littleEndian (((protocolWritePreamble n).drop 4).take 4) = MessageTypeBinary := rfl
  have hlegacy : isLegacyAgent (protocolWritePreamble n) = false := by
    simp [protocolWritePreamble,lowBytes,isLegacyAgent,NR_PREAMBLE_FORMAT]
  simp only [readHeader,hlegacy,hsize,htype]
  rfl

/-- What the daemon makes of the messages of an agent: one that is larger than it takes ends the
connection. -/
def taken (msgs : List Bytes) : List RawMessage :=
  (msgs.takeWhile (·.length ≤ maxMessageSize)).map (⟨MessageTypeBinary,·⟩)

lemma scan_frame {msg : Bytes} (h : msg.length ≤ NR_PROTOCOL_CMDLEN_MAX_BYTES) (rest : Bytes) :
    scan (frame msg ++ rest) = if msg.length ≤ maxMessageSize then
      (⟨MessageTypeBinary,msg⟩ :: (scan rest).1,(scan rest).2) else ([],false) := by
  obtain ⟨htake,hdrop⟩ := frame_split msg rest
  have hlen : 8 ≤ (frame msg ++ rest).length := by
    rw [frame,List.length_append,List.length_append,length_protocolWritePreamble]
    omega
  have hread := readHeader_preamble h
  split
  · have hok : readHeader ((frame msg ++ rest).take 8) = .ok (msg.length,MessageTypeBinary) := by
      rw [htake,hread,if_neg (by omega)]
    have hfirst := @scan_cons ⟨MessageTypeBinary,msg⟩ _ _ hlen hok (by rw [hdrop]; simp) (by rw [hdrop]; simp)
    rw [hfirst,hdrop,List.drop_left]
  · have h8 : msgHeaderSize = 8 := rfl
    rw [scan,if_neg (by omega),h8,htake,hread,if_pos (by omega)]
    rfl

lemma scan_partial {msg tail : Bytes} (h : msg.length ≤ NR_PROTOCOL_CMDLEN_MAX_BYTES)
    (hp : tail <+: frame msg) (hne : tail ≠ frame msg) : scan tail = ([],false) := by
  have h8 : msgHeaderSize = 8 := rfl
  have hlen : tail.length < 8 + msg.length := by
    have hle := hp.length_le
    have hframe : (frame msg).length = 8 + msg.length := by
      rw [frame,List.length_append,length_protocolWritePreamble]
    have hneq : tail.length ≠ (frame msg).length := fun heq => hne (hp.eq_of_length heq)
    omega
  rw [scan]
  split
  · rfl
  · have htake : tail.take msgHeaderSize = protocolWritePreamble msg.length := by
      obtain ⟨rest,hrest⟩ := hp
      have hframe := (frame_split msg []).1
      rw [List.append_nil,← hrest,List.take_append_of_le_length (by omega)] at hframe
      exact hframe
    rw [htake,readHeader_preamble h]
    split
    · rename_i heq
      split at heq
      · cases heq
        rfl
      · cases heq
    · rename_i heq
      split at heq
      · cases heq
      · cases heq
        rw [if_pos]
        rw [List.length_drop]
        omega

/-- The stream of an agent says exactly its messages. -/
theorem scan_streams {msgs : List Bytes} {stream : Bytes} (h : Streams msgs stream) :
    scan stream = (taken msgs,false) := by
  obtain ⟨hfits,tail,rfl,htail⟩ := h
  induction msgs with
  | nil =>
    obtain rfl | ⟨msg,hle,hp,hne⟩ := htail
    · rw [List.flatMap_nil,List.nil_append,scan,if_pos (by decide)]
      rfl
    · exact scan_partial hle hp hne
  | cons msg msgs ih =>
    rw [List.forall_mem_cons] at hfits
    rw [List.flatMap_cons,List.append_assoc,scan_frame hfits.1,taken,List.takeWhile_cons]
    by_cases hle : msg.length ≤ maxMessageSize
    · rw [if_pos hle,if_pos (by simpa using hle),ih hfits.2]
      rfl
    · rw [if_neg hle,if_neg (by simpa using hle)]
      rfl

lemma taken_initial (msgs : List Bytes) : taken msgs <+: msgs.map (⟨MessageTypeBinary,·⟩) :=
  (List.takeWhile_prefix _).map _

section Connections
variable {σ : Type} (handle : σ → RawMessage → Option (σ × Option Bytes)) (s : σ)

/-- However the kernels cut the stream on both sides, and wherever it breaks, the daemon handles messages
whole and in the order in which the agent has sent them; when nothing fails on its side it handles all that
were sent, up to the first that is too large for it. -/
theorem serve_sendAll (fd : ℤ) (msgs : List (Bytes × ℕ)) (script : List Network.Call) (w : Waits)
    (calls : List Call) (writes : List WriteAnswer) :
    (serve handle s (sendAll fd msgs script w).1 calls writes).handled <+: taken (sendAll fd msgs script w).2 ∧
      (sendAll fd msgs script w).2 <+: msgs.map Prod.fst ∧
      (Moving calls → (sendAll fd msgs script w).1.length ≤ calls.length → (∀ s msg, handle s msg ≠ none) →
        (∀ a ∈ writes, a = .written) → 2*(taken (sendAll fd msgs script w).2).length ≤ writes.length →
        (serve handle s (sendAll fd msgs script w).1 calls writes).handled =
          taken (sendAll fd msgs script w).2) := by
  have hscan := scan_streams (streams_sendAll fd msgs script w)
  have hsound := (serve_sound handle s (sendAll fd msgs script w).1 calls writes).1
  rw [hscan] at hsound
  refine ⟨hsound,sendAll_initial fd msgs script w,fun hmoving hcalls hnever hwrites hcount => ?_⟩
  have hcomplete := serve_complete handle s (sendAll fd msgs script w).1 calls writes hmoving hcalls hnever
    hwrites (by rw [hscan]; exact hcount) (by rw [hscan])
  rw [hscan] at hcomplete
  exact hcomplete.1

/-- Sends back the first byte. -/
def echo (_ : Unit) (msg : RawMessage) : Option (Unit × Option Bytes) := some ((),some (msg.bytes.take 1))

lemma echo_short (s : Unit) (msg : RawMessage) (s' : Unit) (r : Bytes)
    (h : echo s msg = some (s',some r)) : r.length < 2^32 := by
  cases h
  rw [List.length_take]
  omega

/-- Two messages, the second of them cut in two. -/
theorem serve_sendAll_two : (serve echo ()
    (sendAll 3 [([1],0),([2,3],0)] [.moved 8,.moved 1,.moved 8,.moved 1,.moved 1] ⟨[],[]⟩).1
      (List.replicate 19 (.moved 2)) (List.replicate 4 .written)).handled =
    [⟨MessageTypeBinary,[1]⟩,⟨MessageTypeBinary,[2,3]⟩] :=
  (serve_sendAll echo () 3 [([1],0),([2,3],0)] [.moved 8,.moved 1,.moved 8,.moved 1,.moved 1] ⟨[],[]⟩ _ _).2.2
    (fun a ha => ⟨2,List.eq_of_mem_replicate ha⟩) (by decide) (fun _ _ h => by cases h)
    (fun a ha => List.eq_of_mem_replicate ha) (by decide)

lemma frame_injective_of_prefix {b reply : Bytes} (hb : b.length < 2^32) (hreply : reply.length < 2^32)
    {rest : Bytes} (h : frame b ++ rest <+: frame reply) : b = reply ∧ rest = [] := by
  obtain ⟨more,hmore⟩ := h
  have htake := (frame_split reply []).1
  rw [List.append_nil,← hmore,List.append_assoc,(frame_split b (rest ++ more)).1] at htake
  have hlength : b.length = reply.length := by
    have hlow := congrArg (fun l => littleEndian (l.take 4)) htake
    change littleEndian (lowBytes 4 b.length) = littleEndian (lowBytes 4 reply.length) at hlow
    rwa [littleEndian_lowBytes,littleEndian_lowBytes,Nat.mod_eq_of_lt (by omega),
      Nat.mod_eq_of_lt (by omega)] at hlow
  have hlen := congrArg List.length hmore
  simp only [List.length_append,frame,length_protocolWritePreamble] at hlen
  have hrest : rest = [] := List.length_eq_zero_iff.mp (by omega)
  have hmoreNil : more = [] := List.length_eq_zero_iff.mp (by omega)
  rw [hrest,hmoreNil,List.append_nil,List.append_nil] at hmore
  have hdrop := congrArg (List.drop 8) hmore
  have hb8 := (frame_split b []).2
  have hreply8 := (frame_split reply []).2
  rw [List.append_nil,List.append_nil] at hb8 hreply8
  exact ⟨by rw [← hb8,← hreply8,hdrop],hrest⟩

lemma not_frame_prefix_nil {b rest : Bytes} : ¬ frame b ++ rest <+: [] := fun hp => by
  have hnil := hp.length_le
  simp [frame,length_protocolWritePreamble] at hnil

/-- What the agent takes for the reply to its query is what the handler of the daemon has replied to
exactly this query. -/
theorem exchange_sound {fd : ℤ} (hfd : 0 < fd) {query b : Bytes} (hquery : query.length ≤ NR_PROTOCOL_CMDLEN_MAX_BYTES)
    (hshort : ∀ s msg s' r, handle s msg = some (s',some r) → r.length < 2^32)
    {deadline : ℕ} {script script' : List Network.Call} {w w' : Waits} {calls : List Call}
    {writes : List WriteAnswer}
    (h : (nrNetworkReceive fd deadline (serve handle s
      (nrWriteMessage fd query deadline script w).sent calls writes).sent script' w').value = some (.ok (some b))) :
    (nrWriteMessage fd query deadline script w).status = some (.ok ()) ∧ query.length ≤ maxMessageSize ∧
      ∃ s', handle s ⟨MessageTypeBinary,query⟩ = some (s',some b) := by
  have hsends := sends_nrWriteMessage (show 0 ≤ fd by omega) hquery deadline script w
  obtain ⟨rest,hle,hincoming⟩ : ∃ rest, b.length ≤ NR_PROTOCOL_CMDLEN_MAX_BYTES ∧
      (serve handle s (nrWriteMessage fd query deadline script w).sent calls writes).sent = frame b ++ rest :=
    ⟨_,(receive_sound hfd h).2⟩
  clear h
  have hsent := (serve_sound handle s (nrWriteMessage fd query deadline script w).sent calls writes).2
  generalize nrWriteMessage fd query deadline script w = r at hsends hsent hincoming ⊢
  rw [hincoming] at hsent
  by_cases hok : r.status = some (.ok ())
  · have hscan := scan_frame hquery []
    rw [List.append_nil,← hsends.all.mp hok] at hscan
    by_cases hsize : query.length ≤ maxMessageSize
    · have hempty : scan [] = ([],false) := by
        rw [scan,if_pos (by decide)]
      rw [if_pos hsize,hempty] at hscan
      rw [hscan] at hsent
      match hp : handle s ⟨MessageTypeBinary,query⟩ with
      | none =>
        simp only [replies,hp,Bool.false_eq_true,if_false,List.append_nil] at hsent
        exact (not_frame_prefix_nil hsent).elim
      | some (s',none) =>
        simp only [replies,hp,Bool.false_eq_true,if_false,List.append_nil] at hsent
        exact (not_frame_prefix_nil hsent).elim
      | some (s',some reply) =>
        have hreply : frame b ++ rest <+: writeHeader MessageTypeBinary reply.length ++ reply := by
          simpa [replies,hp] using hsent
        change frame b ++ rest <+: frame reply at hreply
        have hmax : NR_PROTOCOL_CMDLEN_MAX_BYTES < 2^32 := by decide
        obtain ⟨rfl,-⟩ := frame_injective_of_prefix (by omega) (hshort _ _ _ _ hp) hreply
        exact ⟨hok,hsize,s',rfl⟩
    · rw [if_neg hsize] at hscan
      rw [hscan] at hsent
      exact (not_frame_prefix_nil hsent).elim
  · have hscan := scan_partial hquery hsends.sent fun heq => hok (hsends.all.mpr heq)
    rw [hscan] at hsent
    exact (not_frame_prefix_nil hsent).elim

/-- When nothing fails, the reply comes. -/
theorem exchange_complete {fd : ℤ} (hfd : 0 < fd) {query reply : Bytes} (hquery : query.length ≤ maxMessageSize)
    {s' : σ} (hhandle : handle s ⟨MessageTypeBinary,query⟩ = some (s',some reply)) (hne : reply ≠ [])
    (hreply : reply.length ≤ NR_PROTOCOL_CMDLEN_MAX_BYTES) (hnever : ∀ s msg, handle s msg ≠ none)
    {deadline : ℕ} {script script' : List Network.Call} {w w' : Waits} {calls : List Call}
    {writes : List WriteAnswer} (hok : (nrWriteMessage fd query deadline script w).status = some (.ok ()))
    (hcalls : Moving calls ∧ (frame query).length ≤ calls.length)
    (hwrites : (∀ a ∈ writes, a = .written) ∧ 2 ≤ writes.length)
    (hscript : Moving script' ∧ (frame reply).length ≤ script'.length) :
    (nrNetworkReceive fd deadline (serve handle s
      (nrWriteMessage fd query deadline script w).sent calls writes).sent script' w').value =
        some (.ok (some reply)) := by
  have hmax : maxMessageSize < NR_PROTOCOL_CMDLEN_MAX_BYTES := by decide
  have hsends := sends_nrWriteMessage (show 0 ≤ fd by omega)
    (show query.length ≤ NR_PROTOCOL_CMDLEN_MAX_BYTES by omega) deadline script w
  rw [hsends.all.mp hok]
  have hempty : scan [] = ([],false) := by rw [scan,if_pos (by decide)]
  have hscan := scan_frame (show query.length ≤ NR_PROTOCOL_CMDLEN_MAX_BYTES by omega) []
  rw [List.append_nil,if_pos hquery,hempty] at hscan
  have hsent := (serve_complete handle s (frame query) calls writes hcalls.1 hcalls.2 hnever hwrites.1
    (by rw [hscan]; exact hwrites.2) (by rw [hscan])).2
  have hframe : replies handle s [⟨MessageTypeBinary,query⟩] = frame reply ++ [] := by
    simp only [replies,hhandle]
    rfl
  have hlength : (frame reply).length = 8 + reply.length := by
    rw [frame,List.length_append,length_protocolWritePreamble]
  rw [hsent,hscan,hframe]
  exact receive_frame hfd hne hreply hscript.1 (by rw [← hlength]; exact hscript.2) []

/-- Between the query of an agent and what it takes for the reply lies the handler of the daemon, and
nothing else, however the kernels cut the streams; and the reply comes when nothing fails. -/
theorem exchange_exact {fd : ℤ} (hfd : 0 < fd) {query : Bytes} (hquery : query.length ≤ maxMessageSize)
    (hshort : ∀ s msg s' r, handle s msg = some (s',some r) → r.length < 2^32) (deadline : ℕ)
    (script script' : List Network.Call) (w w' : Waits) (calls : List Call) (writes : List WriteAnswer) :
    (∀ b, (nrNetworkReceive fd deadline (serve handle s
        (nrWriteMessage fd query deadline script w).sent calls writes).sent script' w').value =
          some (.ok (some b)) →
      (nrWriteMessage fd query deadline script w).status = some (.ok ()) ∧
        ∃ s', handle s ⟨MessageTypeBinary,query⟩ = some (s',some b)) ∧
    ∀ s' reply, handle s ⟨MessageTypeBinary,query⟩ = some (s',some reply) → reply ≠ [] →
      reply.length ≤ NR_PROTOCOL_CMDLEN_MAX_BYTES → (∀ s msg, handle s msg ≠ none) →
      (nrWriteMessage fd query deadline script w).status = some (.ok ()) →
      Moving calls → (frame query).length ≤ calls.length → (∀ a ∈ writes, a = .written) → 2 ≤ writes.length →
      Moving script' → (frame reply).length ≤ script'.length →
      (nrNetworkReceive fd deadline (serve handle s
        (nrWriteMessage fd query deadline script w).sent calls writes).sent script' w').value =
          some (.ok (some reply)) := by
  have hmax : maxMessageSize < NR_PROTOCOL_CMDLEN_MAX_BYTES := by decide
  constructor
  · intro b hb
    obtain ⟨hok,-,hhandle⟩ := exchange_sound handle s hfd (by omega) hshort hb
    exact ⟨hok,hhandle⟩
  · intro s' reply hhandle hne hreply hnever hok hmoving hcalls hwritten hwrites hmoving' hscript
    exact exchange_complete handle s hfd hquery hhandle hne hreply hnever hok ⟨hmoving,hcalls⟩
      ⟨hwritten,hwrites⟩ ⟨hmoving',hscript⟩

/-- An exchange over writes and reads of a few bytes. -/
theorem exchange_exact_echo : (nrNetworkReceive 3 0 (serve echo ()
    (nrWriteMessage 3 [7] 0 [.moved 5,.failed .EINTR,.moved 3,.moved 1] ⟨[],[]⟩).sent
      (List.replicate 9 (.moved 2)) [.written,.written]).sent (List.replicate 9 (.moved 4)) ⟨[],[]⟩).value =
    some (.ok (some [7])) :=
  (@exchange_exact _ echo () 3 (by decide) [7] (by decide) echo_short 0 _ _ _ _ _ _).2 () [7] rfl (by simp)
    (by decide) (fun _ _ h => by cases h) (by decide) (fun a ha => ⟨2,List.eq_of_mem_replicate ha⟩) (by decide)
    (by decide) (by decide) (fun a ha => ⟨4,List.eq_of_mem_replicate ha⟩) (by decide)

end Connections
end Agents

end PhpAgent.Listener

import Mathlib.Data.List.AList
import PhpAgent.Agent.TraceContext

/-! OTLP spans of the daemon, after `traces.go` of package `otlp`: the identifiers and the attributes
that a span event becomes. -/
namespace PhpAgent.Otlp
open PhpAgent Json

/-! ### Identifiers -/

/-- An array of so many bytes. -/
abbrev ByteArrayOf (n : ℕ) : Type := {b : Bytes // b.length = n}

def zeroBytes (n : ℕ) : ByteArrayOf n := ⟨List.replicate n 0,List.length_replicate⟩

/-- The last bytes there is room for, with zeros in front. -/
def leftPadded (n : ℕ) (b : Bytes) : ByteArrayOf n :=
  let b := if n < b.length then b.drop (b.length-n) else b
  ⟨List.replicate (n-b.length) 0 ++ b,by grind⟩

/-- `hex.DecodeString`; an odd number of digits is an error. -/
def decodeString : Bytes → Option Bytes
  | [] => some []
  | [_] => none
  | a :: b :: rest =>
    if isHex a && isHex b then
      (decodeString rest).map ((16*hexValue a+hexValue b).toUInt8 :: ·)
    else none

/-- The common text of `hexToTraceID` and `hexToSpanID`. Letters beyond ASCII are no digits in either
case. -/
def hexToID (n : ℕ) (h : Bytes) : ByteArrayOf n :=
  if h = [] then zeroBytes n
  else
    match decodeString (h.map tolower) with
    | none => zeroBytes n
    | some b => if b = [] then zeroBytes n else leftPadded n b

def hexToTraceID (h : Bytes) : ByteArrayOf 16 := hexToID 16 h
/-- What `json.Unmarshal` makes of a value; arrays and objects are never looked into. -/
inductive Any
  | null
  | bool (b : Bool)
  | number (x : ℚ)
  | string (s : Bytes)
  | composite
deriving DecidableEq

abbrev Members : Type := AList fun _ : Bytes => Any

structure SpanEventPayload where
  intrinsics : Members
  user : Members
  agent : Members

/-- `str` of `fillSpan`, with the text of a number. -/
def SpanEventPayload.str (formatFloat : ℚ → Bytes) (p : SpanEventPayload) (k : String) : Bytes :=
  match p.intrinsics.lookup (ascii k) with
  | some (.string s) => s
  | some (.number x) => formatFloat x
  | _ => []

/-- The message of the agent's attributes, when there is one. -/
def SpanEventPayload.errorMessage (p : SpanEventPayload) : Option Bytes :=
  match p.agent.lookup (ascii "error.message") with
  | some (.string s) => if s = [] then none else some s
  | _ => none

variable {src : Members} {skip : List Bytes}

end PhpAgent.Otlp

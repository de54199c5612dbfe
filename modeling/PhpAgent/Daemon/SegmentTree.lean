import PhpAgent.Daemon.PhpPackages
import PhpAgent.Daemon.Pprof
import PhpAgent.Lib.JsonStruct

/-! Reading transaction traces, after `segment_tree.go` of package `pprof`. `nearest` rounds to a float64
and fails out of its range. Errors are the texts before the one that `encoding/json` adds. -/
namespace PhpAgent.Pprof
open Json (StructField code decimal decodeInt64 decodeStruct digitsValue elements isNull numberValue stringValue)
open PhpPackages (unmarshalSlice)

/-! ### Values -/

/-- `json.Unmarshal` into a fresh string; `null` leaves it empty. -/
def unmarshalString (text : Bytes) : Option Bytes := if isNull text then some [] else stringValue text

/-- `json.Unmarshal` into a fresh slice of strings; `null` leaves it nil. -/
def unmarshalStrings (text : Bytes) : Option (Option (List Bytes)) :=
  if isNull text then some none
  else (elements text).bind fun texts => (texts.mapM unmarshalString).map some

/-- `json.Unmarshal` into a fresh float64; `null` leaves it zero. -/
def unmarshalFloat64 (nearest : ℚ → Option ℚ) (text : Bytes) : Option ℚ :=
  if isNull text then some 0 else (numberValue text).bind nearest

/-- `int64` of a float64 in range. -/
def toInt64 (q : ℚ) : ℤ := q.num.tdiv q.den

/-- `strconv.Atoi`. A number that is out of range is an index out of range as well. -/
def atoi (text : Bytes) : Option ℤ :=
  let digits := if text.head? = some (code '-') ∨ text.head? = some (code '+') then text.tail else text
  if digits ≠ [] ∧ digits.all Json.isDigit then
    some (if text.head? = some (code '-') then -digitsValue digits else digitsValue digits)
  else none

/-- All of the text is white space of Unicode, which `strings.TrimSpace` takes away. -/
def blank : Bytes → Bool
  | [] => true
  | c :: rest =>
    if (0x09 ≤ c ∧ c ≤ 0x0d) ∨ c = 0x20 then blank rest
    else
      match rest with
      | [] => false
      | d :: rest =>
        if c = 0xc2 ∧ (d = 0x85 ∨ d = 0xa0) then blank rest
        else
          match rest with
          | [] => false
          | e :: rest =>
            if (c = 0xe1 ∧ d = 0x9a ∧ e = 0x80) ∨
                (c = 0xe2 ∧ d = 0x80 ∧ ((0x80 ≤ e ∧ e ≤ 0x8a) ∨ e = 0xa8 ∨ e = 0xa9 ∨ e = 0xaf)) ∨
                (c = 0xe2 ∧ d = 0x81 ∧ e = 0x9f) ∨ (c = 0xe3 ∧ d = 0x80 ∧ e = 0x80) then
              blank rest
            else false

/-! ### Parameters -/

/-- The parameters of a node that are read. -/
structure Params where
  filepath : Bytes
  lineno : ℤ

def Params.fields : List (StructField Params) := [
  ⟨ascii "code.filepath",fun v p =>
    if isNull v then some p else (stringValue v).map fun x => { p with filepath := x }⟩,
  ⟨ascii "code.lineno",fun v p => (decodeInt64 v p.lineno).map fun x => { p with lineno := x }⟩]

/-- The parameters of a node, with the zero values for those it has not. One value that does not fit
its field makes all of them count as missing. -/
def readParams (text : Bytes) : Params := (decodeStruct Params.fields text ⟨[],0⟩).getD ⟨[],0⟩

/-! ### Nodes -/

/-- The loop over the children of a node. -/
def decodeForest (decode : Bytes → Except Bytes (Segment × Forest Segment)) :
    List Bytes → Except Bytes (Forest Segment)
  | [] => .ok .nil
  | c :: children => do
    let (cs,kids) ← decode c
    let rest ← decodeForest decode children
    return .node cs kids rest

/-- A value that was unmarshalled, or the error with this text. -/
def orError {α : Type} (text : String) : Option α → Except Bytes α
  | none => .error (ascii text)
  | some a => .ok a

@[simp] lemma orError_some {α : Type} (text : String) (a : α) : orError text (some a) = .ok a := rfl

@[simp] lemma decoded_bind {α β : Type} (a : α) (f : α → Except Bytes β) : (Except.ok a >>= f) = f a := rfl

section Decode
variable (nearest : ℚ → Option ℚ) (resolve : Bytes → Bytes)

/-- The text of a name that stands for none. -/
def unnamed : Bytes := ascii "<unnamed>"

/-- `decodeNode`. The children are read by the same function with less fuel, and their texts are
shorter than the one of the node. -/
def decodeNode : ℕ → Bytes → Except Bytes (Segment × Forest Segment)
  | 0, _ => .error (ascii "parse node")
  | fuel+1, raw => do
    let node ← orError "parse node" (unmarshalSlice raw)
    match node with
    | startText :: stopText :: nameText :: paramsText :: childrenText :: _ =>
      let startMs ← orError "parse startMs" (unmarshalFloat64 nearest startText)
      let stopMs ← orError "parse stopMs" (unmarshalFloat64 nearest stopText)
      let name := resolve ((unmarshalString nameText).getD [])
      let params := readParams paramsText
      let children ← decodeForest (decodeNode fuel) ((unmarshalSlice childrenText).getD [])
      return ({
        name := if blank name then unnamed else name
        startMs := toInt64 startMs
        stopMs := toInt64 stopMs
        durationMs := (nearest (stopMs-startMs)).getD (stopMs-startMs)
        filepath := params.filepath
        lineno := params.lineno },children)
    | _ => .error (ascii "node has " ++ decimal node.length ++ ascii " elements, need >=5")

end Decode

/-! ### Traces -/

/-- The first element that is a slice of strings. -/
def findStringTable (envelope : List Bytes) : List Bytes :=
  (envelope.findSome? fun el => (unmarshalStrings el).join).getD []

/-- The name a token stands for: an entry of the table, or the token itself. -/
def resolveName (stringTable : List Bytes) (raw : Bytes) : Bytes :=
  match raw with
  | c :: d :: rest =>
    if c = code '`' then
      match atoi (d :: rest) with
      | some n => if 0 ≤ n then (stringTable[n.toNat]?).getD raw else raw
      | none => raw
    else raw
  | _ => raw

/-- `DecodeTrace`. -/
def decodeTrace (nearest : ℚ → Option ℚ) (data traceName : Bytes) (traceStartUnixMillis : ℚ) :
    Except Bytes Trace := do
  let envelope ← orError "pprof: parse trace envelope" (unmarshalSlice data)
  match envelope with
  | [] => .error (ascii "pprof: trace envelope has 0 elements, need >=1")
  | first :: _ =>
    let stringTable := findStringTable envelope
    let header ← orError "pprof: parse trace header" (unmarshalSlice first)
    match header with
    | _ :: _ :: _ :: rootNode :: _ =>
      match decodeNode nearest (resolveName stringTable) (data.length+1) rootNode with
      | .error err => .error (ascii "pprof: parse root node: " ++ err)
      | .ok root =>
        let start := (nearest (traceStartUnixMillis*1000000)).getD (traceStartUnixMillis*1000000)
        return { name := traceName, startTime := toInt64 start, root := some root }
    | _ => .error (ascii "pprof: trace header has " ++ decimal header.length ++
        ascii " elements, need >=4")

end PhpAgent.Pprof

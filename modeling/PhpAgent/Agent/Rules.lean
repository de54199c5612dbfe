import PhpAgent.Daemon.MetricRules
import PhpAgent.Lib.CString

/-! URL, metric and transaction name rules of the agent, after `nr_rules.c`, with what they use of
`util_regex.c` and `util_reply.c`. The buffers of `nr_rules_apply` are taken to be long enough for
what is written into them. -/
namespace PhpAgent

/-! ### Reading a reply -/

/-- A double cast to `int`. C leaves open what becomes of one that does not fit; it is the smallest `int`
where the processor is an x86. -/
def Double.toInt : Double → ℤ
  | finite negative magnitude =>
    let i : ℤ := if negative then -⌊magnitude⌋₊ else ⌊magnitude⌋₊
    if -2^31 ≤ i ∧ i < 2^31 then i else -2^31
  | infinite _ | nan _ => -2^31

/-- The value of a number cast to `int`. -/
def NrObj.getIval : NrObj → Option ℤ
  | .int i _ => some i
  | .boolean b => some (if b then 1 else 0)
  | .long i => some (i.bmod (2^32))
  | .ulong n => some ((n : ℤ).bmod (2^32))
  | .double d => some d.toInt
  | _ => Option.none

def NrObj.getString : NrObj → Option Bytes
  | .string s => some s
  | _ => Option.none

/-- `nro_get_hash_value`. -/
def NrObj.getHashValue : NrObj → String → Option NrObj
  | .hash entries, key => NrHash.get? entries (ascii key)
  | _, _ => Option.none

def NrObj.getHashString (o : NrObj) (key : String) : Option Bytes :=
  (o.getHashValue key).bind NrObj.getString

def NrObj.getHashArray (o : NrObj) (key : String) : Option NrObj :=
  match o.getHashValue key with
  | some (.array elements) => some (.array elements)
  | _ => Option.none

/-- `nr_reply_get_int`. -/
def replyGetInt (reply : NrObj) (name : String) (dflt : ℤ) : ℤ :=
  ((reply.getHashValue name).bind NrObj.getIval).getD dflt

/-- `nr_reply_get_bool`. -/
def replyGetBool (reply : NrObj) (name : String) (dflt : Bool) : Bool :=
  match reply.getHashValue name with
  | none => dflt
  | some o =>
    match o.getIval with
    | some i => i ≠ 0
    | none =>
      match o.getString with
      | none => dflt
      | some str =>
        if str.head?.any (fun c => c ∈ ascii "1yYtT") ∨ str.map tolower = ascii "on" then true
        else if str.head?.any (fun c => c ∈ ascii "0nNfF") ∨ str.map tolower = ascii "off" then
          false
        else dflt

/-! ### Rules -/

/-- `nrrule_t` with its flags; no replacement is an empty one. -/
structure Rule where
  eachSegment : Bool
  ignore : Bool
  replaceAll : Bool
  terminate : Bool
  hasAlts : Bool
  hasCaptures : Bool
  order : ℤ
  matchExpr : Bytes
  replacement : Bytes
  regex : Regexp

namespace Rule

def defaultOrder : ℤ := 99999

/-- A digit follows the first backslash. -/
def firstReference : Bytes → Bool
  | [] => false
  | c :: rest => if c = backslash then rest.head?.any Json.isDigit else firstReference rest

/-- `nr_rules_process_rule`: the rule that is added, if any. `compile` is `nr_regex_create`. -/
def process (compile : Bytes → Option Regexp) (rule : NrObj) : Option Rule := do
  let mstr ← rule.getHashString "match_expression"
  let ignore := replyGetBool rule "ignore" false
  let rstr := rule.getHashString "replacement"
  if rstr = none ∧ ignore = false then none
  else if mstr = [] then none
  else
    let regex ← compile mstr
    return {
      eachSegment := replyGetBool rule "each_segment" false
      ignore := ignore
      replaceAll := replyGetBool rule "replace_all" false
      terminate := replyGetBool rule "terminate_chain" false
      hasAlts := 0x7c ∈ mstr
      hasCaptures := rstr.any firstReference
      order := replyGetInt rule "eval_order" defaultOrder
      matchExpr := mstr
      replacement := rstr.getD []
      regex := regex }

end Rule

/-- The highest group that took part in a match. -/
def Match.captureCount (m : Match) : ℕ := (m.groups.reverse.dropWhile Option.isNone).length

/-- The number behind one more byte of a reference; an `int` wraps around. -/
def readDigit (num : ℤ) (ch : UInt8) : ℤ :=
  if Json.isDigit ch then (num*10+(ch.toNat-0x30 : ℕ)).bmod (2^32) else num

/-- `nr_rule_replace_string`. The first argument is the number read since a backslash, `destLen` the
room that is left. -/
def replaceString (m : Match) (subject : Bytes) : Option ℤ → Bytes → ℕ → Option Bytes
  | _, [], _ => some []
  | none, ch :: repl, destLen =>
    if ch = backslash then replaceString m subject (some 0) repl destLen
    else if 0 < destLen then (replaceString m subject none repl (destLen-1)).map (ch :: ·)
    else replaceString m subject none repl destLen
  | some num, ch :: repl, destLen =>
    let num := readDigit num ch
    if repl.head?.any Json.isDigit then replaceString m subject (some num) repl destLen
    -- there is no group for a number that has wrapped around
    else if num < 0 then replaceString m subject none repl destLen
    else
      let text :=
        if m.captureCount < num then backslash :: Json.decimal num.toNat else m.text subject num.toNat
      if destLen ≤ text.length then none
      else (replaceString m subject none repl (destLen-text.length)).map (text ++ ·)

inductive RulesResult
  | ignore
  | changed
  | unchanged
deriving DecidableEq

def nruleBufSize : ℕ := 2048

namespace Rule

/-- The text that replaces a match, if it can be built. -/
def replaced (rule : Rule) (m : Match) (subject : Bytes) : Option Bytes :=
  if rule.hasCaptures then replaceString m subject none rule.replacement nruleBufSize
  else some rule.replacement

/-- The case without a loop. -/
def applyOnce (rule : Rule) (str : Bytes) : RulesResult × Bytes :=
  let s := cstr str
  match rule.regex.find s 0 with
  | none => (.unchanged,str)
  | some m =>
    if rule.ignore then (.ignore,str)
    else
      match rule.replaced m s with
      | none => (.unchanged,str)
      | some repl =>
        (.changed,strcpy str (s.take m.start ++ repl.take (nruleBufSize-1) ++ s.drop m.stop))

/-- The loop over segments; the next one starts at `segstart`. The slash behind a segment is
overwritten before the segment is matched. -/
def applySegments (rule : Rule) (str : Bytes) (segstart : ℕ) (work : Bytes) (changed : Bool) :
    List Bytes → RulesResult × Bytes
  | [] => (if changed then .changed else .unchanged,strcpy str work)
  | segment :: segments =>
    let str := if segments = [] then str else str.set (segstart+segment.length) 0
    let next := segstart+segment.length+1
    match rule.regex.find segment 0 with
    | some m =>
      match rule.replaced m segment with
      | none => (.unchanged,str)
      | some repl => applySegments rule str next (work ++ slash :: repl) true segments
    | none => applySegments rule str next (work ++ slash :: segment) changed segments

/-- The loop of `replace_all` over what is left of the string; `repl` is the replacement of the
round before, and `need` tells whether it must be built again. -/
def applyAll (rule : Rule) (str : Bytes) :
    ℕ → Bytes → Bytes → Bytes → Bool → Bool → Option (RulesResult × Bytes)
  | 0, _, _, _, _, _ => none
  | fuel+1, rest, work, repl, need, changed =>
    match rule.regex.find rest 0 with
    | none => some (if changed then .changed else .unchanged,strcpy str (work ++ rest))
    | some m =>
      match (if need then rule.replaced m rest else some repl) with
      | none => some (.unchanged,str)
      | some repl =>
        applyAll rule str fuel (rest.drop m.stop) (work ++ rest.take m.start ++ repl) repl
          (need && (rule.hasAlts || rule.hasCaptures)) true

/-- `nr_rule_apply`: the result and the memory of the string; `none` when the fuel runs out. -/
def apply (fuel : ℕ) (rule : Rule) (str : Bytes) : Option (RulesResult × Bytes) :=
  if rule.ignore ∨ (rule.eachSegment = false ∧ rule.replaceAll = false) then
    some (rule.applyOnce str)
  else if rule.eachSegment then
    -- the first byte of the string is skipped
    some (rule.applySegments str 1 [] false ((cstr (str.drop 1)).splitOn slash))
  else rule.applyAll str fuel (cstr str) [] [] true false

/-- The loop of `nr_rules_apply`. -/
def applyFrom (fuel : ℕ) : List Rule → Bytes → Bool → Option (RulesResult × Option Bytes)
  | [], str, changed => some (if changed then (.changed,some (cstr str)) else (.unchanged,none))
  | rule :: rules, str, changed =>
    match rule.apply fuel str with
    | none => none
    | some (.ignore,_) => some (.ignore,none)
    | some (.changed,str) =>
      if rule.terminate then some (.changed,some (cstr str)) else applyFrom fuel rules str true
    | some (.unchanged,str) => applyFrom fuel rules str changed

/-- The memory of the string, which starts out as zeros. -/
def initial (name : Bytes) : Bytes :=
  name.take (nruleBufSize-1) ++ List.replicate (nruleBufSize-(name.take (nruleBufSize-1)).length) 0

/-- `nr_rules_apply`. -/
def applyRules (fuel : ℕ) (rules : List Rule) (name : Bytes) : Option (RulesResult × Option Bytes) :=
  applyFrom fuel rules (initial name) false

end Rule
end PhpAgent

import PhpAgent.Daemon.Collector
import PhpAgent.Lib.CType

/-! Metric rename rules of the daemon, after `metric_rules.go`, with what they use of package
`regexp`. -/
namespace PhpAgent

def slash : UInt8 := 0x2f
def backslash : UInt8 := 0x5c
def dollar : UInt8 := 0x24
def openBrace : UInt8 := 0x7b
def closeBrace : UInt8 := 0x7d

/-- `s[i:j]`. -/
def slice (s : Bytes) (i j : ℕ) : Bytes := (s.take j).drop i

/-! ### Regular expressions -/

/-- A match: where it starts and stops, and the groups, as far as they took part. -/
structure Match where
  start : ℕ
  stop : ℕ
  groups : List (Option (ℕ × ℕ))
deriving DecidableEq

/-- What a compiled expression answers: the leftmost match at or after a position of a text, the
names of its groups, and whether a text begins with a letter or digit that is not ASCII. -/
structure Regexp where
  find : Bytes → ℕ → Option Match
  subexpNames : List Bytes
  wide : Bytes → Bool

/-- The offsets of a group; group 0 is the whole match. -/
def Match.group (m : Match) : ℕ → Option (ℕ × ℕ)
  | 0 => some (m.start,m.stop)
  | n+1 => m.groups[n]?.join

/-- The text of a group, empty when it took no part. -/
def Match.text (m : Match) (src : Bytes) (n : ℕ) : Bytes :=
  match m.group n with
  | some (i,j) => slice src i j
  | none => []

namespace Regexp

def isTail (c : UInt8) : Bool := 0x80 ≤ c && c ≤ 0xbf

/-- The width of the leading rune, as `utf8.DecodeRuneInString` has it. -/
def runeWidth : Bytes → ℕ
  | [] => 0
  | b :: rest =>
    let tails (n : ℕ) : Bool := n ≤ rest.length && (rest.take n).all isTail
    let second (lo hi : UInt8) : Bool := rest.head?.any fun c => lo ≤ c && c ≤ hi
    if 0xc2 ≤ b ∧ b ≤ 0xdf ∧ tails 1 then 2
    else if b = 0xe0 ∧ second 0xa0 0xbf ∧ tails 2 then 3
    else if b = 0xed ∧ second 0x80 0x9f ∧ tails 2 then 3
    else if 0xe1 ≤ b ∧ b ≤ 0xef ∧ b ≠ 0xed ∧ tails 2 then 3
    else if b = 0xf0 ∧ second 0x90 0xbf ∧ tails 3 then 4
    else if b = 0xf4 ∧ second 0x80 0x8f ∧ tails 3 then 4
    else if 0xf1 ≤ b ∧ b ≤ 0xf3 ∧ tails 3 then 4
    else 1

/-- The rune may stand in the name of a group. -/
def isNameRune (re : Regexp) (str : Bytes) : Bool :=
  match str with
  | [] => false
  | c :: _ =>
    (0x30 ≤ c && c ≤ 0x39) || (0x41 ≤ c && c ≤ 0x5a) || (0x61 ≤ c && c ≤ 0x7a) || c = 0x5f ||
      (0x80 ≤ c && re.wide str)

/-- The length of the longest name `str` begins with. -/
def nameLength (re : Regexp) : ℕ → Bytes → ℕ
  | 0, _ => 0
  | fuel+1, str =>
    if re.isNameRune str then runeWidth str + re.nameLength fuel (str.drop (runeWidth str)) else 0

/-- The number a name stands for, if it is one. -/
def parseNumber (name : Bytes) : Option ℕ :=
  let num := name.foldl (fun num c => num.bind fun n =>
    if Json.isDigit c ∧ n < 100000000 then some (n*10 + (c.toNat-0x30)) else none) (some 0)
  if name.head? = some 0x30 ∧ 1 < name.length then none else num

/-- `extract`: the name, its number and the rest of a template after `$`. -/
def extract (re : Regexp) (str : Bytes) : Option (Bytes × Option ℕ × Bytes) :=
  let brace : Bool := str.head? = some openBrace
  let str := if brace then str.drop 1 else str
  let i := re.nameLength str.length str
  let name := str.take i
  if i = 0 then none
  else if brace then
    if str[i]? = some closeBrace then some (name,parseNumber name,str.drop (i+1)) else none
  else some (name,parseNumber name,str.drop i)

/-- The text a name of a template stands for. -/
def named (re : Regexp) (src : Bytes) (m : Match) (name : Bytes) : Bytes :=
  let found := (List.range re.subexpNames.length).find? fun i =>
    re.subexpNames[i]? = some name && (m.group (i+1)).isSome
  match found with
  | some i => m.text src (i+1)
  | none => []

/-- `Expand`: the template with `$1`, `$name`, `$`-brace and `$$` replaced. -/
def expand (re : Regexp) (src : Bytes) (m : Match) : ℕ → Bytes → Bytes
  | 0, _ => []
  | _, [] => []
  | fuel+1, c :: template =>
    if c ≠ dollar then c :: re.expand src m fuel template
    else if template.head? = some dollar then dollar :: re.expand src m fuel (template.drop 1)
    else
      match re.extract template with
      | none => dollar :: re.expand src m fuel template
      | some (_,some num,rest) => m.text src num ++ re.expand src m fuel rest
      | some (name,none,rest) => re.named src m name ++ re.expand src m fuel rest

/-- The loop of `ReplaceAllString`. An empty match right after another one is not replaced. -/
def replaceAll (re : Regexp) (src template : Bytes) : ℕ → ℕ → ℕ → Bytes
  | 0, lastMatchEnd, _ => src.drop lastMatchEnd
  | fuel+1, lastMatchEnd, searchPos =>
    if src.length < searchPos then src.drop lastMatchEnd
    else
      match re.find src searchPos with
      | none => src.drop lastMatchEnd
      | some m =>
        let replacement :=
          if lastMatchEnd < m.stop ∨ m.start = 0 then
            re.expand src m (template.length+1) template
          else []
        let width := runeWidth (src.drop searchPos)
        let next :=
          if m.stop < searchPos+width then searchPos+width
          else if m.stop < searchPos+1 then searchPos+1
          else m.stop
        slice src lastMatchEnd m.start ++ replacement ++ re.replaceAll src template fuel m.stop next

def replaceAllString (re : Regexp) (src template : Bytes) : Bytes :=
  re.replaceAll src template (src.length+1) 0 0

def matchString (re : Regexp) (s : Bytes) : Bool := (re.find s 0).isSome

/-- `FindString`, empty when there is no match. -/
def findString (re : Regexp) (s : Bytes) : Bytes :=
  match re.find s 0 with
  | some m => slice s m.start m.stop
  | none => []

end Regexp

/-! ### Rules -/

inductive MetricRuleResult
  | matched
  | unmatched
  | ignore
deriving DecidableEq

structure MetricRule where
  ignore : Bool
  eachSegment : Bool
  replaceAll : Bool
  terminate : Bool
  order : ℤ
  originalReplacement : Bytes
  rawExpr : Bytes
  transformedReplacement : Bytes
  re : Regexp

abbrev MetricRules : Type := List MetricRule

/-- Two backslashes before a digit. -/
def replacementAmbiguous : Bytes → Bool
  | a :: b :: c :: rest =>
    (a = backslash && b = backslash && Json.isDigit c) || replacementAmbiguous (b :: c :: rest)
  | _ => false

/-- A backslash with the digits after it, in the syntax of package `regexp`. -/
def transformReference (digits : Bytes) : Bytes :=
  if digits = [] then [backslash] else [dollar,openBrace] ++ digits ++ [closeBrace]

/-- `transformReplacementRegex.ReplaceAllString`. The first argument are the digits since a
backslash. -/
def transformReplacement : Option Bytes → Bytes → Bytes
  | none, [] => []
  | some digits, [] => transformReference digits
  | none, c :: rest =>
    if c = backslash then transformReplacement (some []) rest
    else c :: transformReplacement none rest
  | some digits, c :: rest =>
    if Json.isDigit c then transformReplacement (some (digits ++ [c])) rest
    else if c = backslash then transformReference digits ++ transformReplacement (some []) rest
    else transformReference digits ++ c :: transformReplacement none rest

def replaceFirst (re : Regexp) (s replacement : Bytes) : MetricRuleResult × Bytes :=
  match re.find s 0 with
  | none => (.unmatched,s)
  | some m =>
    let firstMatch := slice s m.start m.stop
    let firstMatchReplaced := re.replaceAllString firstMatch replacement
    (.matched,s.take m.start ++ firstMatchReplaced ++ s.drop m.stop)

/-- `MetricRule.Apply`. -/
def MetricRule.apply (r : MetricRule) (s : Bytes) : MetricRuleResult × Bytes :=
  if r.ignore then
    if r.re.findString s ≠ [] then (.ignore,[]) else (.unmatched,s)
  else if r.replaceAll then
    if r.re.matchString s then (.matched,r.re.replaceAllString s r.transformedReplacement)
    else (.unmatched,s)
  else if r.eachSegment then
    let applied := (s.splitOn slash).map fun segment =>
      replaceFirst r.re segment r.transformedReplacement
    (if applied.any fun a => a.1 = .matched then .matched else .unmatched,
      [slash].intercalate (applied.map Prod.snd))
  else replaceFirst r.re s r.transformedReplacement

/-- The loop of `MetricRules.Apply`; `matched` tells whether a rule has matched. -/
def MetricRules.applyFrom (matched : Bool) : MetricRules → Bytes → MetricRuleResult × Bytes
  | [], s => (if matched then .matched else .unmatched,s)
  | rule :: rules, s =>
    match rule.apply s with
    | (.ignore,_) => (.ignore,[])
    | (.matched,out) =>
      if rule.terminate then (.matched,out) else MetricRules.applyFrom true rules out
    | (.unmatched,out) => MetricRules.applyFrom matched rules out

/-- `MetricRules.Apply`. -/
def MetricRules.apply (rules : MetricRules) (s : Bytes) : MetricRuleResult × Bytes :=
  MetricRules.applyFrom false rules s

end PhpAgent

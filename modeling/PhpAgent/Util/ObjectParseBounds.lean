import PhpAgent.Util.ObjectParse

/-! Where the parser of `util_object.c` reads behind a text. What a value leaves over and which strings
the parser comes to is said by the text alone, for a string by the two loops that go over it. -/
namespace PhpAgent
namespace NroParse

open Json (code)

/-! ### The two loops over a string -/

/-- The first loop comes from one place to the other. -/
inductive Scans : Bytes → Bytes → Prop
  | here (s : Bytes) : Scans s s
  | plain {c : UInt8} {s t : Bytes} (hc : 31 < c) (hquote : c ≠ code '"') (hback : c ≠ code '\\')
      (h : Scans s t) : Scans (c :: s) t
  | escape (e : UInt8) {s t : Bytes} (h : Scans s t) : Scans (code '\\' :: e :: s) t

/-- The second loop comes from one place to the other. -/
inductive Copies : Bytes → Bytes → Prop
  | here (s : Bytes) : Copies s s
  | plain {c : UInt8} {s t : Bytes} (hc : 31 < c) (hquote : c ≠ code '"') (hback : c ≠ code '\\')
      (h : Copies s t) : Copies (c :: s) t
  | escape {e : UInt8} {s t : Bytes} (he : e ≠ code 'u') (h : Copies s t) :
      Copies (code '\\' :: e :: s) t
  | unicode (a b c d : UInt8) {s t : Bytes} (h : Copies s t) :
      Copies (code '\\' :: code 'u' :: a :: b :: c :: d :: s) t

/-- The text ends within an escape. -/
def Cut (t : Bytes) : Prop :=
  t = [code '\\'] ∨ ∃ few : Bytes, few.length < 4 ∧ t = code '\\' :: code 'u' :: few

/-- The second loop ends, and leaves `rest` over. -/
def Stops (t rest : Bytes) : Prop := t = code '"' :: rest ∨ t = rest ∧ ∀ c ∈ rest.head?, c ≤ 31

/-- The first loop comes to a quote. -/
def Closed (s : Bytes) : Prop := ∃ rest, Scans s (code '"' :: rest)

/-- A loop over the string behind a quote meets an escape that the text ends in. -/
def Overruns (s : Bytes) : Prop := Scans s [code '\\'] ∨ Closed s ∧ ∃ t, Copies s t ∧ Cut t

/-- What the string behind a quote leaves over. -/
def EndsString (s rest : Bytes) : Prop := Closed s ∧ ∃ t, Copies s t ∧ Stops t rest

/-- What copying leaves over is a part of the string. -/
theorem Copies.length_le {s t : Bytes} (h : Copies s t) : t.length ≤ s.length := by
  induction h with
  | here s => exact Nat.le_refl _
  | plain hc hquote hback h ih => exact Nat.le_succ_of_le ih
  | escape he h ih => exact ih.trans (by simp; omega)
  | unicode a b c d h ih => exact ih.trans (by simp; omega)

lemma EndsString.length_le {s rest : Bytes} (h : EndsString s rest) : rest.length ≤ s.length := by
  obtain ⟨-,t,hcopies,rfl | ⟨rfl,-⟩⟩ := h
  · exact (Nat.le_succ _).trans hcopies.length_le
  · exact hcopies.length_le

/-- What the functions of the parser are called on. -/
inductive Part
  | value
  | elements
  | members

/-- A key and its colon, and what they leave over. -/
def EndsKey (s rest : Bytes) : Prop :=
  ∃ k t, jsonSkip s = code '"' :: k ∧ EndsString k t ∧ jsonSkip t = code ':' :: rest

/-- The words of a value. -/
def words : List Bytes := [ascii "null",ascii "false",ascii "true"]

section Grammar
variable (nearest : ℚ≥0 → Option ℚ≥0)

/-- What a part of a text leaves over. The end of a number is up to the C library. -/
inductive Ends : Part → Bytes → Bytes → Prop
  | word {w : Bytes} (hw : w ∈ words) (rest : Bytes) : Ends .value (w ++ rest) rest
  | number {c : UInt8} (hc : c = code '-' ∨ Json.isDigit c) (s : Bytes) :
      Ends .value (c :: s) (parseNumber nearest 0 (c :: s)).2
  | string {s rest : Bytes} (h : EndsString s rest) : Ends .value (code '"' :: s) rest
  | noElements {s rest : Bytes} (h : jsonSkip s = code ']' :: rest) :
      Ends .value (code '[' :: s) rest
  | array {s rest : Bytes} (hne : (jsonSkip s).head? ≠ some (code ']'))
      (h : Ends .elements (jsonSkip s) rest) : Ends .value (code '[' :: s) rest
  | noMembers {s rest : Bytes} (h : jsonSkip s = 0x7d :: rest) : Ends .value (0x7b :: s) rest
  | hash {s rest : Bytes} (hne : (jsonSkip s).head? ≠ some 0x7d)
      (h : Ends .members (jsonSkip s) rest) : Ends .value (0x7b :: s) rest
  | last {s t rest : Bytes} (h : Ends .value (jsonSkip s) t) (hlast : jsonSkip t = code ']' :: rest) :
      Ends .elements s rest
  | more {s t u rest : Bytes} (h : Ends .value (jsonSkip s) t) (hmore : jsonSkip t = code ',' :: u)
      (hrest : Ends .elements u rest) : Ends .elements s rest
  | lastMember {s t u rest : Bytes} (hkey : EndsKey s t) (h : Ends .value (jsonSkip t) u)
      (hlast : jsonSkip u = 0x7d :: rest) : Ends .members s rest
  | moreMembers {s t u v rest : Bytes} (hkey : EndsKey s t) (h : Ends .value (jsonSkip t) u)
      (hmore : jsonSkip u = code ',' :: v) (hrest : Ends .members v rest) : Ends .members s rest

/-- The strings that the parser comes to, each by what stands behind its quote. -/
inductive Meets : Part → Bytes → Bytes → Prop
  | string (s : Bytes) : Meets .value (code '"' :: s) s
  | array {s str : Bytes} (hne : (jsonSkip s).head? ≠ some (code ']'))
      (h : Meets .elements (jsonSkip s) str) : Meets .value (code '[' :: s) str
  | hash {s str : Bytes} (hne : (jsonSkip s).head? ≠ some 0x7d)
      (h : Meets .members (jsonSkip s) str) : Meets .value (0x7b :: s) str
  | element {s str : Bytes} (h : Meets .value (jsonSkip s) str) : Meets .elements s str
  | later {s t u str : Bytes} (hvalue : Ends nearest .value (jsonSkip s) t)
      (hmore : jsonSkip t = code ',' :: u) (h : Meets .elements u str) : Meets .elements s str
  | key {s k : Bytes} (h : jsonSkip s = code '"' :: k) : Meets .members s k
  | member {s t str : Bytes} (hkey : EndsKey s t) (h : Meets .value (jsonSkip t) str) :
      Meets .members s str
  | laterMember {s t u v str : Bytes} (hkey : EndsKey s t)
      (hvalue : Ends nearest .value (jsonSkip t) u) (hmore : jsonSkip u = code ',' :: v)
      (h : Meets .members v str) : Meets .members s str

/-- The parser comes to a string that a loop leaves the text in. -/
def Overreads (part : Part) (s : Bytes) : Prop := ∃ str, Meets nearest part s str ∧ Overruns str

end Grammar

section Grammar
variable {nearest : ℚ≥0 → Option ℚ≥0}

end Grammar

section Exact
variable {nearest : ℚ≥0 → Option ℚ≥0} {α β : Type} {r : Except Stop (Option (α × Bytes))} {part : Part}
  {s : Bytes}

/-- The result of a function on a part of the text, as the grammar has it. -/
structure Exact (nearest : ℚ≥0 → Option ℚ≥0) (part : Part) (s : Bytes)
    (r : Except Stop (Option (α × Bytes))) : Prop where
  ends : ∀ rest, (∃ a, r = .ok (some (a,rest))) ↔ Ends nearest part s rest
  outside : r = .error .outside ↔ Overreads nearest part s
  fuel : r ≠ .error .fuel
  short : ∀ a rest, r = .ok (some (a,rest)) → rest.length ≤ s.length

lemma Exact.map (h : Exact nearest part s r) (f : α → β) :
    Exact nearest part s (r.map (Option.map fun (a,rest) => (f a,rest))) where
  ends rest := by
    rw [← h.ends]
    match r with
    | .error stop => simp [Except.map]
    | .ok none => simp [Except.map]
    | .ok (some (a,rest')) => simp [Except.map]
  outside := by
    rw [← h.outside]
    cases r <;> simp [Except.map]
  fuel := by
    have hfuel := h.fuel
    cases r with
    | error stop => simpa [Except.map] using hfuel
    | ok a => simp [Except.map]
  short b rest hok := by
    match r, hok with
    | .ok (some (a,rest')), hok =>
      cases hok
      exact h.short a rest rfl

lemma length_jsonSkip_le (s : Bytes) : (jsonSkip s).length ≤ s.length :=
  (List.dropWhile_suffix _).length_le

variable {garbage above : Bytes → UInt32} {fuel : ℕ}

/-- What a key leaves over is shorter. -/
theorem EndsKey.length_lt {s rest : Bytes} (h : EndsKey s rest) : rest.length < s.length := by
  obtain ⟨k,t,hquote,hends,hcolon⟩ := h
  have hs := length_jsonSkip_le s
  have ht := length_jsonSkip_le t
  have hk := hends.length_le
  rw [hquote,List.length_cons] at hs
  rw [hcolon,List.length_cons] at ht
  omega

end Exact

section Text
variable (nearest : ℚ≥0 → Option ℚ≥0) (garbage above : Bytes → UInt32)

end Text

end NroParse
end PhpAgent

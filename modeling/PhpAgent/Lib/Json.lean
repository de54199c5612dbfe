import Mathlib.Tactic

/-! A recogniser for JSON texts, byte by byte: a finite control and a stack of open brackets. The
encoding of characters outside ASCII is not checked. -/
namespace PhpAgent.Json

inductive Frame
  | arr
  | obj
  deriving DecidableEq

inductive Literal
  | true
  | false
  | null
  deriving DecidableEq

/-- What has been read. `isKey` tells the strings that are keys from those that are values. -/
inductive Mode
  | value
  | element
  | member
  | key
  | colon
  | after
  | str (isKey : Bool)
  | escape (isKey : Bool)
  | hex (isKey : Bool) (left : ℕ)
  | literal (word : Literal) (read : ℕ)
  | minus
  | zero
  | int
  | point
  | frac
  | exp
  | expSign
  | expDigits
  deriving DecidableEq

structure State where
  mode : Mode
  stack : List Frame
  deriving DecidableEq

/-- The code of an ASCII character. -/
def code (c : Char) : UInt8 := c.toNat.toUInt8

def Literal.text : Literal → List UInt8
  | true => ['t','r','u','e'].map code
  | false => ['f','a','l','s','e'].map code
  | null => ['n','u','l','l'].map code

def isSpace (c : UInt8) : Bool := c == 0x20 || c == 0x09 || c == 0x0a || c == 0x0d
def isDigit (c : UInt8) : Bool := 0x30 ≤ c && c ≤ 0x39
def isHex (c : UInt8) : Bool :=
  isDigit c || (0x41 ≤ c && c ≤ 0x46) || (0x61 ≤ c && c ≤ 0x66)
def isExp (c : UInt8) : Bool := c == code 'e' || c == code 'E'

/-- The modes in which a value may be complete; a number goes on until something else comes. -/
def Mode.done : Mode → Bool
  | after | zero | int | frac | expDigits => true
  | _ => false

/-- The first byte of a value. -/
def first (c : UInt8) (stack : List Frame) : Option State :=
  if c = code '"' then some ⟨.str false,stack⟩
  else if c = code '[' then some ⟨.element,.arr :: stack⟩
  else if c = 0x7b then some ⟨.member,.obj :: stack⟩
  else if c = code '-' then some ⟨.minus,stack⟩
  else if c = code '0' then some ⟨.zero,stack⟩
  else if isDigit c then some ⟨.int,stack⟩
  else if c = code 't' then some ⟨.literal .true 1,stack⟩
  else if c = code 'f' then some ⟨.literal .false 1,stack⟩
  else if c = code 'n' then some ⟨.literal .null 1,stack⟩
  else none

/-- What may follow a complete value. -/
def next (c : UInt8) (stack : List Frame) : Option State :=
  if isSpace c then some ⟨.after,stack⟩
  else
    match stack with
    | [] => none
    | .arr :: rest =>
      if c = code ',' then some ⟨.value,stack⟩
      else if c = code ']' then some ⟨.after,rest⟩
      else none
    | .obj :: rest =>
      if c = code ',' then some ⟨.key,stack⟩
      else if c = 0x7d then some ⟨.after,rest⟩
      else none

def step (c : UInt8) (s : State) : Option State :=
  match s.mode with
  | .value => if isSpace c then some s else first c s.stack
  | .element =>
    if isSpace c then some s
    else if c = code ']' then next c s.stack
    else first c s.stack
  | .member =>
    if isSpace c then some s
    else if c = 0x7d then next c s.stack
    else if c = code '"' then some ⟨.str true,s.stack⟩
    else none
  | .key =>
    if isSpace c then some s
    else if c = code '"' then some ⟨.str true,s.stack⟩
    else none
  | .colon =>
    if isSpace c then some s
    else if c = code ':' then some ⟨.value,s.stack⟩
    else none
  | .after => next c s.stack
  | .str isKey =>
    if c = code '"' then some ⟨if isKey then .colon else .after,s.stack⟩
    else if c = code '\\' then some ⟨.escape isKey,s.stack⟩
    else if c < 0x20 then none
    else some s
  | .escape isKey =>
    if c = code 'u' then some ⟨.hex isKey 4,s.stack⟩
    else if c ∈ ['"','\\','/','b','f','n','r','t'].map code then some ⟨.str isKey,s.stack⟩
    else none
  | .hex isKey left =>
    if isHex c then some ⟨if left ≤ 1 then .str isKey else .hex isKey (left-1),s.stack⟩ else none
  | .literal word read =>
    if word.text[read]? = some c then
      some ⟨if read+1 < word.text.length then .literal word (read+1) else .after,s.stack⟩
    else none
  | .minus =>
    if c = code '0' then some ⟨.zero,s.stack⟩
    else if isDigit c then some ⟨.int,s.stack⟩
    else none
  | .zero =>
    if c = code '.' then some ⟨.point,s.stack⟩
    else if isExp c then some ⟨.exp,s.stack⟩
    else next c s.stack
  | .int =>
    if isDigit c then some s
    else if c = code '.' then some ⟨.point,s.stack⟩
    else if isExp c then some ⟨.exp,s.stack⟩
    else next c s.stack
  | .point => if isDigit c then some ⟨.frac,s.stack⟩ else none
  | .frac =>
    if isDigit c then some s
    else if isExp c then some ⟨.exp,s.stack⟩
    else next c s.stack
  | .exp =>
    if c = code '+' ∨ c = code '-' then some ⟨.expSign,s.stack⟩
    else if isDigit c then some ⟨.expDigits,s.stack⟩
    else none
  | .expSign => if isDigit c then some ⟨.expDigits,s.stack⟩ else none
  | .expDigits => if isDigit c then some s else next c s.stack

def run : State → List UInt8 → Option State
  | s, [] => some s
  | s, c :: cs => (step c s).bind fun s => run s cs

/-- `b` is one JSON value, with white space around it. -/
def accepts (b : List UInt8) : Bool :=
  match run ⟨.value,[]⟩ b with
  | some ⟨m,[]⟩ => m.done
  | _ => false

lemma run_append (s : State) (a b : List UInt8) :
    run s (a ++ b) = (run s a).bind fun s => run s b := by
  induction a generalizing s with
  | nil => rfl
  | cons c a ih =>
    simp only [List.cons_append,run]
    cases step c s with
    | none => rfl
    | some s => exact ih s

lemma run_trans {s s₁ s₂ : State} {a b : List UInt8} (ha : run s a = some s₁)
    (hb : run s₁ b = some s₂) : run s (a ++ b) = some s₂ := by
  rw [run_append,ha,Option.bind_some,hb]

variable {b : List UInt8} {c : UInt8}

lemma run_cons {s s₁ s₂ : State} (hc : step c s = some s₁)
    (hb : run s₁ b = some s₂) : run s (c :: b) = some s₂ := by
  rw [run,hc,Option.bind_some,hb]

/-! ### The stack below a value is not read -/

def State.below (s : State) (stack : List Frame) : State := ⟨s.mode,s.stack ++ stack⟩

variable {s : State} {stack : List Frame}

lemma first_below (h : first c stack = some s)
    (more : List Frame) : first c (stack ++ more) = some (s.below more) := by
  unfold first at h ⊢
  split_ifs at h ⊢ <;> cases h <;> rfl

lemma next_below (h : next c stack = some s)
    (more : List Frame) : next c (stack ++ more) = some (s.below more) := by
  cases stack with
  | nil =>
    unfold next at h ⊢
    split_ifs at h with hs
    cases h
    rw [if_pos hs]
    rfl
  | cons frame rest =>
    cases frame <;>
      (simp only [next,List.cons_append] at h ⊢
       split_ifs at h ⊢ <;> cases h <;> rfl)

lemma step_below {s s' : State} (h : step c s = some s') (more : List Frame) :
    step c (s.below more) = some (s'.below more) := by
  obtain ⟨m,stack⟩ := s
  simp only [State.below]
  cases m with
  | after => exact next_below h more
  | _ =>
    simp only [step] at h ⊢
    split_ifs at h ⊢ <;> first
      | exact next_below h more
      | exact first_below h more
      | (cases h; done)
      | (cases h; rfl)

lemma run_below {s s' : State} (h : run s b = some s') (more : List Frame) :
    run (s.below more) b = some (s'.below more) := by
  induction b generalizing s with
  | nil =>
    cases h
    rfl
  | cons c b ih =>
    obtain ⟨s₁,hs₁,h⟩ := Option.bind_eq_some_iff.mp h
    exact run_cons (step_below hs₁ more) (ih h)

/-- A JSON text is read as one value wherever a value may stand. -/
theorem run_of_accepts (h : accepts b = true) (stack : List Frame) :
    ∃ m : Mode, m.done = true ∧ run ⟨.value,stack⟩ b = some ⟨m,stack⟩ := by
  unfold accepts at h
  split at h
  · rename_i m hrun
    exact ⟨m,h,run_below hrun stack⟩
  · cases h

/-! ### Where a value ends -/

/-- The bytes that end a value. -/
def IsEnd (c : UInt8) : Prop := c = code ',' ∨ c = code ']' ∨ c = 0x7d

variable {m : Mode}

lemma step_of_done (hm : m.done = true) (hc : IsEnd c)
    (stack : List Frame) : step c ⟨m,stack⟩ = next c stack := by
  cases m with
  | after => rfl
  | zero => rcases hc with rfl | rfl | rfl <;> rfl
  | int => rcases hc with rfl | rfl | rfl <;> rfl
  | frac => rcases hc with rfl | rfl | rfl <;> rfl
  | expDigits => rcases hc with rfl | rfl | rfl <;> rfl
  | _ => cases hm

/-- An opening brace never completes a value. -/
theorem step_brace {s s' : State} (h : step 0x7b s = some s') : s'.mode.done = false := by
  obtain ⟨m,stack⟩ := s
  have hnext : ∀ stack, next 0x7b stack = none := by
    intro stack
    match stack with
    | [] => rfl
    | .arr :: rest => rfl
    | .obj :: rest => rfl
  cases m with
  | literal word read =>
    have hnot : ∀ w : Literal, (0x7b : UInt8) ∉ w.text := by
      intro w
      cases w <;> decide
    have hx : word.text[read]? ≠ some 0x7b := fun hx => hnot word (List.mem_of_getElem? hx)
    simp [step,hx] at h
  | _ =>
    first
      | (cases h; done)
      | (cases h; rfl)
      | (rw [show step 0x7b _ = next 0x7b stack from rfl,hnext] at h; cases h)

lemma getLast?_ne_brace {s s' : State} (h : run s b = some s')
    (hdone : s'.mode.done = true) : b.getLast? ≠ some 0x7b := by
  intro hlast
  rw [← List.dropLast_append_getLast? _ hlast,run_append] at h
  obtain ⟨s₁,-,h⟩ := Option.bind_eq_some_iff.mp h
  obtain ⟨s₂,h₂,h⟩ := Option.bind_eq_some_iff.mp h
  cases h
  rw [step_brace h₂] at hdone
  cases hdone

/-! ### Arrays and objects -/

namespace Frame

/-- The mode after the opening bracket, and the one after a comma. -/
def opened : Frame → Mode
  | arr => .element
  | obj => .member
def start : Frame → Mode
  | arr => .value
  | obj => .key

def openByte : Frame → UInt8
  | arr => code '['
  | obj => 0x7b
def closeByte : Frame → UInt8
  | arr => code ']'
  | obj => 0x7d

end Frame

/-- One or more elements or members, with commas between them. -/
def Content (f : Frame) (b : List UInt8) : Prop :=
  ∀ stack, ∃ m : Mode, m.done = true ∧ run ⟨f.start,f :: stack⟩ b = some ⟨m,f :: stack⟩

lemma content_of_accepts (h : accepts b = true) : Content .arr b :=
  fun stack => run_of_accepts h (.arr :: stack)

variable {f : Frame}

/-- Content may also stand right after the opening bracket. -/
theorem run_opened (h : run ⟨f.start,f :: stack⟩ b = some s) (hdone : s.mode.done = true) :
    run ⟨f.opened,f :: stack⟩ b = some s := by
  induction b with
  | nil =>
    cases h
    cases f <;> cases hdone
  | cons c b ih =>
    obtain ⟨s₁,h₁,hb⟩ := Option.bind_eq_some_iff.mp h
    cases f with
    | arr =>
      simp only [Frame.start,step] at h₁
      by_cases hs : isSpace c = true
      · rw [if_pos hs] at h₁
        cases h₁
        exact run_cons (by simp [Frame.opened,step,hs]) (ih hb)
      · rw [if_neg hs] at h₁
        have hc : c ≠ code ']' := by
          rintro rfl
          cases h₁
        exact run_cons (by simp [Frame.opened,step,hs,hc,h₁]) hb
    | obj =>
      simp only [Frame.start,step] at h₁
      by_cases hs : isSpace c = true
      · rw [if_pos hs] at h₁
        cases h₁
        exact run_cons (by simp [Frame.opened,step,hs]) (ih hb)
      · rw [if_neg hs] at h₁
        have hc : c ≠ 0x7d := by
          rintro rfl
          cases h₁
        exact run_cons (by simp [Frame.opened,step,hs,hc,h₁]) hb

lemma next_comma (f : Frame) (stack : List Frame) :
    next (code ',') (f :: stack) = some ⟨f.start,f :: stack⟩ := by
  cases f <;> rfl

lemma next_close (f : Frame) (stack : List Frame) :
    next f.closeByte (f :: stack) = some ⟨.after,stack⟩ := by
  cases f <;> rfl

lemma isEnd_close (f : Frame) : IsEnd f.closeByte := by
  cases f
  · exact .inr (.inl rfl)
  · exact .inr (.inr rfl)

lemma Content.join {a b : List UInt8} (ha : Content f a) (hb : Content f b) :
    Content f (a ++ code ',' :: b) := by
  intro stack
  obtain ⟨m,hm,ha⟩ := ha stack
  obtain ⟨m',hm',hb⟩ := hb stack
  refine ⟨m',hm',run_trans ha (run_cons ?_ hb)⟩
  rw [step_of_done hm (.inl rfl),next_comma]

lemma Content.intercalate {bs : List (List UInt8)} (hne : bs ≠ [])
    (h : ∀ b ∈ bs, Content f b) : Content f ([code ','].intercalate bs) := by
  induction bs with
  | nil => exact absurd rfl hne
  | cons b bs ih =>
    cases bs with
    | nil => simpa [List.intercalate] using h b (by simp)
    | cons c bs =>
      have hrest := ih (by simp) fun x hx => h x (by simp [hx])
      have hjoin := (h b (by simp)).join hrest
      simpa [List.intercalate,List.intersperse] using hjoin

lemma content_of_forall {bs : List (List UInt8)} (h : ∀ b ∈ bs, Content f b) :
    [code ','].intercalate bs = [] ∨ Content f ([code ','].intercalate bs) := by
  cases bs with
  | nil => exact .inl rfl
  | cons b bs => exact .inr (Content.intercalate (by simp) h)

lemma run_bracket (h : b = [] ∨ Content f b) (stack : List Frame) :
    run ⟨.value,stack⟩ (f.openByte :: (b ++ [f.closeByte])) = some ⟨.after,stack⟩ := by
  have hopen : step f.openByte ⟨.value,stack⟩ = some ⟨f.opened,f :: stack⟩ := by cases f <;> rfl
  refine run_cons hopen ?_
  rcases h with rfl | h
  · cases f <;> rfl
  · obtain ⟨m,hm,h⟩ := h stack
    refine run_trans (run_opened h hm) (run_cons ?_ rfl)
    rw [step_of_done hm (isEnd_close f),next_close]

lemma accepts_bracket (h : b = [] ∨ Content f b) : accepts (f.openByte :: (b ++ [f.closeByte])) = true := by
  simp [accepts,run_bracket h [],Mode.done]

/-! ### Strings -/

/-- What may stand between the quotes of a string. -/
def Plain (b : List UInt8) : Prop :=
  ∀ isKey stack, run ⟨.str isKey,stack⟩ b = some ⟨.str isKey,stack⟩

lemma Plain.nil : Plain [] := fun _ _ => rfl

lemma Plain.append {a b : List UInt8} (ha : Plain a) (hb : Plain b) : Plain (a ++ b) :=
  fun isKey stack => run_trans (ha isKey stack) (hb isKey stack)

lemma plain_byte (hlow : ¬ c < 0x20) (hquote : c ≠ code '"') (hslash : c ≠ code '\\') : Plain [c] := by
  intro isKey stack
  exact run_cons (by simp [step,hlow,hquote,hslash]) rfl

lemma plain_escape (hc : c ∈ ['"','\\','/','b','f','n','r','t'].map code) : Plain [code '\\',c] := by
  intro isKey stack
  have hu : c ≠ code 'u' := by
    rintro rfl
    exact absurd hc (by decide)
  exact run_cons rfl (run_cons (by simp only [step,if_neg hu,if_pos hc]) rfl)

lemma plain_unicode {a b c d : UInt8} (ha : isHex a = true) (hb : isHex b = true)
    (hc : isHex c = true) (hd : isHex d = true) : Plain [code '\\',code 'u',a,b,c,d] := by
  intro isKey stack
  refine run_cons rfl (run_cons rfl ?_)
  simp [run,step,ha,hb,hc,hd]

/-- A string with its quotes. -/
def quoted (b : List UInt8) : List UInt8 := code '"' :: (b ++ [code '"'])

lemma accepts_quoted (h : Plain b) : accepts (quoted b) = true := by
  have hrun : run ⟨.value,[]⟩ (quoted b) = some ⟨.after,[]⟩ :=
    run_cons rfl (run_trans (h false []) rfl)
  simp [accepts,hrun,Mode.done]

lemma run_key (h : Plain b) (stack : List Frame) : run ⟨.key,stack⟩ (quoted b) = some ⟨.colon,stack⟩ :=
  run_cons rfl (run_trans (h true stack) rfl)

lemma content_member {k v : List UInt8} (hk : Plain k) (hv : accepts v = true) :
    Content .obj (quoted k ++ code ':' :: v) := by
  intro stack
  obtain ⟨m,hm,hrun⟩ := run_of_accepts hv (.obj :: stack)
  exact ⟨m,hm,run_trans (run_key hk _) (run_cons rfl hrun)⟩

/-! ### Numbers -/

variable {ds : List UInt8}

lemma run_digits (hm : m = .int ∨ m = .frac)
    (h : ∀ d ∈ ds, isDigit d = true) (stack : List Frame) : run ⟨m,stack⟩ ds = some ⟨m,stack⟩ := by
  induction ds with
  | nil => rfl
  | cons d ds ih =>
    refine run_cons ?_ (ih fun x hx => h x (by simp [hx]))
    have hd := h d (by simp)
    rcases hm with rfl | rfl <;> simp [step,hd]

/-- The digits of a number without leading zeros. -/
def decimal (n : ℕ) : List UInt8 := (Nat.toDigits 10 n).map code

lemma isDigit_digitChar {n : ℕ} (h : n < 10) : isDigit (code n.digitChar) = true := by
  interval_cases n <;> rfl

/-- A number may start with any digit but zero, also after its sign. -/
theorem step_digitChar {n : ℕ} (h : n < 10) (hn : n ≠ 0) (hm : m = .value ∨ m = .minus)
    (stack : List Frame) : step (code n.digitChar) ⟨m,stack⟩ = some ⟨.int,stack⟩ := by
  rcases hm with rfl | rfl <;> interval_cases n <;> first | rfl | exact absurd rfl hn

lemma isDigit_decimal (n : ℕ) : ∀ d ∈ decimal n, isDigit d = true := by
  induction n using Nat.strong_induction_on with
  | _ n ih =>
    unfold decimal
    by_cases hn : n < 10
    · rw [Nat.toDigits_of_lt_base hn]
      simpa using isDigit_digitChar hn
    · rw [Nat.toDigits_of_base_le (by decide) (by omega),List.map_append]
      intro d hd
      rcases List.mem_append.mp hd with hd | hd
      · exact ih (n/10) (by omega) d hd
      · rw [List.map_singleton,List.mem_singleton] at hd
        rw [hd]
        exact isDigit_digitChar (Nat.mod_lt _ (by decide))

lemma plain_of_digits (h : ∀ d ∈ ds, isDigit d = true) : Plain ds := by
  induction ds with
  | nil => exact .nil
  | cons d ds ih =>
    have hd := h d (by simp)
    have hplain : Plain [d] := by
      simp only [isDigit,Bool.and_eq_true,decide_eq_true_eq] at hd
      apply plain_byte
      · exact UInt8.not_lt.mpr (UInt8.le_trans (show (0x20 : UInt8) ≤ 0x30 by decide) hd.1)
      · rintro rfl
        exact absurd hd (by decide)
      · rintro rfl
        exact absurd hd (by decide)
    exact hplain.append (ih fun x hx => h x (by simp [hx]))

lemma run_decimal_pos {n : ℕ} (hn : n ≠ 0) (hm : m = .value ∨ m = .minus)
    (stack : List Frame) : run ⟨m,stack⟩ (decimal n) = some ⟨.int,stack⟩ := by
  induction n using Nat.strong_induction_on with
  | _ n ih =>
    unfold decimal
    by_cases hlt : n < 10
    · rw [Nat.toDigits_of_lt_base hlt]
      exact run_cons (step_digitChar hlt hn hm stack) rfl
    · rw [Nat.toDigits_of_base_le (by decide) (by omega),List.map_append]
      refine run_trans (ih (n/10) (by omega) (by omega)) (run_digits (.inl rfl) ?_ stack)
      intro d hd
      rw [List.map_singleton,List.mem_singleton] at hd
      rw [hd]
      exact isDigit_digitChar (Nat.mod_lt _ (by decide))

/-- The integer part of a number, after its sign if it has one. -/
theorem run_decimal (n : ℕ) (hm : m = .value ∨ m = .minus) (stack : List Frame) :
    ∃ m', (m' = .zero ∨ m' = .int) ∧ run ⟨m,stack⟩ (decimal n) = some ⟨m',stack⟩ := by
  by_cases hn : n = 0
  · subst hn
    exact ⟨.zero,.inl rfl,by rcases hm with rfl | rfl <;> rfl⟩
  · exact ⟨.int,.inr rfl,run_decimal_pos hn hm stack⟩

lemma accepts_of_run (hm : m.done = true) (h : run ⟨.value,[]⟩ b = some ⟨m,[]⟩) : accepts b = true := by
  simp [accepts,h,hm]

lemma accepts_decimal (n : ℕ) : accepts (decimal n) = true := by
  obtain ⟨m,hm,hrun⟩ := run_decimal n (.inl rfl) []
  exact accepts_of_run (by rcases hm with rfl | rfl <;> rfl) hrun

lemma accepts_minus_decimal (n : ℕ) : accepts (code '-' :: decimal n) = true := by
  obtain ⟨m,hm,hrun⟩ := run_decimal n (.inr rfl) []
  exact accepts_of_run (by rcases hm with rfl | rfl <;> rfl) (run_cons rfl hrun)

/-- A number with a fractional part, after its sign if it has one. -/
theorem run_fraction (n : ℕ) (hne : ds ≠ []) (hds : ∀ d ∈ ds, isDigit d = true)
    (hm : m = .value ∨ m = .minus) (stack : List Frame) :
    run ⟨m,stack⟩ (decimal n ++ code '.' :: ds) = some ⟨.frac,stack⟩ := by
  obtain ⟨m',hm',hrun⟩ := run_decimal n hm stack
  have hpoint : step (code '.') ⟨m',stack⟩ = some ⟨.point,stack⟩ := by
    rcases hm' with rfl | rfl <;> rfl
  refine run_trans hrun (run_cons hpoint ?_)
  cases ds with
  | nil => exact absurd rfl hne
  | cons d ds =>
    have hd : step d ⟨.point,stack⟩ = some ⟨.frac,stack⟩ := by
      simp [step,hds d (by simp)]
    exact run_cons hd (run_digits (.inr rfl) (fun x hx => hds x (by simp [hx])) stack)

/-! ### Objects written from left to right -/

/-- After `b` an object is open: either right after its brace, or after a member. -/
def Inside (s : State) (stack : List Frame) (b : List UInt8) : Prop :=
  b.getLast? = some 0x7b ∧ run s b = some ⟨.member,.obj :: stack⟩ ∨
    b.getLast? ≠ some 0x7b ∧ ∃ m : Mode, m.done = true ∧ run s b = some ⟨m,.obj :: stack⟩

/-- A comma unless the text ends in an opening brace. -/
def separator (b : List UInt8) : List UInt8 := if b.getLast? = some 0x7b then [] else [code ',']

lemma Inside.members {a b : List UInt8} (ha : Inside s stack a)
    (hb : Content .obj b) : Inside s stack (a ++ separator a ++ b) := by
  obtain ⟨m,hm,hrun⟩ := hb stack
  have hall : run s (a ++ separator a ++ b) = some ⟨m,.obj :: stack⟩ := by
    unfold separator
    rcases ha with ⟨hlast,ha⟩ | ⟨hlast,m',hm',ha⟩
    · rw [if_pos hlast,List.append_nil]
      exact run_trans ha (run_opened hrun hm)
    · rw [if_neg hlast]
      have hcomma : step (code ',') ⟨m',.obj :: stack⟩ = some ⟨.key,.obj :: stack⟩ := by
        rw [step_of_done hm' (.inl rfl),next_comma]
        rfl
      exact run_trans (run_trans ha (run_cons hcomma rfl)) hrun
  exact .inr ⟨getLast?_ne_brace hall hm,m,hm,hall⟩

lemma Inside.close (h : Inside s stack b) : run s (b ++ [0x7d]) = some ⟨.after,stack⟩ := by
  rcases h with ⟨-,h⟩ | ⟨-,m,hm,h⟩
  · exact run_trans h rfl
  · refine run_trans h (run_cons ?_ rfl)
    rw [step_of_done hm (.inr (.inr rfl))]
    exact next_close .obj stack

end PhpAgent.Json

import PhpAgent.Agent.Postgres

/-! Connection strings that are written as libpq has it are read back, whatever the order of their
parameters. -/
namespace PhpAgent
namespace Postgres

open Json (code)
open CString (stringAt stringAt_append)

/-! ### Written connection strings -/

/-- A byte of a value, with a backslash in front or without. -/
structure Item where
  char : UInt8
  escaped : Bool

def Item.text (it : Item) : Bytes := if it.escaped then [code '\\',it.char] else [it.char]

/-- What may stand in a bare value: blanks and backslashes are escaped. -/
def Item.IsBare (it : Item) : Prop :=
  it.char ≠ 0 ∧ (it.escaped = false → isspace it.char = false ∧ it.char ≠ code '\\')

/-- What may stand in a quoted value: quotes and backslashes are escaped. -/
def Item.IsQuoted (it : Item) : Prop :=
  it.char ≠ 0 ∧ (it.escaped = false → it.char ≠ code '\'' ∧ it.char ≠ code '\\')

instance (it : Item) : Decidable it.IsBare := inferInstanceAs (Decidable (_ ∧ _))
instance (it : Item) : Decidable it.IsQuoted := inferInstanceAs (Decidable (_ ∧ _))

/-- A parameter as it is written. An empty value is quoted, and a bare one does not start with a
quote. -/
structure Parameter where
  keyword : Bytes
  before : Bytes
  after : Bytes
  quoted : Bool
  items : List Item
  behind : Bytes
  keyword_ne_nil : keyword ≠ []
  keyword_char : ∀ c ∈ keyword, c ≠ 0 ∧ c ≠ code '=' ∧ isspace c = false
  before_blank : ∀ c ∈ before, isspace c = true
  after_blank : ∀ c ∈ after, isspace c = true
  behind_blank : ∀ c ∈ behind, isspace c = true
  items_quoted : quoted = true → ∀ it ∈ items, it.IsQuoted
  items_bare : quoted = false → items ≠ [] ∧ (items.flatMap Item.text).head? ≠ some (code '\'') ∧
    ∀ it ∈ items, it.IsBare

namespace Parameter

def value (p : Parameter) : Bytes := p.items.map Item.char

/-- The value with its quotes. -/
def valueText (p : Parameter) : Bytes :=
  if p.quoted then code '\'' :: (p.items.flatMap Item.text ++ [code '\'']) else p.items.flatMap Item.text

def text (p : Parameter) : Bytes :=
  p.keyword ++ (p.before ++ (code '=' :: (p.after ++ (p.valueText ++ p.behind))))

/-- The keyword and the value. -/
def pair (p : Parameter) : Bytes × Bytes := (p.keyword,p.value)

end Parameter

/-- Blanks end a bare value that is not the last. -/
def Separated : List Parameter → Prop
  | [] => True
  | p :: ps => (p.quoted = true ∨ p.behind ≠ [] ∨ ps = []) ∧ Separated ps

/-- A connection string with distinct keywords. -/
structure ConnString where
  lead : Bytes
  parameters : List Parameter
  lead_blank : ∀ c ∈ lead, isspace c = true
  separated : Separated parameters
  distinct : (parameters.map Parameter.keyword).Nodup

namespace ConnString

def text (s : ConnString) : Bytes := s.lead ++ s.parameters.flatMap Parameter.text

def pairs (s : ConnString) : List (Bytes × Bytes) := s.parameters.map Parameter.pair

end ConnString

/-- What is to be found: of the host by its address or else by its name, of the database or else of the
user. -/
def chosen (pairs : List (Bytes × Bytes)) : ConnInfo where
  host := (pairs.lookup (ascii "hostaddr")).or (pairs.lookup (ascii "host"))
  portPathOrId := pairs.lookup (ascii "port")
  databaseName := (pairs.lookup (ascii "dbname")).or (pairs.lookup (ascii "user"))

/-! ### Blanks and names -/

lemma ne_zero_of_isspace {c : UInt8} (h : isspace c = true) : c ≠ 0 := by
  rintro rfl
  cases h

/-- The cursor behind one more byte. -/
theorem length_succ (a : Bytes) (c : UInt8) : a.length+1 = (a ++ [c]).length := by simp

lemma skipBlanks_spec (blanks : Bytes) (hblank : ∀ c ∈ blanks, isspace c = true) {c : UInt8}
    (hc : isspace c = false) (a b : Bytes) (fuel : ℕ) (hfuel : blanks.length < fuel) :
    skipBlanks fuel (a ++ (blanks ++ c :: b)) a.length = .ok (a ++ blanks).length := by
  induction blanks generalizing fuel a with
  | nil =>
    obtain ⟨fuel,rfl⟩ := Nat.exists_eq_add_of_lt hfuel
    rw [List.nil_append,List.append_nil,List.length_nil,zero_add,skipBlanks,get_append,ok_bind,hc]
    by_cases hzero : c = 0
    · rw [if_pos hzero]
      rfl
    · rw [if_neg hzero]
      rfl
  | cons d blanks ih =>
    obtain ⟨fuel,rfl⟩ := Nat.exists_eq_add_of_lt hfuel
    have hd := hblank d List.mem_cons_self
    have hrest := ih (fun e he => hblank e (List.mem_cons_of_mem d he)) (a ++ [d])
      (blanks.length+1+fuel) (by omega)
    rw [List.cons_append,skipBlanks,get_append,ok_bind,if_neg (ne_zero_of_isspace hd),hd]
    simpa using hrest

/-- The name is ended by a zero, over the first blank behind it or over the equals sign. -/
theorem readName_spec (name before b : Bytes)
    (hname : ∀ c ∈ name, c ≠ 0 ∧ c ≠ code '=' ∧ isspace c = false)
    (hbefore : ∀ c ∈ before, isspace c = true) (a : Bytes) (fuel : ℕ)
    (hfuel : name.length+before.length+1 < fuel) :
    ∃ z, readName fuel (a ++ (name ++ (before ++ code '=' :: b))) a.length =
      .ok (a ++ (name ++ z) ++ code '=' :: b,(a ++ (name ++ z)).length) ∧
      ∃ z', z ++ [0] = 0 :: z' ∧ z.length = before.length := by
  induction name generalizing fuel a with
  | nil =>
    obtain ⟨fuel,rfl⟩ := Nat.exists_eq_add_of_lt hfuel
    cases before with
    | nil =>
      refine ⟨[],?_,[],rfl,rfl⟩
      have hne : ¬code '=' = 0 := by decide
      rw [List.nil_append,List.nil_append,readName,get_append]
      simp only [ok_bind,hne,if_true,if_false,List.append_nil]
      rfl
    | cons d before =>
      have hd := hbefore d List.mem_cons_self
      have hne : d ≠ code '=' := by
        rintro rfl
        cases hd
      refine ⟨0 :: before,?_,before ++ [0],rfl,rfl⟩
      have hskip := skipBlanks_spec before (fun c hc => hbefore c (List.mem_cons_of_mem d hc))
        (show isspace (code '=') = false by decide) (a ++ [0]) b
        (([] : Bytes).length+(d :: before).length+1+fuel) (by simp; omega)
      have hmem : a ++ 0 :: (before ++ code '=' :: b) = (a ++ [0]) ++ (before ++ code '=' :: b) := by
        simp
      rw [List.nil_append,List.cons_append,readName,get_append]
      simp only [ok_bind]
      rw [if_neg (ne_zero_of_isspace hd),if_neg hne,if_pos hd,put_append_cons,ok_bind,hmem,length_succ a 0,hskip,
        ok_bind]
      simp
      rfl
  | cons c name ih =>
    obtain ⟨fuel,rfl⟩ := Nat.exists_eq_add_of_lt hfuel
    obtain ⟨hzero,hequals,hspace⟩ := hname c List.mem_cons_self
    obtain ⟨z,hrun,hz⟩ := ih (fun d hd => hname d (List.mem_cons_of_mem c hd)) (a ++ [c])
      (name.length+before.length+2+fuel) (by omega)
    refine ⟨z,?_,hz⟩
    have hlength : (c :: name).length+before.length+1+fuel = name.length+before.length+2+fuel := by
      simp only [List.length_cons]
      omega
    rw [List.cons_append,readName,get_append]
    simp only [ok_bind,hzero,hequals,hspace,Bool.false_eq_true,if_false,hlength]
    simpa using hrun

/-! ### Values -/

/-- A byte is written at the start of a gap, which then starts behind it. -/
theorem put_gap {g t g' : Bytes} {x : UInt8} (hgap : g ++ t = x :: g') (a s : Bytes) (c : UInt8) :
    put (a ++ (g ++ (t ++ s))) a.length [c] = .ok ((a ++ [c]) ++ (g' ++ s)) := by
  rw [← List.append_assoc g,hgap,List.cons_append,put_append_cons]
  simp

lemma exists_gap (g : Bytes) {t : Bytes} (ht : t ≠ []) :
    ∃ x g', g ++ t = x :: g' ∧ g'.length+1 = g.length+t.length := by
  obtain ⟨x,g',hgap⟩ := List.exists_cons_of_ne_nil (List.append_ne_nil_of_right_ne_nil g ht)
  refine ⟨x,g',hgap,?_⟩
  have hlength := congrArg List.length hgap
  rw [List.length_append,List.length_cons] at hlength
  omega

lemma Item.text_ne_nil (it : Item) : it.text ≠ [] := by
  unfold Item.text
  split_ifs <;> simp

/-- The two bytes of an escape. -/
theorem get_escape (a g s : Bytes) (c d : UInt8) :
    get (a ++ (g ++ ([c,d] ++ s))) (a ++ g).length = .ok c ∧
      get (a ++ (g ++ ([c,d] ++ s))) ((a ++ g).length+1) = .ok d := by
  constructor
  · rw [← List.append_assoc]
    exact get_append _ _ _
  · have hmem : a ++ (g ++ ([c,d] ++ s)) = (a ++ g ++ [c]) ++ d :: s := by simp
    rw [hmem,length_succ (a ++ g) c]
    exact get_append _ _ _

/-- Both cursors have moved over what was read and written. -/
theorem length_after {g g' t : Bytes} (hlength : g'.length+1 = g.length+t.length) (a : Bytes) (c : UInt8) :
    (a ++ g).length+t.length = ((a ++ [c]) ++ g').length ∧ a.length+1 = (a ++ [c]).length := by
  have hsum : ((a ++ [c]) ++ g').length = a.length+1+g'.length := by
    rw [List.length_append,List.length_append,List.length_singleton]
  rw [hsum,List.length_append]
  exact ⟨by omega,length_succ a c⟩

/-- A reader of values moves the byte of an item to the front of the gap. -/
def Moves {β : Type} (read : ℕ → Bytes → ℕ → ℕ → Except Stop β) (P : Item → Prop) : Prop :=
  ∀ it, P it → ∀ a g s, ∃ g', ∀ fuel, read (fuel+1) (a ++ (g ++ (it.text ++ s))) (a ++ g).length a.length =
    read fuel ((a ++ [it.char]) ++ (g' ++ s)) ((a ++ [it.char]) ++ g').length (a ++ [it.char]).length

section Moves
variable {β : Type} {read : ℕ → Bytes → ℕ → ℕ → Except Stop β} {P : Item → Prop}

lemma moves_of_reads
    (hplain : ∀ it, P it → it.escaped = false → ∀ fuel mem cp cp2, get mem cp = .ok it.char →
      read (fuel+1) mem cp cp2 = put mem cp2 [it.char] >>= fun mem => read fuel mem (cp+1) (cp2+1))
    (hescape : ∀ it, P it → ∀ fuel mem cp cp2, get mem cp = .ok (code '\\') →
      get mem (cp+1) = .ok it.char →
      read (fuel+1) mem cp cp2 = put mem cp2 [it.char] >>= fun mem => read fuel mem (cp+2) (cp2+1)) :
    Moves read P := by
  intro it hit a g s
  obtain ⟨x,g',hgap,hlength⟩ := exists_gap g it.text_ne_nil
  have hput := put_gap hgap a s it.char
  obtain ⟨hcp,hcp2⟩ := length_after hlength a it.char
  refine ⟨g',fun fuel => ?_⟩
  rw [← hcp,← hcp2]
  cases hesc : it.escaped with
  | false =>
    have htext : it.text = [it.char] := by simp [Item.text,hesc]
    rw [htext] at hput ⊢
    have hget : get (a ++ (g ++ ([it.char] ++ s))) (a ++ g).length = .ok it.char := by
      rw [← List.append_assoc]
      exact get_append _ _ _
    rw [hplain it hit hesc _ _ _ _ hget,hput,ok_bind,List.length_singleton]
  | true =>
    have htext : it.text = [code '\\',it.char] := by simp [Item.text,hesc]
    rw [htext] at hput ⊢
    obtain ⟨hget,hget'⟩ := get_escape a g s (code '\\') it.char
    rw [hescape it hit _ _ _ _ hget hget',hput,ok_bind]
    rfl

/-- All bytes of a value are moved to the front of the gap. -/
theorem Moves.items (h : Moves read P) (items : List Item) (hitems : ∀ it ∈ items, P it) (a g s : Bytes) :
    ∃ g', ∀ fuel,
      read (items.length+fuel) (a ++ (g ++ (items.flatMap Item.text ++ s))) (a ++ g).length a.length =
        read fuel ((a ++ items.map Item.char) ++ (g' ++ s)) ((a ++ items.map Item.char) ++ g').length
          (a ++ items.map Item.char).length := by
  induction items generalizing a g with
  | nil => exact ⟨g,fun fuel => by simp⟩
  | cons it items ih =>
    obtain ⟨g₁,hstep⟩ := h it (hitems it List.mem_cons_self) a g (items.flatMap Item.text ++ s)
    obtain ⟨g₂,hrest⟩ := ih (fun it' hmem => hitems it' (List.mem_cons_of_mem it hmem)) (a ++ [it.char]) g₁
    refine ⟨g₂,fun fuel => ?_⟩
    rw [List.flatMap_cons,List.append_assoc,List.length_cons,Nat.add_right_comm,hstep,hrest]
    simp

end Moves

lemma moves_readBare : Moves readBare Item.IsBare := by
  apply moves_of_reads
  · intro it hit hesc fuel mem cp cp2 hget
    obtain ⟨hspace,hslash⟩ := hit.2 hesc
    simp [readBare,hget,hit.1,hspace,hslash]
  · intro it hit fuel mem cp cp2 hget hget'
    have hslash : ¬code '\\' = 0 ∧ isspace (code '\\') = false := by decide
    simp [readBare,hget,hget',hit.1,hslash]

lemma moves_readQuoted : Moves readQuoted Item.IsQuoted := by
  apply moves_of_reads
  · intro it hit hesc fuel mem cp cp2 hget
    obtain ⟨hquote,hslash⟩ := hit.2 hesc
    simp [readQuoted,hget,hit.1,hquote,hslash]
  · intro it hit fuel mem cp cp2 hget hget'
    have hslash : ¬code '\\' = 0 := by decide
    simp [readQuoted,hget,hget',hit.1,hslash]

/-! ### The ends of values -/

/-- A blank ends a bare value. -/
theorem readBare_blank {b : UInt8} (hb : isspace b = true) (a g s : Bytes) (fuel : ℕ) :
    ∃ z, readBare (fuel+1) (a ++ (g ++ b :: s)) (a ++ g).length a.length =
      .ok ((a ++ 0 :: z) ++ s,(a ++ 0 :: z).length) ∧ z.length = g.length := by
  obtain ⟨x,z,hgap,hlength⟩ := exists_gap g (List.cons_ne_nil 0 [])
  have hget : get (a ++ (g ++ b :: s)) (a ++ g).length = .ok b := by
    rw [← List.append_assoc]
    exact get_append _ _ _
  have hzero : put (a ++ (g ++ b :: s)) (a ++ g).length [0] = .ok (a ++ (g ++ ([0] ++ s))) := by
    rw [← List.append_assoc,put_append_cons]
    simp
  obtain ⟨hcp,-⟩ := length_after hlength a 0
  rw [List.length_singleton] at hcp
  refine ⟨z,?_,by simpa using hlength⟩
  rw [readBare,hget,ok_bind,if_neg (ne_zero_of_isspace hb),if_pos hb,hzero,ok_bind,
    put_gap hgap a s 0,ok_bind,hcp]
  simp
  rfl

/-- The end of the string ends a bare value. -/
theorem readBare_end (a g s : Bytes) (fuel : ℕ) :
    ∃ w z, readBare (fuel+1) (a ++ (g ++ 0 :: s)) (a ++ g).length a.length =
      .ok ((a ++ w) ++ 0 :: s,(a ++ w).length) ∧ w ++ [0] = 0 :: z := by
  have hget : get (a ++ (g ++ 0 :: s)) (a ++ g).length = .ok 0 := by
    rw [← List.append_assoc]
    exact get_append _ _ _
  cases g with
  | nil =>
    refine ⟨[],[],?_,rfl⟩
    rw [readBare,hget,ok_bind,if_pos rfl,List.nil_append,put_append_cons]
    simp
  | cons x g =>
    refine ⟨0 :: g,g ++ [0],?_,rfl⟩
    rw [readBare,hget,ok_bind,if_pos rfl,List.cons_append,put_append_cons]
    simp

/-- A quote ends a quoted value. -/
theorem readQuoted_quote (a g s : Bytes) (fuel : ℕ) :
    ∃ z, readQuoted (fuel+1) (a ++ (g ++ code '\'' :: s)) (a ++ g).length a.length =
      .ok ((a ++ 0 :: z) ++ s,some (a ++ 0 :: z).length) := by
  obtain ⟨x,z,hgap,hlength⟩ := exists_gap g (List.cons_ne_nil (code '\'') [])
  have hget : get (a ++ (g ++ code '\'' :: s)) (a ++ g).length = .ok (code '\'') := by
    rw [← List.append_assoc]
    exact get_append _ _ _
  obtain ⟨hcp,-⟩ := length_after hlength a 0
  rw [List.length_singleton] at hcp
  have hput := put_gap hgap a s 0
  rw [List.singleton_append] at hput
  have hquote : ¬code '\'' = 0 ∧ ¬code '\'' = code '\\' := by decide
  refine ⟨z,?_⟩
  rw [readQuoted,hget,ok_bind]
  simp only [hquote,if_false,if_true,hput,ok_bind]
  rw [hcp]
  simp
  rfl

/-! ### One parameter -/

/-- A value starts with a byte that is no blank, and with a quote if it is quoted. -/
theorem Parameter.valueText_head (p : Parameter) :
    ∃ c t, p.valueText = c :: t ∧ isspace c = false ∧ (c = code '\'' ↔ p.quoted = true) := by
  unfold Parameter.valueText
  cases hquoted : p.quoted with
  | true => exact ⟨code '\'',_,if_pos rfl,by decide,by simp⟩
  | false =>
    obtain ⟨hne,hhead,hbare⟩ := p.items_bare hquoted
    obtain ⟨it,items,hitems⟩ := List.exists_cons_of_ne_nil hne
    obtain ⟨c,t,htext⟩ := List.exists_cons_of_ne_nil it.text_ne_nil
    have hit := hbare it (by rw [hitems]; exact List.mem_cons_self)
    have hwhole : p.items.flatMap Item.text = c :: (t ++ items.flatMap Item.text) := by
      rw [hitems,List.flatMap_cons,htext,List.cons_append]
    rw [hwhole] at hhead
    refine ⟨c,_,(if_neg Bool.false_ne_true).trans hwhole,?_,?_⟩
    · unfold Item.text at htext
      cases hesc : it.escaped with
      | true =>
        rw [hesc,if_pos rfl] at htext
        rw [← (List.cons.inj htext).1]
        decide
      | false =>
        rw [hesc,if_neg Bool.false_ne_true] at htext
        rw [← (List.cons.inj htext).1]
        exact (hit.2 hesc).1
    · constructor
      · rintro rfl
        exact absurd rfl hhead
      · exact fun h => nomatch h

lemma Parameter.zero_not_mem_keyword (p : Parameter) : (0 : UInt8) ∉ p.keyword :=
  fun hmem => (p.keyword_char 0 hmem).1 rfl

/-- The loop up to the start of a value. -/
theorem parseLoop_head (p : Parameter) (a t : Bytes) (found : Found) (fuel : ℕ)
    (hfuel : p.text.length ≤ fuel) :
    ∃ a', (∃ z, a' = a ++ (p.keyword ++ 0 :: z)) ∧
      parseLoop (fuel+1) (a ++ (p.text ++ t)) a.length found =
        if p.quoted then
          readQuoted (fuel+1) (a' ++ (p.valueText ++ (p.behind ++ t))) (a'.length+1) a'.length >>= fun r =>
            match r.2 with
            | none => .ok (r.1,found)
            | some cp => parseLoop fuel r.1 cp (found.note (stringAt r.1 a.length) a'.length)
        else
          readBare (fuel+1) (a' ++ (p.valueText ++ (p.behind ++ t))) a'.length a'.length >>= fun r =>
            parseLoop fuel r.1 r.2 (found.note (stringAt r.1 a.length) a'.length) := by
  obtain ⟨c,v,hvalue,hspace,hquote⟩ := p.valueText_head
  obtain ⟨k,ks,hkeyword⟩ := List.exists_cons_of_ne_nil p.keyword_ne_nil
  obtain ⟨hkzero,-,hkspace⟩ := p.keyword_char k (by rw [hkeyword]; exact List.mem_cons_self)
  have hlength : p.text.length = p.keyword.length+(p.before.length+
      (p.after.length+(p.valueText.length+p.behind.length)+1)) := by
    simp only [Parameter.text,List.length_append,List.length_cons]
  have hpos : 0 < p.valueText.length := by rw [hvalue]; exact Nat.succ_pos _
  have hget : get (a ++ (p.text ++ t)) a.length = .ok k := by
    rw [Parameter.text,hkeyword]
    exact get_append _ _ _
  obtain ⟨z,hname,z',hz,-⟩ := readName_spec p.keyword p.before
    (p.after ++ (p.valueText ++ (p.behind ++ t))) p.keyword_char p.before_blank a (fuel+1) (by omega)
  have hblanks := skipBlanks_spec p.after p.after_blank hspace (a ++ (p.keyword ++ z) ++ [0])
    (v ++ (p.behind ++ t)) (fuel+1) (by omega)
  have hstart : a ++ (p.text ++ t) = a ++ (p.keyword ++ (p.before ++ code '=' ::
      (p.after ++ (p.valueText ++ (p.behind ++ t))))) := by simp [Parameter.text]
  have hzero : a ++ (p.keyword ++ z) ++ 0 :: (p.after ++ (p.valueText ++ (p.behind ++ t))) =
      a ++ (p.keyword ++ z) ++ [0] ++ (p.after ++ c :: (v ++ (p.behind ++ t))) := by
    rw [hvalue]
    simp
  have hcp : (a ++ (p.keyword ++ z)).length+1 = (a ++ (p.keyword ++ z) ++ [0]).length :=
    length_succ _ 0
  have hmem : a ++ (p.keyword ++ z) ++ [0] ++ (p.after ++ c :: (v ++ (p.behind ++ t))) =
      (a ++ (p.keyword ++ z) ++ [0] ++ p.after) ++ c :: (v ++ (p.behind ++ t)) := by simp
  have hend : (a ++ (p.keyword ++ z) ++ [0] ++ p.after) ++ c :: (v ++ (p.behind ++ t)) =
      (a ++ (p.keyword ++ z) ++ [0] ++ p.after) ++ (p.valueText ++ (p.behind ++ t)) := by
    rw [hvalue]
    rfl
  refine ⟨a ++ (p.keyword ++ z) ++ [0] ++ p.after,⟨z' ++ p.after,?_⟩,?_⟩
  · have hcons : p.keyword ++ 0 :: (z' ++ p.after) = p.keyword ++ ((z ++ [0]) ++ p.after) := by
      rw [hz]
      rfl
    rw [hcons]
    simp
  · rw [parseLoop,hget,ok_bind,if_neg hkzero,hkspace,hstart]
    simp only [Bool.false_eq_true,if_false,hname,ok_bind]
    rw [get_append,ok_bind,if_neg (not_not.mpr rfl),put_append_cons,ok_bind,hzero,hcp,hblanks,ok_bind,
      hmem,get_append,ok_bind,hend]
    cases hquoted : p.quoted with
    | true =>
      rw [if_neg (not_not.mpr (hquote.mpr hquoted)),if_pos rfl]
      rfl
    | false =>
      have hne : c ≠ code '\'' := by
        rw [ne_eq,hquote,hquoted]
        exact Bool.false_ne_true
      rw [if_pos hne,if_neg Bool.false_ne_true]

lemma length_items_le (items : List Item) :
    items.length ≤ (items.flatMap Item.text).length := by
  induction items with
  | nil => exact le_rfl
  | cons it items ih =>
    have hpos := List.length_pos_of_ne_nil it.text_ne_nil
    rw [List.flatMap_cons,List.length_append,List.length_cons]
    omega

lemma Parameter.length_items_le (p : Parameter) : p.items.length ≤ p.text.length := by
  have hitems := Postgres.length_items_le p.items
  have hvalue : (p.items.flatMap Item.text).length ≤ p.valueText.length := by
    unfold Parameter.valueText
    split_ifs
    · rw [List.length_cons,List.length_append]
      omega
    · exact le_rfl
  have htext : p.valueText.length ≤ p.text.length := by
    simp only [Parameter.text,List.length_append,List.length_cons]
    omega
  omega

lemma Parameter.zero_not_mem_value (p : Parameter) : (0 : UInt8) ∉ p.value := by
  intro hmem
  obtain ⟨it,hit,hzero⟩ := List.mem_map.mp hmem
  cases hquoted : p.quoted with
  | true => exact (p.items_quoted hquoted it hit).1 hzero
  | false => exact ((p.items_bare hquoted).2.2 it hit).1 hzero

/-- The name is still in front when the value has been read. -/
theorem Parameter.stringAt_keyword (p : Parameter) {a a' : Bytes}
    (ha' : ∃ z, a' = a ++ (p.keyword ++ 0 :: z)) (s : Bytes) :
    stringAt (a' ++ s) a.length = p.keyword := by
  obtain ⟨z,rfl⟩ := ha'
  rw [List.append_assoc,List.append_assoc,List.cons_append]
  exact stringAt_append p.zero_not_mem_keyword a (z ++ s)

/-- A parameter that is ended by a quote or a blank is noted, and the loop goes on with the blanks that
are left of it. -/
theorem parseLoop_parameter (p : Parameter) (hend : p.quoted = true ∨ p.behind ≠ []) (a t : Bytes)
    (found : Found) (fuel : ℕ) (hfuel : p.text.length ≤ fuel) :
    ∃ a' z b, (∃ z', a' = a ++ (p.keyword ++ 0 :: z')) ∧ (∀ c ∈ b, isspace c = true) ∧
      b.length ≤ p.behind.length ∧
      parseLoop (fuel+1) (a ++ (p.text ++ t)) a.length found =
        parseLoop fuel ((a' ++ (p.value ++ 0 :: z)) ++ (b ++ t)) (a' ++ (p.value ++ 0 :: z)).length
          (found.note p.keyword a'.length) := by
  obtain ⟨a',ha',hhead⟩ := parseLoop_head p a t found fuel hfuel
  have hitems := p.length_items_le
  have hsplit : fuel+1 = p.items.length+(fuel-p.items.length+1) := by omega
  rw [hhead]
  cases hquoted : p.quoted with
  | true =>
    have hvalue : p.valueText = [code '\''] ++ (p.items.flatMap Item.text ++ [code '\'']) := by
      simp [Parameter.valueText,hquoted]
    obtain ⟨g,hread⟩ := moves_readQuoted.items p.items (p.items_quoted hquoted) a' [code '\'']
      (code '\'' :: (p.behind ++ t))
    obtain ⟨z,hquote⟩ := readQuoted_quote (a' ++ p.items.map Item.char) g (p.behind ++ t)
      (fuel-p.items.length)
    have hmem : a' ++ (p.valueText ++ (p.behind ++ t)) = a' ++ ([code '\''] ++
        (p.items.flatMap Item.text ++ code '\'' :: (p.behind ++ t))) := by
      rw [hvalue]
      simp
    refine ⟨a',z,p.behind,ha',p.behind_blank,le_rfl,?_⟩
    rw [if_pos rfl,hmem,length_succ a' (code '\''),hsplit,hread,hquote,ok_bind]
    simp only
    have hvalue' : a' ++ p.items.map Item.char ++ 0 :: z = a' ++ (p.value ++ 0 :: z) := by
      simp [Parameter.value]
    rw [hvalue',List.append_assoc,p.stringAt_keyword ha']
  | false =>
    obtain ⟨b,bs,hbehind⟩ := List.exists_cons_of_ne_nil
      (hend.resolve_left (by rw [hquoted]; exact Bool.false_ne_true))
    have hvalue : p.valueText = p.items.flatMap Item.text := by simp [Parameter.valueText,hquoted]
    have hblank := p.behind_blank
    rw [hbehind] at hblank
    obtain ⟨g,hread⟩ := moves_readBare.items p.items (p.items_bare hquoted).2.2 a' [] (b :: (bs ++ t))
    obtain ⟨z,hend',-⟩ := readBare_blank (hblank b List.mem_cons_self) (a' ++ p.items.map Item.char) g
      (bs ++ t) (fuel-p.items.length)
    have hmem : a' ++ (p.valueText ++ (p.behind ++ t)) = a' ++ ([] ++
        (p.items.flatMap Item.text ++ b :: (bs ++ t))) := by
      rw [hvalue,hbehind]
      rfl
    refine ⟨a',z,bs,ha',fun c hc => hblank c (List.mem_cons_of_mem b hc),?_,?_⟩
    · rw [hbehind]
      exact Nat.le_succ _
    · rw [List.append_nil] at hread
      rw [if_neg Bool.false_ne_true,hmem,hsplit,hread,hend',ok_bind]
      simp only
      have hvalue' : a' ++ p.items.map Item.char ++ 0 :: z = a' ++ (p.value ++ 0 :: z) := by
        simp [Parameter.value]
      rw [hvalue',List.append_assoc,p.stringAt_keyword ha']

/-- A bare value at the end of the string is the last that is noted. -/
theorem parseLoop_last (p : Parameter) (hquoted : p.quoted = false) (hbehind : p.behind = [])
    (a : Bytes) (found : Found) (fuel : ℕ) (hfuel : p.text.length < fuel) :
    ∃ a' z, (∃ z', a' = a ++ (p.keyword ++ 0 :: z')) ∧
      parseLoop (fuel+1) (a ++ (p.text ++ [0])) a.length found =
        .ok (a' ++ (p.value ++ 0 :: z),found.note p.keyword a'.length) := by
  obtain ⟨a',ha',hhead⟩ := parseLoop_head p a [0] found fuel (by omega)
  have hitems := p.length_items_le
  have hsplit : fuel+1 = p.items.length+(fuel-p.items.length+1) := by omega
  have hvalue : p.valueText = p.items.flatMap Item.text := by simp [Parameter.valueText,hquoted]
  obtain ⟨g,hread⟩ := moves_readBare.items p.items (p.items_bare hquoted).2.2 a' [] [0]
  obtain ⟨w,z,hend,hzero⟩ := readBare_end (a' ++ p.items.map Item.char) g [] (fuel-p.items.length)
  have hmem : a' ++ (p.valueText ++ (p.behind ++ [0])) = a' ++ ([] ++
      (p.items.flatMap Item.text ++ [0])) := by
    rw [hvalue,hbehind]
    rfl
  obtain ⟨fuel,rfl⟩ := Nat.exists_eq_add_of_lt hfuel
  refine ⟨a',z,ha',?_⟩
  rw [List.append_nil] at hread
  rw [hhead,hquoted,if_neg Bool.false_ne_true,hmem,hsplit,hread,hend,ok_bind]
  simp only
  rw [parseLoop,get_append,ok_bind,if_pos rfl]
  have hvalue' : a' ++ p.items.map Item.char ++ w ++ [0] = a' ++ (p.value ++ 0 :: z) := by
    rw [← hzero]
    simp [Parameter.value]
  rw [hvalue',p.stringAt_keyword ha']
  rfl

/-- The loop skips blanks in front of a parameter. -/
theorem parseLoop_blanks (blanks : Bytes) (hblank : ∀ c ∈ blanks, isspace c = true) (a t : Bytes)
    (found : Found) (fuel : ℕ) :
    parseLoop (blanks.length+fuel) (a ++ (blanks ++ t)) a.length found =
      parseLoop fuel ((a ++ blanks) ++ t) (a ++ blanks).length found := by
  induction blanks generalizing a with
  | nil => simp
  | cons b blanks ih =>
    have hb := hblank b List.mem_cons_self
    have hrest := ih (fun c hc => hblank c (List.mem_cons_of_mem b hc)) (a ++ [b])
    rw [List.length_cons,Nat.add_right_comm,List.cons_append,parseLoop,get_append,ok_bind,
      if_neg (ne_zero_of_isspace hb),if_pos hb]
    simpa using hrest

/-! ### All parameters -/

/-- What a pointer into a memory points to. -/
def Points (mem : Bytes) : Option ℕ → Option Bytes → Prop
  | none, none => True
  | some ptr, some v => (0 : UInt8) ∉ v ∧ ∃ a z, mem = a ++ (v ++ 0 :: z) ∧ a.length = ptr
  | _, _ => False

variable {mem : Bytes} {ptr : Option ℕ} {v : Option Bytes}

lemma Points.append (h : Points mem ptr v) (s : Bytes) : Points (mem ++ s) ptr v := by
  match ptr, v, h with
  | none, none, _ => exact trivial
  | some ptr, some v, ⟨hzero,a,z,hmem,hptr⟩ =>
    refine ⟨hzero,a,z ++ s,?_,hptr⟩
    rw [hmem]
    simp

lemma Points.eq_none_iff (h : Points mem ptr v) : ptr = none ↔ v = none := by
  match ptr, v, h with
  | none, none, _ => simp
  | some ptr, some v, _ => simp

lemma Points.stringAt (h : Points mem ptr v) : ptr.map (stringAt mem) = v := by
  match ptr, v, h with
  | none, none, _ => rfl
  | some ptr, some v, ⟨hzero,a,z,hmem,hptr⟩ =>
    subst hptr
    rw [Option.map_some,hmem,stringAt_append hzero]

/-- The pointers point to the values. -/
structure Represents (mem : Bytes) (found : Found) (values : ConnInfo) : Prop where
  host : Points mem found.host values.host
  portPathOrId : Points mem found.portPathOrId values.portPathOrId
  databaseName : Points mem found.databaseName values.databaseName

/-- `Found.note` on values. -/
def noteValue (values : ConnInfo) (pair : Bytes × Bytes) : ConnInfo :=
  if pair.1 = ascii "host" ∧ values.host = none then { values with host := some pair.2 }
  else if pair.1 = ascii "hostaddr" then { values with host := some pair.2 }
  else if pair.1 = ascii "port" then { values with portPathOrId := some pair.2 }
  else if pair.1 = ascii "dbname" then { values with databaseName := some pair.2 }
  else if pair.1 = ascii "user" ∧ values.databaseName = none then
    { values with databaseName := some pair.2 }
  else values

lemma Represents.note {found : Found} {values : ConnInfo}
    (h : Represents mem found values) {value : Bytes} (hzero : (0 : UInt8) ∉ value) (keyword s z : Bytes) :
    Represents (mem ++ s ++ (value ++ 0 :: z)) (found.note keyword (mem ++ s).length)
      (noteValue values (keyword,value)) := by
  have hold : ∀ ptr v, Points mem ptr v → Points (mem ++ s ++ (value ++ 0 :: z)) ptr v :=
    fun ptr v hv => (hv.append s).append (value ++ 0 :: z)
  have hnew : Points (mem ++ s ++ (value ++ 0 :: z)) (some (mem ++ s).length) (some value) :=
    ⟨hzero,mem ++ s,z,rfl,rfl⟩
  have hhost := h.host.eq_none_iff
  have hdatabase := h.databaseName.eq_none_iff
  simp only [Found.note,noteValue,hhost,hdatabase]
  split_ifs
  · exact ⟨hnew,hold _ _ h.portPathOrId,hold _ _ h.databaseName⟩
  · exact ⟨hnew,hold _ _ h.portPathOrId,hold _ _ h.databaseName⟩
  · exact ⟨hold _ _ h.host,hnew,hold _ _ h.databaseName⟩
  · exact ⟨hold _ _ h.host,hold _ _ h.portPathOrId,hnew⟩
  · exact ⟨hold _ _ h.host,hold _ _ h.portPathOrId,hnew⟩
  · exact ⟨hold _ _ h.host,hold _ _ h.portPathOrId,hold _ _ h.databaseName⟩

/-- The loop finds the values of all parameters, from blanks in front of the first. -/
theorem parseLoop_parameters (ps : List Parameter) (hsep : Separated ps) (blanks : Bytes)
    (hblank : ∀ c ∈ blanks, isspace c = true) (a : Bytes) {found : Found} {values : ConnInfo}
    (h : Represents a found values) (fuel : ℕ)
    (hfuel : (blanks ++ ps.flatMap Parameter.text).length+1 < fuel) :
    ∃ mem found', parseLoop fuel (a ++ (blanks ++ (ps.flatMap Parameter.text ++ [0]))) a.length found =
        .ok (mem,found') ∧
      Represents mem found' ((ps.map Parameter.pair).foldl noteValue values) := by
  induction ps generalizing blanks a found values fuel with
  | nil =>
    obtain ⟨fuel,rfl⟩ : ∃ k, fuel = blanks.length+(k+1) := by
      rw [List.flatMap_nil,List.append_nil] at hfuel
      exact ⟨fuel-blanks.length-1,by omega⟩
    refine ⟨(a ++ blanks) ++ [0],found,?_,?_⟩
    · rw [parseLoop_blanks blanks hblank,List.flatMap_nil,List.nil_append,parseLoop,get_append,ok_bind,
        if_pos rfl]
      rfl
    · exact ⟨(h.host.append _).append _,(h.portPathOrId.append _).append _,
        (h.databaseName.append _).append _⟩
  | cons p ps ih =>
    rw [List.flatMap_cons,List.length_append,List.length_append] at hfuel
    obtain ⟨fuel,rfl⟩ : ∃ k, fuel = blanks.length+(k+1) := ⟨fuel-blanks.length-1,by omega⟩
    rw [parseLoop_blanks blanks hblank,List.flatMap_cons,List.append_assoc p.text]
    have h₀ : Represents (a ++ blanks) found values :=
      ⟨h.host.append _,h.portPathOrId.append _,h.databaseName.append _⟩
    by_cases hlast : p.quoted = false ∧ p.behind = []
    · obtain ⟨hquoted,hbehind⟩ := hlast
      have hps : ps = [] := by
        rcases hsep.1 with hq | hb | hps
        · rw [hquoted] at hq
          cases hq
        · exact absurd hbehind hb
        · exact hps
      subst hps
      obtain ⟨a',z,⟨z',rfl⟩,hrun⟩ := parseLoop_last p hquoted hbehind (a ++ blanks) found fuel (by omega)
      exact ⟨_,_,hrun,h₀.note p.zero_not_mem_value p.keyword _ z⟩
    · have hend : p.quoted = true ∨ p.behind ≠ [] := by
        by_contra hnot
        rw [not_or,Bool.not_eq_true,not_not] at hnot
        exact hlast hnot
      obtain ⟨a',z,b,⟨z',rfl⟩,hb,hlength,hrun⟩ := parseLoop_parameter p hend (a ++ blanks)
        (ps.flatMap Parameter.text ++ [0]) found fuel (by omega)
      have hbehind : p.behind.length < p.text.length := by
        simp only [Parameter.text,List.length_append,List.length_cons]
        omega
      rw [hrun]
      exact ih hsep.2 b hb _ (h₀.note p.zero_not_mem_value p.keyword _ z) fuel
        (by rw [List.length_append]; omega)

/-! ### What is found -/

lemma lookup_concat (pairs : List (Bytes × Bytes)) (pair : Bytes × Bytes) (key : Bytes) :
    (pairs ++ [pair]).lookup key =
      (pairs.lookup key).or (if key = pair.1 then some pair.2 else none) := by
  obtain ⟨k,value⟩ := pair
  rw [List.lookup_append,List.lookup_cons]
  congr 1
  by_cases hkey : key = k
  · simp [hkey]
  · simp [beq_eq_false_iff_ne.mpr hkey,hkey]

/-- With distinct keywords the loop finds what is to be found. -/
theorem foldl_noteValue (pairs : List (Bytes × Bytes)) (hdistinct : (pairs.map Prod.fst).Nodup) :
    pairs.foldl noteValue ⟨none,none,none⟩ = chosen pairs := by
  induction pairs using List.reverseRecOn with
  | nil => rfl
  | append_singleton pairs pair ih =>
    rw [List.map_append,List.map_singleton,List.nodup_append] at hdistinct
    have hnew : pairs.lookup pair.1 = none := by
      rw [List.lookup_eq_none_iff]
      intro e he
      have hne := hdistinct.2.2 e.1 (List.mem_map_of_mem he) pair.1 List.mem_cons_self
      simpa using fun heq => hne heq.symm
    obtain ⟨keyword,value⟩ := pair
    rw [List.foldl_append,List.foldl_cons,List.foldl_nil,ih hdistinct.1]
    simp only [noteValue,chosen,lookup_concat]
    have hnames : [ascii "host",ascii "hostaddr",ascii "port",ascii "dbname",ascii "user"].Nodup := by
      decide
    simp only [List.nodup_cons,List.mem_cons,List.not_mem_nil,or_false,not_or,not_false_eq_true,
      List.nodup_nil,and_true] at hnames
    obtain ⟨⟨h₁,h₂,h₃,h₄⟩,⟨h₅,h₆,h₇⟩,⟨h₈,h₉⟩,h₁₀⟩ := hnames
    by_cases hhost : keyword = ascii "host"
    · subst hhost
      simp only at hnew
      obtain haddr | ⟨v,haddr⟩ := Option.eq_none_or_eq_some (pairs.lookup (ascii "hostaddr"))
      · simp [hnew,haddr,Ne.symm h₁,Ne.symm h₂,Ne.symm h₃,Ne.symm h₄]
      · simp [hnew,haddr,h₁,h₂,h₃,h₄,Ne.symm h₂,Ne.symm h₃,Ne.symm h₄]
    by_cases haddr : keyword = ascii "hostaddr"
    · subst haddr
      simp only at hnew
      simp [hnew,Ne.symm h₁,h₁,Ne.symm h₅,Ne.symm h₆,Ne.symm h₇]
    by_cases hport : keyword = ascii "port"
    · subst hport
      simp only at hnew
      simp [hnew,Ne.symm h₂,Ne.symm h₅,h₂,h₅,Ne.symm h₈,Ne.symm h₉]
    by_cases hdbname : keyword = ascii "dbname"
    · subst hdbname
      simp only at hnew
      simp [hnew,Ne.symm h₃,Ne.symm h₆,Ne.symm h₈,h₃,h₆,h₈,Ne.symm h₁₀]
    by_cases huser : keyword = ascii "user"
    · subst huser
      simp only at hnew
      obtain hdb | ⟨v,hdb⟩ := Option.eq_none_or_eq_some (pairs.lookup (ascii "dbname"))
      · simp [hnew,hdb,h₄,h₇,h₉,h₁₀,Ne.symm h₄,Ne.symm h₇,Ne.symm h₉,Ne.symm h₁₀]
      · simp [hnew,hdb,h₄,h₇,h₉,h₁₀,Ne.symm h₄,Ne.symm h₇,Ne.symm h₉,Ne.symm h₁₀]
    simp [hhost,haddr,hport,hdbname,huser,Ne.symm hhost,Ne.symm haddr,Ne.symm hport,Ne.symm hdbname,
      Ne.symm huser]

/-- The order of parameters with distinct keywords does not matter. -/
theorem lookup_perm {pairs pairs' : List (Bytes × Bytes)} (hperm : pairs.Perm pairs')
    (hdistinct : (pairs.map Prod.fst).Nodup) (key : Bytes) : pairs.lookup key = pairs'.lookup key := by
  induction hperm with
  | nil => rfl
  | cons pair _ ih =>
    rw [List.map_cons,List.nodup_cons] at hdistinct
    rw [List.lookup_cons,List.lookup_cons,ih hdistinct.2]
  | swap pair pair' pairs =>
    have hne : pair'.1 ≠ pair.1 := by
      rw [List.map_cons,List.nodup_cons,List.map_cons,List.mem_cons,not_or] at hdistinct
      exact hdistinct.1.1
    rw [List.lookup_cons,List.lookup_cons,List.lookup_cons,List.lookup_cons]
    by_cases hkey : key = pair.1
    · have hother : key ≠ pair'.1 := fun heq => hne (heq.symm.trans hkey)
      simp [hkey,beq_eq_false_iff_ne.mpr hne.symm]
    · simp [beq_eq_false_iff_ne.mpr hkey]
  | trans hfirst _ ih₁ ih₂ =>
    rw [ih₁ hdistinct,ih₂ ((hfirst.map Prod.fst).nodup_iff.mp hdistinct)]

lemma ConnString.distinct_pairs (s : ConnString) : (s.pairs.map Prod.fst).Nodup := by
  have hkeys : s.pairs.map Prod.fst = s.parameters.map Parameter.keyword := by
    simp [pairs,Parameter.pair]
  rw [hkeys]
  exact s.distinct

/-- What the parser returns for a written connection string. -/
theorem parseConnInfo_eq (getenv : String → Option Bytes) (s : ConnString) :
    parseConnInfo getenv (some s.text) ⟨none,none,none⟩ =
      .ok (fillDefaults getenv (chosen s.pairs)) := by
  have h₀ : Represents [] ⟨none,none,none⟩ ⟨none,none,none⟩ := ⟨trivial,trivial,trivial⟩
  obtain ⟨mem,found,hrun,hfound⟩ := parseLoop_parameters s.parameters s.separated s.lead s.lead_blank []
    h₀ (s.text.length+2) (Nat.lt_succ_self _)
  have hstrings : found.strings mem = chosen s.pairs := by
    rw [← foldl_noteValue s.pairs s.distinct_pairs]
    exact ConnInfo.ext hfound.host.stringAt hfound.portPathOrId.stringAt hfound.databaseName.stringAt
  rw [List.nil_append,← List.append_assoc] at hrun
  rw [parseConnInfo,if_neg (not_not.mpr rfl)]
  simp only
  rw [show s.text = s.lead ++ s.parameters.flatMap Parameter.text from rfl] at hrun ⊢
  rw [show ([] : Bytes).length = 0 from rfl] at hrun
  rw [hrun,ok_bind]
  exact congrArg (fun v => Except.ok (fillDefaults getenv v)) hstrings

/-- Of a written connection string the parser finds the address or else the name of the host, the port,
and the database or else the user, as they are before escaping; what is missing or empty is then filled
in, and a host that is a path is reported as the path on the local host. The cursors never leave the copy
of the string, and the order of the parameters does not matter. -/
theorem parseConnInfo_written (getenv : String → Option Bytes) (s : ConnString) :
    parseConnInfo getenv (some s.text) ⟨none,none,none⟩ =
        .ok (fillDefaults getenv (chosen s.pairs)) ∧
      ∀ s' : ConnString, s'.pairs.Perm s.pairs →
        parseConnInfo getenv (some s'.text) ⟨none,none,none⟩ =
          parseConnInfo getenv (some s.text) ⟨none,none,none⟩ := by
  refine ⟨parseConnInfo_eq getenv s,fun s' hperm => ?_⟩
  rw [parseConnInfo_eq,parseConnInfo_eq]
  unfold chosen
  simp only [lookup_perm hperm s'.distinct_pairs]

/-- `host=/tmp` -/
def socketHost : Parameter where
  keyword := ascii "host"
  before := []
  after := []
  quoted := false
  items := [⟨code '/',false⟩,⟨code 't',false⟩,⟨code 'm',false⟩,⟨code 'p',false⟩]
  behind := []
  keyword_ne_nil := by decide
  keyword_char := by decide +kernel
  before_blank := by simp
  after_blank := by simp
  behind_blank := by simp
  items_quoted := by simp
  items_bare := by decide +kernel

def socketString : ConnString where
  lead := []
  parameters := [socketHost]
  lead_blank := by simp
  separated := ⟨.inr (.inr rfl),trivial⟩
  distinct := by simp

/-- `host='d\' 1'`, with a blank behind it. -/
def quotedHost : Parameter where
  keyword := ascii "host"
  before := []
  after := []
  quoted := true
  items := [⟨code 'd',false⟩,⟨code '\'',true⟩,⟨code ' ',false⟩,⟨code '1',false⟩]
  behind := [code ' ']
  keyword_ne_nil := by decide
  keyword_char := by decide +kernel
  before_blank := by simp
  after_blank := by simp
  behind_blank := by decide +kernel
  items_quoted := by decide +kernel
  items_bare := nofun

/-- `port = 54`, with a blank behind it. -/
def barePort : Parameter where
  keyword := ascii "port"
  before := [code ' ']
  after := [code ' ']
  quoted := false
  items := [⟨code '5',false⟩,⟨code '4',false⟩]
  behind := [code ' ']
  keyword_ne_nil := by decide
  keyword_char := by decide +kernel
  before_blank := by decide +kernel
  after_blank := by decide +kernel
  behind_blank := by decide +kernel
  items_quoted := nofun
  items_bare := by decide +kernel

def hostFirst : ConnString where
  lead := []
  parameters := [quotedHost,barePort]
  lead_blank := by simp
  separated := ⟨.inl rfl,.inr (.inr rfl),trivial⟩
  distinct := by decide

def portFirst : ConnString where
  lead := [code ' ']
  parameters := [barePort,quotedHost]
  lead_blank := by decide +kernel
  separated := ⟨.inr (.inl (List.cons_ne_nil _ _)),.inl rfl,trivial⟩
  distinct := by decide

/-- A quote in the value of the host, and the port in front of it or behind. -/
theorem parseConnInfo_pairs :
    parseConnInfo (fun _ => none) (some hostFirst.text) ⟨none,none,none⟩ =
        .ok ⟨some (ascii "d' 1"),some (ascii "54"),some (ascii "")⟩ ∧
      parseConnInfo (fun _ => none) (some portFirst.text) ⟨none,none,none⟩ =
        .ok ⟨some (ascii "d' 1"),some (ascii "54"),some (ascii "")⟩ := by
  have hwritten := parseConnInfo_written (fun _ => none) hostFirst
  have hperm : portFirst.pairs.Perm hostFirst.pairs := List.Perm.swap _ _ _
  have hfilled : fillDefaults (fun _ => none) (chosen hostFirst.pairs) =
      ⟨some (ascii "d' 1"),some (ascii "54"),some (ascii "")⟩ := by decide +kernel
  rw [hwritten.2 portFirst hperm,hwritten.1,hfilled]
  exact ⟨rfl,rfl⟩

/-- The host is not always reported as it is written: a path becomes the local host. -/
theorem not_parseConnInfo_chosen :
    ¬∀ (getenv : String → Option Bytes) (s : ConnString),
      ∃ r, parseConnInfo getenv (some s.text) ⟨none,none,none⟩ = .ok r ∧
        (∀ v, (chosen s.pairs).host = some v → r.host = some v) ∧
        (∀ v, (chosen s.pairs).portPathOrId = some v → r.portPathOrId = some v) ∧
        ∀ v, (chosen s.pairs).databaseName = some v → r.databaseName = some v := by
  intro h
  obtain ⟨r,hparse,hhost,-⟩ := h (fun _ => none) socketString
  rw [parseConnInfo_eq] at hparse
  have hchosen : (chosen socketString.pairs).host = some (ascii "/tmp") := by decide
  have hr := hhost _ hchosen
  rw [← Except.ok.inj hparse] at hr
  exact absurd hr (by decide)

end Postgres
end PhpAgent

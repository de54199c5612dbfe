import PhpAgent.Daemon.Config

/-! The texts that `Decode` takes are those of the grammar in its comment, and those that end within a
keyword. -/
namespace PhpAgent

open Json (code)
open Runes

namespace Config

/-! ### The grammar -/

/-- `.* EOL`; the end of the text is the end of its last line. -/
def Line (text rest : Bytes) : Prop :=
  (∃ line, text = line ++ code '\n' :: rest ∧ code '\n' ∉ line) ∨ (code '\n' ∉ text ∧ rest = [])

/-- `VALUE`, behind the white space. -/
inductive Value : Bytes → Bytes → Prop
  | quoted {q : UInt8} {v rest : Bytes} : q = code '\'' ∨ q = code '"' → q ∉ v →
      Value (q :: (v ++ q :: rest)) rest
  | raw {text rest : Bytes} :
      (∀ ch after, readRune text = some (ch,after) →
        ch ≠ '\'' ∧ ch ≠ '"' ∧ (isSpace ch = true → ch = '\n')) →
      Line text rest → Value text rest

/-- `WS* VALUE`, and the white space is on the line of the delimiter. -/
def AfterEquals (text rest : Bytes) : Prop :=
  ∃ ws value, Reads text ws value ∧ (∀ c ∈ ws, isSpace c = true ∧ c ≠ '\n') ∧ Value value rest

/-- `WS* '=' WS* VALUE`. -/
def AfterKeyword (text rest : Bytes) : Prop :=
  ∃ ws value, Reads text ws (code '=' :: value) ∧ (∀ c ∈ ws, isSpace c = true) ∧ AfterEquals value rest

variable (u : Unicode)

def Letters (text rest : Bytes) : Prop :=
  ∃ cs, Reads text cs rest ∧ ∀ c ∈ cs, u.isAlnum c = true ∨ c = '.'

/-- `KEYWORD`. -/
def Keyword (text rest : Bytes) : Prop :=
  ∃ c tail, readRune text = some (c,tail) ∧ u.isLetter c = true ∧ Letters u tail rest

/-- One of the alternatives of `INI`. -/
inductive Item : Bytes → Bytes → Prop
  | blank {text rest : Bytes} {c : Char} : readRune text = some (c,rest) → isSpace c = true → Item text rest
  | comment {text rest : Bytes} {c : UInt8} : c = code '#' ∨ c = code ';' → Line text rest →
      Item (c :: text) rest
  | assignment {text keyword rest : Bytes} : Keyword u text keyword → AfterKeyword keyword rest →
      Item text rest

inductive Items : Bytes → Bytes → Prop
  | nil (text : Bytes) : Items text text
  | cons {text text' rest : Bytes} : Item u text text' → Items text' rest → Items text rest

/-- `INI`: the text consists entirely of assignments, comments and blanks. -/
def Ini (text : Bytes) : Prop := Items u text []

/-- A last keyword has nothing behind it. -/
def EndsInKeyword (text : Bytes) : Prop := ∃ keyword, Items u text keyword ∧ Keyword u keyword []

/-! ### What is taken is in the grammar -/

/-- `INI`, but for a keyword at the end. -/
def Tail (text : Bytes) : Prop := Ini u text ∨ EndsInKeyword u text

/-- What is left of the input in a state, if `Decode` takes it. -/
def Rest : StateFn → Bytes → Prop
  | .lexInitial, text => Tail u text
  | .lexComment, text => ∃ rest, Line text rest ∧ Tail u rest
  | .lexKeyword, text =>
    ∃ keyword, Letters u text keyword ∧
      (keyword = [] ∨ ∃ rest, AfterKeyword keyword rest ∧ Tail u rest)
  | .lexDelimiter, text => ∃ rest, AfterKeyword text rest ∧ Tail u rest
  | .lexValue, text => ∃ rest, AfterEquals text rest ∧ Tail u rest
  | .lexSingleQuoteString, text =>
    ∃ v rest, text = v ++ code '\'' :: rest ∧ code '\'' ∉ v ∧ Tail u rest
  | .lexDoubleQuoteString, text => ∃ v rest, text = v ++ code '"' :: rest ∧ code '"' ∉ v ∧ Tail u rest
  | .lexRawString, text => ∃ rest, Line text rest ∧ Tail u rest

variable {u} {text rest : Bytes} {ch : Char}

lemma tail_of_item (h : Item u text rest) (hrest : Tail u rest) : Tail u text := by
  rcases hrest with hini | ⟨keyword,hitems,hkeyword⟩
  · exact .inl (.cons h hini)
  · exact .inr ⟨keyword,.cons h hitems,hkeyword⟩

lemma line_of_readBytes {input line rest : Bytes} (h : readBytes (code '\n') input = some (line,rest)) :
    Line input rest := .inl ⟨line,readBytes_eq_some h⟩

/-- What stands in front of the line belongs to it. -/
theorem line_of_readRune {text rest after : Bytes} (h : readRune text = some (ch,after))
    (hch : ch ≠ '\n') (hline : Line after rest) : Line text rest := by
  obtain ⟨pre,rfl,hpre,_⟩ := exists_of_readRune h
  have hno : code '\n' ∉ pre := fun hmem => hch (hpre _ hmem (by decide))
  rcases hline with ⟨line,rfl,hmem⟩ | ⟨hmem,rfl⟩
  · refine .inl ⟨pre ++ line,by simp,?_⟩
    simp [hno,hmem]
  · exact .inr ⟨by simp [hno,hmem],rfl⟩

/-- The line goes on behind its first rune. -/
theorem line_after_readRune {text rest after : Bytes} (h : readRune text = some (ch,after))
    (hch : ch ≠ '\n') (hline : Line text rest) : Line after rest := by
  obtain ⟨pre,htext,hpre,_⟩ := exists_of_readRune h
  have hno : code '\n' ∉ pre := fun hmem => hch (hpre _ hmem (by decide))
  rcases hline with ⟨line,hsplit,hmem⟩ | ⟨hmem,hrest⟩
  · rw [htext] at hsplit
    rcases List.append_eq_append_iff.mp hsplit with ⟨line',rfl,hafter⟩ | ⟨pre',rfl,hafter⟩
    · exact .inl ⟨line',hafter,fun h => hmem (List.mem_append_right _ h)⟩
    · cases pre' with
      | nil => exact .inl ⟨[],hafter.symm,List.not_mem_nil⟩
      | cons c pre' =>
        have hc : code '\n' = c := (List.cons.inj hafter).1
        exact absurd (List.mem_append_right line (hc ▸ List.mem_cons_self)) hno
  · refine .inr ⟨?_,hrest⟩
    rw [htext] at hmem
    exact fun h => hmem (List.mem_append_right _ h)

lemma afterEquals_of_value (h : Value text rest) : AfterEquals text rest :=
  ⟨[],text,.nil text,by simp,h⟩

/-- An ASCII rune was read from its byte. -/
theorem readRune_code {c : Char} (hc : c.toNat < 128)
    (h : readRune text = some (c,rest)) : text = code c :: rest := by
  have hbyte : (code c).toNat = c.toNat := by
    rw [code,Nat.toUInt8,UInt8.toNat_ofNat']
    omega
  refine eq_cons_of_readRune (by rw [hbyte]; exact hc) ?_
  rw [hbyte,Char.ofNat_toNat]
  exact h

lemma letters_cons {text after keyword : Bytes} (h : readRune text = some (ch,after))
    (hch : u.isAlnum ch = true ∨ ch = '.') (hletters : Letters u after keyword) :
    Letters u text keyword := by
  obtain ⟨cs,hreads,hcs⟩ := hletters
  refine ⟨ch :: cs,.cons h hreads,?_⟩
  intro c hc
  rcases List.mem_cons.mp hc with rfl | hc
  · exact hch
  · exact hcs c hc

lemma afterKeyword_cons {text after rest : Bytes} (h : readRune text = some (ch,after))
    (hch : isSpace ch = true) (hafter : AfterKeyword after rest) : AfterKeyword text rest := by
  obtain ⟨ws,value,hreads,hws,hvalue⟩ := hafter
  refine ⟨ch :: ws,value,.cons h hreads,?_,hvalue⟩
  intro c hc
  rcases List.mem_cons.mp hc with rfl | hc
  · exact hch
  · exact hws c hc

lemma afterKeyword_equals {text after rest : Bytes} (h : readRune text = some ('=',after))
    (hafter : AfterEquals after rest) : AfterKeyword text rest := by
  rw [readRune_code (by decide) h]
  exact ⟨[],after,.nil _,by simp,hafter⟩

lemma afterEquals_cons {text after rest : Bytes} (h : readRune text = some (ch,after))
    (hch : isSpace ch = true) (hne : ch ≠ '\n') (hafter : AfterEquals after rest) :
    AfterEquals text rest := by
  obtain ⟨ws,value,hreads,hws,hvalue⟩ := hafter
  refine ⟨ch :: ws,value,.cons h hreads,?_,hvalue⟩
  intro c hc
  rcases List.mem_cons.mp hc with rfl | hc
  · exact ⟨hch,hne⟩
  · exact hws c hc

lemma raw_nil : Value [] [] := .raw (by simp [readRune]) (.inr ⟨List.not_mem_nil,rfl⟩)

lemma raw_of_readRune {text after rest : Bytes} (h : readRune text = some (ch,after))
    (hch : ch ≠ '\'' ∧ ch ≠ '"' ∧ (isSpace ch = true → ch = '\n')) (hline : Line text rest) :
    Value text rest := by
  refine .raw ?_ hline
  intro ch' after' h'
  rw [h] at h'
  cases h'
  exact hch

section Sound
variable {τ ε : Type} {fields : Fields τ ε}

/-- What a state needs when it ends. -/
theorem Steps.rest_of_end {s s' : StateFn} {d d' : Decoder τ} {input : Bytes} {n : Next τ ε}
    (h : Steps u fields s d input n) (hn : n = done s' d') : Rest u s input := by
  cases h with
  | failed => cases hn
  | initialEnd => exact .inl (.nil [])
  | keywordEnd => exact ⟨[],⟨[],.nil [],by simp⟩,.inl rfl⟩
  | valueEnd => exact ⟨[],afterEquals_of_value raw_nil,.inl (.nil [])⟩
  | rawEnd hread => exact ⟨[],.inr ⟨readBytes_eq_none.mp hread,rfl⟩,.inl (.nil [])⟩
  | commentEnd => exact ⟨[],.inr ⟨List.not_mem_nil,rfl⟩,.inl (.nil [])⟩
  | initialBlank | initialComment | initialLetter | keywordChar | keywordBlank | keywordEquals
  | delimiterBlank | delimiterEquals | valueNewline | valueBlank | valueQuote | valueDoubleQuote
  | valueRaw | singleQuote | doubleQuote | rawLine | commentLine | commentLast => cases hn

/-- What a state needs when it goes on, from what the next state needs. -/
theorem Steps.rest_of_next {s s' : StateFn} {d d' : Decoder τ} {input after : Bytes} {n : Next τ ε}
    (h : Steps u fields s d input n) (hn : n = next s' d' after) (hrest : Rest u s' after) :
    Rest u s input := by
  cases h with
  | failed | initialEnd | keywordEnd | valueEnd | rawEnd | commentEnd => cases hn
  | initialBlank hread hspace =>
    cases hn
    exact tail_of_item (.blank hread hspace) hrest
  | initialComment hread hch =>
    cases hn
    obtain ⟨rest,hline,htail⟩ := hrest
    rcases hch with rfl | rfl
    · rw [readRune_code (by decide) hread]
      exact tail_of_item (.comment (.inl rfl) hline) htail
    · rw [readRune_code (by decide) hread]
      exact tail_of_item (.comment (.inr rfl) hline) htail
  | initialLetter hread hletter =>
    cases hn
    obtain ⟨keyword,hletters,rfl | ⟨rest,hafter,htail⟩⟩ := hrest
    · exact .inr ⟨input,.nil input,_,_,hread,hletter,hletters⟩
    · exact tail_of_item (.assignment ⟨_,_,hread,hletter,hletters⟩ hafter) htail
  | keywordChar hread hchar =>
    cases hn
    obtain ⟨keyword,hletters,hend⟩ := hrest
    exact ⟨keyword,letters_cons hread hchar hletters,hend⟩
  | keywordBlank hread hspace =>
    cases hn
    obtain ⟨rest,hafter,htail⟩ := hrest
    exact ⟨input,⟨[],.nil input,by simp⟩,.inr ⟨rest,afterKeyword_cons hread hspace hafter,htail⟩⟩
  | keywordEquals hread =>
    cases hn
    obtain ⟨rest,hafter,htail⟩ := hrest
    exact ⟨input,⟨[],.nil input,by simp⟩,.inr ⟨rest,afterKeyword_equals hread hafter,htail⟩⟩
  | delimiterBlank hread hspace =>
    cases hn
    obtain ⟨rest,hafter,htail⟩ := hrest
    exact ⟨rest,afterKeyword_cons hread hspace hafter,htail⟩
  | delimiterEquals hread =>
    cases hn
    obtain ⟨rest,hafter,htail⟩ := hrest
    exact ⟨rest,afterKeyword_equals hread hafter,htail⟩
  | valueNewline hread =>
    cases hn
    have hline : Line input after := by
      rw [readRune_code (by decide) hread]
      exact .inl ⟨[],rfl,List.not_mem_nil⟩
    exact ⟨after,afterEquals_of_value (raw_of_readRune hread (by simp) hline),hrest⟩
  | valueBlank hread hspace hne =>
    cases hn
    obtain ⟨rest,hafter,htail⟩ := hrest
    exact ⟨rest,afterEquals_cons hread hspace hne hafter,htail⟩
  | valueQuote hread =>
    cases hn
    obtain ⟨v,rest,rfl,hv,htail⟩ := hrest
    rw [readRune_code (by decide) hread]
    exact ⟨rest,afterEquals_of_value (.quoted (.inl rfl) hv),htail⟩
  | valueDoubleQuote hread =>
    cases hn
    obtain ⟨v,rest,rfl,hv,htail⟩ := hrest
    rw [readRune_code (by decide) hread]
    exact ⟨rest,afterEquals_of_value (.quoted (.inr rfl) hv),htail⟩
  | valueRaw hread hspace hquote hdouble =>
    cases hn
    obtain ⟨rest,hline,htail⟩ := hrest
    have hline' : Line input rest := by
      refine line_of_readRune hread ?_ hline
      intro hnewline
      rw [hnewline] at hspace
      exact absurd hspace (by decide)
    refine ⟨rest,afterEquals_of_value (raw_of_readRune hread ⟨hquote,hdouble,?_⟩ hline'),htail⟩
    intro h
    exact absurd (hspace.symm.trans h) Bool.false_ne_true
  | singleQuote hread | doubleQuote hread =>
    cases hn
    obtain ⟨hsplit,hmem⟩ := readBytes_eq_some hread
    exact ⟨_,after,hsplit,hmem,hrest⟩
  | rawLine hread | commentLine hread =>
    cases hn
    exact ⟨after,line_of_readBytes hread,hrest⟩
  | commentLast hne hread =>
    cases hn
    exact ⟨[],.inr ⟨readBytes_eq_none.mp hread,rfl⟩,hrest⟩

/-- What `Decode` takes is in the grammar, but for a keyword at the end. -/
theorem tail_of_decode {text : Bytes} {dest dest' : τ} (h : decode u fields text dest = .ok dest') :
    Tail u text := by
  have hrun := (scanner u fields).run_induction
    (P := fun s input r => ∀ out, r = .ok out → Rest u s.1 input) ?_ ?_
    (.lexInitial,⟨[],[],dest⟩) text
  · unfold decode at h
    cases hout : (scanner u fields).run (.lexInitial,⟨[],[],dest⟩) text with
    | ok out => exact hrun out hout
    | error err =>
      rw [hout] at h
      cases h
  · rintro ⟨s,d⟩ input r hstep ⟨s',d'⟩ rfl
    exact (step_steps u fields s d input).rest_of_end hstep
  · rintro ⟨s,d⟩ input ⟨s',d'⟩ rest r hstep ih out hout
    exact (step_steps u fields s d input).rest_of_next hstep (ih out hout)

end Sound

/-! ### What is in the grammar is taken -/

/-- A struct without fields: every keyword is ignored. -/
def noFields : Fields Unit Unit := fun _ => none

lemma processKeyword_noFields (d : Decoder Unit) :
    processKeyword noFields d = .ok ⟨[],[],d.dest⟩ := rfl

/-- Behind an item the run goes on, or it has ended with the item, but in no keyword. -/
def Goes (u : Unicode) (s : StateFn) (d : Decoder Unit) (text rest : Bytes) : Prop :=
  (∃ d', (scanner u noFields).run (s,d) text = (scanner u noFields).run (.lexInitial,d') rest) ∨
    (rest = [] ∧ ∃ s' d', (scanner u noFields).run (s,d) text = .ok (s',d') ∧ s' ≠ .lexKeyword)

lemma goes_of_next {s s' : StateFn} {d d' : Decoder Unit} {text rest rest' : Bytes}
    (h : step u noFields (s,d) text = next s' d' rest) (hgoes : Goes u s' d' rest rest') :
    Goes u s d text rest' := by
  have hrun := run_of_step h
  rcases hgoes with ⟨d'',hrun'⟩ | ⟨hnil,s'',d'',hrun',hne⟩
  · exact .inl ⟨d'',hrun.trans hrun'⟩
  · exact .inr ⟨hnil,s'',d'',hrun.trans hrun',hne⟩

lemma goes_line (d : Decoder Unit) (h : Line text rest) : Goes u .lexRawString d text rest := by
  rcases h with ⟨line,rfl,hline⟩ | ⟨hmem,rfl⟩
  · refine .inl ⟨⟨[],[],d.dest⟩,run_of_step ?_⟩
    simp only [step,lexRawString,readBytes_append hline,processed,processKeyword_noFields]
  · refine .inr ⟨rfl,.lexRawString,⟨[],[],d.dest⟩,run_of_done ?_,by decide⟩
    simp only [step,lexRawString,readBytes_eq_none.mpr hmem,processed,processKeyword_noFields]

lemma goes_comment (d : Decoder Unit) (h : Line text rest) : Goes u .lexComment d text rest := by
  rcases h with ⟨line,rfl,hline⟩ | ⟨hmem,rfl⟩
  · refine .inl ⟨d,run_of_step ?_⟩
    simp only [step,lexComment,readBytes_append hline]
    rw [if_neg (by simp)]
  · by_cases hnil : text = []
    · refine .inr ⟨rfl,.lexComment,d,run_of_done ?_,by decide⟩
      simp only [step,lexComment]
      rw [if_pos hnil]
    · refine .inl ⟨d,run_of_step ?_⟩
      simp only [step,lexComment,readBytes_eq_none.mpr hmem]
      rw [if_neg hnil]

lemma goes_value (d : Decoder Unit) (h : Value text rest) : Goes u .lexValue d text rest := by
  cases h with
  | @quoted q v _ hq hv =>
    rcases hq with rfl | rfl
    · have hread : readRune (code '\'' :: (v ++ code '\'' :: rest)) =
          some ('\'',v ++ code '\'' :: rest) := readRune_ascii (by decide) _
      have hstep : step u noFields (.lexValue,d) (code '\'' :: (v ++ code '\'' :: rest)) =
          next .lexSingleQuoteString d (v ++ code '\'' :: rest) := by
        simp only [step,lexValue,hread]
        rw [if_neg (by decide),if_pos trivial]
      refine goes_of_next hstep (.inl ⟨⟨[],[],d.dest⟩,run_of_step ?_⟩)
      simp only [step,lexSingleQuoteString,readBytes_append hv,processed,processKeyword_noFields]
    · refine .inl ⟨⟨[],[],d.dest⟩,?_⟩
      rw [run_doubleQuote]
      refine run_of_step ?_
      simp only [step,lexDoubleQuoteString,readBytes_append hv,processed,processKeyword_noFields]
  | raw hfirst hline =>
    cases hread : readRune text with
    | none =>
      have hnil := readRune_eq_none.mp hread
      have hrest : rest = [] := by
        rcases hline with ⟨line,hsplit,_⟩ | ⟨_,hrest⟩
        · rw [hnil] at hsplit
          exact absurd hsplit (by simp)
        · exact hrest
      refine .inr ⟨hrest,.lexValue,⟨[],[],d.dest⟩,run_of_done ?_,by decide⟩
      simp only [step,lexValue,hread,processed,processKeyword_noFields]
    | some read =>
      obtain ⟨ch,after⟩ := read
      obtain ⟨hquote,hdouble,hspace⟩ := hfirst ch after hread
      by_cases hch : isSpace ch = true
      · -- the rest of the line is blank
        obtain rfl := hspace hch
        have htext := readRune_code (by decide) hread
        have hrest : rest = after := by
          rcases hline with ⟨line,hsplit,hmem⟩ | ⟨hmem,_⟩
          · cases line with
            | nil => exact (List.cons.inj (hsplit.symm.trans htext)).2
            | cons c line =>
              have hc : c = code '\n' := (List.cons.inj (hsplit.symm.trans htext)).1
              exact absurd (hc ▸ List.mem_cons_self) hmem
          · exact absurd (htext ▸ List.mem_cons_self) hmem
        refine .inl ⟨⟨[],[],d.dest⟩,run_of_step ?_⟩
        simp only [step,lexValue,hread,processed,processKeyword_noFields,hrest]
        rw [if_pos hch,if_pos trivial]
      · have hstep : step u noFields (.lexValue,d) text =
            next .lexRawString { d with token := d.token ++ String.utf8EncodeChar ch } after := by
          simp only [step,lexValue,hread]
          rw [if_neg hch,if_neg hquote,if_neg hdouble]
        have hne : ch ≠ '\n' := by
          rintro rfl
          exact hch (by decide)
        exact goes_of_next hstep (goes_line _ (line_after_readRune hread hne hline))

lemma run_of_keyword {d : Decoder Unit} (h : Keyword u text rest) :
    ∃ d', (scanner u noFields).run (.lexInitial,d) text =
      (scanner u noFields).run (.lexKeyword,d') rest := by
  obtain ⟨c,tail,hread,hletter,cs,hreads,hcs⟩ := h
  refine ⟨_,(run_letter hread hletter).trans (run_letters hreads hcs)⟩

lemma goes_item (d : Decoder Unit) (h : Item u text rest) : Goes u .lexInitial d text rest := by
  cases h with
  | blank hread hspace => exact .inl ⟨d,run_blank hread hspace⟩
  | @comment text _ c hc hline =>
    have hread : ∃ ch, readRune (c :: text) = some (ch,text) ∧ isSpace ch = false ∧
        (ch = '#' ∨ ch = ';') := by
      rcases hc with rfl | rfl
      · exact ⟨'#',readRune_ascii (by decide) text,by decide,.inl rfl⟩
      · exact ⟨';',readRune_ascii (by decide) text,by decide,.inr rfl⟩
    obtain ⟨ch,hread,hspace,hch⟩ := hread
    have hstep : step u noFields (.lexInitial,d) (c :: text) = next .lexComment d text := by
      simp only [step,lexInitial,hread]
      rw [if_neg (by rw [hspace]; exact Bool.false_ne_true),if_pos hch]
    exact goes_of_next hstep (goes_comment d hline)
  | assignment hkeyword hafter =>
    obtain ⟨ws,value,hreads,hws,ws',text',hreads',hws',hvalue⟩ := hafter
    obtain ⟨d',hrun⟩ := run_of_keyword (d := d) hkeyword
    have hrun' := (hrun.trans (run_keyword hreads hws)).trans (run_value hreads' hws')
    rcases goes_value ⟨d'.token,[],d'.dest⟩ hvalue with ⟨d'',hgoes⟩ | ⟨hnil,s,d'',hgoes,hne⟩
    · exact .inl ⟨d'',hrun'.trans hgoes⟩
    · exact .inr ⟨hnil,s,d'',hrun'.trans hgoes,hne⟩

lemma not_keyword_nil {rest : Bytes} : ¬ Keyword u [] rest := by
  rintro ⟨c,tail,hread,_⟩
  cases hread

lemma not_item_nil {rest : Bytes} : ¬ Item u [] rest := by
  intro h
  cases h with
  | blank hread => cases hread
  | assignment hkeyword => exact not_keyword_nil hkeyword

lemma goes_items (d : Decoder Unit) (h : Items u text rest) : Goes u .lexInitial d text rest := by
  induction h generalizing d with
  | nil text => exact .inl ⟨d,rfl⟩
  | cons hitem hitems ih =>
    rcases goes_item d hitem with ⟨d',hrun⟩ | ⟨hnil,s,d',hrun,hne⟩
    · rcases ih d' with ⟨d'',hrun'⟩ | ⟨hnil,s,d'',hrun',hne⟩
      · exact .inl ⟨d'',hrun.trans hrun'⟩
      · exact .inr ⟨hnil,s,d'',hrun.trans hrun',hne⟩
    · rw [hnil] at hitems
      cases hitems with
      | nil => exact .inr ⟨rfl,s,d',hrun,hne⟩
      | cons hitem => exact absurd hitem not_item_nil

/-- A text of the grammar does not end within a keyword. -/
theorem run_of_ini (d : Decoder Unit) {text : Bytes} (h : Ini u text) :
    ∃ s d', (scanner u noFields).run (.lexInitial,d) text = .ok (s,d') ∧ s ≠ .lexKeyword := by
  rcases goes_items d h with ⟨d',hrun⟩ | ⟨_,hrun⟩
  · exact ⟨.lexInitial,d',hrun.trans (run_of_done rfl),by decide⟩
  · exact hrun

lemma run_of_endsInKeyword (d : Decoder Unit) {text : Bytes} (h : EndsInKeyword u text) :
    ∃ d', (scanner u noFields).run (.lexInitial,d) text = .ok (.lexKeyword,d') := by
  obtain ⟨keyword,hitems,hkeyword⟩ := h
  rcases goes_items d hitems with ⟨d',hrun⟩ | ⟨hnil,_⟩
  · obtain ⟨d'',hrun'⟩ := run_of_keyword (d := d') hkeyword
    exact ⟨d'',(hrun.trans hrun').trans (run_of_done rfl)⟩
  · rw [hnil] at hkeyword
    exact absurd hkeyword not_keyword_nil

/-- What `Decode` takes is in the grammar, unless the text ends within a keyword. -/
theorem forall_ini_iff (text : Bytes) :
    (∀ (τ ε : Type) (fields : Fields τ ε) (dest dest' : τ),
        decode u fields text dest = .ok dest' → Ini u text) ↔ ¬ EndsInKeyword u text := by
  constructor
  · intro h hends
    obtain ⟨d,hrun⟩ := run_of_endsInKeyword ⟨[],[],()⟩ hends
    have hini : Ini u text := by
      refine h Unit Unit noFields () d.dest ?_
      rw [decode,hrun]
      rfl
    obtain ⟨s,d',hrun',hne⟩ := run_of_ini ⟨[],[],()⟩ hini
    rw [hrun] at hrun'
    cases hrun'
    exact hne rfl
  · intro hends τ ε fields dest dest' h
    rcases tail_of_decode h with hini | hends'
    · exact hini
    · exact absurd hends' hends

end Config
end PhpAgent

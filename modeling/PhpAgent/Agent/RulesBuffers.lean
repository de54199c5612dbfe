import PhpAgent.Agent.RulesUnchanged
import PhpAgent.Lib.Memory

/-! The buffers of `nr_rules_apply`: the functions of `nr_rules.c` with the memory they write into. -/
namespace PhpAgent

/-- Read a string. -/
def readString (mem : Bytes) : Except Stop Bytes :=
  if (0 : UInt8) ∈ mem then .ok (cstr mem) else .error .outside

/-- `snprintf` of a text. -/
def snprintf (mem : Bytes) (pos destLen : ℕ) (text : Bytes) : Except Stop Bytes :=
  if destLen = 0 then .ok mem else put mem pos (text.take (destLen-1) ++ [0])

/-- Write the text of a reference and go on with `next` when there was room for it. -/
def writeReference (text mem : Bytes) (pos destLen : ℕ)
    (next : Bytes → ℕ → ℕ → Except Stop (Bool × Bytes)) : Except Stop (Bool × Bytes) := do
  let mem ← snprintf mem pos destLen text
  if destLen ≤ text.length then return (false,mem)
  else next mem (pos+text.length) (destLen-text.length)

/-- The loop of `nr_rule_replace_string`. The first argument is the number read since a backslash,
`destLen` the room that is left behind `pos`. -/
def replaceStringIn (m : Match) (subject : Bytes) :
    Option ℤ → Bytes → Bytes → ℕ → ℕ → Except Stop (Bool × Bytes)
  | _, [], mem, pos, _ => do
    let mem ← put mem pos [0]
    return (true,mem)
  | none, ch :: repl, mem, pos, destLen =>
    if ch = backslash then replaceStringIn m subject (some 0) repl mem pos destLen
    else if 0 < destLen then do
      let mem ← put mem pos [ch]
      replaceStringIn m subject none repl mem (pos+1) (destLen-1)
    else replaceStringIn m subject none repl mem pos destLen
  | some num, ch :: repl, mem, pos, destLen =>
    let num := readDigit num ch
    if repl.head?.any Json.isDigit then replaceStringIn m subject (some num) repl mem pos destLen
    else if m.captureCount < num then do
      let mem ← put mem pos [0]
      writeReference (backslash :: Json.decimal num.toNat) mem pos destLen
        (replaceStringIn m subject none repl)
    else if num < 0 then replaceStringIn m subject none repl mem pos destLen
    else
      writeReference (cstr (m.text subject num.toNat)) mem pos destLen
        (replaceStringIn m subject none repl)

/-- `nr_rule_replace_string`: whether it succeeds, and the memory of `dest`, which has `dest_len`
bytes. -/
def nrRuleReplaceString (m : Match) (subject repl dest : Bytes) : Except Stop (Bool × Bytes) :=
  if dest = [] then .ok (true,dest)
  else replaceStringIn m subject none (cstr repl) dest 0 dest.length

/-! ### Templates -/

/-- What a template is made of. -/
inductive TemplatePiece
  | literal (ch : UInt8)
  | unknown (num : ℕ)
  | group (num : ℕ)

/-- The text of a piece. -/
def TemplatePiece.text (m : Match) (subject : Bytes) : TemplatePiece → Bytes
  | literal ch => [ch]
  | unknown num => backslash :: Json.decimal num
  | group num => cstr (m.text subject num)

/-- The pieces of a template: a reference ends with its last digit, or with the byte behind the
backslash when this is no digit. -/
def pieces (m : Match) : Option ℤ → Bytes → List TemplatePiece
  | _, [] => []
  | none, ch :: repl =>
    if ch = backslash then pieces m (some 0) repl else .literal ch :: pieces m none repl
  | some num, ch :: repl =>
    let num := readDigit num ch
    if repl.head?.any Json.isDigit then pieces m (some num) repl
    else if m.captureCount < num then .unknown num.toNat :: pieces m none repl
    else if num < 0 then pieces m none repl
    else .group num.toNat :: pieces m none repl

def expansion (m : Match) (subject : Bytes) (ps : List TemplatePiece) : Bytes :=
  ps.flatMap (TemplatePiece.text m subject)

/-- A literal of the template comes to stand on the last of `destLen` bytes. -/
def FillsUp (m : Match) (subject repl : Bytes) (destLen : ℕ) : Prop :=
  ∃ front ch back, pieces m none (cstr repl) = front ++ .literal ch :: back ∧
    (expansion m subject front).length+1 = destLen

/-- The loop over pieces. -/
def writePieces (m : Match) (subject : Bytes) :
    List TemplatePiece → Bytes → ℕ → ℕ → Except Stop (Bool × Bytes)
  | [], mem, pos, _ => do
    let mem ← put mem pos [0]
    return (true,mem)
  | .literal ch :: ps, mem, pos, destLen =>
    if 0 < destLen then do
      let mem ← put mem pos [ch]
      writePieces m subject ps mem (pos+1) (destLen-1)
    else writePieces m subject ps mem pos destLen
  | .unknown num :: ps, mem, pos, destLen => do
    let mem ← put mem pos [0]
    writeReference (TemplatePiece.text m subject (.unknown num)) mem pos destLen (writePieces m subject ps)
  | .group num :: ps, mem, pos, destLen =>
    writeReference (TemplatePiece.text m subject (.group num)) mem pos destLen (writePieces m subject ps)

lemma replaceStringIn_eq_writePieces (m : Match) (subject : Bytes) (num : Option ℤ)
    (repl mem : Bytes) (pos destLen : ℕ) : replaceStringIn m subject num repl mem pos destLen =
      writePieces m subject (pieces m num repl) mem pos destLen := by
  induction repl generalizing num mem pos destLen with
  | nil =>
    cases num with
    | none => rfl
    | some num => rfl
  | cons ch repl ih =>
    have hnext : replaceStringIn m subject none repl = writePieces m subject (pieces m none repl) := by
      funext mem pos destLen
      exact ih none mem pos destLen
    cases num with
    | none =>
      simp only [replaceStringIn,pieces]
      split_ifs with hslash hroom
      · exact ih _ _ _ _
      · rw [writePieces,if_pos hroom]
        simp only [ih]
      · rw [writePieces,if_neg hroom]
        exact ih _ _ _ _
    | some num =>
      simp only [replaceStringIn,pieces]
      generalize readDigit num ch = num
      by_cases hmore : repl.head?.any Json.isDigit = true
      · rw [if_pos hmore,if_pos hmore,ih]
      · rw [if_neg hmore,if_neg hmore]
        by_cases hunknown : (m.captureCount : ℤ) < num
        · rw [if_pos hunknown,if_pos hunknown]
          rw [hnext]
          rfl
        · rw [if_neg hunknown,if_neg hunknown]
          by_cases hneg : num < 0
          · rw [if_pos hneg,if_pos hneg,ih]
          · rw [if_neg hneg,if_neg hneg]
            rw [hnext]
            rfl

section Pieces
variable {m : Match} {subject : Bytes}

@[simp] lemma expansion_nil : expansion m subject [] = [] := rfl

@[simp] lemma expansion_cons (p : TemplatePiece) (ps : List TemplatePiece) :
    expansion m subject (p :: ps) = p.text m subject ++ expansion m subject ps := rfl

lemma zero_notMem_text {p : TemplatePiece} (h : ∀ ch, p = .literal ch → ch ≠ 0) :
    (0 : UInt8) ∉ p.text m subject := by
  cases p with
  | literal ch =>
    intro hmem
    exact h ch rfl (List.mem_singleton.mp hmem).symm
  | unknown num =>
    intro hmem
    obtain hzero | hzero := List.mem_cons.mp hmem
    · cases hzero
    · cases Json.isDigit_decimal num 0 hzero
  | group num => exact zero_not_mem_cstr _

/-- The literals of a template are bytes of it. -/
theorem literal_of_mem_pieces {num : Option ℤ} {repl : Bytes} {ch : UInt8}
    (h : .literal ch ∈ pieces m num repl) : ch ∈ repl := by
  induction repl generalizing num with
  | nil =>
    cases num with
    | none => cases h
    | some num => cases h
  | cons c repl ih =>
    cases num with
    | none =>
      simp only [pieces] at h
      split_ifs at h with hslash
      · exact List.mem_cons_of_mem _ (ih h)
      · obtain heq | h := List.mem_cons.mp h
        · cases heq
          exact List.mem_cons_self
        · exact List.mem_cons_of_mem _ (ih h)
    | some num =>
      apply List.mem_cons_of_mem
      simp only [pieces] at h
      generalize readDigit num c = num at h
      split_ifs at h with hmore hunknown hneg
      · exact ih h
      · obtain heq | h := List.mem_cons.mp h
        · cases heq
        · exact ih h
      · exact ih h
      · obtain heq | h := List.mem_cons.mp h
        · cases heq
        · exact ih h

/-- A text that does not fit is cut off, with a terminator in its place. -/
theorem snprintf_of_room {mem : Bytes} {pos destLen : ℕ} (hlen : pos+destLen = mem.length)
    (hroom : 0 < destLen) (text : Bytes) : ∃ mem', snprintf mem pos destLen text = .ok mem' ∧
      mem'.length = mem.length ∧ (0 : UInt8) ∈ mem' ∧
      (mem.getLast? = some 0 → mem'.getLast? = some 0) ∧
      (text.length < destLen → mem'.take (pos+text.length) = mem.take pos ++ text) := by
  have hbound : pos+(text.take (destLen-1) ++ [(0 : UInt8)]).length ≤ mem.length := by
    rw [List.length_append,List.length_take,List.length_singleton]
    omega
  refine ⟨splice mem pos (text.take (destLen-1) ++ [0]),?_,length_splice hbound,
    mem_splice (List.mem_append_right _ List.mem_cons_self) pos,fun hlast => ?_,fun hfits => ?_⟩
  · rw [snprintf,if_neg (Nat.ne_of_gt hroom),put_of_le hbound]
  · exact getLast?_splice hlast (by rw [List.getLast?_append]; rfl)
  · have hall : text.take (destLen-1) = text := List.take_of_length_le (by omega)
    rw [hall]
    exact take_splice_append (by omega) [0]

/-- All is written in front of the end of the memory: the whole text, or as much of it as there is room
for. -/
def Writes (mem : Bytes) (pos destLen : ℕ) (text : Bytes) (r : Except Stop (Bool × Bytes)) : Prop :=
  ∃ mem', r = .ok (decide (text.length < destLen),mem') ∧ mem'.length = mem.length ∧ (0 : UInt8) ∈ mem' ∧
    (mem.getLast? = some 0 → mem'.getLast? = some 0) ∧
    (text.length < destLen → mem.take pos ++ (text ++ [0]) <+: mem')

/-- As long as no literal fills the memory up, the expansion is written. -/
theorem writePieces_of_not_fills (ps : List TemplatePiece) {mem : Bytes} {pos destLen : ℕ}
    (hlen : pos+destLen = mem.length) (hroom : 0 < destLen)
    (hfills : ∀ front ch back, ps = front ++ .literal ch :: back →
      (expansion m subject front).length+1 ≠ destLen) :
    Writes mem pos destLen (expansion m subject ps) (writePieces m subject ps mem pos destLen) := by
  induction ps generalizing mem pos destLen with
  | nil =>
    have hbound : pos+[(0 : UInt8)].length ≤ mem.length := by
      rw [List.length_singleton]
      omega
    refine ⟨splice mem pos [0],?_,length_splice hbound,mem_splice List.mem_cons_self pos,
      fun hlast => getLast?_splice hlast rfl,fun _ => ?_⟩
    · rw [writePieces,put_of_le hbound,expansion_nil,List.length_nil,decide_eq_true hroom]
      rfl
    · rw [splice,expansion_nil,List.nil_append,← List.append_assoc]
      exact List.prefix_append _ _
  | cons p ps ih =>
    have hback : ∀ {n}, (p.text m subject).length = n → n < destLen → ∀ front ch back,
        ps = front ++ .literal ch :: back → (expansion m subject front).length+1 ≠ destLen-n := by
      intro n hn hfits front ch back hps heq
      refine hfills (p :: front) ch back (by rw [hps,List.cons_append]) ?_
      rw [expansion_cons,List.length_append,hn]
      omega
    -- behind the text of the piece the loop goes on with the rest
    have hrest : ∀ {mem' : Bytes}, mem'.length = mem.length →
        (mem.getLast? = some 0 → mem'.getLast? = some 0) → (p.text m subject).length < destLen →
        mem'.take (pos+(p.text m subject).length) = mem.take pos ++ p.text m subject →
        Writes mem pos destLen (expansion m subject (p :: ps)) (writePieces m subject ps mem'
          (pos+(p.text m subject).length) (destLen-(p.text m subject).length)) := by
      intro mem' hlen' hlast' hfits htake
      have hsplit : pos+(p.text m subject).length+(destLen-(p.text m subject).length) = mem'.length := by
        rw [hlen']
        omega
      obtain ⟨mem'',hrun,hlen'',hzero,hlast'',hinit⟩ :=
        ih hsplit (Nat.sub_pos_of_lt hfits) (hback rfl hfits)
      have hcount : (expansion m subject (p :: ps)).length < destLen ↔
          (expansion m subject ps).length < destLen-(p.text m subject).length := by
        rw [expansion_cons,List.length_append]
        omega
      refine ⟨mem'',?_,hlen''.trans hlen',hzero,hlast'' ∘ hlast',fun hall => ?_⟩
      · rw [hrun,decide_eq_decide.mpr hcount]
      · rw [expansion_cons,List.append_assoc,← List.append_assoc,← htake]
        exact hinit (hcount.mp hall)
    -- a reference is printed, and the loop ends when there is no room for all of it
    have hreference : ∀ {mem₁ : Bytes}, mem₁.length = mem.length →
        (mem.getLast? = some 0 → mem₁.getLast? = some 0) → mem₁.take pos = mem.take pos →
        Writes mem pos destLen (expansion m subject (p :: ps))
          (writeReference (p.text m subject) mem₁ pos destLen (writePieces m subject ps)) := by
      intro mem₁ hlen₁ hlast₁ htake₁
      obtain ⟨mem₂,hprint,hlen₂,hzero₂,hlast₂,htake₂⟩ :=
        snprintf_of_room (hlen.trans hlen₁.symm) hroom (p.text m subject)
      rw [writeReference,hprint,ok_bind]
      by_cases hfits : (p.text m subject).length < destLen
      · obtain ⟨mem'',hrun,hpost⟩ := hrest (hlen₂.trans hlen₁) (hlast₂ ∘ hlast₁) hfits
          ((htake₂ hfits).trans (by rw [htake₁]))
        exact ⟨mem'',by rw [if_neg (Nat.not_le.mpr hfits),hrun],hpost⟩
      · have hnot : ¬(expansion m subject (p :: ps)).length < destLen := by
          rw [expansion_cons,List.length_append]
          omega
        refine ⟨mem₂,?_,hlen₂.trans hlen₁,hzero₂,hlast₂ ∘ hlast₁,fun hall => absurd hall hnot⟩
        rw [decide_eq_false hnot,if_pos (Nat.le_of_not_lt hfits)]
        rfl
    cases p with
    | literal ch =>
      have hmore : 1 < destLen := by
        have hne := hfills [] ch ps rfl
        rw [expansion_nil,List.length_nil] at hne
        omega
      have hbound : pos+[ch].length < mem.length := by
        rw [List.length_singleton]
        omega
      rw [writePieces,if_pos hroom,put_of_le hbound.le]
      exact hrest (length_splice hbound.le)
        (fun hlast => (getLast?_splice_of_lt hbound).trans hlast) hmore (take_splice (by omega))
    | unknown num =>
      have hbound : pos+[(0 : UInt8)].length ≤ mem.length := by
        rw [List.length_singleton]
        omega
      rw [writePieces,put_of_le hbound]
      exact hreference (length_splice hbound) (fun hlast => getLast?_splice hlast rfl)
        (take_splice_left (by omega) _)
    | group num => exact hreference rfl id rfl

/-- Behind a memory that is full without a terminator, nothing can be written. -/
theorem writePieces_of_full (ps : List TemplatePiece) {mem : Bytes} (h : (0 : UInt8) ∉ mem) :
    ¬Stays (fun r => (0 : UInt8) ∈ r.2) (writePieces m subject ps mem mem.length 0) := by
  have houtside : put mem mem.length [0] = .error .outside := put_of_lt (Nat.lt_succ_self _)
  induction ps with
  | nil =>
    rw [writePieces,houtside]
    exact id
  | cons p ps ih =>
    cases p with
    | literal ch => exact ih
    | unknown num =>
      rw [writePieces,houtside]
      exact id
    | group num => exact h

lemma writePieces_of_fills {front : List TemplatePiece} (ch : UInt8) (back : List TemplatePiece) {mem : Bytes}
    {pos destLen : ℕ} (hlen : pos+destLen = mem.length)
    (hnul : ∀ ch', .literal ch' ∈ front ++ .literal ch :: back → ch' ≠ 0)
    (hmem : (0 : UInt8) ∉ mem.take pos) (hfront : (expansion m subject front).length+1 = destLen) :
    ¬Stays (fun r => (0 : UInt8) ∈ r.2)
      (writePieces m subject (front ++ .literal ch :: back) mem pos destLen) := by
  induction front generalizing mem pos destLen with
  | nil =>
    rw [expansion_nil,List.length_nil] at hfront
    have hbound : pos+[ch].length = mem.length := by
      rw [List.length_singleton]
      omega
    have hfull : splice mem pos [ch] = mem.take pos ++ [ch] := by
      rw [splice,hbound,List.drop_length]
      rfl
    have hnotMem : (0 : UInt8) ∉ splice mem pos [ch] := by
      rw [hfull,List.mem_append,not_or,List.mem_singleton]
      exact ⟨hmem,(hnul ch (List.mem_append_right _ List.mem_cons_self)).symm⟩
    have hnot := @writePieces_of_full m subject back _ hnotMem
    rw [length_splice hbound.le,← hbound] at hnot
    rw [List.nil_append,writePieces,if_pos (by omega),put_of_le hbound.le]
    rw [show destLen-1 = 0 by omega]
    exact hnot
  | cons p front ih =>
    rw [expansion_cons,List.length_append] at hfront
    have hfits : (p.text m subject).length < destLen := by omega
    have htext := @zero_notMem_text m subject p
      fun ch' hp => hnul ch' (by rw [hp]; exact List.mem_cons_self)
    have hrest : ∀ {mem' : Bytes}, mem'.length = mem.length →
        mem'.take (pos+(p.text m subject).length) = mem.take pos ++ p.text m subject →
        ¬Stays (fun r => (0 : UInt8) ∈ r.2)
          (writePieces m subject (front ++ .literal ch :: back) mem' (pos+(p.text m subject).length)
            (destLen-(p.text m subject).length)) := by
      intro mem' hlen' htake
      apply ih
      · omega
      · exact fun ch' hch' => hnul ch' (List.mem_cons_of_mem _ hch')
      · rw [htake,List.mem_append,not_or]
        exact ⟨hmem,htext⟩
      · omega
    have hreference : ∀ {mem₁ : Bytes}, mem₁.length = mem.length → mem₁.take pos = mem.take pos →
        ¬Stays (fun r => (0 : UInt8) ∈ r.2) (writeReference (p.text m subject) mem₁ pos destLen
          (writePieces m subject (front ++ .literal ch :: back))) := by
      intro mem₁ hlen₁ htake₁
      obtain ⟨mem₂,hprint,hlen₂,-,-,htake₂⟩ :=
        snprintf_of_room (hlen.trans hlen₁.symm) (by omega) (p.text m subject)
      rw [writeReference,hprint,ok_bind,if_neg (Nat.not_le.mpr hfits)]
      exact hrest (hlen₂.trans hlen₁) ((htake₂ hfits).trans (by rw [htake₁]))
    cases p with
    | literal c =>
      have hbound : pos+[c].length ≤ mem.length := by
        rw [List.length_singleton]
        omega
      rw [List.cons_append,writePieces,if_pos (by omega),put_of_le hbound]
      exact hrest (length_splice hbound) (take_splice (by omega))
    | unknown num =>
      have hbound : pos+[(0 : UInt8)].length ≤ mem.length := by
        rw [List.length_singleton]
        omega
      rw [List.cons_append,writePieces,put_of_le hbound]
      exact hreference (length_splice hbound) (take_splice_left (by omega) _)
    | group num => exact hreference rfl rfl

lemma literal_ne_zero {repl : Bytes} {ch : UInt8}
    (h : .literal ch ∈ pieces m none (cstr repl)) : ch ≠ 0 := by
  rintro rfl
  exact zero_not_mem_cstr repl (literal_of_mem_pieces h)

/-- The loop of `nr_rule_replace_string` over a memory that no literal fills up. -/
theorem replaceStringIn_of_not_fills {repl dest : Bytes} (hdest : dest ≠ [])
    (h : ¬FillsUp m subject repl dest.length) :
    Writes dest 0 dest.length (expansion m subject (pieces m none (cstr repl)))
      (replaceStringIn m subject none (cstr repl) dest 0 dest.length) := by
  have hfills : ∀ front ch back, pieces m none (cstr repl) = front ++ .literal ch :: back →
      (expansion m subject front).length+1 ≠ dest.length := by
    intro front ch back hpieces heq
    exact h ⟨front,ch,back,hpieces,heq⟩
  rw [replaceStringIn_eq_writePieces]
  exact writePieces_of_not_fills _ (Nat.zero_add dest.length) (List.length_pos_of_ne_nil hdest) hfills

lemma replaceStringIn_of_fills {repl dest : Bytes} (h : FillsUp m subject repl dest.length) :
    ¬Stays (fun r => (0 : UInt8) ∈ r.2)
      (replaceStringIn m subject none (cstr repl) dest 0 dest.length) := by
  obtain ⟨front,ch,back,hpieces,hfront⟩ := h
  rw [replaceStringIn_eq_writePieces,hpieces]
  apply writePieces_of_fills ch back (Nat.zero_add _)
  · intro ch' hch'
    rw [← hpieces] at hch'
    exact literal_ne_zero hch'
  · exact List.not_mem_nil
  · exact hfront

/-- What is written into `dest` stays in it, with a terminator, exactly when no literal fills it up. -/
theorem nrRuleReplaceString_stays_iff (m : Match) (subject repl dest : Bytes) :
    Stays (fun r => r.2.length = dest.length ∧ (dest ≠ [] → (0 : UInt8) ∈ r.2))
      (nrRuleReplaceString m subject repl dest) ↔ ¬FillsUp m subject repl dest.length := by
  by_cases hdest : dest = []
  · subst hdest
    constructor
    · rintro - ⟨front,ch,back,-,hfront⟩
      cases hfront
    · intro _
      exact ⟨rfl,fun hne => absurd rfl hne⟩
  · rw [nrRuleReplaceString,if_neg hdest]
    constructor
    · intro hstays hfills
      exact replaceStringIn_of_fills hfills (hstays.mono fun r hr => hr.2 hdest)
    · intro hfills
      obtain ⟨dest',hrun,hlen,hzero,-,-⟩ := replaceStringIn_of_not_fills hdest hfills
      rw [hrun]
      exact ⟨hlen,fun _ => hzero⟩

end Pieces

/-! ### The working strings -/

/-- The strings `str`, `work` and `repl`. -/
structure Buffers where
  str : Bytes
  work : Bytes
  repl : Bytes

/-- The strings have terminators within their `NRULE_BUF_SIZE` bytes. -/
def IsString (mem : Bytes) : Prop := mem.length = nruleBufSize ∧ (0 : UInt8) ∈ mem

def Buffers.Terminated (b : Buffers) : Prop :=
  IsString b.str ∧ IsString b.work ∧ IsString b.repl

namespace Rule

/-- The text that replaces a match, if it can be built, and the memory of `repl`. -/
def replacedIn (rule : Rule) (m : Match) (subject repl : Bytes) : Except Stop (Option Bytes × Bytes) :=
  if rule.hasCaptures then do
    let (ok,repl) ← nrRuleReplaceString m subject rule.replacement repl
    if ok then do
      let text ← readString repl
      return (some text,repl)
    else return (none,repl)
  else return (some (cstr rule.replacement),repl)

/-- `nr_strcpy` of the work string to the string. -/
def copyBack (b : Buffers) : Except Stop Buffers := do
  let text ← readString b.work
  let str ← put b.str 0 (text ++ [0])
  return {b with str := str}

/-- The case without a loop. -/
def applyOnceIn (rule : Rule) (b : Buffers) : Except Stop (RulesResult × Buffers) := do
  let s ← readString b.str
  match rule.regex.find s 0 with
  | none => return (.unchanged,b)
  | some m =>
    if rule.ignore then return (.ignore,b)
    else
      let front := s.take m.start
      let work ← put b.work 0 (front ++ [0])
      let (text,repl) ← rule.replacedIn m s b.repl
      match text with
      | none => return (.unchanged,⟨b.str,work,repl⟩)
      | some text =>
        let text := text.take (nruleBufSize-1)
        let work ← put work front.length (text ++ [0])
        let work ← put work (front.length+text.length) (s.drop m.stop ++ [0])
        let b ← copyBack ⟨b.str,work,repl⟩
        return (.changed,b)

/-- The loop over segments; `wp` is where the work string ends. -/
def applySegmentsIn (rule : Rule) : ℕ → ℕ → Bool → List Bytes → Buffers →
    Except Stop (RulesResult × Buffers)
  | _, _, changed, [], b => do
    let b ← copyBack b
    return (if changed then .changed else .unchanged,b)
  | segstart, wp, changed, segment :: segments, b => do
    let str := if segments = [] then b.str else b.str.set (segstart+segment.length) 0
    let next := segstart+segment.length+1
    let work ← put b.work wp [slash,0]
    match rule.regex.find segment 0 with
    | some m =>
      let (text,repl) ← rule.replacedIn m segment b.repl
      match text with
      | none => return (.unchanged,⟨str,work,repl⟩)
      | some text =>
        let work ← put work (wp+1) (text ++ [0])
        applySegmentsIn rule next (wp+1+text.length) true segments ⟨str,work,repl⟩
    | none =>
      let work ← put work (wp+1) (segment ++ [0])
      applySegmentsIn rule next (wp+1+segment.length) changed segments ⟨str,work,b.repl⟩

/-- The replacement of a round of `replace_all`, in `repl`. -/
def nextReplacement (rule : Rule) (need : Bool) (m : Match) (subject repl : Bytes) :
    Except Stop (Option Bytes × Bytes) :=
  if need then
    if rule.hasCaptures then rule.replacedIn m subject repl
    else do
      let repl ← put repl 0 (cstr rule.replacement ++ [0])
      let text ← readString repl
      return (some text,repl)
  else do
    let text ← readString repl
    return (some text,repl)

/-- The loop of `replace_all` over what is left of the string. -/
def applyAllIn (rule : Rule) : ℕ → ℕ → Bytes → Bool → Bool → Buffers →
    Except Stop (RulesResult × Buffers)
  | 0, _, _, _, _, _ => .error .fuel
  | fuel+1, wp, rest, need, changed, b =>
    match rule.regex.find rest 0 with
    | none => do
      let work ← put b.work wp (rest ++ [0])
      let b ← copyBack {b with work := work}
      return (if changed then .changed else .unchanged,b)
    | some m => do
      let front := rest.take m.start
      let work ← put b.work wp (front ++ [0])
      let (text,repl) ← rule.nextReplacement need m rest b.repl
      match text with
      | none => return (.unchanged,⟨b.str,work,repl⟩)
      | some text =>
        let work ← put work (wp+front.length) (text ++ [0])
        applyAllIn rule fuel (wp+front.length+text.length) (rest.drop m.stop)
          (need && (rule.hasAlts || rule.hasCaptures)) true ⟨b.str,work,repl⟩

/-- `nr_rule_apply`. -/
def applyIn (fuel : ℕ) (rule : Rule) (b : Buffers) : Except Stop (RulesResult × Buffers) := do
  let work ← put b.work 0 [0]
  let b := {b with work := work}
  if rule.ignore ∨ (rule.eachSegment = false ∧ rule.replaceAll = false) then rule.applyOnceIn b
  else if rule.eachSegment then
    -- the first byte of the string is skipped
    let s ← readString (b.str.drop 1)
    rule.applySegmentsIn 1 0 false (s.splitOn slash) b
  else
    let s ← readString b.str
    rule.applyAllIn fuel 0 s true false b

/-- The loop of `nr_rules_apply`, with the strings it leaves. -/
def applyFromIn (fuel : ℕ) : List Rule → Bool → Buffers →
    Except Stop (RulesResult × Option Bytes × Buffers)
  | [], changed, b =>
    if changed then do
      let text ← readString b.str
      return (.changed,some text,b)
    else return (.unchanged,none,b)
  | rule :: rules, changed, b => do
    let (result,b) ← rule.applyIn fuel b
    match result with
    | .ignore => return (.ignore,none,b)
    | .changed =>
      if rule.terminate then do
        let text ← readString b.str
        return (.changed,some text,b)
      else applyFromIn fuel rules true b
    | .unchanged => applyFromIn fuel rules changed b

/-- The strings at the start: zeros, and the name as far as it fits. -/
def initialBuffers (name : Bytes) : Buffers :=
  ⟨initial (cstr name),List.replicate nruleBufSize 0,List.replicate nruleBufSize 0⟩

/-- `nr_rules_apply`. -/
def applyRulesIn (fuel : ℕ) (rules : List Rule) (name : Bytes) :
    Except Stop (RulesResult × Option Bytes × Buffers) :=
  applyFromIn fuel rules false (initialBuffers name)

/-! ### What fits -/

/-- The room the replacement of a match takes, if it can be built. -/
def room (rule : Rule) (m : Match) (subject : Bytes) : Option ℕ :=
  if rule.hasCaptures then
    let n := (expansion m subject (pieces m none (cstr rule.replacement))).length
    if n < nruleBufSize then some n else none
  else some (cstr rule.replacement).length

/-- A literal of the replacement comes to stand on the last byte of `repl`. -/
def Fills (rule : Rule) (m : Match) (subject : Bytes) : Prop :=
  rule.hasCaptures = true ∧ FillsUp m subject rule.replacement nruleBufSize

/-- The parts of the string around the match and the replacement are shorter than the buffer. -/
def OnceFits (rule : Rule) (s : Bytes) : Prop :=
  ∀ m, rule.regex.find s 0 = some m → rule.ignore = false → ¬rule.Fills m s ∧
    ∀ n, rule.room m s = some n →
      (s.take m.start).length+min n (nruleBufSize-1)+(s.drop m.stop).length < nruleBufSize

/-- The segments, replaced where they match and each behind a slash, are shorter than the buffer, as far
as replacements can be built. -/
def SegmentsFit (rule : Rule) : ℕ → List Bytes → Prop
  | _, [] => True
  | wp, segment :: segments =>
    match rule.regex.find segment 0 with
    | none => wp+1+segment.length < nruleBufSize ∧ SegmentsFit rule (wp+1+segment.length) segments
    | some m => wp+1 < nruleBufSize ∧ ¬rule.Fills m segment ∧ ∀ n, rule.room m segment = some n →
        wp+1+n < nruleBufSize ∧ SegmentsFit rule (wp+1+n) segments

/-- From one match to the next: how much has been written, and what is left of the string. -/
inductive Round (rule : Rule) : ℕ × Bytes → ℕ × Bytes → Prop
  | step {wp : ℕ} {rest : Bytes} {m : Match} {n : ℕ} (hfind : rule.regex.find rest 0 = some m)
      (hroom : rule.room m rest = some n) :
      Round rule (wp,rest) (wp+(rest.take m.start).length+n,rest.drop m.stop)

/-- What is written in one round is shorter than the buffer. -/
def RoundFits (rule : Rule) (wp : ℕ) (rest : Bytes) : Prop :=
  match rule.regex.find rest 0 with
  | none => wp+rest.length < nruleBufSize
  | some m => wp+(rest.take m.start).length < nruleBufSize ∧ ¬rule.Fills m rest ∧
      ∀ n, rule.room m rest = some n → wp+(rest.take m.start).length+n < nruleBufSize

/-- The parts between successive matches and their replacements are shorter than the buffer. -/
def AllFit (rule : Rule) (wp : ℕ) (s : Bytes) : Prop :=
  ∀ wp' rest, Relation.ReflTransGen rule.Round (wp,s) (wp',rest) → rule.RoundFits wp' rest

/-- What the rule makes of the string fits the buffers. -/
def Fits (rule : Rule) (str : Bytes) : Prop :=
  if rule.ignore ∨ (rule.eachSegment = false ∧ rule.replaceAll = false) then rule.OnceFits (cstr str)
  else if rule.eachSegment then rule.SegmentsFit 0 (segments str)
  else rule.AllFit 0 (cstr str)

end Rule
end PhpAgent

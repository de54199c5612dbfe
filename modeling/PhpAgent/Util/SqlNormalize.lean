import PhpAgent.Util.Sql

/-! Normalization of SQL, after `nr_sql_normalize` in `util_sql.c`: the contents of IN lists become one
placeholder. A text is made of blocks, behind each of which the scan is back in its initial state. Lengths,
`int`s of the source, are numbers here. -/
namespace PhpAgent
namespace Sql
open Json (code)

/-- The states 0 to 4: normal, `i` seen, `in` seen, inside a list, inside a list of something else. -/
inductive Scan
  | normal
  | seenI
  | seenIn
  | list
  | other
deriving DecidableEq

def isI (c : UInt8) : Bool := c = code 'i' || c = code 'I'
def isN (c : UInt8) : Bool := c = code 'n' || c = code 'N'

/-- What is left out in a list: placeholders, commas and white space. -/
def isMark (c : UInt8) : Bool := c = code '?' || c = code ',' || isspace c

/-- One round of the loop: the next state and what is written. -/
def scanRound : Scan → UInt8 → Scan × Bytes
  | .normal, c => (if isI c then .seenI else .normal,[c])
  | .seenI, c => (if isN c then .seenIn else .normal,[c])
  | .seenIn, c => (if c = code '(' then .list else if isspace c then .seenIn else .normal,[c])
  | .list, c =>
    if isMark c then (.list,[])
    else if c = code ')' then (.normal,[code '?',code ')'])
    else (.other,[c])
  | .other, c => (if c = code ')' then .normal else .other,[c])

/-- The loop. -/
def normalizeFrom : Scan → Bytes → Bytes
  | _, [] => []
  | state, c :: rest => (scanRound state c).2 ++ normalizeFrom (scanRound state c).1 rest

/-- `nr_sql_normalize`. -/
def normalize (sql : Option Bytes) : Option Bytes :=
  match sql with
  | none => none
  | some [] => none
  | some (c :: rest) => some (normalizeFrom .normal (c :: rest))

/-- `nr_sql_normalized_id`; `hash` is `nr_mkhash`. -/
def normalizedId (hash : Bytes → UInt32) (sql : Option Bytes) : UInt32 :=
  match normalize sql with
  | none => 0
  | some normalized => hash normalized

/-- The state behind a text. -/
def scanState : Scan → Bytes → Scan
  | state, [] => state
  | state, c :: rest => scanState (scanRound state c).1 rest

lemma scanState_append (state : Scan) (s s' : Bytes) :
    scanState state (s ++ s') = scanState (scanState state s) s' := by
  induction s generalizing state with
  | nil => rfl
  | cons c s ih => exact ih _

lemma normalizeFrom_append (state : Scan) (s s' : Bytes) :
    normalizeFrom state (s ++ s') = normalizeFrom state s ++ normalizeFrom (scanState state s) s' := by
  induction s generalizing state with
  | nil => rfl
  | cons c s ih => rw [List.cons_append,normalizeFrom,ih,normalizeFrom,scanState,List.append_assoc]

/-! ### Idempotence -/

lemma isMark_close : isMark (code ')') = false := rfl

lemma scan_normal_mark : scanRound .list (code '?') = (.list,[]) := rfl

/-- Outside lists and inside lists of something else a byte is written as it is read. -/
theorem scanRound_copies {state : Scan} (hstate : state ≠ .list) (c : UInt8) :
    (scanRound state c).2 = [c] := by
  cases state with
  | list => exact absurd rfl hstate
  | normal => rfl
  | seenI => rfl
  | seenIn => rfl
  | other => rfl

/-- The loop does nothing more to its own output. -/
theorem normalizeFrom_idem (state : Scan) (s : Bytes) :
    normalizeFrom state (normalizeFrom state s) = normalizeFrom state s := by
  induction s generalizing state with
  | nil => rfl
  | cons c s ih =>
    by_cases hlist : state = .list
    · subst hlist
      rw [normalizeFrom,scanRound]
      split_ifs with hmark hclose
      · exact ih .list
      · change normalizeFrom .list (code '?' :: code ')' :: normalizeFrom .normal s) = _
        rw [normalizeFrom,scan_normal_mark,normalizeFrom,scanRound,isMark_close]
        simp only [if_true,Bool.false_eq_true,if_false]
        rw [ih .normal]
        rfl
      · change normalizeFrom .list (c :: normalizeFrom .other s) = _
        rw [normalizeFrom,scanRound,if_neg hmark,if_neg hclose]
        simp only
        rw [ih .other]
    · rw [normalizeFrom,scanRound_copies hlist]
      change normalizeFrom state (c :: normalizeFrom (scanRound state c).1 s) = _
      rw [normalizeFrom,scanRound_copies hlist,ih]

/-- Normalizing twice is normalizing once. -/
theorem normalize_idem (sql : Option Bytes) : normalize (normalize sql) = normalize sql := by
  cases sql with
  | none => rfl
  | some s =>
    cases s with
    | nil => rfl
    | cons c s =>
      have hout : normalizeFrom .normal (c :: s) = c :: normalizeFrom (scanRound .normal c).1 s := rfl
      rw [normalize,hout,normalize,← hout,normalizeFrom_idem]

/-! ### Blocks -/

/-- `in` in any case, and white space. -/
structure Keyword where
  i : UInt8
  n : UInt8
  space : Bytes
  isI : isI i = true
  isN : isN n = true
  blank : ∀ c ∈ space, isspace c = true

namespace Keyword

def text (k : Keyword) : Bytes := k.i :: k.n :: k.space

end Keyword

/-- The bytes that follow the parenthesis of a list and are left out. -/
abbrev Marks : Type := { s : Bytes // ∀ c ∈ s, isMark c = true }

/-- A list that holds something else: its first such byte and what follows it. -/
structure Something where
  head : UInt8
  more : Bytes
  notMark : isMark head = false
  notClose : head ≠ code ')'
  isOpen : code ')' ∉ more

namespace Something

def text (x : Something) : Bytes := x.head :: x.more

end Something

/-- A text that begins and ends in the initial state and in between is never there. -/
inductive Block
  | byte (c : UInt8) (h : isI c = false)
  | noN (i c : UInt8) (hi : isI i = true) (hc : isN c = false)
  | noList (k : Keyword) (c : UInt8) (hc : isspace c = false) (hopen : c ≠ code '(')
  | list (k : Keyword) (marks : Marks)
  | other (k : Keyword) (marks : Marks) (x : Something)

/-- The beginning of a block. -/
inductive Unfinished
  | nothing
  | seenI (i : UInt8) (hi : isI i = true)
  | keyword (k : Keyword)
  | list (k : Keyword) (marks : Marks)
  | other (k : Keyword) (marks : Marks) (x : Something)

namespace Block

def text : Block → Bytes
  | byte c _ => [c]
  | noN i c _ _ => [i,c]
  | noList k c _ _ => k.text ++ [c]
  | list k marks => k.text ++ code '(' :: (marks ++ [code ')'])
  | other k marks x => k.text ++ code '(' :: (marks ++ (x.text ++ [code ')']))

/-- How many bytes of the block are left out. -/
def dropped : Block → ℕ
  | list _ marks => marks.1.length
  | other _ marks _ => marks.1.length
  | _ => 0

/-- A closed list is given a placeholder. -/
def added : Block → ℕ
  | list _ _ => 1
  | _ => 0

end Block

namespace Unfinished

def text : Unfinished → Bytes
  | nothing => []
  | seenI i _ => [i]
  | keyword k => k.text
  | list k marks => k.text ++ code '(' :: marks
  | other k marks x => k.text ++ code '(' :: (marks ++ x.text)

def state : Unfinished → Scan
  | nothing => .normal
  | seenI _ _ => .seenI
  | keyword _ => .seenIn
  | list _ _ => .list
  | other _ _ _ => .other

def dropped : Unfinished → ℕ
  | list _ marks => marks.1.length
  | other _ marks _ => marks.1.length
  | _ => 0

end Unfinished

/-! ### Runs over blocks -/

/-- What a run over a text does: the state behind it, and what is written. -/
def scan (state : Scan) (s : Bytes) : Scan × Bytes := (scanState state s,normalizeFrom state s)

lemma scan_append {state state' : Scan} {s s' out : Bytes} (h : scan state s = (state',out)) :
    scan state (s ++ s') = ((scan state' s').1,out ++ (scan state' s').2) := by
  obtain ⟨hstate,hout⟩ := Prod.mk.inj h
  rw [scan,scanState_append,normalizeFrom_append,hstate,hout]
  rfl

lemma scan_cons (state : Scan) (c : UInt8) (s : Bytes) :
    scan state (c :: s) = ((scan (scanRound state c).1 s).1,
      (scanRound state c).2 ++ (scan (scanRound state c).1 s).2) := rfl

lemma Keyword.scan_text (k : Keyword) : scan .normal k.text = (.seenIn,k.text) := by
  have hspace : ∀ space : Bytes, (∀ c ∈ space, isspace c = true) →
      scan .seenIn space = (.seenIn,space) := by
    intro space hspace
    induction space with
    | nil => rfl
    | cons c space ih =>
      have hc := hspace c List.mem_cons_self
      have hne : c ≠ code '(' := by
        rintro rfl
        cases hc
      rw [scan_cons,scanRound,if_neg hne,if_pos hc,ih fun d hd => hspace d (List.mem_cons_of_mem _ hd)]
      rfl
  rw [Keyword.text,scan_cons,scanRound,if_pos k.isI,scan_cons,scanRound,if_pos k.isN,
    hspace _ k.blank]
  rfl

lemma scan_marks (marks : Marks) : scan .list marks = (.list,[]) := by
  obtain ⟨s,hs⟩ := marks
  induction s with
  | nil => rfl
  | cons c s ih =>
    rw [scan_cons,scanRound,if_pos (hs c List.mem_cons_self)]
    exact ih fun d hd => hs d (List.mem_cons_of_mem _ hd)

lemma Something.scan_text (x : Something) : scan .list x.text = (.other,x.text) := by
  have hmore : ∀ more : Bytes, code ')' ∉ more → scan .other more = (.other,more) := by
    intro more hmore
    induction more with
    | nil => rfl
    | cons c more ih =>
      rw [List.mem_cons,not_or] at hmore
      rw [scan_cons,scanRound,if_neg (Ne.symm hmore.1),ih hmore.2]
      rfl
  rw [Something.text,scan_cons,scanRound,x.notMark,if_neg Bool.false_ne_true,if_neg x.notClose,
    hmore _ x.isOpen]
  rfl

/-- The opening of a list. -/
theorem Keyword.scan_open (k : Keyword) (s : Bytes) : scan .normal (k.text ++ code '(' :: s) =
    ((scan .list s).1,k.text ++ code '(' :: (scan .list s).2) := by
  rw [scan_append k.scan_text]
  rfl

/-- What is written for a block. -/
def Block.written : Block → Bytes
  | .list k _ => k.text ++ code '(' :: [code '?',code ')']
  | .other k _ x => k.text ++ code '(' :: (x.text ++ [code ')'])
  | b => b.text

def Unfinished.written : Unfinished → Bytes
  | .list k _ => k.text ++ [code '(']
  | .other k _ x => k.text ++ code '(' :: x.text
  | u => u.text

lemma Block.scan_text (b : Block) : scan .normal b.text = (.normal,b.written) := by
  cases b with
  | byte c h => rw [Block.text,scan_cons,scanRound,h]; rfl
  | noN i c hi hc => rw [Block.text,scan_cons,scanRound,if_pos hi,scan_cons,scanRound,hc]; rfl
  | noList k c hc hopen =>
    rw [Block.text,scan_append k.scan_text,scan_cons,scanRound,if_neg hopen,hc]
    rfl
  | list k marks => rw [Block.text,k.scan_open,scan_append (scan_marks marks)]; rfl
  | other k marks x =>
    rw [Block.text,k.scan_open,scan_append (scan_marks marks),scan_append x.scan_text]
    rfl

lemma Unfinished.scan_text (u : Unfinished) : scan .normal u.text = (u.state,u.written) := by
  cases u with
  | nothing => rfl
  | seenI i hi => rw [Unfinished.text,scan_cons,scanRound,if_pos hi]; rfl
  | keyword k => exact k.scan_text
  | list k marks => rw [Unfinished.text,k.scan_open,scan_marks]; rfl
  | other k marks x => rw [Unfinished.text,k.scan_open,scan_append (scan_marks marks),x.scan_text]; rfl

lemma scan_blocks (bs : List Block) (s : Bytes) : scan .normal (bs.flatMap Block.text ++ s) =
    ((scan .normal s).1,bs.flatMap Block.written ++ (scan .normal s).2) := by
  induction bs with
  | nil => rfl
  | cons b bs ih =>
    rw [List.flatMap_cons,List.append_assoc,scan_append b.scan_text,ih,List.flatMap_cons,
      List.append_assoc]

/-- A text up to the first byte without a property. -/
theorem exists_front (p : UInt8 → Bool) (s : Bytes) : ∃ front, (∀ c ∈ front, p c = true) ∧
    (s = front ∨ ∃ c rest, p c = false ∧ s = front ++ c :: rest) := by
  induction s with
  | nil => exact ⟨[],fun c hc => absurd hc List.not_mem_nil,.inl rfl⟩
  | cons d s ih =>
    cases hd : p d with
    | false => exact ⟨[],fun c hc => absurd hc List.not_mem_nil,.inr ⟨d,s,hd,rfl⟩⟩
    | true =>
      obtain ⟨front,hfront,hend⟩ := ih
      refine ⟨d :: front,?_,?_⟩
      · intro c hc
        obtain rfl | hc := List.mem_cons.mp hc
        · exact hd
        · exact hfront c hc
      · obtain rfl | ⟨c,rest,hc,rfl⟩ := hend
        · exact .inl rfl
        · exact .inr ⟨c,rest,hc,rfl⟩

/-- The first block of a text, or the whole of it is the beginning of one. -/
theorem exists_block (s : Bytes) : (∃ u : Unfinished, s = u.text) ∨
    ∃ (b : Block) (rest : Bytes), s = b.text ++ rest ∧ rest.length < s.length := by
  cases s with
  | nil => exact .inl ⟨.nothing,rfl⟩
  | cons i s =>
    cases hi : isI i with
    | false => exact .inr ⟨.byte i hi,s,rfl,Nat.lt_succ_self _⟩
    | true =>
      cases s with
      | nil => exact .inl ⟨.seenI i hi,rfl⟩
      | cons n s =>
        cases hn : isN n with
        | false =>
          refine .inr ⟨.noN i n hi hn,s,rfl,?_⟩
          simp only [List.length_cons]
          omega
        | true =>
          obtain ⟨space,hspace,hend⟩ := exists_front isspace s
          let k : Keyword := ⟨i,n,space,hi,hn,hspace⟩
          obtain rfl | ⟨c,s,hc,rfl⟩ := hend
          · exact .inl ⟨.keyword k,rfl⟩
          by_cases hopen : c = code '('
          · subst hopen
            obtain ⟨marks,hmarks,hend⟩ := exists_front isMark s
            obtain rfl | ⟨x,s,hx,rfl⟩ := hend
            · exact .inl ⟨.list k ⟨s,hmarks⟩,rfl⟩
            by_cases hclose : x = code ')'
            · subst hclose
              refine .inr ⟨.list k ⟨marks,hmarks⟩,s,?_,?_⟩
              · simp [Block.text,Keyword.text,k]
              · simp only [List.length_cons,List.length_append]
                omega
            · obtain ⟨more,hmore,hend⟩ := exists_front (fun c => c ≠ code ')') s
              have hnot : code ')' ∉ more := fun hmem => by simpa using hmore _ hmem
              obtain rfl | ⟨y,s,hy,rfl⟩ := hend
              · exact .inl ⟨.other k ⟨marks,hmarks⟩ ⟨x,s,hx,hclose,hnot⟩,rfl⟩
              · obtain rfl : y = code ')' := by simpa using hy
                refine .inr ⟨.other k ⟨marks,hmarks⟩ ⟨x,more,hx,hclose,hnot⟩,s,?_,?_⟩
                · simp [Block.text,Keyword.text,Something.text,k]
                · simp only [List.length_cons,List.length_append]
                  omega
          · refine .inr ⟨.noList k c hc hopen,s,?_,?_⟩
            · simp [Block.text,Keyword.text,k]
            · simp only [List.length_cons,List.length_append]
              omega

/-- Every text is made of blocks, and the beginning of one. -/
theorem exists_blocks (s : Bytes) : ∃ (bs : List Block) (u : Unfinished),
    s = bs.flatMap Block.text ++ u.text := by
  induction hn : s.length using Nat.strong_induction_on generalizing s with
  | _ n ih =>
    subst hn
    obtain ⟨u,rfl⟩ | ⟨b,rest,hs,hlen⟩ := exists_block s
    · exact ⟨[],u,rfl⟩
    · obtain ⟨bs,u,rfl⟩ := ih rest.length hlen rest rfl
      exact ⟨b :: bs,u,by rw [List.flatMap_cons,List.append_assoc,hs]⟩

/-! ### How much is written -/

lemma Block.length_written (b : Block) :
    b.written.length+b.dropped = b.text.length+b.added := by
  cases b with
  | byte c h => rfl
  | noN i c hi hc => rfl
  | noList k c hc hopen => rfl
  | list k marks =>
    simp only [written,text,dropped,added,List.length_append,List.length_cons,List.length_nil]
    omega
  | other k marks x =>
    simp only [written,text,dropped,added,List.length_append,List.length_cons,List.length_nil]
    omega

lemma Unfinished.length_written (u : Unfinished) :
    u.written.length+u.dropped = u.text.length := by
  cases u with
  | nothing => rfl
  | seenI i hi => rfl
  | keyword k => rfl
  | list k marks =>
    simp only [written,text,dropped,List.length_append,List.length_cons,List.length_nil]
    omega
  | other k marks x =>
    simp only [written,text,dropped,List.length_append,List.length_cons]
    omega

/-- What is written and what is left out is what is read and what is added. -/
theorem length_normalizeFrom (bs : List Block) (u : Unfinished) :
    (normalizeFrom .normal (bs.flatMap Block.text ++ u.text)).length+
        ((bs.map Block.dropped).sum+u.dropped) =
      (bs.flatMap Block.text ++ u.text).length+(bs.map Block.added).sum := by
  have hout : normalizeFrom .normal (bs.flatMap Block.text ++ u.text) =
      bs.flatMap Block.written ++ u.written := by
    have hscan := congrArg Prod.snd (scan_blocks bs u.text)
    rwa [u.scan_text] at hscan
  have hblocks : (bs.flatMap Block.written).length+(bs.map Block.dropped).sum =
      (bs.flatMap Block.text).length+(bs.map Block.added).sum := by
    induction bs with
    | nil => rfl
    | cons b bs ih =>
      have hb := b.length_written
      have hscan := congrArg Prod.snd (scan_blocks bs u.text)
      rw [u.scan_text] at hscan
      have hbs := ih hscan
      simp only [List.flatMap_cons,List.length_append,List.map_cons,List.sum_cons]
      omega
  have hu := u.length_written
  rw [hout]
  simp only [List.length_append]
  omega

/-- The closed lists with nothing but marks are no more than the marks that stand first in lists. -/
def FewEmptyLists (query : Bytes) : Prop := ∃ (bs : List Block) (u : Unfinished),
  query = bs.flatMap Block.text ++ u.text ∧
    (bs.map Block.added).sum ≤ (bs.map Block.dropped).sum+u.dropped

/-- The output with its terminator fits the buffer. -/
def Fits (query : Bytes) : Prop :=
  ∀ out, normalize (some query) = some out → out.length+1 ≤ query.length+1

theorem fits_iff (query : Bytes) : Fits query ↔ FewEmptyLists query := by
  have hfits : Fits query ↔ (normalizeFrom .normal query).length ≤ query.length := by
    cases query with
    | nil =>
      constructor
      · intro _
        exact le_rfl
      · intro _ out hout
        cases hout
    | cons c query =>
      constructor
      · intro h
        exact Nat.le_of_succ_le_succ (h _ rfl)
      · intro h out hout
        cases hout
        exact Nat.succ_le_succ h
  rw [hfits]
  constructor
  · intro hle
    obtain ⟨bs,u,rfl⟩ := exists_blocks query
    have hlen := length_normalizeFrom bs u
    exact ⟨bs,u,rfl,by omega⟩
  · rintro ⟨bs,u,rfl,hle⟩
    have hlen := length_normalizeFrom bs u
    omega

/-- `IN()` gets a placeholder that there is no room for. -/
theorem not_fits_empty : ¬Fits (ascii "IN()") := by
  intro h
  have hout : normalize (some (ascii "IN()")) = some (ascii "IN(?)") := by decide
  exact absurd (h _ hout) (by decide)

/-! ### Texts that differ in their lists -/

/-- The state behind a text tells whether it ends with a block. -/
theorem scanState_normal_iff (s : Bytes) :
    scanState .normal s = .normal ↔ ∃ bs : List Block, s = bs.flatMap Block.text := by
  constructor
  · intro h
    obtain ⟨bs,u,rfl⟩ := exists_blocks s
    have hstate := congrArg Prod.fst (scan_blocks bs u.text)
    rw [u.scan_text] at hstate
    have hu : u.state = .normal := hstate.symm.trans h
    cases u with
    | nothing => exact ⟨bs,List.append_nil _⟩
    | seenI i hi => cases hu
    | keyword k => cases hu
    | list k marks => cases hu
    | other k marks x => cases hu
  · rintro ⟨bs,rfl⟩
    have hstate := congrArg Prod.fst (scan_blocks bs [])
    rw [List.append_nil] at hstate
    exact hstate

/-- Placeholders with commas between them, and white space around them. -/
inductive Placeholders : Bytes → Prop
  | one {front back : Bytes} (hfront : ∀ c ∈ front, isspace c = true)
      (hback : ∀ c ∈ back, isspace c = true) : Placeholders (front ++ code '?' :: back)
  | more {front back rest : Bytes} (hfront : ∀ c ∈ front, isspace c = true)
      (hback : ∀ c ∈ back, isspace c = true) (hrest : Placeholders rest) :
      Placeholders (front ++ code '?' :: (back ++ code ',' :: rest))

lemma Placeholders.isMark {s : Bytes} (h : Placeholders s) : ∀ c ∈ s, isMark c = true := by
  have hspace : ∀ {c}, isspace c = true → Sql.isMark c = true := by
    intro c hc
    rw [Sql.isMark,hc,Bool.or_true]
  induction h with
  | one hfront hback =>
    intro c hc
    obtain hc | hc := List.mem_append.mp hc
    · exact hspace (hfront c hc)
    · obtain rfl | hc := List.mem_cons.mp hc
      · rfl
      · exact hspace (hback c hc)
  | more hfront hback _ ih =>
    intro c hc
    obtain hc | hc := List.mem_append.mp hc
    · exact hspace (hfront c hc)
    · obtain rfl | hc := List.mem_cons.mp hc
      · rfl
      · obtain hc | hc := List.mem_append.mp hc
        · exact hspace (hback c hc)
        · obtain rfl | hc := List.mem_cons.mp hc
          · rfl
          · exact ih c hc

/-- A list of placeholders that is not empty, with its keyword. -/
structure InList where
  keyword : Keyword
  content : Bytes
  placeholders : Placeholders content

/-- A query with some of its lists: each with the text in front of it, and the text behind the last. -/
structure Query where
  lists : List (Bytes × InList)
  last : Bytes

namespace InList

def marks (l : InList) : Marks := ⟨l.content,l.placeholders.isMark⟩

def text (l : InList) : Bytes := (Block.list l.keyword l.marks).text

lemma notMem_content (l : InList) : code ')' ∉ l.content := by
  intro hmem
  have hmark := l.placeholders.isMark _ hmem
  rw [isMark_close] at hmark
  cases hmark

end InList

namespace Query

def text (q : Query) : Bytes := q.lists.flatMap (fun p => p.1 ++ p.2.text) ++ q.last

/-- The queries differ in the contents of the lists only. -/
structure Alike (q q' : Query) : Prop where
  lists : List.Forall₂ (fun p p' => p.1 = p'.1 ∧ p.2.keyword = p'.2.keyword) q.lists q'.lists
  last : q.last = q'.last

/-- In front of each list whose contents differ, back to the list before it, there are whole blocks. -/
def BlocksInFront (q q' : Query) : Prop :=
  ∀ p ∈ q.lists.zip q'.lists, p.1.2.content ≠ p.2.2.content →
    ∃ bs : List Block, p.1.1 = bs.flatMap Block.text

end Query

/-- Text without `i` in any case is copied. -/
theorem scan_plain {s : Bytes} (h : ∀ c ∈ s, isI c = false) : scan .normal s = (.normal,s) := by
  induction s with
  | nil => rfl
  | cons c s ih =>
    rw [scan_cons,scanRound,h c List.mem_cons_self]
    simp only [Bool.false_eq_true,if_false]
    rw [ih fun d hd => h d (List.mem_cons_of_mem _ hd)]
    rfl

/-- Text without a closing parenthesis is copied in a list of something else. -/
theorem scan_other {s : Bytes} (h : code ')' ∉ s) : scan .other s = (.other,s) := by
  induction s with
  | nil => rfl
  | cons c s ih =>
    rw [List.mem_cons,not_or] at h
    rw [scan_cons,scanRound,if_neg (Ne.symm h.1),ih h.2]
    rfl

/-- A list that is not met in the initial state is copied, and the initial state is behind it. -/
theorem InList.scan_text_of_ne (l : InList) {state : Scan} (h : state ≠ .normal) :
    scan state l.text = (.normal,l.text) := by
  obtain ⟨⟨i,n,space,hi,hn,hspace⟩,content,hcontent⟩ := l
  have hclose : code ')' ∉ content := InList.notMem_content ⟨⟨i,n,space,hi,hn,hspace⟩,content,hcontent⟩
  have hplain : ∀ c ∈ n :: (space ++ code '(' :: (content ++ [code ')'])), isI c = false := by
    have hcases : ∀ c, isN c = true ∨ isspace c = true ∨ c = code '(' ∨ isMark c = true ∨
        c = code ')' → isI c = false := by
      intro c
      contrapose
      rw [Bool.not_eq_false]
      intro hc
      unfold isI at hc
      rw [Bool.or_eq_true,decide_eq_true_eq,decide_eq_true_eq] at hc
      obtain rfl | rfl := hc
      · decide
      · decide
    intro c hc
    apply hcases
    obtain rfl | hc := List.mem_cons.mp hc
    · exact .inl hn
    · obtain hc | hc := List.mem_append.mp hc
      · exact .inr (.inl (hspace c hc))
      · obtain rfl | hc := List.mem_cons.mp hc
        · exact .inr (.inr (.inl rfl))
        · obtain hc | hc := List.mem_append.mp hc
          · exact .inr (.inr (.inr (.inl (hcontent.isMark c hc))))
          · exact .inr (.inr (.inr (.inr (List.mem_singleton.mp hc))))
  have hopen : code ')' ∉ n :: (space ++ code '(' :: content) := by
    intro hmem
    obtain heq | hmem := List.mem_cons.mp hmem
    · rw [← heq] at hn
      cases hn
    · obtain hmem | hmem := List.mem_append.mp hmem
      · cases hspace _ hmem
      · obtain heq | hmem := List.mem_cons.mp hmem
        · cases heq
        · exact hclose hmem
  have htext : InList.text ⟨⟨i,n,space,hi,hn,hspace⟩,content,hcontent⟩ =
      i :: (n :: (space ++ code '(' :: (content ++ [code ')']))) := rfl
  have hsplit : n :: (space ++ code '(' :: (content ++ [code ')'])) =
      n :: (space ++ code '(' :: content) ++ [code ')'] := by simp
  -- what the first byte of the keyword does depends on the state, the rest follows
  have hfirst : isN i = false ∧ isspace i = false ∧ i ≠ code '(' ∧ isMark i = false ∧ i ≠ code ')' := by
    unfold isI at hi
    rw [Bool.or_eq_true,decide_eq_true_eq,decide_eq_true_eq] at hi
    obtain rfl | rfl := hi
    · decide
    · decide
  obtain ⟨hnotN,hnotSpace,hnotOpen,hnotMark,hnotClose⟩ := hfirst
  have hcopy : scan .other (n :: (space ++ code '(' :: (content ++ [code ')']))) =
      (.normal,n :: (space ++ code '(' :: (content ++ [code ')']))) := by
    rw [hsplit,scan_append (scan_other hopen)]
    rfl
  rw [htext,scan_cons]
  cases state with
  | normal => exact absurd rfl h
  | seenI =>
    rw [scanRound,hnotN]
    simp only [Bool.false_eq_true,if_false]
    rw [scan_plain hplain]
    rfl
  | seenIn =>
    rw [scanRound,if_neg hnotOpen,hnotSpace]
    simp only [Bool.false_eq_true,if_false]
    rw [scan_plain hplain]
    rfl
  | list =>
    rw [scanRound,hnotMark,if_neg Bool.false_ne_true,if_neg hnotClose]
    simp only
    rw [hcopy]
    rfl
  | other =>
    rw [scanRound,if_neg hnotClose]
    simp only
    rw [hcopy]
    rfl

/-- What is written for a list behind a text. -/
def InList.written (l : InList) (front : Bytes) : Bytes :=
  if scanState .normal front = .normal then (Block.list l.keyword l.marks).written else l.text

lemma InList.scan_behind (l : InList) (front : Bytes) : scan .normal (front ++ l.text) =
    (.normal,normalizeFrom .normal front ++ l.written front) := by
  have hfront : scan .normal front = (scanState .normal front,normalizeFrom .normal front) := rfl
  rw [scan_append hfront,InList.written]
  split_ifs with hstate
  · rw [hstate,InList.text,Block.scan_text]
  · rw [l.scan_text_of_ne hstate]

lemma Query.normalizeFrom_text (q : Query) : normalizeFrom .normal q.text =
    q.lists.flatMap (fun p => normalizeFrom .normal p.1 ++ p.2.written p.1) ++
      normalizeFrom .normal q.last := by
  obtain ⟨lists,last⟩ := q
  induction lists with
  | nil => rfl
  | cons p lists ih =>
    have hscan : normalizeFrom .normal
        (p.1 ++ p.2.text ++ (lists.flatMap (fun p => p.1 ++ p.2.text) ++ last)) =
          normalizeFrom .normal p.1 ++ p.2.written p.1 ++
            normalizeFrom .normal (lists.flatMap (fun p => p.1 ++ p.2.text) ++ last) :=
      congrArg Prod.snd (scan_append (p.2.scan_behind p.1))
    have ih' : normalizeFrom .normal (lists.flatMap (fun p => p.1 ++ p.2.text) ++ last) =
        lists.flatMap (fun p => normalizeFrom .normal p.1 ++ p.2.written p.1) ++
          normalizeFrom .normal last := ih
    simp only [Query.text,List.flatMap_cons]
    rw [List.append_assoc,hscan,ih',List.append_assoc,List.append_assoc,List.append_assoc]

lemma normalize_eq_iff (s s' : Bytes) : normalize (some s) = normalize (some s') ↔
    normalizeFrom .normal s = normalizeFrom .normal s' := by
  have hcons : ∀ c s, ∃ rest, normalizeFrom .normal (c :: s) = c :: rest := fun c s => ⟨_,rfl⟩
  cases s with
  | nil =>
    cases s' with
    | nil => exact ⟨fun _ => rfl,fun _ => rfl⟩
    | cons c s' =>
      obtain ⟨rest,hrest⟩ := hcons c s'
      constructor
      · intro h
        cases h
      · intro h
        rw [hrest] at h
        cases h
  | cons c s =>
    cases s' with
    | nil =>
      obtain ⟨rest,hrest⟩ := hcons c s
      constructor
      · intro h
        cases h
      · intro h
        rw [hrest] at h
        cases h
    | cons c' s' => exact Option.some_inj

lemma takeWhile_close {s rest : Bytes} (h : code ')' ∉ s) :
    (s ++ code ')' :: rest).takeWhile (· != code ')') = s := by
  rw [List.takeWhile_append_of_pos fun c hc => bne_iff_ne.mpr (ne_of_mem_of_not_mem hc h)]
  simp

lemma dropWhile_close {s rest : Bytes} (h : code ')' ∉ s) :
    (s ++ code ')' :: rest).dropWhile (· != code ')') = code ')' :: rest := by
  rw [List.dropWhile_append_of_pos fun c hc => bne_iff_ne.mpr (ne_of_mem_of_not_mem hc h)]
  simp

/-- Lists behind the same text are written alike, with the same to follow, exactly when they are met in
the initial state or have the same contents. -/
theorem InList.written_append_eq_iff {l l' : InList} (hkeyword : l.keyword = l'.keyword) (front : Bytes)
    (s s' : Bytes) : l.written front ++ s = l'.written front ++ s' ↔
      (l.content ≠ l'.content → ∃ bs : List Block, front = bs.flatMap Block.text) ∧ s = s' := by
  rw [← scanState_normal_iff,InList.written,InList.written]
  by_cases hstate : scanState .normal front = .normal
  · rw [if_pos hstate,if_pos hstate,Block.written,Block.written,hkeyword,List.append_cancel_left_eq]
    simp [hstate]
  · rw [if_neg hstate,if_neg hstate]
    constructor
    · intro h
      simp only [InList.text,Block.text,hkeyword,List.append_assoc,List.append_cancel_left_eq,
        List.cons_append,List.nil_append,List.cons.injEq,true_and] at h
      have hbehind : l.content ++ code ')' :: s = l'.content ++ code ')' :: s' := h
      have hcut := congrArg (fun t => (t.takeWhile (· != code ')'),t.dropWhile (· != code ')'))) hbehind
      simp only [takeWhile_close l.notMem_content,dropWhile_close l.notMem_content,
        takeWhile_close l'.notMem_content,dropWhile_close l'.notMem_content,Prod.mk.injEq,
        List.cons.injEq,true_and] at hcut
      exact ⟨fun hne => absurd hcut.1 hne,hcut.2⟩
    · rintro ⟨hcontent,rfl⟩
      have heq : l.content = l'.content := by
        by_contra hne
        exact hstate (hcontent hne)
      have hsame : l = l' := by
        obtain ⟨keyword,content,h⟩ := l
        obtain ⟨keyword',content',h'⟩ := l'
        cases hkeyword
        cases heq
        rfl
      rw [hsame]

lemma Query.normalize_eq_iff {q q' : Query} (h : q.Alike q') :
    normalize (some q.text) = normalize (some q'.text) ↔ q.BlocksInFront q' := by
  rw [Sql.normalize_eq_iff,q.normalizeFrom_text,q'.normalizeFrom_text,← h.last]
  obtain ⟨lists,last⟩ := q
  obtain ⟨lists',last'⟩ := q'
  obtain ⟨hlists,-⟩ := h
  simp only [Query.BlocksInFront] at hlists ⊢
  induction hlists with
  | nil => simp
  | @cons p p' ps ps' hp _ ih =>
    obtain ⟨hfront,hkeyword⟩ := hp
    rw [List.flatMap_cons,List.flatMap_cons,List.append_assoc,List.append_assoc,List.append_assoc,
      List.append_assoc,← hfront,List.append_cancel_left_eq,
      InList.written_append_eq_iff hkeyword,ih,List.zip_cons_cons,List.forall_mem_cons]

/-- Normalization is idempotent. Two queries that differ in the contents of lists of placeholders only
have the same normal form, and with it the same id, exactly when each list whose contents differ
follows whole blocks. -/
theorem normalize_canonical (hash : Bytes → UInt32) :
    (∀ sql, normalize (normalize sql) = normalize sql) ∧
    ∀ q q' : Query, q.Alike q' →
      (normalize (some q.text) = normalize (some q'.text) ↔ q.BlocksInFront q') ∧
      (q.BlocksInFront q' → normalizedId hash (some q.text) = normalizedId hash (some q'.text)) := by
  refine ⟨normalize_idem,fun q q' h => ⟨Query.normalize_eq_iff h,fun hblocks => ?_⟩⟩
  rw [normalizedId,normalizedId,(Query.normalize_eq_iff h).mpr hblocks]

/-- `IN (` and placeholders. -/
def inPlaceholders (content : Bytes) (h : Placeholders content) : InList :=
  ⟨⟨code 'I',code 'N',[code ' '],rfl,rfl,List.forall_mem_singleton.mpr rfl⟩,content,h⟩

lemma placeholders_one : Placeholders [code '?'] :=
  @Placeholders.one [] [] (List.forall_mem_nil _) (List.forall_mem_nil _)

lemma placeholders_two : Placeholders [code '?',code ',',code '?'] :=
  @Placeholders.more [] [] _ (List.forall_mem_nil _) (List.forall_mem_nil _) placeholders_one

/-- A query with one list behind a text. -/
def oneList (front : Bytes) (l : InList) : Query := ⟨[(front,l)],[]⟩

lemma oneList_alike (front : Bytes) :
    (oneList front (inPlaceholders _ placeholders_one)).Alike
      (oneList front (inPlaceholders _ placeholders_two)) :=
  ⟨.cons ⟨rfl,rfl⟩ .nil,rfl⟩

theorem normalize_canonical_a :
    normalize (some (oneList (ascii "a ") (inPlaceholders _ placeholders_one)).text) =
      normalize (some (oneList (ascii "a ") (inPlaceholders _ placeholders_two)).text) := by
  apply (((normalize_canonical fun _ => 0).2 _ _ (oneList_alike (ascii "a "))).1).mpr
  intro p hp _
  obtain rfl := List.mem_singleton.mp hp
  exact ⟨[.byte (code 'a') rfl,.byte (code ' ') rfl],rfl⟩

/-- A column whose name ends in `in` hides the keyword behind it. -/
theorem login_not_canonical : ¬∀ q q' : Query, q.Alike q' →
    normalize (some q.text) = normalize (some q'.text) := by
  intro h
  have heq := h _ _ (oneList_alike (ascii "login "))
  have hne : normalize (some (ascii "login IN (?)")) ≠ normalize (some (ascii "login IN (?,?)")) := by
    decide
  exact hne heq

end Sql
end PhpAgent

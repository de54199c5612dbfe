import PhpAgent.Util.SqlBounds

/-! The operation and the table of an SQL statement, after `nr_sql_get_operation_and_table` in
`util_sql.c`. A cursor is the text from it on; a result of `none` is a cursor behind the final NUL, or a
loop that does not end, and NULL is a value of the result. Counts of bytes, `int`s of the source, are
numbers here. -/
namespace PhpAgent
namespace Sql
open Json (code)

/-- `NR_SQL_WHITESPACE_CHARS`. -/
def whitespaceChars : Bytes := [0x20,0x0d,0x0a,0x09,0x0b,0x0c]

/-- `NR_SQL_DELIMITER_CHARS`. -/
def delimiterChars : Bytes := whitespaceChars ++ ascii "'\"`([@\x7b"

def strspn (s accept : Bytes) : ℕ := (s.takeWhile (· ∈ accept)).length

def strcspn (s reject : Bytes) : ℕ := (s.takeWhile (· ∉ reject)).length

/-- The cursor moved on. It may stand on the final NUL. -/
def advance (s : Bytes) (n : ℕ) : Option Bytes := if n ≤ s.length then some (s.drop n) else none

/-! ### White space, comments and keywords -/

/-- The text behind the end of a comment, NULL if there is none. -/
def commentEnd : Bytes → Option Bytes
  | [] => none
  | c :: rest => if c = code '*' ∧ rest.head? = some (code '/') then some rest.tail else commentEnd rest

def skipWhitespace (s : Bytes) : Bytes := s.dropWhile (· ∈ whitespaceChars)

/-- The loop over comments and the white space behind each. -/
def skipComments : ℕ → Bytes → Option (Option Bytes)
  | 0, s => if (ascii "/*").isPrefixOf s then none else some (some s)
  | fuel+1, s =>
    if (ascii "/*").isPrefixOf s then
      match commentEnd (s.drop 2) with
      | none => some none
      | some s => skipComments fuel (skipWhitespace s)
    else some (some s)

/-- `nr_sql_whitespace_comment_prefix`. -/
def whitespaceCommentPrefix (sql : Bytes) : Option (Option Bytes) :=
  skipComments sql.length (skipWhitespace sql)

/-- `nr_sql_parse_over`. -/
def parseOver (str : Bytes) (character : UInt8) : Option Bytes := (strchr str character).map List.tail

/-- `nr_parse_sql_keyword`. `strchr` finds the final NUL among the delimiters too. -/
def parseSqlKeyword : Bytes → Bytes → Bool
  | [], [] => true
  | c :: _, [] => c ∈ delimiterChars
  | [], _ :: _ => false
  | c :: cs, k :: ks => k = tolower c && parseSqlKeyword cs ks

/-! ### The operation -/

/-- `nr_sql_parse_type_t`. -/
inductive ParseType
  | parseUpdate
  | parseFrom
  | parseInto
  | parseCreate
  | parseDrop
  | parseCommit
deriving DecidableEq

def operations : List (Bytes × ParseType) :=
  [(ascii "select",.parseFrom),(ascii "update",.parseUpdate),(ascii "insert",.parseInto),
    (ascii "replace",.parseInto),(ascii "delete",.parseFrom),(ascii "commit",.parseCommit),
    (ascii "create",.parseCreate),(ascii "drop",.parseDrop)]

/-- `nr_strnicmp` with the length of the operation. -/
def hasOperation (sql opname : Bytes) : Bool := opname.isPrefixOf (sql.map tolower)

/-! ### The table -/

/-- The characters at which the search for the keyword cuts a word. -/
def wordStops : Bytes := whitespaceChars ++ ascii "'\"()"

/-- The loop that looks for the keyword in front of the table. `some none` returns without a table. -/
def findKeyword (type : ParseType) : ℕ → ℤ → Bool → Bytes → Option (Option Bytes)
  | _, _, _, [] => some (some [])
  | 0, _, _, _ :: _ => none
  | fuel+1, nestLevel, checkReplicationStmt, c :: cs =>
    (whitespaceCommentPrefix (c :: cs)).bind fun o => match o with
      | none => some none
      | some x =>
        if checkReplicationStmt then
          if parseSqlKeyword x (ascii "if") then
            (advance x 2).bind (findKeyword type fuel nestLevel true)
          else if parseSqlKeyword x (ascii "not") then
            (advance x 3).bind (findKeyword type fuel nestLevel true)
          else if parseSqlKeyword x (ascii "exists") then (advance x 6).map some
          else some (some x)
        else if x.head? = some (code '\'') then
          match parseOver x.tail (code '\'') with
          | none => some none
          | some x => findKeyword type fuel nestLevel false x
        else if x.head? = some (code '"') then
          match parseOver x.tail (code '"') with
          | none => some none
          | some x => findKeyword type fuel nestLevel false x
        else if x.head? = some (code '(') then findKeyword type fuel (nestLevel+1) false x.tail
        else if x.head? = some (code ')') then findKeyword type fuel (nestLevel-1) false x.tail
        else if nestLevel = 0 ∧ (type = .parseCreate ∨ type = .parseDrop) ∧
            parseSqlKeyword x (ascii "database") then
          (advance x 8).bind (findKeyword type fuel nestLevel true)
        else if nestLevel = 0 ∧ (type = .parseCreate ∨ type = .parseDrop) ∧
            parseSqlKeyword x (ascii "table") then
          (advance x 5).bind (findKeyword type fuel nestLevel true)
        else if nestLevel = 0 ∧ type = .parseFrom ∧ parseSqlKeyword x (ascii "from") then
          (advance x 4).map some
        else if nestLevel = 0 ∧ type = .parseInto ∧ parseSqlKeyword x (ascii "into") then
          (advance x 4).map some
        else (advance x (strcspn x wordStops)).bind (findKeyword type fuel nestLevel false)

/-- The text behind the keyword. -/
def behindKeyword (type : ParseType) (sql : Bytes) : Option (Option Bytes) :=
  if type = .parseCommit ∨ type = .parseUpdate then
    (advance sql (strcspn sql whitespaceChars)).map some
  else findKeyword type sql.length 0 false sql

/-- Whether the cursor stands on one of the characters. -/
def standsOn (x chars : Bytes) : Bool :=
  match x with
  | [] => false
  | c :: _ => c ∈ chars

def nameQuotes : Bytes := ascii "`'\"\x7b"

def nameStops : Bytes := delimiterChars ++ ascii "]\x7d);,*./"

def nameGap : Bytes := delimiterChars ++ ascii "]\x7d);,*/"

/-- The loop over the parts of a name; the last one is the table. -/
def lastName : ℕ → Bytes → Option Bytes
  | 0, _ => none
  | fuel+1, x =>
    let start := if standsOn x nameQuotes then x.tail else x
    let sl := strcspn start nameStops
    (advance start sl).bind fun x =>
      if (x.drop (strspn x nameGap)).head? = some (code '.') then
        (advance x (strspn x nameGap+1)).bind (lastName fuel)
      else some (start.take sl)

/-- Without a name there is no table. -/
def namedTable (x : Bytes) : Option (Option Bytes) :=
  (lastName (x.length+1) x).map fun name => if name = [] then none else some name

def tableAt (x : Bytes) : Option (Option Bytes) :=
  (whitespaceCommentPrefix x).bind fun o => match o with
    | none => some none
    | some x =>
      if x.head? = some (code '(') then
        let x := x.tail
        let sl := strcspn x (whitespaceChars ++ ascii ",`)'\";")
        if standsOn x (ascii "`'\"") then namedTable x
        else if (x.drop sl).head? = some (code ')') ∨ (x.drop sl).head? = some (code ',') then
          namedTable x
        else some (some (ascii "(subquery)"))
      else namedTable x

/-- What is reported; NULL is `none`. -/
structure OperationAndTable where
  operation : Option Bytes
  table : Option Bytes
deriving DecidableEq

/-- `nr_sql_get_operation_and_table`, with pointers to take both. -/
def getOperationAndTable (sql : Bytes) : Option OperationAndTable :=
  (whitespaceCommentPrefix sql).bind fun o => match o with
    | none => some ⟨none,none⟩
    | some sql =>
      match operations.find? fun operation => hasOperation sql operation.1 with
      | none => some ⟨none,none⟩
      | some (opname,type) =>
        (behindKeyword type sql).bind fun o => match o with
          | none => some ⟨some opname,none⟩
          | some x => (tableAt x).map fun table => ⟨some opname,table⟩

/-! ### Cursors -/

lemma advance_length_left (s s' : Bytes) : advance (s ++ s') s.length = some s' := by
  rw [advance,if_pos (by rw [List.length_append]; exact Nat.le_add_right _ _),List.drop_left]

lemma advance_suffix {s x : Bytes} {n : ℕ} (h : advance s n = some x) : x <:+ s := by
  rw [advance,Option.ite_none_right_eq_some] at h
  rw [← Option.some_inj.mp h.2]
  exact List.drop_suffix _ _

/-- A span of characters that are not rejected stays in the text. -/
theorem advance_strcspn (s reject : Bytes) :
    advance s (strcspn s reject) = some (s.dropWhile (· ∉ reject)) := by
  have h := advance_length_left (s.takeWhile (· ∉ reject)) (s.dropWhile (· ∉ reject))
  rwa [List.takeWhile_append_dropWhile] at h

lemma head?_dropWhile_mem {p : UInt8 → Bool} (s : Bytes) : ∀ c ∈ (s.dropWhile p).head?, p c = false := by
  intro c hc
  have h := List.head?_dropWhile_not p s
  rw [Option.mem_def.mp hc] at h
  simpa using h

/-! ### Whole tokens -/

/-- A longest run of characters that are no stops, and that begins no comment; `x` goes on behind it. -/
structure Word (w x : Bytes) : Prop where
  ne_nil : w ≠ []
  plain : ∀ c ∈ w, c ∉ wordStops
  noComment : ¬ ascii "/*" <+: w
  longest : ∀ c ∈ x.head?, c ∈ wordStops

/-- White space, comments, quoted strings, parentheses and words lead from the first text to the second,
with as many more opening than closing parentheses. -/
inductive Scanned : Bytes → ℤ → Bytes → Prop
  | done (x : Bytes) : Scanned x 0 x
  | blank {c : UInt8} {x y : Bytes} {n : ℤ} (hc : c ∈ whitespaceChars) (h : Scanned x n y) :
      Scanned (c :: x) n y
  | comment {body x y : Bytes} {n : ℤ} (hbody : ¬ ascii "*/" <:+: body) (h : Scanned x n y) :
      Scanned (ascii "/*" ++ (body ++ (ascii "*/" ++ x))) n y
  | quoted {q : UInt8} {body x y : Bytes} {n : ℤ} (hq : q = code '\'' ∨ q = code '"') (hbody : q ∉ body)
      (h : Scanned x n y) : Scanned (q :: (body ++ q :: x)) n y
  | opening {x y : Bytes} {n : ℤ} (h : Scanned x n y) : Scanned (code '(' :: x) (n+1) y
  | closing {x y : Bytes} {n : ℤ} (h : Scanned x n y) : Scanned (code ')' :: x) (n-1) y
  | word {w x y : Bytes} {n : ℤ} (hw : Word w x) (hwhole : ¬ ascii "/*" <:+: w) (h : Scanned x n y) :
      Scanned (w ++ x) n y

namespace Scanned
variable {x y z : Bytes} {m n : ℤ}

lemma trans (h : Scanned x m y) (h' : Scanned y n z) : Scanned x (m+n) z := by
  induction h with
  | done x =>
    rw [zero_add]
    exact h'
  | blank hc _ ih => exact .blank hc (ih h')
  | comment hbody _ ih => exact .comment hbody (ih h')
  | quoted hq hbody _ ih => exact .quoted hq hbody (ih h')
  | opening _ ih =>
    rw [add_right_comm]
    exact .opening (ih h')
  | closing _ ih =>
    rw [sub_add_eq_add_sub]
    exact .closing (ih h')
  | word hw hwhole _ ih => exact .word hw hwhole (ih h')

lemma suffix (h : Scanned x n y) : y <:+ x := by
  induction h with
  | done x => exact List.suffix_refl x
  | blank _ _ ih => exact ih.trans (List.suffix_cons _ _)
  | comment _ _ ih =>
    exact ((ih.trans (List.suffix_append _ _)).trans (List.suffix_append _ _)).trans
      (List.suffix_append _ _)
  | quoted _ _ _ ih =>
    exact ((ih.trans (List.suffix_cons _ _)).trans (List.suffix_append _ _)).trans (List.suffix_cons _ _)
  | opening _ ih => exact ih.trans (List.suffix_cons _ _)
  | closing _ ih => exact ih.trans (List.suffix_cons _ _)
  | word _ _ _ ih => exact ih.trans (List.suffix_append _ _)

end Scanned

/-! ### White space and comments -/

lemma skipWhitespace_scanned (s : Bytes) : Scanned s 0 (skipWhitespace s) := by
  induction s with
  | nil => exact .done []
  | cons c s ih =>
    rw [skipWhitespace,List.dropWhile_cons]
    split_ifs with hc
    · exact .blank (of_decide_eq_true hc) ih
    · exact .done _

lemma head?_skipWhitespace (s : Bytes) : ∀ c ∈ (skipWhitespace s).head?, c ∉ whitespaceChars := by
  intro c hc
  exact of_decide_eq_false (head?_dropWhile_mem s c hc)

/-- A comment ends with the first end mark. -/
theorem commentEnd_spec {s y : Bytes} (h : commentEnd s = some y) :
    ∃ body, s = body ++ (ascii "*/" ++ y) ∧ ¬ ascii "*/" <:+: body := by
  induction s with
  | nil => cases h
  | cons c rest ih =>
    rw [commentEnd] at h
    split_ifs at h with hend
    · obtain ⟨rfl,hhead⟩ := hend
      obtain rfl := Option.some_inj.mp h
      refine ⟨[],?_,by simp [ascii]⟩
      rw [List.nil_append]
      exact congrArg (code '*' :: ·) (List.cons_head?_tail hhead).symm
    · obtain ⟨body,rfl,hbody⟩ := ih h
      refine ⟨c :: body,rfl,?_⟩
      intro hinfix
      obtain hfirst | hlater := List.infix_cons_iff.mp hinfix
      · obtain ⟨tail,htail⟩ := hfirst
        have hc : c = code '*' := (List.cons_eq_cons.mp htail).1.symm
        have hrest : code '/' :: tail = body := (List.cons_eq_cons.mp htail).2
        refine hend ⟨hc,?_⟩
        rw [← hrest]
        rfl
      · exact hbody hlater

lemma drop_two_of_prefix {s : Bytes} (h : (ascii "/*").isPrefixOf s = true) :
    s = ascii "/*" ++ s.drop 2 := by
  obtain ⟨rest,rfl⟩ := List.isPrefixOf_iff_prefix.mp h
  rfl

lemma skipComments_spec (fuel : ℕ) {s : Bytes} (hlen : s.length ≤ fuel)
    (hhead : ∀ c ∈ s.head?, c ∉ whitespaceChars) : ∃ o, skipComments fuel s = some o ∧
      ∀ y, o = some y → Scanned s 0 y ∧ ¬ ascii "/*" <+: y ∧ ∀ c ∈ y.head?, c ∉ whitespaceChars := by
  induction fuel generalizing s with
  | zero =>
    obtain rfl := List.length_eq_zero_iff.mp (Nat.le_zero.mp hlen)
    exact ⟨some [],rfl,fun y hy => by cases hy; exact ⟨.done [],by decide,hhead⟩⟩
  | succ fuel ih =>
    rw [skipComments]
    by_cases hcomment : (ascii "/*").isPrefixOf s = true
    · rw [if_pos hcomment]
      cases hend : commentEnd (s.drop 2) with
      | none => exact ⟨none,rfl,fun y hy => by cases hy⟩
      | some z =>
        obtain ⟨body,hbody,hno⟩ := commentEnd_spec hend
        have hs : s = ascii "/*" ++ (body ++ (ascii "*/" ++ z)) := by
          rw [← hbody]
          exact drop_two_of_prefix hcomment
        have hskip := (skipWhitespace_scanned z).suffix.length_le
        have hlong : z.length+4 ≤ s.length := by
          rw [hs]
          simp only [List.length_append,ascii,List.length_map]
          simp
          omega
        obtain ⟨o,ho,hspec⟩ := ih (s := skipWhitespace z) (by omega) (head?_skipWhitespace z)
        refine ⟨o,ho,fun y hy => ?_⟩
        obtain ⟨hscan,hrest⟩ := hspec y hy
        refine ⟨?_,hrest⟩
        rw [hs]
        exact .comment hno ((skipWhitespace_scanned z).trans hscan)
    · rw [if_neg hcomment]
      refine ⟨some s,rfl,fun y hy => ?_⟩
      obtain rfl := Option.some_inj.mp hy
      exact ⟨.done s,fun h => hcomment (List.isPrefixOf_iff_prefix.mpr h),hhead⟩

/-- White space and comments are skipped as far as they go. -/
theorem whitespaceCommentPrefix_spec (s : Bytes) : ∃ o, whitespaceCommentPrefix s = some o ∧
    ∀ y, o = some y → Scanned s 0 y ∧ ¬ ascii "/*" <+: y ∧ ∀ c ∈ y.head?, c ∉ whitespaceChars := by
  obtain ⟨o,ho,hspec⟩ := skipComments_spec s.length (skipWhitespace_scanned s).suffix.length_le
    (head?_skipWhitespace s)
  refine ⟨o,ho,fun y hy => ?_⟩
  obtain ⟨hscan,hrest⟩ := hspec y hy
  exact ⟨(skipWhitespace_scanned s).trans hscan,hrest⟩

/-! ### Keywords -/

lemma parseSqlKeyword_spec {x keyword : Bytes} (h : parseSqlKeyword x keyword = true) :
    ∃ k rest, x = k ++ rest ∧ k.map tolower = keyword ∧ advance x keyword.length = some rest ∧
      ∀ c ∈ rest.head?, c ∈ delimiterChars := by
  have hsplit : ∃ k rest, x = k ++ rest ∧ k.map tolower = keyword ∧ ∀ c ∈ rest.head?, c ∈ delimiterChars := by
    induction keyword generalizing x with
    | nil =>
      refine ⟨[],x,rfl,rfl,?_⟩
      cases x with
      | nil => exact fun c hc => by cases hc
      | cons c x =>
        intro c' hc'
        obtain rfl := Option.some_inj.mp hc'
        exact of_decide_eq_true h
    | cons b keyword ih =>
      cases x with
      | nil => cases h
      | cons c x =>
        rw [parseSqlKeyword,Bool.and_eq_true] at h
        obtain ⟨k,rest,rfl,rfl,hrest⟩ := ih h.2
        exact ⟨c :: k,rest,rfl,by rw [List.map_cons,of_decide_eq_true h.1],hrest⟩
  obtain ⟨k,rest,rfl,rfl,hrest⟩ := hsplit
  refine ⟨k,rest,rfl,rfl,?_,hrest⟩
  rw [List.length_map]
  exact advance_length_left k rest

/-- What counts as the keyword of an operation, in either case; for UPDATE and COMMIT the first word,
which begins with the operation. -/
def ParseType.IsKeyword (type : ParseType) (opname k : Bytes) : Prop :=
  match type with
  | .parseUpdate | .parseCommit => opname <+: k.map tolower
  | .parseFrom => k.map tolower = ascii "from"
  | .parseInto => k.map tolower = ascii "into"
  | .parseCreate | .parseDrop => k.map tolower = ascii "database" ∨ k.map tolower = ascii "table"

/-- `x` stands behind a keyword of the operation, outside of parentheses, and in front of the keyword
there are whole tokens only. -/
def Behind (opname : Bytes) (type : ParseType) (sql x : Bytes) : Prop :=
  ∃ k rest, Scanned sql 0 (k ++ rest) ∧ type.IsKeyword opname k ∧ (∀ c ∈ rest.head?, c ∈ delimiterChars) ∧
    x <:+ rest

lemma Behind.suffix {opname sql x y : Bytes} {type : ParseType} (h : Behind opname type sql x)
    (hy : y <:+ x) : Behind opname type sql y := by
  obtain ⟨k,rest,hscan,hkey,hdelim,hx⟩ := h
  exact ⟨k,rest,hscan,hkey,hdelim,hy.trans hx⟩

/-- No comment is glued to the end of a word, wherever the word stands: also none behind the name of the
table, which the search does not get to. -/
def CommentsApart (sql : Bytes) : Prop :=
  ∀ n w x, Scanned sql n (w ++ x) → Word w x → ¬ ascii "/*" <:+: w

/-! ### The search for the keyword -/

/-- What a round of the search does with the text `s`. -/
inductive Round (type : ParseType) (nestLevel : ℤ) (s : Bytes) : Bool → Option (ℤ × Bool × Bytes) → Option Bytes → Prop
  /-- There is an unterminated comment or string. -/
  | giveUp (check : Bool) : Round type nestLevel s check none none
  /-- Behind DATABASE or TABLE the search ends, or a word is skipped. -/
  | found {x : Bytes} (hx : x <:+ s) : Round type nestLevel s true none (some x)
  | skip {x : Bytes} (hx : x <:+ s) (hlen : x.length < s.length) :
      Round type nestLevel s true (some (nestLevel,true,x)) none
  /-- The keyword is there. -/
  | keyword {k x : Bytes} (hscan : Scanned s 0 (k ++ x)) (hnest : nestLevel = 0)
      (hkey : ∀ opname, type.IsKeyword opname k) (hdelim : ∀ c ∈ x.head?, c ∈ delimiterChars) :
      Round type nestLevel s false none (some x)
  | checked {k x : Bytes} (hscan : Scanned s 0 (k ++ x)) (hnest : nestLevel = 0)
      (hkey : ∀ opname, type.IsKeyword opname k) (hdelim : ∀ c ∈ x.head?, c ∈ delimiterChars)
      (hlen : x.length < s.length) : Round type nestLevel s false (some (nestLevel,true,x)) none
  /-- A token is skipped. -/
  | token {x : Bytes} {n : ℤ} (hscan : Scanned s n x) (hlen : x.length < s.length) :
      Round type nestLevel s false (some (nestLevel+n,false,x)) none
  | word {w x : Bytes} (hscan : Scanned s 0 (w ++ x)) (hword : Word w x) (hlen : x.length < s.length) :
      Round type nestLevel s false (some (nestLevel,false,x)) none

lemma parseOver_spec {s y : Bytes} {q : UInt8} (h : parseOver s q = some y) :
    ∃ body, s = body ++ q :: y ∧ q ∉ body := by
  obtain ⟨p,hp,rfl⟩ := Option.map_eq_some_iff.mp h
  obtain ⟨body,rest,rfl,hbody,rfl⟩ := strchr_split hp
  exact ⟨body,rfl,hbody⟩

lemma eq_cons_of_head? {s : Bytes} {c : UInt8} (h : s.head? = some c) : s = c :: s.tail :=
  (List.cons_head?_tail h).symm

/-- The word a text begins with. -/
theorem word_split {b : UInt8} {x : Bytes} (hb : b ∉ wordStops) (hcomment : ¬ ascii "/*" <+: b :: x) :
    Word ((b :: x).takeWhile (· ∉ wordStops)) ((b :: x).dropWhile (· ∉ wordStops)) where
  ne_nil := by
    rw [List.takeWhile_cons_of_pos (by simpa using hb)]
    exact List.cons_ne_nil _ _
  plain c hc := by simpa using List.all_eq_true.mp List.all_takeWhile c hc
  noComment h := hcomment (h.trans (List.takeWhile_prefix _))
  longest c hc := by simpa using head?_dropWhile_mem (b :: x) c hc

/-- What is returned comes of one round of the search, and the rest of it. -/
def OneRound (type : ParseType) (fuel : ℕ) (nestLevel : ℤ) (s : Bytes) (check : Bool)
    (result : Option (Option Bytes)) : Prop :=
  ∃ next found, Round type nestLevel s check next found ∧ result = match next with
    | none => some found
    | some (n,b,x) => findKeyword type fuel n b x

section Rounds
variable {type : ParseType} {fuel : ℕ} {nestLevel : ℤ} {s x keyword : Bytes} {q : UInt8}

/-- A quoted string, or the end of the search in one that is not terminated. -/
theorem oneRound_quoted (hscan : Scanned s 0 x) (hq : q = code '\'' ∨ q = code '"')
    (hx : x.head? = some q) : OneRound type fuel nestLevel s false (match parseOver x.tail q with
      | none => some none
      | some x => findKeyword type fuel nestLevel false x) := by
  cases hover : parseOver x.tail q with
  | none => exact ⟨none,none,.giveUp false,rfl⟩
  | some y =>
    obtain ⟨body,htail,hbody⟩ := parseOver_spec hover
    have hxy : x = q :: (body ++ q :: y) := by
      rw [← htail]
      exact eq_cons_of_head? hx
    have hlen : y.length < s.length := by
      refine lt_of_lt_of_le ?_ hscan.suffix.length_le
      rw [hxy,List.length_cons,List.length_append,List.length_cons]
      omega
    subst hxy
    refine ⟨some (nestLevel+(0+0),false,y),none,.token (hscan.trans (.quoted hq hbody (.done y))) hlen,?_⟩
    simp

lemma length_tail_lt (hscan : Scanned s 0 x) (hx : x.head? = some q) : x.tail.length < s.length := by
  have hle := hscan.suffix.length_le
  rw [eq_cons_of_head? hx,List.length_cons] at hle
  omega

lemma oneRound_opening (hscan : Scanned s 0 x) (hx : x.head? = some (code '(')) :
    OneRound type fuel nestLevel s false (findKeyword type fuel (nestLevel+1) false x.tail) := by
  refine ⟨some (nestLevel+(0+(0+1)),false,x.tail),none,
    .token (hscan.trans ?_) (length_tail_lt hscan hx),by simp⟩
  nth_rewrite 1 [eq_cons_of_head? hx]
  exact .opening (.done _)

lemma oneRound_closing (hscan : Scanned s 0 x) (hx : x.head? = some (code ')')) :
    OneRound type fuel nestLevel s false (findKeyword type fuel (nestLevel-1) false x.tail) := by
  refine ⟨some (nestLevel+(0+(0-1)),false,x.tail),none,
    .token (hscan.trans ?_) (length_tail_lt hscan hx),?_⟩
  · nth_rewrite 1 [eq_cons_of_head? hx]
    exact .closing (.done _)
  · simp [Int.sub_eq_add_neg]

/-- A keyword leaves less of the text. -/
theorem length_lt_of_keyword {k : Bytes} (hsuf : k ++ x <:+ s) (hk : k.map tolower = keyword)
    (hne : keyword ≠ []) : x.length < s.length := by
  have hpos : 0 < k.length := by
    rw [← List.length_map (f := tolower),hk]
    exact List.length_pos_iff.mpr hne
  have hle := hsuf.length_le
  rw [List.length_append] at hle
  omega

/-- IF, NOT and EXISTS behind DATABASE or TABLE. -/
lemma oneRound_checked (hscan : Scanned s 0 x) : OneRound type fuel nestLevel s true
    (if parseSqlKeyword x (ascii "if") then (advance x 2).bind (findKeyword type fuel nestLevel true)
      else if parseSqlKeyword x (ascii "not") then (advance x 3).bind (findKeyword type fuel nestLevel true)
      else if parseSqlKeyword x (ascii "exists") then (advance x 6).map some
      else some (some x)) := by
  have hskip : ∀ {keyword}, keyword ≠ [] → parseSqlKeyword x keyword = true →
      ∃ rest, advance x keyword.length = some rest ∧ rest <:+ s ∧ rest.length < s.length := by
    intro keyword hne hkey
    obtain ⟨k,rest,rfl,hk,hadv,-⟩ := parseSqlKeyword_spec hkey
    exact ⟨rest,hadv,(advance_suffix hadv).trans hscan.suffix,
      length_lt_of_keyword hscan.suffix hk hne⟩
  by_cases hif : parseSqlKeyword x (ascii "if") = true
  · obtain ⟨rest,hadv,hsuf,hlen⟩ := hskip (by decide) hif
    rw [if_pos hif,show advance x 2 = some rest from hadv]
    exact ⟨_,none,.skip hsuf hlen,rfl⟩
  rw [if_neg hif]
  by_cases hnot : parseSqlKeyword x (ascii "not") = true
  · obtain ⟨rest,hadv,hsuf,hlen⟩ := hskip (by decide) hnot
    rw [if_pos hnot,show advance x 3 = some rest from hadv]
    exact ⟨_,none,.skip hsuf hlen,rfl⟩
  rw [if_neg hnot]
  by_cases hexists : parseSqlKeyword x (ascii "exists") = true
  · obtain ⟨rest,hadv,hsuf,-⟩ := hskip (by decide) hexists
    rw [if_pos hexists,show advance x 6 = some rest from hadv]
    exact ⟨none,some rest,.found hsuf,rfl⟩
  · rw [if_neg hexists]
    exact ⟨none,some x,.found hscan.suffix,rfl⟩

/-- DATABASE or TABLE, behind which the search goes on. -/
lemma oneRound_object (hscan : Scanned s 0 x) (hnest : nestLevel = 0)
    (htype : type = .parseCreate ∨ type = .parseDrop) (hobject : keyword = ascii "database" ∨
      keyword = ascii "table") (hkey : parseSqlKeyword x keyword = true) :
    OneRound type fuel nestLevel s false
      ((advance x keyword.length).bind (findKeyword type fuel nestLevel true)) := by
  have hne : keyword ≠ [] := by
    obtain rfl | rfl := hobject
    · decide
    · decide
  obtain ⟨k,rest,rfl,hk,hadv,hdelim⟩ := parseSqlKeyword_spec hkey
  rw [hadv]
  refine ⟨_,none,.checked hscan hnest (fun _ => ?_) hdelim
    (length_lt_of_keyword hscan.suffix hk hne),rfl⟩
  rw [← hk] at hobject
  obtain rfl | rfl := htype
  · exact hobject
  · exact hobject

/-- The keyword in front of the table. -/
lemma oneRound_keyword (keyword : Bytes) (hscan : Scanned s 0 x) (hnest : nestLevel = 0)
    (hkeyword : ∀ opname k, k.map tolower = keyword → type.IsKeyword opname k)
    (hkey : parseSqlKeyword x keyword = true) :
    OneRound type fuel nestLevel s false ((advance x keyword.length).map some) := by
  obtain ⟨k,rest,rfl,hk,hadv,hdelim⟩ := parseSqlKeyword_spec hkey
  rw [hadv]
  exact ⟨none,some rest,.keyword hscan hnest (fun _ => hkeyword _ k hk) hdelim,rfl⟩

/-- A word that is none of these, or the end of the text behind white space and comments. -/
lemma oneRound_word (hscan : Scanned s 0 x) (hpos : 0 < s.length) (hcomment : ¬ ascii "/*" <+: x)
    (hstop : ∀ c ∈ x.head?, c ∉ wordStops) : OneRound type fuel nestLevel s false
      ((advance x (strcspn x wordStops)).bind (findKeyword type fuel nestLevel false)) := by
  rw [advance_strcspn]
  cases x with
  | nil => exact ⟨some (nestLevel+0,false,[]),none,.token hscan hpos,by simp⟩
  | cons b x =>
    have hb : b ∉ wordStops := hstop b rfl
    have hlen : ((b :: x).dropWhile (· ∉ wordStops)).length < s.length := by
      refine lt_of_lt_of_le ?_ hscan.suffix.length_le
      rw [List.dropWhile_cons_of_pos (by simpa using hb),List.length_cons]
      exact Nat.lt_succ_of_le (List.dropWhile_suffix _).length_le
    refine ⟨some (nestLevel,false,_),none,.word ?_ (word_split hb hcomment) hlen,rfl⟩
    rw [List.takeWhile_append_dropWhile]
    exact hscan

end Rounds

/-- One round of the search, and the rest of it. -/
theorem findKeyword_round (type : ParseType) (fuel : ℕ) (nestLevel : ℤ) (check : Bool) (c : UInt8)
    (cs : Bytes) : OneRound type fuel nestLevel (c :: cs) check
      (findKeyword type (fuel+1) nestLevel check (c :: cs)) := by
  obtain ⟨o,ho,hspec⟩ := whitespaceCommentPrefix_spec (c :: cs)
  have hpos : 0 < (c :: cs).length := Nat.succ_pos _
  rw [findKeyword,ho,Option.bind_some]
  generalize c :: cs = s at hspec hpos ⊢
  cases o with
  | none => exact ⟨none,none,.giveUp check,rfl⟩
  | some x =>
    obtain ⟨hscan,hcomment,hblank⟩ := hspec x rfl
    simp only
    cases check with
    | true =>
      rw [if_pos rfl]
      exact oneRound_checked hscan
    | false =>
      rw [if_neg Bool.false_ne_true]
      by_cases hsingle : x.head? = some (code '\'')
      · rw [if_pos hsingle]
        exact oneRound_quoted hscan (.inl rfl) hsingle
      rw [if_neg hsingle]
      by_cases hdouble : x.head? = some (code '"')
      · rw [if_pos hdouble]
        exact oneRound_quoted hscan (.inr rfl) hdouble
      rw [if_neg hdouble]
      by_cases hopen : x.head? = some (code '(')
      · rw [if_pos hopen]
        exact oneRound_opening hscan hopen
      rw [if_neg hopen]
      by_cases hclose : x.head? = some (code ')')
      · rw [if_pos hclose]
        exact oneRound_closing hscan hclose
      rw [if_neg hclose]
      by_cases hdatabase : nestLevel = 0 ∧ (type = .parseCreate ∨ type = .parseDrop) ∧
          parseSqlKeyword x (ascii "database")
      · rw [if_pos hdatabase]
        exact oneRound_object hscan hdatabase.1 hdatabase.2.1 (.inl rfl) hdatabase.2.2
      rw [if_neg hdatabase]
      by_cases htable : nestLevel = 0 ∧ (type = .parseCreate ∨ type = .parseDrop) ∧
          parseSqlKeyword x (ascii "table")
      · rw [if_pos htable]
        exact oneRound_object hscan htable.1 htable.2.1 (.inr rfl) htable.2.2
      rw [if_neg htable]
      by_cases hfrom : nestLevel = 0 ∧ type = .parseFrom ∧ parseSqlKeyword x (ascii "from")
      · rw [if_pos hfrom]
        obtain ⟨hnest,rfl,hkey⟩ := hfrom
        exact oneRound_keyword (ascii "from") hscan hnest (fun _ _ hk => hk) hkey
      rw [if_neg hfrom]
      by_cases hinto : nestLevel = 0 ∧ type = .parseInto ∧ parseSqlKeyword x (ascii "into")
      · rw [if_pos hinto]
        obtain ⟨hnest,rfl,hkey⟩ := hinto
        exact oneRound_keyword (ascii "into") hscan hnest (fun _ _ hk => hk) hkey
      rw [if_neg hinto]
      refine oneRound_word hscan hpos hcomment fun b hb hmem => ?_
      obtain hmem | hmem := List.mem_append.mp hmem
      · exact hblank b hb hmem
      · have hquotes : ascii "'\"()" = [code '\'',code '"',code '(',code ')'] := rfl
        rw [hquotes] at hmem
        simp only [List.mem_cons,List.not_mem_nil,or_false] at hmem
        obtain rfl | rfl | rfl | rfl := hmem
        · exact hsingle hb
        · exact hdouble hb
        · exact hopen hb
        · exact hclose hb

/-- The search ends inside the text. -/
theorem findKeyword_returns (type : ParseType) (fuel : ℕ) (nestLevel : ℤ) (check : Bool) {s : Bytes}
    (hlen : s.length ≤ fuel) : ∃ o, findKeyword type fuel nestLevel check s = some o ∧
      ∀ x, o = some x → x <:+ s := by
  induction fuel generalizing nestLevel check s with
  | zero =>
    obtain rfl := List.length_eq_zero_iff.mp (Nat.le_zero.mp hlen)
    exact ⟨some [],rfl,fun x hx => by cases hx; exact List.suffix_refl _⟩
  | succ fuel ih =>
    cases s with
    | nil => exact ⟨some [],rfl,fun x hx => by cases hx; exact List.suffix_refl _⟩
    | cons c cs =>
      have hgo : ∀ {x : Bytes} {n : ℤ} {b : Bool}, x <:+ c :: cs → x.length < (c :: cs).length →
          ∃ o, findKeyword type fuel n b x = some o ∧ ∀ y, o = some y → y <:+ c :: cs := by
        intro x n b hx hlt
        obtain ⟨o,ho,hsuf⟩ := ih n b (s := x) (by omega)
        exact ⟨o,ho,fun y hy => (hsuf y hy).trans hx⟩
      obtain ⟨next,found,hround,heq⟩ := findKeyword_round type fuel nestLevel check c cs
      rw [heq]
      cases hround with
      | giveUp => exact ⟨none,rfl,fun x hx => by cases hx⟩
      | found hx => exact ⟨_,rfl,fun y hy => by cases hy; exact hx⟩
      | skip hx hlt => exact hgo hx hlt
      | keyword hscan =>
        exact ⟨_,rfl,fun y hy => by cases hy; exact (List.suffix_append _ _).trans hscan.suffix⟩
      | checked hscan hnest hkey hdelim hlt => exact hgo ((List.suffix_append _ _).trans hscan.suffix) hlt
      | token hscan hlt => exact hgo hscan.suffix hlt
      | word hscan hword hlt => exact hgo ((List.suffix_append _ _).trans hscan.suffix) hlt

/-- Whole tokens lead to the keyword that the search finds. -/
theorem findKeyword_behind {sql : Bytes} (hapart : CommentsApart sql) (opname : Bytes) {type : ParseType}
    {fuel : ℕ} {nestLevel : ℤ} {check : Bool} {s x : Bytes}
    (h : findKeyword type fuel nestLevel check s = some (some x))
    (hscan : check = false → Scanned sql nestLevel s) (hcheck : check = true → Behind opname type sql s) :
    x = [] ∨ Behind opname type sql x := by
  induction fuel generalizing nestLevel check s with
  | zero =>
    cases s with
    | nil =>
      cases h
      exact .inl rfl
    | cons c cs => cases h
  | succ fuel ih =>
    cases s with
    | nil =>
      cases h
      exact .inl rfl
    | cons c cs =>
      obtain ⟨next,found,hround,heq⟩ := findKeyword_round type fuel nestLevel check c cs
      rw [heq] at h
      have hbehind : ∀ {k y : Bytes}, Scanned (c :: cs) 0 (k ++ y) → nestLevel = 0 → check = false →
          (∀ opname, type.IsKeyword opname k) → (∀ c ∈ y.head?, c ∈ delimiterChars) →
          Behind opname type sql y := by
        intro k y hk hnest hfalse hkey hdelim
        refine ⟨k,y,?_,hkey opname,hdelim,List.suffix_refl y⟩
        have htrans := (hscan hfalse).trans hk
        rwa [hnest] at htrans
      cases hround with
      | giveUp => cases h
      | found hx =>
        cases h
        exact .inr ((hcheck rfl).suffix hx)
      | skip hx hlt => exact ih h (fun hfalse => by cases hfalse) fun _ => (hcheck rfl).suffix hx
      | keyword hk hnest hkey hdelim =>
        cases h
        exact .inr (hbehind hk hnest rfl hkey hdelim)
      | checked hk hnest hkey hdelim hlt =>
        exact ih h (fun hfalse => by cases hfalse) fun _ => hbehind hk hnest rfl hkey hdelim
      | token htoken hlt => exact ih h (fun _ => (hscan rfl).trans htoken) fun htrue => by cases htrue
      | word htoken hword hlt =>
        refine ih h (fun _ => ?_) fun htrue => by cases htrue
        -- the word holds no comment, so it is a whole token
        have hfront := (hscan rfl).trans htoken
        rw [add_zero] at hfront
        have hwhole := hapart _ _ _ hfront hword
        have htrans := hfront.trans (.word hword hwhole (.done _))
        rwa [add_zero] at htrans

lemma tolower_whitespace {c : UInt8} (hc : c ∈ whitespaceChars) : tolower c = c := by
  simp only [whitespaceChars,List.mem_cons,List.not_mem_nil,or_false] at hc
  obtain rfl | rfl | rfl | rfl | rfl | rfl := hc <;> rfl

/-- A beginning without white space is part of the first word. -/
theorem prefix_firstWord {p s : Bytes} (h : p <+: s.map tolower) (hp : ∀ c ∈ p, c ∉ whitespaceChars) :
    p <+: (s.takeWhile (· ∉ whitespaceChars)).map tolower := by
  induction p generalizing s with
  | nil => exact List.nil_prefix
  | cons b p ih =>
    cases s with
    | nil => exact h
    | cons c s =>
      rw [List.map_cons,List.cons_prefix_cons] at h
      obtain ⟨rfl,h⟩ := h
      have hc : c ∉ whitespaceChars := by
        intro hmem
        apply hp (tolower c) List.mem_cons_self
        rwa [tolower_whitespace hmem]
      rw [List.takeWhile_cons_of_pos (by simpa using hc),List.map_cons,List.cons_prefix_cons]
      exact ⟨rfl,ih h fun c hc => hp c (List.mem_cons_of_mem _ hc)⟩

/-- The cursor behind the keyword. -/
theorem behindKeyword_spec {sql s opname : Bytes} {type : ParseType} (hscan : Scanned sql 0 s)
    (hop : hasOperation s opname = true) (hplain : ∀ c ∈ opname, c ∉ whitespaceChars) :
    ∃ o, behindKeyword type s = some o ∧
      ∀ x, o = some x → x <:+ s ∧ (CommentsApart sql → x = [] ∨ Behind opname type sql x) := by
  unfold behindKeyword
  by_cases hfirst : type = .parseCommit ∨ type = .parseUpdate
  · rw [if_pos hfirst,advance_strcspn,Option.map_some]
    refine ⟨_,rfl,fun x hx => ?_⟩
    obtain rfl := Option.some_inj.mp hx
    refine ⟨List.dropWhile_suffix _,fun _ => .inr ⟨s.takeWhile (· ∉ whitespaceChars),_,?_,?_,?_,
      List.suffix_refl _⟩⟩
    · rw [List.takeWhile_append_dropWhile]
      exact hscan
    · have hkey := prefix_firstWord (List.isPrefixOf_iff_prefix.mp hop) hplain
      obtain rfl | rfl := hfirst
      · exact hkey
      · exact hkey
    · intro c hc
      exact List.mem_append_left _ (by simpa using head?_dropWhile_mem s c hc)
  · rw [if_neg hfirst]
    obtain ⟨o,ho,hsuf⟩ := findKeyword_returns type s.length 0 false le_rfl
    refine ⟨o,ho,fun x hx => ⟨hsuf x hx,fun hapart => ?_⟩⟩
    rw [hx] at ho
    exact findKeyword_behind hapart opname ho (fun _ => hscan) fun htrue => by cases htrue

/-! ### The name -/

/-- The last part of a name stands in the text, and it is cut at every character that ends a name. -/
theorem lastName_spec (fuel : ℕ) {x : Bytes} (hlen : x.length < fuel) : ∃ name, lastName fuel x = some name ∧
    (∀ c ∈ name, c ∉ nameStops) ∧ ∃ pre post, x = pre ++ (name ++ post) := by
  induction fuel generalizing x with
  | zero => exact absurd hlen (Nat.not_lt_zero _)
  | succ fuel ih =>
    have hstart : ∃ q, x = q ++ (if standsOn x nameQuotes then x.tail else x) := by
      split_ifs with hquote
      · cases x with
        | nil => exact ⟨[],rfl⟩
        | cons c x => exact ⟨[c],rfl⟩
      · exact ⟨[],rfl⟩
    obtain ⟨q,hq⟩ := hstart
    rw [lastName]
    generalize (if standsOn x nameQuotes then x.tail else x) = start at hq ⊢
    rw [advance_strcspn,Option.bind_some]
    have hsplit : start.takeWhile (· ∉ nameStops) ++ start.dropWhile (· ∉ nameStops) = start :=
      List.takeWhile_append_dropWhile
    have htake : start.take (strcspn start nameStops) = start.takeWhile (· ∉ nameStops) := by
      have hleft : (start.takeWhile (· ∉ nameStops) ++ start.dropWhile (· ∉ nameStops)).take
          (strcspn start nameStops) = start.takeWhile (· ∉ nameStops) := List.take_left
      rwa [hsplit] at hleft
    rw [htake]
    generalize hy : start.dropWhile (· ∉ nameStops) = y at hsplit ⊢
    by_cases hdot : (y.drop (strspn y nameGap)).head? = some (code '.')
    · rw [if_pos hdot]
      -- there is a dot, and so a character to go past
      have hlt : strspn y nameGap < y.length := by
        by_contra hge
        rw [List.drop_eq_nil_of_le (not_lt.mp hge)] at hdot
        cases hdot
      rw [advance,if_pos (Nat.succ_le_of_lt hlt),Option.bind_some]
      have hshort : (y.drop (strspn y nameGap+1)).length < fuel := by
        rw [List.length_drop]
        have hle : y.length ≤ x.length := by
          rw [hq,← hsplit]
          simp only [List.length_append]
          omega
        omega
      obtain ⟨name,hname,hstops,pre,post,hpost⟩ := ih hshort
      refine ⟨name,hname,hstops,q ++ (start.takeWhile (· ∉ nameStops) ++
        (y.take (strspn y nameGap+1) ++ pre)),post,?_⟩
      rw [List.append_assoc,List.append_assoc,List.append_assoc,← hpost,List.take_append_drop,hsplit]
      exact hq
    · rw [if_neg hdot]
      refine ⟨_,rfl,?_,q,y,?_⟩
      · intro c hc
        simpa using List.all_eq_true.mp List.all_takeWhile c hc
      · rw [hsplit]
        exact hq

/-- What is reported as a name: some of the text, without the characters that end names. -/
def Named (x name : Bytes) : Prop :=
  name ≠ [] ∧ (∀ c ∈ name, c ∉ nameStops) ∧ ∃ pre post, x = pre ++ (name ++ post)

lemma namedTable_spec (x : Bytes) : ∃ o, namedTable x = some o ∧ ∀ name, o = some name → Named x name := by
  obtain ⟨name,hname,hstops,hpart⟩ := lastName_spec (x.length+1) (Nat.lt_succ_self _)
  rw [namedTable,hname,Option.map_some]
  refine ⟨_,rfl,fun name' h => ?_⟩
  split_ifs at h with hnil
  obtain rfl := Option.some_inj.mp h
  exact ⟨hnil,hstops,hpart⟩

lemma Named.of_suffix {x y name : Bytes} (h : Named y name) (hy : y <:+ x) : Named x name := by
  obtain ⟨hne,hstops,pre,post,rfl⟩ := h
  obtain ⟨front,rfl⟩ := hy
  exact ⟨hne,hstops,front ++ pre,post,(List.append_assoc _ _ _).symm⟩

/-- The table is a name, or an opening parenthesis stands for a subquery. -/
theorem tableAt_spec (x : Bytes) : ∃ o, tableAt x = some o ∧ ∀ name, o = some name →
    Named x name ∨ name = ascii "(subquery)" ∧ ∃ y, code '(' :: y <:+ x := by
  obtain ⟨o,ho,hspec⟩ := whitespaceCommentPrefix_spec x
  rw [tableAt,ho,Option.bind_some]
  cases o with
  | none => exact ⟨none,rfl,fun name h => by cases h⟩
  | some y =>
    have hsuf := (hspec y rfl).1.suffix
    have hnamed : ∀ {z}, z <:+ x → ∃ o, namedTable z = some o ∧ ∀ name, o = some name →
        Named x name ∨ name = ascii "(subquery)" ∧ ∃ y, code '(' :: y <:+ x := by
      intro z hz
      obtain ⟨o,ho,hname⟩ := namedTable_spec z
      exact ⟨o,ho,fun name h => .inl ((hname name h).of_suffix hz)⟩
    simp only
    by_cases hopen : y.head? = some (code '(')
    · rw [if_pos hopen]
      have htail : y.tail <:+ x := (List.tail_suffix y).trans hsuf
      split_ifs
      · exact hnamed htail
      · exact hnamed htail
      · refine ⟨_,rfl,fun name h => .inr ⟨(Option.some_inj.mp h).symm,y.tail,?_⟩⟩
        rw [← eq_cons_of_head? hopen]
        exact hsuf
    · rw [if_neg hopen]
      exact hnamed hsuf

lemma operations_plain : ∀ operation ∈ operations, ∀ c ∈ operation.1, c ∉ whitespaceChars := by
  have hall : (operations.all fun operation => operation.1.all fun c => !whitespaceChars.elem c) = true := rfl
  intro operation hop c hc hmem
  have hbyte := List.all_eq_true.mp (List.all_eq_true.mp hall operation hop) c hc
  rw [List.elem_eq_true_of_mem hmem] at hbyte
  cases hbyte

/-- The scan of any text returns with its cursor in the text. A table is a piece of the text, or
`(subquery)` for an opening parenthesis, without the characters that end names, and it stands behind a
keyword of the operation to which whole tokens lead, provided that no comment is glued to a word. -/
theorem getOperationAndTable_spec (sql : Bytes) : ∃ r, getOperationAndTable sql = some r ∧
    ∀ name, r.table = some name → ∃ opname type, r.operation = some opname ∧ (opname,type) ∈ operations ∧
      ((name ≠ [] ∧ (∀ c ∈ name, c ∉ nameStops) ∧ ∃ pre post, sql = pre ++ (name ++ post) ∧
        (CommentsApart sql → Behind opname type sql (name ++ post))) ∨
      (name = ascii "(subquery)" ∧ ∃ post, code '(' :: post <:+ sql ∧
        (CommentsApart sql → Behind opname type sql (code '(' :: post)))) := by
  obtain ⟨o,ho,hspec⟩ := whitespaceCommentPrefix_spec sql
  rw [getOperationAndTable,ho,Option.bind_some]
  cases o with
  | none => exact ⟨_,rfl,fun name h => by cases h⟩
  | some s =>
    obtain ⟨hscan,-⟩ := hspec s rfl
    simp only
    cases hfind : operations.find? fun operation => hasOperation s operation.1 with
    | none => exact ⟨_,rfl,fun name h => by cases h⟩
    | some operation =>
      obtain ⟨opname,type⟩ := operation
      have hmem := List.mem_of_find?_eq_some hfind
      have hop : hasOperation s opname = true := by simpa using List.find?_some hfind
      obtain ⟨o,ho,hbehind⟩ :=
        @behindKeyword_spec sql s opname type hscan hop (operations_plain _ hmem)
      simp only [ho,Option.bind_some]
      cases o with
      | none => exact ⟨_,rfl,fun name h => by cases h⟩
      | some x =>
        obtain ⟨table,htable,hname⟩ := tableAt_spec x
        obtain ⟨hsuf,hkey⟩ := hbehind x rfl
        have hsuf := hsuf.trans hscan.suffix
        simp only [htable,Option.map_some]
        refine ⟨_,rfl,fun name h => ⟨opname,type,rfl,hmem,?_⟩⟩
        obtain ⟨hne,hstops,pre,post,hx⟩ | ⟨hsub,y,hy⟩ := hname name h
        · left
          obtain ⟨front,hfront⟩ := hsuf
          refine ⟨hne,hstops,front ++ pre,post,?_,fun hapart => ?_⟩
          · rw [List.append_assoc,← hx,hfront]
          · obtain hnil | hx' := hkey hapart
            · rw [hnil] at hx
              exact absurd (List.append_eq_nil_iff.mp (List.append_eq_nil_iff.mp hx.symm).2).1 hne
            · exact hx'.suffix ⟨pre,hx.symm⟩
        · right
          refine ⟨hsub,y,hy.trans hsuf,fun hapart => ?_⟩
          obtain hnil | hx' := hkey hapart
          · rw [hnil] at hy
            exact absurd (List.suffix_nil.mp hy) (List.cons_ne_nil _ _)
          · exact hx'.suffix hy

/-- A subquery is reported under a name that is no part of the text. -/
theorem getOperationAndTable_subquery :
    getOperationAndTable (ascii "select a from (select a from t) u") =
      some ⟨some (ascii "select"),some (ascii "(subquery)")⟩ ∧
    code '(' ∈ ascii "(subquery)" ∧
    ¬ ascii "(subquery)" <:+: ascii "select a from (select a from t) u" := by
  decide

end Sql
end PhpAgent

import PhpAgent.Util.Url

/-! When a user name and a password make no difference to a cleaned URL and to its domain. -/
namespace PhpAgent

open Json (code)

namespace Url

/-! ### The domain -/

/-- The variables of the loop; `stop` is none for -1. -/
structure Domain where
  start : ℕ := 0
  stop : Option ℕ := none
  afterAt : Bool := false
  afterColonSlashSlash : Bool := false

/-- The loop, at `url[i]`; none is an early return. -/
def domainLoop : Bytes → ℕ → Domain → Option (ℕ × Domain)
  | [], i, d => some (i,d)
  | c :: rest, i, d =>
    if c = code '@' then
      if d.afterAt then none
      else domainLoop rest (i+1) { d with start := i+1, stop := none, afterAt := true }
    else if c = code ':' then
      match rest with
      | c₁ :: c₂ :: rest' =>
        if c₁ = code '/' ∧ c₂ = code '/' then
          if d.afterAt ∨ d.afterColonSlashSlash then none
          else domainLoop rest' (i+3) { d with start := i+3, stop := none, afterColonSlashSlash := true }
        else domainLoop (c₁ :: c₂ :: rest') (i+1) { d with stop := d.stop.or (some i) }
      | rest' => domainLoop rest' (i+1) { d with stop := d.stop.or (some i) }
    else if c = 0 ∨ c ∈ code '/' :: queryChars then some (i,d)
    else domainLoop rest (i+1) d

/-- `nr_url_extract_domain`: the text that it points to; none is NULL. -/
def extractDomain (url : Bytes) (urllen : ℤ) : Option Bytes :=
  if url = [] ∨ urllen ≤ 0 then none
  else
    match domainLoop (url.take urllen.toNat) 0 {} with
    | none => none
    | some (i,d) =>
      let stop := d.stop.getD i
      if urllen ≤ d.start ∨ stop ≤ d.start then none
      else some ((url.drop d.start).take (stop-d.start))

/-! ### The loop over the domain -/

def slashes : Bytes := ascii "//"

/-- No end of the loop, and no early return. -/
def inHost (c : UInt8) : Bool := c ∉ 0 :: code '@' :: code '/' :: queryChars

/-- Where the loop finds the first colon. -/
def colonAt (i : ℕ) (host : Bytes) : Option ℕ :=
  if code ':' ∈ host then some (i+(host.takeWhile (· ≠ code ':')).length) else none

lemma domainLoop_at (rest : Bytes) (i : ℕ) (d : Domain) :
    domainLoop (code '@' :: rest) i d =
      if d.afterAt then none
      else domainLoop rest (i+1) { d with start := i+1, stop := none, afterAt := true } := by
  rw [domainLoop.eq_def]
  simp only [if_true]

lemma domainLoop_colon {rest : Bytes} (h : ¬ slashes <+: rest) (i : ℕ) (d : Domain) :
    domainLoop (code ':' :: rest) i d = domainLoop rest (i+1) { d with stop := d.stop.or (some i) } := by
  have hat : ¬ code ':' = code '@' := by decide
  rcases rest with _ | ⟨c₁,_ | ⟨c₂,rest⟩⟩
  · rw [domainLoop.eq_def]
    simp only [if_neg hat,if_true]
  · rw [domainLoop.eq_def]
    simp only [if_neg hat,if_true]
  · rw [domainLoop.eq_def]
    simp only [if_neg hat,if_true]
    rw [if_neg]
    rintro ⟨rfl,rfl⟩
    exact h ⟨rest,rfl⟩

lemma domainLoop_slashes (rest : Bytes) (i : ℕ) (d : Domain) :
    domainLoop (code ':' :: (slashes ++ rest)) i d =
      if d.afterAt ∨ d.afterColonSlashSlash then none
      else domainLoop rest (i+3) { d with start := i+3, stop := none, afterColonSlashSlash := true } := by
  have hat : ¬ code ':' = code '@' := by decide
  have hslashes : slashes ++ rest = code '/' :: code '/' :: rest := rfl
  rw [hslashes,domainLoop.eq_def]
  simp only [if_neg hat,if_true,and_self]

variable {c : UInt8}

lemma domainLoop_char (hc : inHost c) (hcolon : c ≠ code ':') (rest : Bytes) (i : ℕ)
    (d : Domain) : domainLoop (c :: rest) i d = domainLoop rest (i+1) d := by
  have hno : c ∉ 0 :: code '@' :: code '/' :: queryChars := of_decide_eq_true hc
  simp only [List.mem_cons,not_or] at hno
  rw [domainLoop.eq_def]
  simp only [if_neg hno.2.1,if_neg hcolon]
  rw [if_neg]
  simp only [List.mem_cons,not_or]
  exact ⟨hno.1,hno.2.2⟩

lemma domainLoop_end (hc : c ∈ code '/' :: queryChars) (rest : Bytes) (i : ℕ) (d : Domain) :
    domainLoop (c :: rest) i d = some (i,d) := by
  have hat : ¬ c = code '@' := by
    rintro rfl
    exact absurd hc (by decide)
  have hcolon : ¬ c = code ':' := by
    rintro rfl
    exact absurd hc (by decide)
  rw [domainLoop.eq_def]
  simp only [if_neg hat,if_neg hcolon,if_pos (Or.inr hc)]

/-- A host, or a user name and a password: the first colon is the end. -/
theorem domainLoop_host {host rest : Bytes} (hhost : ∀ c ∈ host, inHost c)
    (hrest : ¬ (host.getLast? = some (code ':') ∧ slashes <+: rest)) (i : ℕ) (d : Domain) :
    domainLoop (host ++ rest) i d =
      domainLoop rest (i+host.length) { d with stop := d.stop.or (colonAt i host) } := by
  induction host generalizing i d with
  | nil => simp [colonAt]
  | cons c host ih =>
    have hc := hhost c List.mem_cons_self
    have htail : ∀ c ∈ host, inHost c := fun c hc => hhost c (List.mem_cons_of_mem _ hc)
    have hlast : ¬ (host.getLast? = some (code ':') ∧ slashes <+: rest) := by
      rintro ⟨hlast,hpre⟩
      refine hrest ⟨?_,hpre⟩
      rw [List.getLast?_cons,hlast]
      rfl
    by_cases hcolon : c = code ':'
    · have hno : ¬ slashes <+: host ++ rest := by
        cases host with
        | nil => exact fun hpre => hrest ⟨by rw [hcolon]; rfl,hpre⟩
        | cons c' host =>
          rintro ⟨t,ht⟩
          have hslash : code '/' = c' := (List.cons.inj ht).1
          have hc' := htail c' List.mem_cons_self
          rw [← hslash] at hc'
          exact absurd hc' (by decide)
      rw [hcolon,List.cons_append,domainLoop_colon hno,ih htail hlast,List.length_cons]
      have hat : colonAt i (code ':' :: host) = some i := by simp [colonAt]
      have hsum : i+(host.length+1) = i+1+host.length := by omega
      rw [hat,hsum]
      cases d.stop with
      | none => rfl
      | some j => rfl
    · have hat : colonAt i (c :: host) = colonAt (i+1) host := by
        have hmem : code ':' ∈ c :: host ↔ code ':' ∈ host := by
          rw [List.mem_cons]
          exact or_iff_right fun h => hcolon h.symm
        have hsum : ∀ n, i+(n+1) = i+1+n := fun n => by omega
        have hskip : (c :: host).takeWhile (· ≠ code ':') = c :: host.takeWhile (· ≠ code ':') := by
          simp [hcolon]
        unfold colonAt
        rw [hskip,List.length_cons,hsum]
        simp only [hmem]
      have hsum : i+(host.length+1) = i+1+host.length := by omega
      rw [List.cons_append,domainLoop_char hc hcolon,ih htail hlast,List.length_cons,hat,hsum]

/-- The host without its port. -/
def hostName (host : Bytes) : Option Bytes :=
  let name := host.takeWhile (· ≠ code ':')
  if name = [] then none else some name

lemma colonAt_getD (i : ℕ) (host : Bytes) :
    (colonAt i host).getD (i+host.length) = i+(host.takeWhile (· ≠ code ':')).length := by
  unfold colonAt
  split_ifs with h
  · rfl
  · have hself : host.takeWhile (· ≠ code ':') = host := by
      refine List.takeWhile_eq_self_iff.mpr ?_
      intro c hc
      exact decide_eq_true fun heq => h (heq ▸ hc)
    rw [hself]
    rfl

/-- The loop ends behind a host. -/
theorem extractDomain_host {url pre host rest : Bytes} {d : Domain} (hurl : url = pre ++ (host ++ rest))
    (hne : url ≠ []) (hstart : d.start = pre.length) (hstop : d.stop = none)
    (hloop : domainLoop url 0 {} =
      some (pre.length+host.length,{ d with stop := d.stop.or (colonAt pre.length host) })) :
    extractDomain url url.length = hostName host := by
  have hlen : ¬ (url = [] ∨ (url.length : ℤ) ≤ 0) := by
    rintro (h | h)
    · exact hne h
    · exact hne (List.length_eq_zero_iff.mp (by omega))
  have htake : url.take (url.length : ℤ).toNat = url := by
    rw [Int.toNat_natCast,List.take_length]
  have hinitial : host.takeWhile (· ≠ code ':') <+: host := List.takeWhile_prefix _
  rw [extractDomain,if_neg hlen,htake,hloop]
  simp only [hstart,hstop,Option.none_or,colonAt_getD,hostName]
  by_cases hname : host.takeWhile (· ≠ code ':') = []
  · rw [hname,List.length_nil,Nat.add_zero,if_pos (Or.inr le_rfl),if_pos rfl]
  · have hpos : 0 < (host.takeWhile (· ≠ code ':')).length := List.length_pos_of_ne_nil hname
    have hle := hinitial.length_le
    have hlength := congrArg List.length hurl
    rw [List.length_append,List.length_append] at hlength
    rw [if_neg,if_neg hname]
    · rw [hurl,List.drop_left,Nat.add_sub_cancel_left,List.take_append_of_le_length hle,
        ← List.prefix_iff_eq_take.mp hinitial]
    · omega

/-! ### Two logins at one site -/

/-- What two URLs have in common. Parameters begin where the code says so, at a semicolon as well. -/
structure Site where
  scheme : Bytes
  host : Bytes
  path : Bytes
  scheme_chars : ∀ c ∈ scheme, c ≠ code ':' ∧ inHost c
  host_chars : ∀ c ∈ host, inHost c
  path_chars : ∀ c ∈ path, c ∉ queryChars ++ [0]
  path_start : ∀ c rest, path = c :: rest → c = code '/'

/-- A user name and a password, and the parameters. -/
structure Login where
  userinfo : Bytes
  query : Bytes
  userinfo_chars : ∀ c ∈ userinfo, c ∉ ascii "/?#@" ++ [0]
  query_chars : (0 : UInt8) ∉ query
  query_start : ∀ c rest, query = c :: rest → c ∈ queryChars

def Site.origin (site : Site) : Bytes := site.scheme ++ code ':' :: slashes

/-- The URL without the login. -/
def Site.bare (site : Site) : Bytes := site.origin ++ (site.host ++ site.path)

def Site.url (site : Site) (login : Login) : Bytes :=
  site.origin ++ (login.userinfo ++ code '@' :: (site.host ++ (site.path ++ login.query)))

/-- The user name and the password up to the first semicolon. -/
def Login.front (login : Login) : Bytes := login.userinfo.takeWhile (· ≠ code ';')

/-! ### The cleaned URL -/

lemma length_foldl_cleaned (out text : Bytes) :
    (text.foldl (cleaned bytes false) out).length+text.count (code '@') ≤ out.length+text.length := by
  induction text generalizing out with
  | nil => simp
  | cons c text ih =>
    have hstep := ih (cleaned bytes false out c)
    by_cases hat : c = code '@'
    · have hlen : (cleaned bytes false out c).length ≤ out.length := by
        have hbyte : bytes.byte c = code '@' := hat
        rw [cleaned,if_pos hbyte]
        simpa using (List.rdropWhile_prefix (notSlash bytes) out).length_le
      rw [List.foldl_cons,hat,List.count_cons_self,List.length_cons]
      rw [hat] at hstep hlen
      omega
    · have hlen : (cleaned bytes false out c).length = out.length+1 := by
        have hbyte : ¬ bytes.byte c = code '@' := hat
        rw [cleaned,if_neg hbyte,List.length_append,List.length_singleton]
      rw [List.foldl_cons,List.count_cons_of_ne hat,List.length_cons]
      omega

lemma foldl_cleaned_of_not_mem {text : Bytes} (h : code '@' ∉ text) (out : Bytes) :
    text.foldl (cleaned bytes false) out = out ++ text := by
  induction text generalizing out with
  | nil => simp
  | cons c text ih =>
    have hat : ¬ bytes.byte c = code '@' := fun heq => h (List.mem_cons.mpr (.inl heq.symm))
    rw [List.foldl_cons,ih (fun hmem => h (List.mem_cons_of_mem _ hmem)),cleaned,if_neg hat,
      List.append_assoc,List.singleton_append]

/-- The text that is kept needs no more room than the URL. -/
theorem fits_false (text : Bytes) : Fits bytes false text := by
  have hlen : ∀ pre, (cleanedAll bytes false pre).length ≤ pre.length := by
    intro pre
    have hcount := length_foldl_cleaned [] pre
    rw [List.length_nil,Nat.zero_add] at hcount
    exact (Nat.le_add_right _ _).trans hcount
  refine ⟨?_,(hlen text).trans (by omega)⟩
  intro pre hpre
  exact (hlen pre).trans (hpre.length_le.trans (by omega))

lemma clean_eq {url : Bytes} (h : untilQuery bytes url ≠ []) :
    clean url url.length = .ok (some (cleanedAll bytes false (untilQuery bytes url))) := by
  have htake : url.take (url.length : ℤ).toNat = url := by
    rw [Int.toNat_natCast,List.take_length]
  have hne : untilQuery bytes (url.take (url.length : ℤ).toNat) ≠ [] := by rwa [htake]
  rcases cleanInternal_eq bytes false hne with ⟨_,heq⟩ | ⟨hfit,_⟩
  · rw [clean,heq,htake]
  · exact absurd (fits_false _) hfit

lemma untilQuery_append {a : Bytes} (ha : ∀ c ∈ a, c ∉ queryChars ++ [0]) (b : Bytes) :
    untilQuery bytes (a ++ b) = a ++ untilQuery bytes b :=
  List.takeWhile_append_of_pos fun c hc => decide_eq_true (ha c hc)

/-- The scan does not go past a query character. -/
theorem untilQuery_stop (hc : c ∈ queryChars) (b : Bytes) : untilQuery bytes (c :: b) = [] := by
  refine List.takeWhile_cons_of_neg ?_
  rw [decide_eq_true_iff,not_not]
  exact List.mem_append_left _ hc

lemma not_query_of_inHost (h : inHost c) : c ∉ queryChars ++ [0] := by
  have hno : c ∉ 0 :: code '@' :: code '/' :: queryChars := of_decide_eq_true h
  simp only [List.mem_cons,not_or] at hno
  rw [List.mem_append,List.mem_singleton]
  rintro (hquery | hzero)
  · exact hno.2.2.2 hquery
  · exact hno.1 hzero

lemma Site.origin_chars (site : Site) : ∀ c ∈ site.origin, c ∉ queryChars ++ [0] := by
  intro c hc
  rcases List.mem_append.mp hc with hscheme | hslashes
  · exact not_query_of_inHost (site.scheme_chars c hscheme).2
  · have hall : ∀ c ∈ code ':' :: slashes, c ∉ queryChars ++ [0] := by decide +kernel
    exact hall c hslashes

lemma Site.origin_at (site : Site) : code '@' ∉ site.origin := by
  intro h
  rcases List.mem_append.mp h with hscheme | hslashes
  · exact absurd (site.scheme_chars _ hscheme).2 (by decide)
  · exact absurd hslashes (by decide)

lemma Site.origin_ne (site : Site) : site.origin ≠ [] := by
  rw [Site.origin]
  simp

lemma Login.userinfo_at (login : Login) : code '@' ∉ login.userinfo := fun h =>
  absurd (by decide) (login.userinfo_chars _ h)

lemma Login.userinfo_slash (login : Login) : code '/' ∉ login.userinfo := fun h =>
  absurd (by decide) (login.userinfo_chars _ h)

lemma Login.inHost_of_ne (login : Login) (hc : c ∈ login.userinfo) (hne : c ≠ code ';') : inHost c := by
  have hno := login.userinfo_chars c hc
  have hall : ∀ n : Fin 256, UInt8.ofFin n ∉ ascii "/?#@" ++ [0] → UInt8.ofFin n ≠ code ';' →
      inHost (UInt8.ofFin n) := by decide +kernel
  exact hall c.toFin hno hne

lemma Login.untilQuery_query (login : Login) : untilQuery bytes login.query = [] := by
  cases hquery : login.query with
  | nil => rfl
  | cons c rest => exact untilQuery_stop (login.query_start c rest hquery) rest

variable {login : Login}

/-- A login with a semicolon is cut there. -/
theorem Login.exists_more (h : code ';' ∈ login.userinfo) :
    ∃ more, login.userinfo = login.front ++ code ';' :: more := by
  have hdrop : login.userinfo.dropWhile (· ≠ code ';') ≠ [] := by
    intro hnil
    have hall := List.dropWhile_eq_nil_iff.mp hnil (code ';') h
    simp at hall
  obtain ⟨c,more,hcons⟩ := List.exists_cons_of_ne_nil hdrop
  have hhead := List.head?_dropWhile_not (· ≠ code ';') login.userinfo
  rw [hcons] at hhead
  have hc : c = code ';' := by simpa using hhead
  refine ⟨more,?_⟩
  calc login.userinfo
      = login.front ++ login.userinfo.dropWhile (· ≠ code ';') := List.takeWhile_append_dropWhile.symm
    _ = login.front ++ code ';' :: more := by rw [hcons,hc]

lemma Login.mem_front (h : c ∈ login.front) : c ∈ login.userinfo ∧ inHost c := by
  have hmem : c ∈ login.userinfo := List.takeWhile_subset _ h
  have hne : decide (c ≠ code ';') = true := List.mem_takeWhile_imp (p := (· ≠ code ';')) h
  exact ⟨hmem,login.inHost_of_ne hmem (of_decide_eq_true hne)⟩

lemma Login.inHost_of_not_mem (h : code ';' ∉ login.userinfo) : ∀ c ∈ login.userinfo, inHost c :=
  fun _ hc => login.inHost_of_ne hc fun heq => h (heq ▸ hc)

lemma cleanedAll_login (site : Site) (login : Login) :
    cleanedAll bytes false (site.origin ++ (login.userinfo ++ [code '@'])) = site.origin := by
  have hsplit : site.origin = site.scheme ++ [code ':',code '/'] ++ [code '/'] := by
    rw [Site.origin]
    simp [slashes,ascii,code]
  have hseg : ∀ c ∈ login.userinfo ++ [code '@'], notSlash bytes c := by
    intro c hc
    refine decide_eq_true ?_
    rintro rfl
    rcases List.mem_append.mp hc with hmem | hmem
    · exact login.userinfo_slash hmem
    · exact absurd hmem (by decide)
  have hnot : ¬ notAt bytes (code '@') = true := by decide
  have hcleaned : segmentCleaned bytes false (login.userinfo ++ [code '@']) = [] := by
    rw [segmentCleaned,List.rtakeWhile_concat_neg _ _ _ hnot]
    rfl
  have hat : code '@' ∉ site.scheme ++ [code ':',code '/'] := by
    intro hmem
    refine site.origin_at ?_
    rw [hsplit]
    exact List.mem_append_left _ hmem
  have hslash : bytes.byte (code '/') = code '/' := rfl
  rw [hsplit,List.append_assoc,List.singleton_append,
    cleanedAll_append_slash bytes false _ hslash hseg,hcleaned,cleanedAll,
    foldl_cleaned_of_not_mem hat,List.nil_append]

/-- Without a semicolon the login is removed, and the path is cleaned behind the origin. -/
theorem Site.clean_of_not_mem (site : Site) (h : code ';' ∉ login.userinfo) :
    clean (site.url login) (site.url login).length =
      .ok (some ((site.host ++ site.path).foldl (cleaned bytes false) site.origin)) := by
  have hchars : ∀ c ∈ site.origin ++ (login.userinfo ++ code '@' :: (site.host ++ site.path)),
      c ∉ queryChars ++ [0] := by
    intro c hc
    rcases List.mem_append.mp hc with hc | hc
    · exact site.origin_chars c hc
    rcases List.mem_append.mp hc with hc | hc
    · exact not_query_of_inHost (login.inHost_of_not_mem h c hc)
    rcases List.mem_cons.mp hc with rfl | hc
    · decide
    rcases List.mem_append.mp hc with hc | hc
    · exact not_query_of_inHost (site.host_chars c hc)
    · exact site.path_chars c hc
  have htext : untilQuery bytes (site.url login) =
      site.origin ++ (login.userinfo ++ code '@' :: (site.host ++ site.path)) := by
    have hsplit : site.url login =
        site.origin ++ (login.userinfo ++ code '@' :: (site.host ++ site.path)) ++ login.query := by
      simp [Site.url]
    rw [hsplit,untilQuery_append hchars,login.untilQuery_query,List.append_nil]
  have hne : untilQuery bytes (site.url login) ≠ [] := by
    rw [htext]
    exact fun hnil => site.origin_ne (List.append_eq_nil_iff.mp hnil).1
  have hlogin : site.origin ++ (login.userinfo ++ code '@' :: (site.host ++ site.path)) =
      site.origin ++ (login.userinfo ++ [code '@']) ++ (site.host ++ site.path) := by simp
  have hcleaned := cleanedAll_login site login
  rw [clean_eq hne,htext,hlogin,cleanedAll,List.foldl_append]
  rw [cleanedAll] at hcleaned
  rw [hcleaned]

/-- With a semicolon the user name stays. -/
theorem Site.clean_of_mem (site : Site) (h : code ';' ∈ login.userinfo) :
    clean (site.url login) (site.url login).length = .ok (some (site.origin ++ login.front)) := by
  obtain ⟨more,hmore⟩ := Login.exists_more h
  have hchars : ∀ c ∈ site.origin ++ login.front, c ∉ queryChars ++ [0] := by
    intro c hc
    rcases List.mem_append.mp hc with hc | hc
    · exact site.origin_chars c hc
    · exact not_query_of_inHost (Login.mem_front hc).2
  have htext : untilQuery bytes (site.url login) = site.origin ++ login.front := by
    have hsplit : site.url login = site.origin ++ login.front ++
        code ';' :: (more ++ code '@' :: (site.host ++ (site.path ++ login.query))) := by
      rw [Site.url,hmore]
      simp
    rw [hsplit,untilQuery_append hchars,untilQuery_stop (by decide),List.append_nil]
  have hne : untilQuery bytes (site.url login) ≠ [] := by
    rw [htext]
    exact fun hnil => site.origin_ne (List.append_eq_nil_iff.mp hnil).1
  have hat : code '@' ∉ site.origin ++ login.front := by
    intro hmem
    rcases List.mem_append.mp hmem with hmem | hmem
    · exact site.origin_at hmem
    · exact login.userinfo_at (Login.mem_front hmem).1
  rw [clean_eq hne,htext,cleanedAll,foldl_cleaned_of_not_mem hat,List.nil_append]

lemma Site.foldl_eq_bare_iff (site : Site) :
    (site.host ++ site.path).foldl (cleaned bytes false) site.origin = site.bare ↔
      code '@' ∉ site.path := by
  have hhost : code '@' ∉ site.host := fun h => absurd (site.host_chars _ h) (by decide)
  constructor
  · intro heq hat
    have hcount := length_foldl_cleaned site.origin (site.host ++ site.path)
    have hpos : 0 < (site.host ++ site.path).count (code '@') :=
      List.count_pos_iff.mpr (List.mem_append_right _ hat)
    rw [heq,Site.bare,List.length_append] at hcount
    omega
  · intro hat
    refine foldl_cleaned_of_not_mem ?_ site.origin
    intro hmem
    rcases List.mem_append.mp hmem with hmem | hmem
    · exact hhost hmem
    · exact hat hmem

lemma Site.clean_iff (site : Site) (login : Login) :
    clean (site.url login) (site.url login).length = .ok (some site.bare) ↔
      code '@' ∉ site.path ∧
        (code ';' ∈ login.userinfo → site.path = [] ∧ login.front = site.host) := by
  by_cases h : code ';' ∈ login.userinfo
  · rw [site.clean_of_mem h,Site.bare,Except.ok.injEq,Option.some.injEq,List.append_cancel_left_eq]
    constructor
    · intro heq
      have hpath : site.path = [] := by
        cases hcons : site.path with
        | nil => rfl
        | cons c rest =>
          have hmem : code '/' ∈ login.front := by
            rw [heq,hcons,site.path_start c rest hcons]
            simp
          exact absurd (Login.mem_front hmem).1 login.userinfo_slash
      rw [hpath,List.append_nil] at heq
      rw [hpath]
      exact ⟨List.not_mem_nil,fun _ => ⟨rfl,heq⟩⟩
    · rintro ⟨_,hfront⟩
      obtain ⟨hpath,heq⟩ := hfront h
      rw [hpath,List.append_nil,heq]
  · rw [site.clean_of_not_mem h,Except.ok.injEq,Option.some.injEq,site.foldl_eq_bare_iff]
    exact (and_iff_left fun hmem => absurd hmem h).symm

/-! ### The domain of a URL with a login -/

/-- Behind the origin the domain begins. -/
theorem Site.loop_origin (site : Site) (rest : Bytes) :
    domainLoop (site.origin ++ rest) 0 {} =
      domainLoop rest site.origin.length
        { start := site.origin.length, afterColonSlashSlash := true } := by
  have hsplit : site.origin ++ rest = site.scheme ++ code ':' :: (slashes ++ rest) := by
    simp [Site.origin]
  have hno : ¬ slashes <+: code ':' :: (slashes ++ rest) := by
    rintro ⟨t,ht⟩
    have hhead : code '/' = code ':' := (List.cons.inj ht).1
    exact absurd hhead (by decide)
  have hcolon : colonAt 0 site.scheme = none := by
    refine if_neg fun hmem => ?_
    exact (site.scheme_chars _ hmem).1 rfl
  have hlen : site.origin.length = site.scheme.length+3 := by
    rw [Site.origin,List.length_append]
    rfl
  rw [hsplit,domainLoop_host (fun c hc => (site.scheme_chars c hc).2) (fun h => hno h.2),hcolon,
    domainLoop_slashes,hlen]
  simp

lemma Site.url_ne (site : Site) (login : Login) : site.url login ≠ [] := fun hnil =>
  site.origin_ne (List.append_eq_nil_iff.mp hnil).1

/-- With a semicolon the user name is taken for the domain. -/
theorem Site.domain_of_mem (site : Site) (h : code ';' ∈ login.userinfo) :
    extractDomain (site.url login) (site.url login).length = hostName login.front := by
  obtain ⟨more,hmore⟩ := Login.exists_more h
  have hsplit : site.url login = site.origin ++ (login.front ++
      code ';' :: (more ++ code '@' :: (site.host ++ (site.path ++ login.query)))) := by
    rw [Site.url,hmore]
    simp
  refine extractDomain_host hsplit (site.url_ne login)
    (d := { start := site.origin.length, afterColonSlashSlash := true }) rfl rfl ?_
  have hno : ¬ slashes <+: code ';' :: (more ++ code '@' :: (site.host ++ (site.path ++ login.query))) := by
    rintro ⟨t,ht⟩
    have hhead : code '/' = code ';' := (List.cons.inj ht).1
    exact absurd hhead (by decide)
  rw [hsplit,site.loop_origin,domainLoop_host (fun c hc => (Login.mem_front hc).2) (fun h => hno h.2),
    domainLoop_end (by decide)]

/-- A colon in front of two slashes once more is an error. -/
def Site.twoSchemes (site : Site) : Prop := site.host.getLast? = some (code ':') ∧ slashes <+: site.path

lemma Site.slashes_prefix (site : Site) (login : Login) :
    slashes <+: site.path ++ login.query ↔ slashes <+: site.path := by
  have hquery : ∀ t, ¬ code '/' :: t = login.query := fun t ht =>
    absurd (login.query_start _ t ht.symm) (by decide)
  constructor
  · rintro ⟨t,ht⟩
    rcases hpath : site.path with _ | ⟨c₁,_ | ⟨c₂,rest⟩⟩
    · rw [hpath] at ht
      exact absurd ht (hquery _)
    · rw [hpath] at ht
      exact absurd (List.cons.inj ht).2 (hquery _)
    · rw [hpath] at ht
      have h₁ : code '/' = c₁ := (List.cons.inj ht).1
      have h₂ : code '/' = c₂ := (List.cons.inj (List.cons.inj ht).2).1
      rw [← h₁,← h₂]
      exact ⟨rest,rfl⟩
  · intro h
    exact h.trans (List.prefix_append _ _)

/-- Without a semicolon the domain has nothing of the login and of the parameters. -/
theorem Site.domain_of_not_mem (site : Site) (h : code ';' ∉ login.userinfo) :
    (site.twoSchemes ∧ extractDomain (site.url login) (site.url login).length = none) ∨
      (¬ site.twoSchemes ∧
        extractDomain (site.url login) (site.url login).length = hostName site.host) := by
  set pre := site.origin ++ (login.userinfo ++ [code '@']) with hpre
  have hsplit : site.url login = pre ++ (site.host ++ (site.path ++ login.query)) := by
    simp [Site.url,hpre]
  have hlen : pre.length = site.origin.length+login.userinfo.length+1 := by
    rw [hpre,List.length_append,List.length_append,List.length_singleton]
    omega
  have hat : ¬ slashes <+: code '@' :: (site.host ++ (site.path ++ login.query)) := by
    rintro ⟨t,ht⟩
    have hhead : code '/' = code '@' := (List.cons.inj ht).1
    exact absurd hhead (by decide)
  have hloop : domainLoop (site.url login) 0 {} =
      domainLoop (site.host ++ (site.path ++ login.query)) pre.length
        { start := pre.length, afterAt := true, afterColonSlashSlash := true } := by
    rw [Site.url,site.loop_origin,
      domainLoop_host (login.inHost_of_not_mem h) (fun h => hat h.2),domainLoop_at,hlen]
    simp
  by_cases htwo : site.twoSchemes
  · refine .inl ⟨htwo,?_⟩
    obtain ⟨hlast,rest,hrest⟩ := htwo
    obtain ⟨host,hhost⟩ := List.getLast?_eq_some_iff.mp hlast
    have hchars : ∀ c ∈ host, inHost c := by
      intro c hc
      refine site.host_chars c ?_
      rw [hhost]
      exact List.mem_append_left _ hc
    have hno : ¬ slashes <+: code ':' :: (slashes ++ (rest ++ login.query)) := by
      rintro ⟨t,ht⟩
      have hhead : code '/' = code ':' := (List.cons.inj ht).1
      exact absurd hhead (by decide)
    have htext : site.host ++ (site.path ++ login.query) =
        host ++ code ':' :: (slashes ++ (rest ++ login.query)) := by
      rw [hhost,← hrest]
      simp
    have htake : (site.url login).take ((site.url login).length : ℤ).toNat = site.url login := by
      rw [Int.toNat_natCast,List.take_length]
    rw [htext,domainLoop_host hchars (fun h => hno h.2),domainLoop_slashes] at hloop
    unfold extractDomain
    rw [htake,hloop]
    simp
  · refine .inr ⟨htwo,?_⟩
    refine extractDomain_host hsplit (site.url_ne login)
      (d := { start := pre.length, afterAt := true, afterColonSlashSlash := true }) rfl rfl ?_
    have hno : ¬ (site.host.getLast? = some (code ':') ∧ slashes <+: site.path ++ login.query) := by
      rw [site.slashes_prefix]
      exact htwo
    rw [hloop,domainLoop_host site.host_chars hno]
    cases htail : site.path ++ login.query with
    | nil => rfl
    | cons c rest =>
      refine domainLoop_end ?_ rest _ _
      cases hpath : site.path with
      | nil =>
        rw [hpath,List.nil_append] at htail
        exact List.mem_cons_of_mem _ (login.query_start c rest htail)
      | cons c' rest' =>
        rw [hpath,List.cons_append] at htail
        rw [← (List.cons.inj htail).1,site.path_start c' rest' hpath]
        exact List.mem_cons_self

lemma hostName_of_not_mem {host : Bytes} (hne : host ≠ []) (h : code ':' ∉ host) :
    hostName host = some host := by
  have hself : host.takeWhile (· ≠ code ':') = host := by
    refine List.takeWhile_eq_self_iff.mpr ?_
    intro c hc
    exact decide_eq_true fun heq => h (heq ▸ hc)
  rw [hostName,hself]
  exact if_neg hne

/-- What the domain is when the URL is cleaned as it should be. -/
theorem Site.domain_of_front (site : Site)
    (h : code ';' ∈ login.userinfo → site.path = [] ∧ login.front = site.host) :
    (site.twoSchemes ∧ extractDomain (site.url login) (site.url login).length = none) ∨
      (¬ site.twoSchemes ∧
        extractDomain (site.url login) (site.url login).length = hostName site.host) := by
  by_cases hmem : code ';' ∈ login.userinfo
  · obtain ⟨hpath,hfront⟩ := h hmem
    refine .inr ⟨?_,by rw [site.domain_of_mem hmem,hfront]⟩
    rintro ⟨_,hslashes⟩
    rw [hpath] at hslashes
    exact absurd (List.prefix_nil.mp hslashes) (by decide)
  · exact site.domain_of_not_mem hmem

/-- Two logins at a site are both removed from the URL, and make no difference to the domain, exactly
when the path has no `@`, and a login with a semicolon has the host, without a path, in front of it. -/
theorem Site.strips_iff (site : Site) (a b : Login) :
    (clean (site.url a) (site.url a).length = .ok (some site.bare) ∧
        clean (site.url b) (site.url b).length = .ok (some site.bare) ∧
        extractDomain (site.url a) (site.url a).length =
          extractDomain (site.url b) (site.url b).length ∧
        (site.host ≠ [] → code ':' ∉ site.host →
          extractDomain (site.url a) (site.url a).length = some site.host)) ↔
      code '@' ∉ site.path ∧ ∀ login ∈ [a,b], code ';' ∈ login.userinfo →
        site.path = [] ∧ login.userinfo.takeWhile (· ≠ code ';') = site.host := by
  have hfront : ∀ login : Login, login.front = login.userinfo.takeWhile (· ≠ code ';') := fun _ => rfl
  simp only [List.forall_mem_cons,List.not_mem_nil,false_imp_iff,implies_true,and_true,← hfront]
  rw [site.clean_iff a,site.clean_iff b]
  constructor
  · rintro ⟨⟨hat,ha⟩,⟨_,hb⟩,_⟩
    exact ⟨hat,ha,hb⟩
  · rintro ⟨hat,ha,hb⟩
    refine ⟨⟨hat,ha⟩,⟨hat,hb⟩,?_⟩
    rcases site.domain_of_front ha with ⟨htwo,hdomain⟩ | ⟨htwo,hdomain⟩
    · rcases site.domain_of_front hb with ⟨_,hdomain'⟩ | ⟨hno,_⟩
      · refine ⟨hdomain.trans hdomain'.symm,?_⟩
        intro _ hcolon
        exact absurd (List.mem_of_getLast? htwo.1) hcolon
      · exact absurd htwo hno
    · rcases site.domain_of_front hb with ⟨hyes,_⟩ | ⟨_,hdomain'⟩
      · exact absurd hyes htwo
      · refine ⟨hdomain.trans hdomain'.symm,?_⟩
        intro hne hcolon
        rw [hdomain,hostName_of_not_mem hne hcolon]

def sampleSite : Site :=
  ⟨ascii "http",ascii "h",ascii "/p",by decide +kernel,by decide +kernel,by decide +kernel,by
    rintro c rest h
    exact (List.cons.inj h).1.symm⟩

def sampleLogin (userinfo : Bytes) (h : ∀ c ∈ userinfo, c ∉ ascii "/?#@" ++ [0]) : Login :=
  ⟨userinfo,[],h,List.not_mem_nil,fun _ _ hcons => absurd hcons (by simp)⟩

/-- A semicolon in a password leaves the user name in the URL, and in the place of the domain. -/
theorem not_strips :
    ¬ ∀ (site : Site) (a b : Login),
      clean (site.url a) (site.url a).length = .ok (some site.bare) ∧
        clean (site.url b) (site.url b).length = .ok (some site.bare) ∧
        extractDomain (site.url a) (site.url a).length =
          extractDomain (site.url b) (site.url b).length := by
  intro h
  have hclean := (h sampleSite (sampleLogin (ascii "user:pa;ss") (by decide +kernel))
    (sampleLogin (ascii "user") (by decide +kernel))).1
  have hcode : clean (ascii "http://user:pa;ss@h/p") 21 = .ok (some (ascii "http://user:pa")) := by
    decide
  have hurl : sampleSite.url (sampleLogin (ascii "user:pa;ss") (by decide +kernel)) =
      ascii "http://user:pa;ss@h/p" := by decide
  have hlen : ((ascii "http://user:pa;ss@h/p").length : ℤ) = 21 := by decide
  have hbare : sampleSite.bare = ascii "http://h/p" := by decide
  rw [hurl,hlen,hcode,hbare,Except.ok.injEq,Option.some.injEq] at hclean
  exact absurd hclean (by decide)

end Url
end PhpAgent

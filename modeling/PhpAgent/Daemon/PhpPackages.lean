import PhpAgent.Agent.PhpPackages

/-! The daemon's filter of PHP packages, after `App.filterPhpPackages` of `app.go`, and what it reports of
the packages that agents send. -/
namespace PhpAgent

open Json (accepts elements stringValue trimmed code quoted arrayText Tight)
open PackageText (entryText)

namespace PhpPackages

/-- A name and a version. -/
abbrev PackageKey : Type := Bytes × Bytes

/-- `json.Unmarshal` into a slice: the texts of the elements. -/
def unmarshalSlice (data : Bytes) : Option (List Bytes) :=
  if accepts data then if trimmed data = ascii "null" then some [] else elements data else none

/-- The key of an element, if it is a slice of three. What is not a string is an empty one. -/
def packageKey (pkgJson : Bytes) : Option PackageKey :=
  match (elements pkgJson).getD [] with
  | [name,version,_] => some ((stringValue name).getD [],(stringValue version).getD [])
  | _ => none

/-- The loop of `filterPhpPackages`: the new packages, if no element is invalid, and the packages that
have been seen. -/
def filterLoop : List Bytes → Finset PackageKey → List PackageKey →
    Option (List PackageKey) × Finset PackageKey
  | [], seen, newPkgs => (some newPkgs,seen)
  | pkgJson :: x, seen, newPkgs =>
    match packageKey pkgJson with
    | none => (none,seen)
    | some pkgKey =>
      if pkgKey ∈ seen then filterLoop x seen newPkgs
      else filterLoop x (insert pkgKey seen) (newPkgs ++ [pkgKey])

/-- The text of the new packages. The comma behind the last one becomes the bracket. -/
def resJson (newPkgs : List PackageKey) : Bytes :=
  (ascii "[" ++ newPkgs.flatMap fun pkg =>
    ascii "[\"" ++ pkg.1 ++ ascii "\",\"" ++ pkg.2 ++ ascii "\",\x7b\x7d],").dropLast ++ ascii "]"

/-- `App.filterPhpPackages`, with `app.PhpPackages` before and after. -/
def filterPhpPackages (seen : Finset PackageKey) (data : Option Bytes) :
    Option Bytes × Finset PackageKey :=
  match data.bind unmarshalSlice with
  | none => (none,seen)
  | some x =>
    match filterLoop x seen [] with
    | (none,seen) => (none,seen)
    | (some [],seen) => (none,seen)
    | (some newPkgs,seen) => (some (resJson newPkgs),seen)

/-! ### Reading a report -/

/-- A name, a version and an empty object. -/
def readEntry (e : Bytes) : Option PackageKey :=
  match elements e with
  | some [name,version,object] =>
    if object = [0x7b,0x7d] then
      (stringValue name).bind fun name => (stringValue version).map fun version => (name,version)
    else none
  | _ => none

/-- The packages that a valid text lists. -/
def readPackages (text : Bytes) : Option (List PackageKey) := (elements text).bind (·.mapM readEntry)

/-- A name and a version without a character that JSON escapes. -/
def PlainKey (key : PackageKey) : Prop := PlainText key.1 ∧ PlainText key.2

lemma tight_object : Tight [0x7b,0x7d] where
  accepted := by decide
  starts := ⟨0x7b,[0x7d],rfl,by decide⟩
  ends := ⟨[0x7b],0x7d,rfl,by decide⟩

variable {key : PackageKey}

lemma PlainKey.elements (h : PlainKey key) :
    elements (entryText key) = some [quoted key.1,quoted key.2,[0x7b,0x7d]] := by
  apply Json.elements_arrayText
  intro b hb
  simp only [List.mem_cons,List.not_mem_nil,or_false] at hb
  rcases hb with rfl | rfl | rfl
  · exact Json.tight_quoted h.1.plain
  · exact Json.tight_quoted h.2.plain
  · exact tight_object

lemma PlainKey.readEntry (h : PlainKey key) : readEntry (entryText key) = some key := by
  simp [PhpPackages.readEntry,h.elements,h.1.stringValue_quoted,h.2.stringValue_quoted]

lemma PlainKey.packageKey (h : PlainKey key) : packageKey (entryText key) = some key := by
  simp [PhpPackages.packageKey,h.elements,h.1.stringValue_quoted,h.2.stringValue_quoted]

lemma PlainKey.tight (h : PlainKey key) : Tight (entryText key) := by
  apply Json.tight_arrayText
  intro b hb
  simp only [List.mem_cons,List.not_mem_nil,or_false] at hb
  rcases hb with rfl | rfl | rfl
  · exact Json.accepts_quoted h.1.plain
  · exact Json.accepts_quoted h.2.plain
  · decide

lemma elements_text {keys : List PackageKey} (h : ∀ key ∈ keys, PlainKey key) :
    elements (PackageText.text keys) = some (keys.map entryText) := by
  apply Json.elements_arrayText
  intro b hb
  obtain ⟨key,hkey,rfl⟩ := List.mem_map.mp hb
  exact (h key hkey).tight

lemma mapM_entryText {f : Bytes → Option PackageKey} {keys : List PackageKey}
    (h : ∀ key ∈ keys, f (entryText key) = some key) : (keys.map entryText).mapM f = some keys := by
  induction keys with
  | nil => rfl
  | cons key keys ih =>
    have hrest := ih fun k hk => h k (List.mem_cons_of_mem key hk)
    rw [List.map_cons,List.mapM_cons,h key List.mem_cons_self,hrest]
    rfl

/-- The text of plain packages lists them. -/
theorem readPackages_text {keys : List PackageKey} (h : ∀ key ∈ keys, PlainKey key) :
    readPackages (PackageText.text keys) = some keys := by
  rw [readPackages,elements_text h]
  exact mapM_entryText fun key hkey => (h key hkey).readEntry

/-! ### The filter -/

/-- The keys that were not seen, each where it comes first. -/
def fresh : Finset PackageKey → List PackageKey → List PackageKey
  | _, [] => []
  | seen, key :: keys => if key ∈ seen then fresh seen keys else key :: fresh (insert key seen) keys

variable {seen : Finset PackageKey}

lemma mem_fresh {keys : List PackageKey} : key ∈ fresh seen keys ↔ key ∈ keys ∧ key ∉ seen := by
  induction keys generalizing seen with
  | nil => simp [fresh]
  | cons k keys ih =>
    unfold fresh
    split_ifs with hk
    · rw [ih,List.mem_cons]
      constructor
      · rintro ⟨hmem,hnew⟩
        exact ⟨.inr hmem,hnew⟩
      · rintro ⟨rfl | hmem,hnew⟩
        · exact absurd hk hnew
        · exact ⟨hmem,hnew⟩
    · rw [List.mem_cons,ih,List.mem_cons,Finset.mem_insert]
      by_cases heq : key = k
      · simp [heq,hk]
      · simp [heq]

/-- The keys in front of the first invalid element. -/
def front : List Bytes → List PackageKey
  | [] => []
  | pkgJson :: x =>
    match packageKey pkgJson with
    | none => []
    | some pkgKey => pkgKey :: front x

lemma filterLoop_accepted {x : List Bytes} {keys : List PackageKey}
    (h : x.mapM packageKey = some keys) (seen : Finset PackageKey) (newPkgs : List PackageKey) :
    filterLoop x seen newPkgs = (some (newPkgs ++ fresh seen keys),seen ∪ keys.toFinset) := by
  induction x generalizing keys seen newPkgs with
  | nil =>
    cases h
    simp [filterLoop,fresh]
  | cons pkgJson x ih =>
    rw [List.mapM_cons] at h
    obtain ⟨key,hkey,h⟩ := Option.bind_eq_some_iff.mp h
    obtain ⟨rest,hrest,h⟩ := Option.bind_eq_some_iff.mp h
    cases h
    rw [filterLoop,hkey,fresh]
    dsimp only
    split_ifs with hseen
    · rw [ih hrest,List.toFinset_cons,Finset.union_insert,Finset.insert_eq_self.mpr]
      exact Finset.mem_union_left _ hseen
    · rw [ih hrest,List.append_assoc,List.toFinset_cons,Finset.union_insert,Finset.insert_union]
      rfl

/-- An invalid element behind keys that were seen changes nothing. -/
theorem filterLoop_rejected {x : List Bytes} (h : x.mapM packageKey = none)
    (hfront : ∀ key ∈ front x, key ∈ seen)
    (newPkgs : List PackageKey) : filterLoop x seen newPkgs = (none,seen) := by
  induction x with
  | nil => cases h
  | cons pkgJson x ih =>
    rw [filterLoop]
    cases hkey : packageKey pkgJson with
    | none => rfl
    | some key =>
      have hfront' : ∀ k ∈ key :: front x, k ∈ seen := by
        simpa only [front,hkey] using hfront
      have hrest : x.mapM packageKey = none := by
        rw [List.mapM_cons,hkey] at h
        cases hx : x.mapM packageKey with
        | none => rfl
        | some keys =>
          rw [hx] at h
          cases h
      dsimp only
      rw [if_pos (hfront' key List.mem_cons_self)]
      exact ih hrest fun k hk => hfront' k (List.mem_cons_of_mem key hk)

lemma resJson_eq {newPkgs : List PackageKey} (h : newPkgs ≠ []) :
    resJson newPkgs = PackageText.text newPkgs := by
  have hopen : ascii "[" = [code '['] := by decide
  have hclose : ascii "]" = [code ']'] := by decide
  have hcomma : ascii "\",\x7b\x7d]," = ascii "\",\x7b\x7d]" ++ [code ','] := by decide
  have hentries : ∀ keys : List PackageKey, keys ≠ [] →
      (keys.flatMap fun pkg => ascii "[\"" ++ pkg.1 ++ ascii "\",\"" ++ pkg.2 ++
        ascii "\",\x7b\x7d],") = [code ','].intercalate (keys.map entryText) ++ [code ','] := by
    intro keys hkeys
    induction keys with
    | nil => exact absurd rfl hkeys
    | cons key keys ih =>
      rw [List.flatMap_cons,hcomma,← List.append_assoc,← PackageText.entryText_eq]
      cases keys with
      | nil => simp
      | cons key' keys =>
        rw [← hcomma,ih (by simp),List.map_cons,List.map_cons,List.map_cons,
          List.intercalate_cons_cons]
        simp
  rw [resJson,hentries newPkgs h,hopen,hclose,← List.append_assoc,List.dropLast_concat]
  simp [PackageText.text,arrayText]

/-! ### Reports of a run -/

/-- What the daemon is given: the packages of a transaction, or any other payload. -/
inductive Item (mkhash : Bytes → UInt32)
  | packages (h : NrPhpPackages mkhash)
  | payload (data : Option Bytes)

variable {mkhash : Bytes → UInt32} {item : Item mkhash} {items : List (Item mkhash)}

def Item.data : Item mkhash → Option Bytes
  | packages h => some h.toJson
  | payload data => data

/-- The keys of a payload without an invalid element. -/
def acceptedKeys (data : Bytes) : Option (List PackageKey) :=
  (unmarshalSlice data).bind (·.mapM packageKey)

/-- The names and versions that are to be reported. -/
def Item.keys : Item mkhash → List PackageKey
  | packages h => h.pairs
  | payload data => (data.bind acceptedKeys).getD []

/-- The payload is not a list of packages. -/
def Item.Rejected (item : Item mkhash) : Prop := ∃ data, item.data = some data ∧ acceptedKeys data = none

/-- The packages that were seen and the outputs so far. -/
def step (w : Finset PackageKey × List (Option Bytes)) (item : Item mkhash) :
    Finset PackageKey × List (Option Bytes) :=
  let r := filterPhpPackages w.1 item.data
  (r.2,w.2 ++ [r.1])

def run (items : List (Item mkhash)) : Finset PackageKey × List (Option Bytes) :=
  items.foldl step (∅,[])

/-- The packages that an output lists. -/
def listed (output : Option Bytes) : List PackageKey := (output.bind readPackages).getD []

/-- The packages are plain, and where a payload has an invalid element the packages in front of it have
been seen. -/
def Item.Harmless (seen : Finset PackageKey) : Item mkhash → Prop
  | packages h => ∀ key ∈ h.pairs, PlainKey key
  | payload data => ∀ d ∈ data,
      (∀ keys ∈ acceptedKeys d, ∀ key ∈ keys, PlainKey key) ∧
      (acceptedKeys d = none → ∀ key ∈ front ((unmarshalSlice d).getD []), key ∈ seen)

def Harmless (items : List (Item mkhash)) : Prop :=
  ∀ before item after, items = before ++ item :: after → item.Harmless (run before).1

/-- The text of plain packages is accepted with their keys. -/
theorem acceptedKeys_text {keys : List PackageKey} (h : ∀ key ∈ keys, PlainKey key) :
    acceptedKeys (PackageText.text keys) = some keys := by
  have haccept : accepts (PackageText.text keys) = true := by
    apply Json.accepts_arrayText
    intro b hb
    obtain ⟨key,hkey,rfl⟩ := List.mem_map.mp hb
    exact (h key hkey).tight.accepted
  have hnull : trimmed (PackageText.text keys) ≠ ascii "null" := by
    have htight : Tight (PackageText.text keys) := by
      apply Json.tight_arrayText
      intro b hb
      obtain ⟨key,hkey,rfl⟩ := List.mem_map.mp hb
      exact (h key hkey).tight.accepted
    rw [htight.trimmed]
    intro heq
    have hhead := congrArg List.head? heq
    rw [PackageText.text,arrayText,List.head?_cons] at hhead
    exact absurd hhead (by decide)
  rw [acceptedKeys,unmarshalSlice,if_pos haccept,if_neg hnull,elements_text h]
  exact mapM_entryText fun key hkey => (h key hkey).packageKey

/-- A payload without an invalid element: the new packages are reported, if there are any. -/
theorem filterPhpPackages_accepted {data : Bytes} {keys : List PackageKey}
    (h : acceptedKeys data = some keys) (seen : Finset PackageKey) :
    filterPhpPackages seen (some data) =
      (if fresh seen keys = [] then none else some (PackageText.text (fresh seen keys)),
        seen ∪ keys.toFinset) := by
  obtain ⟨x,hx,hkeys⟩ := Option.bind_eq_some_iff.mp h
  rw [filterPhpPackages,Option.bind_some,hx]
  dsimp only
  rw [filterLoop_accepted hkeys,List.nil_append]
  cases hfresh : fresh seen keys with
  | nil => rfl
  | cons key rest =>
    rw [if_neg (List.cons_ne_nil key rest),← resJson_eq (List.cons_ne_nil key rest)]

/-- A payload that is rejected, behind packages that were seen. -/
theorem filterPhpPackages_rejected {data : Bytes} (h : acceptedKeys data = none)
    (hfront : ∀ key ∈ front ((unmarshalSlice data).getD []), key ∈ seen) :
    filterPhpPackages seen (some data) = (none,seen) := by
  rw [filterPhpPackages,Option.bind_some]
  cases hx : unmarshalSlice data with
  | none => rfl
  | some x =>
    rw [acceptedKeys,hx,Option.bind_some] at h
    rw [hx,Option.getD_some] at hfront
    dsimp only
    rw [filterLoop_rejected h hfront]

/-- What one item adds to the reports. -/
structure StepSpec (w w' : Finset PackageKey × List (Option Bytes)) (item : Item mkhash) : Prop where
  seen : w'.1 = w.1 ∪ item.keys.toFinset
  output : ∃ output, w'.2 = w.2 ++ [output] ∧ listed output = fresh w.1 item.keys ∧
    ∀ text ∈ output, accepts text = true ∧ (readPackages text).isSome

lemma step_spec {w : Finset PackageKey × List (Option Bytes)}
    (h : item.Harmless w.1) : StepSpec w (step w item) item := by
  have haccepted : ∀ (data : Bytes) (keys : List PackageKey), item.data = some data →
      item.keys = keys → acceptedKeys data = some keys → (∀ key ∈ keys, PlainKey key) →
      StepSpec w (step w item) item := by
    intro data keys hdata hkeys hread hplain
    have hfilter := filterPhpPackages_accepted hread w.1
    have hfresh : ∀ key ∈ fresh w.1 keys, PlainKey key := fun key hkey =>
      hplain key (mem_fresh.mp hkey).1
    unfold step
    rw [hdata,hfilter]
    refine ⟨by rw [hkeys],_,rfl,?_,?_⟩
    · rw [hkeys]
      split_ifs with hnil
      · exact hnil.symm
      · rw [listed,Option.bind_some,readPackages_text hfresh]
        rfl
    · intro text htext
      split_ifs at htext with hnil
      · cases htext
      · cases htext
        have htight : accepts (PackageText.text (fresh w.1 keys)) = true := by
          apply Json.accepts_arrayText
          intro b hb
          obtain ⟨key,hkey,rfl⟩ := List.mem_map.mp hb
          exact (hfresh key hkey).tight.accepted
        exact ⟨htight,by rw [readPackages_text hfresh]; rfl⟩
  cases item with
  | packages p =>
    refine haccepted p.toJson p.pairs rfl rfl ?_ h
    rw [PackageText.toJson_eq]
    exact acceptedKeys_text h
  | payload data =>
    cases data with
    | none => exact ⟨by simp [step,filterPhpPackages,Item.data,Item.keys],none,rfl,rfl,by simp⟩
    | some data =>
      obtain ⟨hplain,hfront⟩ := h data rfl
      cases hkeys : acceptedKeys data with
      | some keys =>
        have hitem : (Item.payload (some data) : Item mkhash).keys = keys := by
          simp [Item.keys,hkeys]
        exact haccepted data keys rfl hitem hkeys (hplain keys hkeys)
      | none =>
        have hitem : (Item.payload (some data) : Item mkhash).keys = [] := by
          simp [Item.keys,hkeys]
        unfold step
        rw [Item.data,filterPhpPackages_rejected hkeys (hfront hkeys)]
        exact ⟨by simp [hitem],none,rfl,by rw [hitem]; rfl,by simp⟩

lemma Harmless.concat (h : Harmless (items ++ [item])) : Harmless items ∧ item.Harmless (run items).1 := by
  constructor
  · rintro before i after rfl
    exact h before i (after ++ [item]) (by simp)
  · exact h items item [] rfl

end PhpPackages
end PhpAgent

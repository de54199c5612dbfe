import PhpAgent.Lib.Forest
import PhpAgent.Lib.Interning
import PhpAgent.Util.Json

/-! Profiles of transaction traces, after `profile.go` of package `pprof`. Times are unbounded. -/
namespace PhpAgent.Pprof
open PhpAgent Interning

inductive ProfileType
  | cpu
  | wall
deriving DecidableEq

def ProfileType.text : ProfileType → Bytes
  | cpu => ascii "cpu"
  | wall => ascii "wall"

/-- `Segment` without its children; a tree of segments is a forest with one root. -/
structure Segment where
  name : Bytes
  startMs : ℤ
  stopMs : ℤ
  durationMs : ℚ
  filepath : Bytes
  lineno : ℤ
deriving DecidableEq

structure Trace where
  name : Bytes
  startTime : ℤ
  root : Option (Segment × Forest Segment)

def Trace.tree (t : Trace) : Forest Segment :=
  match t.root with
  | none => .nil
  | some (root,children) => .node root children .nil

structure Function where
  id : ℕ
  name : Bytes
  systemName : Bytes
  filename : Bytes
deriving DecidableEq, Inhabited

/-- `Location` with its one line. -/
structure Location where
  id : ℕ
  function : Function
  line : ℤ
deriving DecidableEq, Inhabited

structure Sample where
  locations : List Location
  value : ℤ
  /-- The label `source.event.name`. -/
  sourceEventName : Bytes
  /-- The label `source.event.time`, in milliseconds. -/
  sourceEventTime : ℤ
  /-- The label `source.event.period`. -/
  sourceEventPeriod : Option Bytes
deriving DecidableEq

structure Profile where
  timeNanos : ℤ
  durationNanos : ℤ
  sampleType : ProfileType
  period : ℤ
  samples : List Sample
  functions : List Function
  locations : List Location

/-! ### Building -/

/-- The name of the file, or the one that stands for none. -/
def Segment.filename (seg : Segment) : Bytes := if seg.filepath = [] then ascii "php" else seg.filepath

/-- What decides which segments share an entry. -/
def Segment.key (seg : Segment) : Bytes :=
  seg.name ++ 0 :: seg.filename ++ 0 :: intToStr seg.lineno

def Segment.toFunction (seg : Segment) (id : ℕ) : Function := ⟨id,seg.name,seg.name,seg.filename⟩

def Segment.toLocation (seg : Segment) (id : ℕ) : Location := ⟨id,seg.toFunction id,seg.lineno⟩

/-- The tables of functions and locations, which grow together, and the samples so far. -/
structure State where
  table : Table Bytes Location
  samples : List Sample

/-- `ensureEntry`; there is no result when an index is out of range. -/
def ensureEntry (table : Table Bytes Location) (seg : Segment) :
    Option (Location × Table Bytes Location) :=
  table.intern seg.key seg.toLocation

/-- The loop over a path, in the order of its entries. -/
def ensureEntries (table : Table Bytes Location) :
    List Segment → Option (List Location × Table Bytes Location)
  | [] => some ([],table)
  | seg :: path => do
    let (loc,table) ← ensureEntry table seg
    let (locs,table) ← ensureEntries table path
    return (loc :: locs,table)

section Build
variable (toNanos : ℚ → ℤ) (t : Trace) (profileType : ProfileType) (period : ℤ)

/-- `addSample`, for a path from the leaf; the loop goes through the path from its end. `toNanos`
makes nanoseconds of milliseconds. -/
def addSample (s : State) (path : List Segment) : Option State := do
  let (locs,table) ← ensureEntries s.table path.reverse
  let leaf ← path.head?
  return {
    table := table
    samples := s.samples ++ [{
      locations := locs
      value := toNanos leaf.durationMs
      sourceEventName := t.name
      sourceEventTime := (t.startTime+leaf.stopMs*1000000)/1000000
      sourceEventPeriod := if profileType = .cpu then some (intToStr period) else none }] }

/-- `walkPaths` over trees one after the other: the paths it passes on, from the leaf. `front` leads
from the root. -/
def walkPaths (front : List Segment) : Forest Segment → List (List Segment)
  | .nil => []
  | .node seg children rest =>
    let path := front ++ [seg]
    (if children.isNil then [path.reverse] else walkPaths path children) ++ walkPaths front rest

/-- `rootDurationNanos`. -/
def rootDurationNanos : ℤ := t.root.elim 0 fun root => toNanos root.1.durationMs

/-- `BuildProfile`. -/
def buildProfile : Option Profile := do
  let s ← (walkPaths [] t.tree).foldlM (addSample toNanos t profileType period) ⟨.empty,[]⟩
  return {
    timeNanos := t.startTime
    durationNanos := rootDurationNanos toNanos t
    sampleType := profileType
    period := period
    samples := s.samples
    functions := s.table.entries.map Location.function
    locations := s.table.entries }

end Build

/-! ### The profile of a tree -/

/-- The location shows the name, the file and the line of the segment. -/
structure Location.Shows (loc : Location) (seg : Segment) : Prop where
  name : loc.function.name = seg.name
  systemName : loc.function.systemName = seg.name
  filename : loc.function.filename = seg.filename
  line : loc.line = seg.lineno

/-- The name, the file and the line. -/
def Segment.source (seg : Segment) : Bytes × Bytes × ℤ := (seg.name,seg.filepath,seg.lineno)

/-- There is one sample for each path, with the locations of its segments from the leaf to the root,
and segments share a location when they have the same name, file and line. -/
def Profile.Represents (p : Profile) (tree : Forest Segment) : Prop :=
  ∃ locate : Segment → Location,
    p.samples.map Sample.locations = tree.leafPaths.map (List.map locate) ∧
    (∀ seg ∈ tree.toList, locate seg ∈ p.locations ∧ (locate seg).Shows seg) ∧
    ∀ seg ∈ tree.toList, ∀ seg' ∈ tree.toList,
      locate seg = locate seg' ↔ seg.source = seg'.source

/-- The identifiers are 1 to n. -/
def Profile.Numbered (p : Profile) : Prop :=
  p.functions.map Function.id = List.range' 1 p.functions.length ∧
  p.locations.map Location.id = List.range' 1 p.locations.length

lemma shows_toLocation (seg : Segment) (id : ℕ) : (seg.toLocation id).Shows seg :=
  ⟨rfl,rfl,rfl,rfl⟩

/-- The key of the segments a location shows. -/
def Location.key (loc : Location) : Bytes :=
  loc.function.name ++ 0 :: loc.function.filename ++ 0 :: intToStr loc.line

variable {loc : Location}

lemma Location.Shows.key_eq {seg : Segment} (h : loc.Shows seg) : loc.key = seg.key := by
  unfold Location.key Segment.key
  rw [h.name,h.filename,h.line]

lemma Location.Shows.congr {seg seg' : Segment} (h : loc.Shows seg)
    (heq : seg.source = seg'.source) : loc.Shows seg' := by
  obtain ⟨hname,hfile,hline⟩ : seg.name = seg'.name ∧ seg.filepath = seg'.filepath ∧
      seg.lineno = seg'.lineno := by simpa [Segment.source] using heq
  have hfilename : seg.filename = seg'.filename := by rw [Segment.filename,Segment.filename,hfile]
  exact ⟨h.name.trans hname,h.systemName.trans hname,h.filename.trans hfilename,h.line.trans hline⟩

lemma key_eq_of_source_eq {seg seg' : Segment} (h : seg.source = seg'.source) :
    seg.key = seg'.key :=
  (shows_toLocation seg 0).key_eq.symm.trans ((shows_toLocation seg 0).congr h).key_eq

/-- A location is made for a segment of those that are known. -/
def Made (known : Segment → Prop) (k : Bytes) (id : ℕ) (loc : Location) : Prop :=
  ∃ seg : Segment, known seg ∧ seg.key = k ∧ loc = seg.toLocation id

variable {known : Segment → Prop}

lemma Made.id_eq {k : Bytes} {id : ℕ} (h : Made known k id loc) : loc.id = id ∧ loc.function.id = id := by
  obtain ⟨seg,_,_,rfl⟩ := h
  exact ⟨rfl,rfl⟩

/-- The location of a segment. -/
def locateIn (table : Table Bytes Location) (seg : Segment) : Location :=
  (table.find seg.key).getD default

/-- The segment has a location. -/
def Located (table : Table Bytes Location) (seg : Segment) : Prop :=
  table.find seg.key = some (locateIn table seg)

variable {table table' : Table Bytes Location} {seg seg' : Segment}

lemma located_of_find (h : table.find seg.key = some loc) : Located table seg ∧ locateIn table seg = loc := by
  unfold Located locateIn
  rw [h]
  exact ⟨rfl,rfl⟩

lemma Located.extends (h : Located table seg) (hext : table.Extends table') :
    Located table' seg ∧ locateIn table' seg = locateIn table seg :=
  located_of_find (hext _ _ h)

lemma locateIn_of_key_eq (h : seg.key = seg'.key) : locateIn table seg = locateIn table seg' := by
  unfold locateIn
  rw [h]

/-- The location of a segment shows a segment with the same key. -/
theorem Located.shows (h : Located table seg) (hsound : table.Sound (Made known)) :
    ∃ seg' : Segment, known seg' ∧ seg'.key = seg.key ∧ (locateIn table seg).Shows seg' := by
  obtain ⟨id,seg',hknown,hkey,heq⟩ := hsound.made_of_find h
  exact ⟨seg',hknown,hkey,heq ▸ shows_toLocation seg' id⟩

lemma Located.key_eq (h : Located table seg) (hsound : table.Sound (Made known)) :
    (locateIn table seg).key = seg.key := by
  obtain ⟨seg',_,hkey,hshows⟩ := h.shows hsound
  exact hshows.key_eq.trans hkey

lemma ensureEntry_spec (hsound : table.Sound (Made known)) (hseg : known seg) :
    ∃ table', ensureEntry table seg = some (locateIn table' seg,table') ∧ table'.Sound (Made known) ∧
      table.Extends table' ∧ Located table' seg := by
  obtain ⟨loc,table',hintern,hsound',hext,hfind⟩ :=
    hsound.intern (k := seg.key) seg.toLocation fun id => ⟨seg,hseg,rfl,rfl⟩
  obtain ⟨hlocated,rfl⟩ := located_of_find hfind
  exact ⟨table',hintern,hsound',hext,hlocated⟩

lemma ensureEntries_spec {path : List Segment} (hsound : table.Sound (Made known))
    (hpath : ∀ seg ∈ path, known seg) :
    ∃ table', ensureEntries table path = some (path.map (locateIn table'),table') ∧
      table'.Sound (Made known) ∧ table.Extends table' ∧ ∀ seg ∈ path, Located table' seg := by
  induction path generalizing table with
  | nil => exact ⟨table,rfl,hsound,Table.Extends.refl table,fun _ h => by cases h⟩
  | cons seg path ih =>
    obtain ⟨hseg,hrest⟩ := List.forall_mem_cons.mp hpath
    obtain ⟨table₁,hentry,hsound₁,hext₁,hloc₁⟩ := ensureEntry_spec hsound hseg
    obtain ⟨table₂,hentries,hsound₂,hext₂,hloc₂⟩ := ih hsound₁ hrest
    obtain ⟨hloc,heq⟩ := hloc₁.extends hext₂
    refine ⟨table₂,?_,hsound₂,hext₁.trans hext₂,List.forall_mem_cons.mpr ⟨hloc,hloc₂⟩⟩
    rw [ensureEntries,hentry,List.map_cons,heq]
    simp [hentries]

section Samples
variable (toNanos : ℚ → ℤ) (t : Trace) (profileType : ProfileType) (period : ℤ)

/-- The samples of the paths so far, whose locations stand in the wrong order. -/
structure Filled (known : Segment → Prop) (done : List (List Segment)) (s : State) : Prop where
  sound : s.table.Sound (Made known)
  located : ∀ path ∈ done, ∀ seg ∈ path, Located s.table seg
  locations : s.samples.map Sample.locations =
    done.map fun path => path.reverse.map (locateIn s.table)

lemma Filled.addSample {done : List (List Segment)} {s : State} (h : Filled known done s)
    {path : List Segment} (hpath : path ≠ []) (hknown : ∀ seg ∈ path, known seg) :
    ∃ s', addSample toNanos t profileType period s path = some s' ∧
      Filled known (done ++ [path]) s' := by
  obtain ⟨table',hentries,hsound,hext,hloc⟩ := ensureEntries_spec h.sound
    fun seg hseg => hknown seg (List.mem_reverse.mp hseg)
  obtain ⟨leaf,rest,rfl⟩ := List.exists_cons_of_ne_nil hpath
  refine ⟨_,by simp only [Pprof.addSample,hentries]; rfl,hsound,?_,?_⟩
  · intro p hp seg hseg
    rcases List.mem_append.mp hp with hp | hp
    · exact ((h.located p hp seg hseg).extends hext).1
    · rw [List.mem_singleton.mp hp] at hseg
      exact hloc seg (List.mem_reverse.mpr hseg)
  · have hkept : ∀ p ∈ done,
        p.reverse.map (locateIn s.table) = p.reverse.map (locateIn table') := fun p hp =>
      List.map_congr_left fun seg hseg =>
        ((h.located p hp seg (List.mem_reverse.mp hseg)).extends hext).2.symm
    rw [List.map_append,h.locations,List.map_append,List.map_congr_left hkept]
    rfl

lemma Filled.foldlM {done : List (List Segment)} {s : State} (h : Filled known done s)
    {paths : List (List Segment)} (hpaths : ∀ path ∈ paths, path ≠ [] ∧ ∀ seg ∈ path, known seg) :
    ∃ s', paths.foldlM (Pprof.addSample toNanos t profileType period) s = some s' ∧
      Filled known (done ++ paths) s' := by
  induction paths generalizing done s with
  | nil => exact ⟨s,rfl,by rwa [List.append_nil]⟩
  | cons path paths ih =>
    obtain ⟨hne,hknown⟩ := hpaths path List.mem_cons_self
    obtain ⟨s₁,hadd,h₁⟩ := h.addSample toNanos t profileType period hne hknown
    obtain ⟨s₂,hfold,h₂⟩ := ih h₁ fun p hp => hpaths p (List.mem_cons_of_mem _ hp)
    refine ⟨s₂,?_,by rwa [List.append_assoc] at h₂⟩
    rw [List.foldlM_cons,hadd]
    exact hfold

lemma walkPaths_eq (front : List Segment) (f : Forest Segment) :
    walkPaths front f = f.leafPaths.map fun path => path ++ front.reverse := by
  induction f generalizing front with
  | nil => rfl
  | node seg children rest ihc ihr =>
    rw [walkPaths,Forest.leafPaths,ihr,List.map_append]
    congr 1
    split_ifs
    · simp
    · rw [ihc,List.map_map]
      simp [Function.comp_def]

/-- There is a profile, with the locations of each path from the root to the leaf. -/
theorem buildProfile_spec :
    ∃ p table, buildProfile toNanos t profileType period = some p ∧ p.locations = table.entries ∧
      p.functions = table.entries.map Location.function ∧
      table.Sound (Made fun seg => seg ∈ t.tree.toList) ∧
      (∀ seg ∈ t.tree.toList, Located table seg) ∧
      p.samples.map Sample.locations =
        t.tree.leafPaths.map fun path => path.reverse.map (locateIn table) := by
  have hstart : Filled (fun seg => seg ∈ t.tree.toList) [] (⟨.empty,[]⟩ : State) :=
    ⟨Table.sound_empty,(fun _ h => by cases h),rfl⟩
  have hknown : ∀ path ∈ t.tree.leafPaths, path ≠ [] ∧ ∀ seg ∈ path, seg ∈ t.tree.toList :=
    fun path hpath => ⟨Forest.ne_nil_of_mem_leafPaths hpath,fun seg hseg =>
      Forest.mem_toList_iff_leafPaths.mpr ⟨path,hpath,hseg⟩⟩
  obtain ⟨s,hfold,hfilled⟩ := hstart.foldlM toNanos t profileType period hknown
  have hpaths : walkPaths [] t.tree = t.tree.leafPaths := by simp [walkPaths_eq]
  refine ⟨_,s.table,by simp only [buildProfile,hpaths,hfold]; rfl,rfl,rfl,hfilled.sound,?_,
    hfilled.locations⟩
  intro seg hseg
  obtain ⟨path,hpath,hmem⟩ := Forest.mem_toList_iff_leafPaths.mp hseg
  exact hfilled.located path hpath seg hmem

end Samples

lemma map_id_of_made {β : Type} {made : Bytes → ℕ → β → Prop} {table : Table Bytes β}
    (hsound : table.Sound made) {f : β → ℕ} (hf : ∀ k id b, made k id b → f b = id) :
    table.entries.map f = List.range' 1 table.entries.length := by
  refine List.ext_getElem (by simp) fun i hi _ => ?_
  have hi : i < table.entries.length := by simpa using hi
  obtain ⟨k,hmade⟩ := hsound.getElem_made hi
  rw [List.getElem_map,List.getElem_range',hf k _ _ hmade]
  omega

/-- What the keys have to do for a tree to be represented: they read the same from both ends of each
path, and tell segments apart. -/
def Symmetric (tree : Forest Segment) : Prop :=
  (∀ path ∈ tree.leafPaths, path.reverse.map Segment.key = path.map Segment.key) ∧
  ∀ seg ∈ tree.toList, ∀ seg' ∈ tree.toList, seg.key = seg'.key → seg.source = seg'.source

variable {tree : Forest Segment} {p : Profile}

lemma reverse_map_locateIn {path : List Segment}
    (h : path.reverse.map Segment.key = path.map Segment.key) :
    path.reverse.map (locateIn table) = path.map (locateIn table) := by
  have hfactor : locateIn table = (fun k => (table.find k).getD default) ∘ Segment.key := rfl
  rw [hfactor,← List.map_map,h,List.map_map]

lemma represents_of_symmetric (hlocations : p.locations = table.entries)
    (hsound : table.Sound (Made fun seg => seg ∈ tree.toList))
    (hlocated : ∀ seg ∈ tree.toList, Located table seg)
    (hsamples : p.samples.map Sample.locations =
      tree.leafPaths.map fun path => path.reverse.map (locateIn table))
    (h : Symmetric tree) : p.Represents tree := by
  obtain ⟨hpath,hkey⟩ := h
  refine ⟨locateIn table,?_,fun seg hseg => ⟨?_,?_⟩,fun seg hseg seg' hseg' => ⟨?_,?_⟩⟩
  · exact hsamples.trans (List.map_congr_left fun path hp => reverse_map_locateIn (hpath path hp))
  · exact hlocations ▸ Table.mem_entries_of_find (hlocated seg hseg)
  · obtain ⟨seg',hseg',heq,hshows⟩ := (hlocated seg hseg).shows hsound
    exact hshows.congr (hkey seg' hseg' seg hseg heq)
  · intro heq
    refine hkey seg hseg seg' hseg' ?_
    rw [← (hlocated seg hseg).key_eq hsound,heq,(hlocated seg' hseg').key_eq hsound]
  · exact fun heq => locateIn_of_key_eq (key_eq_of_source_eq heq)

lemma symmetric_of_represents (hsound : table.Sound (Made fun seg => seg ∈ tree.toList))
    (hlocated : ∀ seg ∈ tree.toList, Located table seg)
    (hsamples : p.samples.map Sample.locations =
      tree.leafPaths.map fun path => path.reverse.map (locateIn table))
    (h : p.Represents tree) : Symmetric tree := by
  obtain ⟨locate,hlocate,hshows,hshare⟩ := h
  have hmem : ∀ path ∈ tree.leafPaths, ∀ seg ∈ path, seg ∈ tree.toList := fun path hp seg hseg =>
    Forest.mem_toList_iff_leafPaths.mpr ⟨path,hp,hseg⟩
  have hpaths : ∀ path ∈ tree.leafPaths,
      path.map locate = path.reverse.map (locateIn table) :=
    List.map_inj_left.mp (hlocate.symm.trans hsamples)
  have hsymm : ∀ path ∈ tree.leafPaths, path.reverse.map Segment.key = path.map Segment.key := by
    intro path hp
    calc path.reverse.map Segment.key
        = path.reverse.map (Location.key ∘ locateIn table) := List.map_congr_left fun seg hseg =>
          ((hlocated seg (hmem path hp seg (List.mem_reverse.mp hseg))).key_eq hsound).symm
      _ = (path.map locate).map Location.key := by rw [hpaths path hp,List.map_map]
      _ = path.map Segment.key := by
          rw [List.map_map]
          exact List.map_congr_left fun seg hseg => (hshows seg (hmem path hp seg hseg)).2.key_eq
  -- so the segments have the locations the tables give them
  have hsame : ∀ seg ∈ tree.toList, locate seg = locateIn table seg := by
    intro seg hseg
    obtain ⟨path,hp,hin⟩ := Forest.mem_toList_iff_leafPaths.mp hseg
    exact List.map_inj_left.mp ((hpaths path hp).trans (reverse_map_locateIn (hsymm path hp))) seg hin
  refine ⟨hsymm,fun seg hseg seg' hseg' heq => (hshare seg hseg seg' hseg').mp ?_⟩
  rw [hsame seg hseg,hsame seg' hseg',locateIn_of_key_eq heq]

/-- A profile always has one sample for each path and identifiers without gaps; it represents the
tree exactly when the order of a path makes no difference and keys are not shared. -/
theorem buildProfile_represents_iff (toNanos : ℚ → ℤ) (t : Trace) (profileType : ProfileType)
    (period : ℤ) :
    ∃ p, buildProfile toNanos t profileType period = some p ∧
      p.samples.length = t.tree.leafPaths.length ∧ p.Numbered ∧
      (p.Represents t.tree ↔ Symmetric t.tree) := by
  obtain ⟨p,table,hbuild,hlocations,hfunctions,hsound,hlocated,hsamples⟩ :=
    buildProfile_spec toNanos t profileType period
  refine ⟨p,hbuild,by simpa using congrArg List.length hsamples,⟨?_,?_⟩,
    symmetric_of_represents hsound hlocated hsamples,
    represents_of_symmetric hlocations hsound hlocated hsamples⟩
  · rw [hfunctions,List.map_map,List.length_map]
    exact map_id_of_made hsound fun _ _ _ hmade => hmade.id_eq.2
  · rw [hlocations]
    exact map_id_of_made hsound fun _ _ _ hmade => hmade.id_eq.1

/-- A script that does one thing. -/
def oneCall : Trace where
  name := ascii "WebTransaction/Function/index"
  startTime := 0
  root := some (⟨ascii "WebTransaction/Function/index",0,20,20,[],0⟩,
    .node ⟨ascii "doWork",5,15,10,ascii "/index.php",3⟩ .nil .nil)

/-- The root stands before what it calls. -/
theorem oneCall_rootFirst :
    ((buildProfile (fun ms => (ms*1000000).floor) oneCall .wall 0).map fun p =>
      p.samples.map fun s => s.locations.map fun loc => loc.function.name) =
        some [[ascii "WebTransaction/Function/index",ascii "doWork"]] ∧
      oneCall.tree.leafPaths.map (List.map Segment.name) =
        [[ascii "doWork",ascii "WebTransaction/Function/index"]] := by
  decide

end PhpAgent.Pprof

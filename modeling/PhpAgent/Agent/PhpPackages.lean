import PhpAgent.Util.Hashmap
import PhpAgent.Util.JsonRoundTrip

/-! The PHP packages of a transaction, after `nr_php_packages.c`. -/
namespace PhpAgent

open Json (code)

/-- `nr_php_package_source_priority_t`. -/
inductive NrPhpPackageSourcePriority
  | suggestion
  | legacy
  | composer
deriving DecidableEq

def NrPhpPackageSourcePriority.toNat : NrPhpPackageSourcePriority → ℕ
  | suggestion => 0
  | legacy => 1
  | composer => 2

/-- `nr_php_package_t`. -/
structure NrPhpPackage where
  packageName : Bytes
  packageVersion : Bytes
  sourcePriority : NrPhpPackageSourcePriority
deriving DecidableEq

namespace NrPhpPackage

/-- `PHP_PACKAGE_VERSION_UNKNOWN`. -/
def versionUnknown : Bytes := ascii " "

/-- `nr_php_package_create_with_source`. -/
def createWithSource (name version : Option Bytes) (sourcePriority : NrPhpPackageSourcePriority) :
    Option NrPhpPackage :=
  name.map fun name => ⟨name,version.getD versionUnknown,sourcePriority⟩

/-- `nr_php_package_create`. -/
def create (name version : Option Bytes) : Option NrPhpPackage :=
  createWithSource name version .legacy

/-- `nr_php_package_to_json`. -/
def toJson (package : NrPhpPackage) : Bytes :=
  ascii "[\"" ++ package.packageName ++ ascii "\",\"" ++ package.packageVersion ++
    ascii "\",\x7b\x7d]"

end NrPhpPackage

/-- `nr_php_packages_t`. -/
structure NrPhpPackages (mkhash : Bytes → UInt32) where
  data : NrHashmap mkhash NrPhpPackage
  named : ∀ e ∈ data.entries, e.2.packageName = e.1

namespace NrPhpPackages

variable {mkhash : Bytes → UInt32}

/-- `nr_php_packages_create`. -/
def create (mkhash : Bytes → UInt32) : NrPhpPackages mkhash where
  data := .create mkhash NrPhpPackage
  named e he := by
    rw [NrHashmap.entries_create] at he
    exact absurd he List.not_mem_nil

/-- Another version of the package under a key. -/
def setVersion (h : NrPhpPackages mkhash) (key version : Bytes) : NrPhpPackages mkhash where
  data := h.data.modify key fun package => { package with packageVersion := version }
  named e he := by
    obtain ⟨e',he',rfl⟩ := NrHashmap.mem_entries_modify.mp he
    have hname := h.named e' he'
    split_ifs
    · exact hname
    · exact hname

/-- A new package. -/
def addNew (h : NrPhpPackages mkhash) (p : NrPhpPackage) (hnew : h.data.fetch p.packageName = none) :
    NrPhpPackages mkhash where
  data := h.data.addInternal p.packageName p hnew
  named e he := by
    obtain rfl | hold := (NrHashmap.mem_entries_addInternal hnew).mp he
    · rfl
    · exact h.named e hold

/-- `nr_php_packages_add_package`. A package without a name is not kept by the map. -/
def addPackage (h : NrPhpPackages mkhash) : Option NrPhpPackage → NrPhpPackages mkhash
  | none => h
  | some p =>
    match h.data.get p.packageName with
    | some package =>
      if package.sourcePriority.toNat ≤ p.sourcePriority.toNat ∧
          package.packageVersion ≠ p.packageVersion then
        h.setVersion p.packageName p.packageVersion
      else h
    | none =>
      if p.packageName = [] then h
      else if hnew : h.data.fetch p.packageName = none then h.addNew p hnew
      else h

/-- `apply_package_to_json_conversion`: the buffer and whether a package was added. -/
def applyPackageToJsonConversion (builder : Bytes × Bool) (e : Bytes × NrPhpPackage) : Bytes × Bool :=
  (builder.1 ++ (if builder.2 then ascii "," else []) ++ e.2.toJson,true)

/-- `nr_php_packages_to_json`. -/
def toJson (h : NrPhpPackages mkhash) : Bytes :=
  (h.data.entries.foldl applyPackageToJsonConversion (ascii "[",false)).1 ++ ascii "]"

/-- The names and versions of the packages, in the order of the map. -/
def pairs (h : NrPhpPackages mkhash) : List (Bytes × Bytes) :=
  h.data.entries.map fun e => (e.2.packageName,e.2.packageVersion)

end NrPhpPackages

/-! ### The text of packages -/

namespace PackageText

open Json (arrayText quoted)

/-- The text of a name and a version. -/
def entryText (key : Bytes × Bytes) : Bytes := arrayText [quoted key.1,quoted key.2,[0x7b,0x7d]]

/-- The text of some packages. -/
def text (keys : List (Bytes × Bytes)) : Bytes := arrayText (keys.map entryText)

lemma entryText_eq (key : Bytes × Bytes) : entryText key =
    ascii "[\"" ++ key.1 ++ ascii "\",\"" ++ key.2 ++ ascii "\",\x7b\x7d]" := by
  have hopen : ascii "[\"" = [code '[',code '"'] := by decide
  have hbetween : ascii "\",\"" = [code '"',code ',',code '"'] := by decide
  have hclose : ascii "\",\x7b\x7d]" = [code '"',code ',',0x7b,0x7d,code ']'] := by decide
  rw [hopen,hbetween,hclose]
  simp [entryText,arrayText,quoted,List.intercalate]

/-- What the entries after the first one add. -/
theorem foldl_conversion (es : List (Bytes × NrPhpPackage)) (buf : Bytes) :
    (es.foldl NrPhpPackages.applyPackageToJsonConversion (buf,true)).1 =
      buf ++ es.flatMap fun e => code ',' :: e.2.toJson := by
  induction es generalizing buf with
  | nil => simp
  | cons e es ih =>
    have hcomma : ascii "," = [code ','] := by decide
    rw [List.foldl_cons,NrPhpPackages.applyPackageToJsonConversion,ih,hcomma]
    simp

lemma intercalate_cons (b : Bytes) (bs : List Bytes) :
    [code ','].intercalate (b :: bs) = b ++ bs.flatMap (code ',' :: ·) := by
  induction bs generalizing b with
  | nil => simp
  | cons c bs ih =>
    rw [List.intercalate_cons_cons,ih,List.flatMap_cons]
    simp

/-- The text of a set of packages. -/
theorem toJson_eq {mkhash : Bytes → UInt32} (h : NrPhpPackages mkhash) : h.toJson = text h.pairs := by
  have hopen : ascii "[" = [code '['] := by decide
  have hclose : ascii "]" = [code ']'] := by decide
  have hentry : ∀ e : Bytes × NrPhpPackage,
      entryText (e.2.packageName,e.2.packageVersion) = e.2.toJson := fun e => entryText_eq _
  unfold NrPhpPackages.toJson text NrPhpPackages.pairs arrayText
  rw [hopen,hclose,List.map_map]
  cases hes : h.data.entries with
  | nil => rfl
  | cons e es =>
    rw [List.foldl_cons,NrPhpPackages.applyPackageToJsonConversion,if_neg Bool.false_ne_true,
      foldl_conversion,List.map_cons,intercalate_cons,List.flatMap_map]
    simp [hentry]

end PackageText
end PhpAgent

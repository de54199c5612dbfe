import PhpAgent.Util.Object

/-! The configuration of attribute destinations, after `nr_attributes.c`. Destinations are bit sets, and
the hash function is a parameter. -/
namespace PhpAgent

abbrev Destinations : Type := BitVec 32

/-- `NR_ATTRIBUTE_DESTINATION_LOG`. -/
def logDestination : Destinations := 32

/-- The byte `*`. -/
def asterisk : UInt8 := 0x2a

/-- `strcmp`: which string comes first, by unsigned bytes. -/
def strcmp : Bytes → Bytes → Ordering
  | [], [] => .eq
  | [], _ :: _ => .lt
  | _ :: _, [] => .gt
  | a :: as, b :: bs => if a < b then .lt else if b < a then .gt else strcmp as bs

lemma strcmp_spec (a b : Bytes) :
    match strcmp a b with
    | .lt => a.map UInt8.toNat < b.map UInt8.toNat
    | .eq => a = b
    | .gt => b.map UInt8.toNat < a.map UInt8.toNat := by
  induction a generalizing b with
  | nil =>
    cases b with
    | nil => rfl
    | cons b bs => exact List.nil_lt_cons _ _
  | cons a as ih =>
    cases b with
    | nil => exact List.nil_lt_cons _ _
    | cons b bs =>
      unfold strcmp
      by_cases hlt : a < b
      · rw [if_pos hlt]
        exact List.cons_lt_cons_iff.mpr (.inl (UInt8.lt_iff_toNat_lt.mp hlt))
      · by_cases hgt : b < a
        · rw [if_neg hlt,if_pos hgt]
          exact List.cons_lt_cons_iff.mpr (.inl (UInt8.lt_iff_toNat_lt.mp hgt))
        · have heq : a = b := UInt8.le_antisymm (UInt8.not_lt.mp hgt) (UInt8.not_lt.mp hlt)
          subst heq
          have hrest := ih bs
          rw [if_neg hlt,if_neg hgt]
          cases hcmp : strcmp as bs with
          | lt =>
            rw [hcmp] at hrest
            exact List.cons_lt_cons_iff.mpr (.inr ⟨rfl,hrest⟩)
          | eq =>
            rw [hcmp] at hrest
            exact congrArg (List.cons a) hrest
          | gt =>
            rw [hcmp] at hrest
            exact List.cons_lt_cons_iff.mpr (.inr ⟨rfl,hrest⟩)

lemma strcmp_eq_iff {a b : Bytes} : strcmp a b = .eq ↔ a = b := by
  constructor
  · intro h
    have hspec := strcmp_spec a b
    rwa [h] at hspec
  · rintro rfl
    have hspec := strcmp_spec a a
    cases hcmp : strcmp a a with
    | eq => rfl
    | lt | gt =>
      rw [hcmp] at hspec
      exact absurd hspec (lt_irrefl _)

/-- `nr_attribute_destination_modifier_t`. The text is without the `*` of a wildcard. -/
structure NrAttributeDestinationModifier where
  hasWildcardSuffix : Bool
  isFinalizeRule : Bool
  text : Bytes
  textHash : UInt32
  includeDestinations : Destinations
  excludeDestinations : Destinations
deriving DecidableEq

namespace NrAttributeDestinationModifier

/-- `nr_attribute_destination_modifier_match`. -/
def isMatch (m : NrAttributeDestinationModifier) (key : Bytes) (keyHash : UInt32) : Bool :=
  if m.hasWildcardSuffix then m.text.isPrefixOf key
  else m.textHash = keyHash ∧ strcmp m.text key = .eq

/-- `nr_attribute_destination_modifier_apply`. -/
def apply (m : NrAttributeDestinationModifier) (key : Bytes) (keyHash : UInt32)
    (destinations : Destinations) : Destinations :=
  if m.isMatch key keyHash then
    (destinations ||| m.includeDestinations) &&& ~~~m.excludeDestinations
  else destinations

/-- `nr_attribute_destination_modifier_create_internal`. The text of a rule is not empty. -/
def createInternal (hash : Bytes → UInt32) (text : Bytes)
    (includeDestinations excludeDestinations : Destinations) (isFinalizeRule : Bool) :
    NrAttributeDestinationModifier :=
  let hasWildcardSuffix : Bool := text.getLast? = some asterisk
  let text := if hasWildcardSuffix then text.dropLast else text
  { hasWildcardSuffix := hasWildcardSuffix
    isFinalizeRule := isFinalizeRule
    text := text
    textHash := hash text
    includeDestinations := includeDestinations
    excludeDestinations := excludeDestinations }

/-- `nr_attribute_destination_modifier_compare`. -/
def compare (mod1 mod2 : NrAttributeDestinationModifier) : ℤ :=
  match strcmp mod1.text mod2.text with
  | .lt => -1
  | .eq =>
    if mod1.hasWildcardSuffix = mod2.hasWildcardSuffix then 0
    else if mod1.hasWildcardSuffix then -1
    else 1
  | .gt => 1

end NrAttributeDestinationModifier

/-- `nr_attribute_config_t`. -/
structure NrAttributeConfig where
  disabledDestinations : Destinations
  modifierList : List NrAttributeDestinationModifier

namespace NrAttributeConfig

open NrAttributeDestinationModifier (createInternal)

/-- `nr_attribute_config_create`. -/
def create : NrAttributeConfig := ⟨0,[]⟩

/-- The loop of `nr_attribute_config_modify_destinations_internal`: merge with an equal rule of the
same kind, or go in front of the first greater one. -/
def insertModifier (newEntry : NrAttributeDestinationModifier) :
    List NrAttributeDestinationModifier → List NrAttributeDestinationModifier
  | [] => [newEntry]
  | entry :: rest =>
    if newEntry.compare entry < 0 then newEntry :: entry :: rest
    else if newEntry.compare entry = 0 ∧ newEntry.isFinalizeRule = entry.isFinalizeRule then
      { entry with
        includeDestinations := entry.includeDestinations ||| newEntry.includeDestinations
        excludeDestinations := entry.excludeDestinations ||| newEntry.excludeDestinations } :: rest
    else entry :: insertModifier newEntry rest

/-- The search of `nr_attribute_config_finalize_log_destination` for rules that include logs. A rule
that includes everything ends it. -/
def addFinalizeRule : List NrAttributeDestinationModifier → Bool → Bool
  | [], add => add
  | cur :: rest, add =>
    if cur.includeDestinations &&& logDestination ≠ 0 then
      if cur.hasWildcardSuffix ∧ cur.text.length = 0 then false else addFinalizeRule rest true
    else addFinalizeRule rest add

section Hash
variable (hash : Bytes → UInt32)

/-- `nr_attribute_config_finalize_log_destination`. -/
def finalizeLogDestination (config : NrAttributeConfig) : NrAttributeConfig :=
  let modifierList := config.modifierList.filter fun cur =>
    ¬(cur.isFinalizeRule ∧ cur.includeDestinations &&& logDestination ≠ 0)
  if addFinalizeRule modifierList false then
    { config with
      modifierList := insertModifier (createInternal hash [asterisk] 0 logDestination true)
        modifierList }
  else { config with modifierList := modifierList }

/-- `nr_attribute_config_modify_destinations`. -/
def modifyDestinations (config : NrAttributeConfig) (text : Bytes)
    (includeDestinations excludeDestinations : Destinations) : NrAttributeConfig :=
  finalizeLogDestination hash
    { config with
      modifierList := insertModifier
        (createInternal hash text includeDestinations excludeDestinations false)
        config.modifierList }

/-- `nr_attribute_config_apply`. -/
def apply (config : NrAttributeConfig) (key : Bytes) (keyHash : UInt32)
    (destinations : Destinations) : Destinations :=
  (config.modifierList.foldl (fun destinations modifier =>
    modifier.apply key keyHash destinations) destinations) &&& ~~~config.disabledDestinations

end Hash
end NrAttributeConfig
end PhpAgent

import TreeBuild.Compiler.Configuration
import TreeBuild.Proofs.Json.Fields
import TreeBuild.Proofs.Session.Reading
import TreeBuild.Proofs.Text.Encoding
import TreeBuild.Proofs.Tree.Following

/-!
# The derived configuration

Deriving a configuration replaces two of its fields and three of its options, and nothing else. A path
that was relative to the directory of the configuration becomes the absolute path that it denotes from
there, so that the configuration means the same in any other place: deriving it once more, wherever it
lies then, changes nothing.

A path denotes nothing if it cannot be the name of a file or if its links lead back to themselves. Then
the configuration may not be derived at all, and nothing has happened.
-/
namespace TreeBuild

/-! ### The first character of a text -/

namespace Text.Units

/-- Whether a text starts with a character. -/
def StartsWith (units : Units) (c : Char) : Prop := units.head? = some c.toNat.toUInt16

instance (units : Units) (c : Char) : Decidable (units.StartsWith c) :=
  inferInstanceAs (Decidable (units.head? = some c.toNat.toUInt16))

/-- The character that stands for a code point in a name. -/
def nameChar (code : Nat) : Char := Char.ofNat (if isSurrogate code then code + heldOffset else code)

section

variable {c : Char} (low : c.toNat < 0xD800)

include low

/-- A character below the halves of pairs stands for its own code point alone. -/
theorem nameChar_eq_iff {code : Nat} (most : code < 0x110000) : nameChar code = c ↔ code = c.toNat := by
  have toNat : ∀ other, other < 0xD800 ∨ 0xDFFF < other ∧ other < 0x110000 →
      (Char.ofNat other).toNat = other := fun other valid => Utf8.toNat_val_ofNat valid
  constructor
  · rintro rfl
    unfold nameChar at low ⊢
    split at low
    · rename_i half
      simp only [isSurrogate, Bool.and_eq_true, decide_eq_true_eq] at half
      rw [toNat _ (.inr (by unfold heldOffset; omega))] at low
      unfold heldOffset at low
      omega
    · rename_i whole
      simp only [isSurrogate, Bool.and_eq_true, decide_eq_true_eq, not_and, Nat.not_lt] at whole
      rw [if_neg (by simpa [isSurrogate] using whole)]
      exact (toNat code (by omega)).symm
  · rintro rfl
    have whole : ¬ isSurrogate c.toNat := by
      simp only [isSurrogate, Bool.and_eq_true, decide_eq_true_eq]
      omega
    rw [nameChar, if_neg whole, Char.ofNat_toNat]

/-- A unit is such a character if its number is. -/
theorem nameChar_unit_eq_iff {unit : UInt16} : nameChar unit.toNat = c ↔ unit = c.toNat.toUInt16 := by
  have small := unit.toNat_lt
  rw [nameChar_eq_iff low (by omega), ← UInt16.toNat_inj, Nat.toUInt16, UInt16.toNat_ofNat',
    Nat.mod_eq_of_lt (by omega)]

/-- The first character of a name is the first unit of the text that it is made from. -/
theorem head?_toName (units : Units) : units.toName.toList.head? = some c ↔ units.StartsWith c := by
  have letters : units.toName.toList = units.codes.map nameChar := String.toList_ofList
  unfold StartsWith
  rw [letters]
  fun_cases Units.codes units with
  | case1 => simp
  | case2 unit => simpa using nameChar_unit_eq_iff low
  | case3 first second rest pair =>
    -- Two halves spell a code point that is far above the character, and so is the first half itself.
    simp only [Bool.and_eq_true, isHighSurrogate, isLowSurrogate, decide_eq_true_eq, UInt16.le_iff_toNat_le,
      UInt16.lt_iff_toNat_lt] at pair
    have bounds : 0xD800 ≤ first.toNat ∧ first.toNat < 0xDC00 ∧ 0xDC00 ≤ second.toNat ∧
        second.toNat < 0xE000 := by simpa [and_assoc] using pair
    have far : nameChar (0x10000 + (first.toNat - 0xD800) * 0x400 + (second.toNat - 0xDC00)) ≠ c := by
      rw [Ne, nameChar_eq_iff low (by omega)]
      omega
    have half : first ≠ c.toNat.toUInt16 := by
      rintro rfl
      rw [Nat.toUInt16, UInt16.toNat_ofNat', Nat.mod_eq_of_lt (by omega)] at bounds
      omega
    simp [far, half]
  | case4 first second rest single => simpa using nameChar_unit_eq_iff low

end

/-- The text of an absolute path starts with a slash. -/
theorem startsWith_ofName {path : Path} (absolute : path.isAbsolute) :
    (ofName path.toString).StartsWith '/' := by
  have slash : ∃ rest, path.toString.toList = '/' :: rest := by
    rw [Path.toList_toString_of_isAbsolute absolute]
    cases anchor : path.anchor with
    | relative => simp [Path.isAbsolute, anchor] at absolute
    | root => exact ⟨_, rfl⟩
    | doubleRoot => exact ⟨_, rfl⟩
  obtain ⟨rest, letters⟩ := slash
  have unit : unitsOfCode ((heldSurrogate? '/').getD '/'.toNat) = ['/'.toNat.toUInt16] := by decide
  rw [StartsWith, ofName, letters, List.flatMap_cons, unit, List.singleton_append, List.head?_cons]

end Text.Units

/-! ### One relative path -/

/-- What is named from a proper path is a proper path. -/
theorem Path.isProper_div (base : Path) (proper : base.IsProper) (text : String) :
    (base / text).IsProper := by
  have named : (Path.ofString text).IsProper := Path.ofString_proper text
  change (Path.join base (Path.ofString text)).IsProper
  unfold Path.join
  split
  · exact named
  · exact fun part member => (List.mem_append.mp member).elim (proper part) (named part)

namespace Configuration

/-- What becomes of a value that is a relative path or another value. A path becomes an absolute one: the
one that it denotes from the directory, if it denotes one. -/
inductive Reanchored (tree : Tree) (base : Path) (isRelative : Text.Units → Prop) :
    Option Json → Option Json → Prop
  | moved {units : Text.Units} {target : Path} (relative : isRelative units) (resolved : target.IsResolved)
      (denoted : ∀ place, tree.Denotes (base / units.toName) place → target = place) :
      Reanchored tree base isRelative (some (.str units)) (some (.str (.ofName target.toString)))
  | kept {value : Option Json} (other : ∀ units, value = some (.str units) → ¬ isRelative units) :
      Reanchored tree base isRelative value value

/-- A value that is no relative path, or one that denotes an absolute path. -/
def Anchorable (tree : Tree) (base : Path) (isRelative : Text.Units → Prop) (value : Option Json) : Prop :=
  ∀ units, value = some (.str units) → isRelative units → ∃ place, tree.Denotes (base / units.toName) place

variable {tree : Tree} {base : Path} {isRelative : Text.Units → Prop}

/-- What has been anchored is no relative path any more. -/
theorem Reanchored.settled {old new : Option Json} (anchored : Reanchored tree base isRelative old new)
    (absolute : ∀ units : Text.Units, units.StartsWith '/' → ¬ isRelative units) :
    ∀ units, new = some (.str units) → ¬ isRelative units := by
  cases anchored with
  | moved relative resolved denoted =>
    intro units same
    cases same
    exact absolute _ (Text.Units.startsWith_ofName resolved.absolute)
  | kept other => exact other

/-- Writing a relative path as an absolute one resolves it from the base and changes nothing. -/
theorem anchored_apply (base : Path) (units : Text.Units) (session : Session) :
    anchored base units session =
      ((Sources.resolvePath session.tree (base / units.toName)).map fun target =>
        .str (.ofName target.toString), session) := by
  unfold anchored
  rw [bind_apply, Action.ask_apply]
  cases Sources.resolvePath session.tree (base / units.toName) <;> rfl

/-- Replacing a value asks the tree one question at most. -/
theorem replacement?_cases {test : String → Bool} (agrees : ∀ units, test units.toName ↔ isRelative units)
    (proper : base.IsProper) (value : Option Json) (session : Session) :
    (∃ path, replacement? base test value session = (.ok path, session) ∧
      Reanchored session.tree base isRelative value (path.or value)) ∨
    ∃ fault, replacement? base test value session = (.error fault, session) ∧
      ¬ Anchorable session.tree base isRelative value := by
  unfold replacement?
  split
  · rename_i units
    by_cases relative : test units.toName
    · have isRelative := (agrees units).mp relative
      rw [if_pos relative, bind_apply, anchored_apply]
      cases told : Sources.resolvePath session.tree (base / units.toName) with
      | ok target =>
        have resolved := Sources.isResolved_of_resolvePath (base.isProper_div proper _) told
        refine .inl ⟨_, rfl, .moved isRelative resolved fun place denotes => ?_⟩
        exact Except.ok.inj (told.symm.trans (Tree.resolvePath_of_denotes denotes))
      | error fault =>
        refine .inr ⟨fault, rfl, fun anchorable => ?_⟩
        obtain ⟨place, denotes⟩ := anchorable units rfl isRelative
        cases told.symm.trans (Tree.resolvePath_of_denotes denotes)
    · rw [if_neg relative]
      refine .inl ⟨none, rfl, .kept fun other same => ?_⟩
      cases same
      exact fun isRelative => relative ((agrees units).mpr isRelative)
  · rename_i noText
    exact .inl ⟨none, rfl, .kept fun units same => absurd same (noText units)⟩

/-- A value that is no relative path is not replaced. -/
theorem replacement?_of_not {test : String → Bool} (agrees : ∀ units, test units.toName ↔ isRelative units)
    {value : Option Json} (other : ∀ units, value = some (.str units) → ¬ isRelative units)
    (session : Session) : replacement? base test value session = (.ok none, session) := by
  unfold replacement?
  split
  · rename_i units
    rw [if_neg fun relative => other units rfl ((agrees units).mp relative)]
    rfl
  · rfl

/-! ### The options -/

/-- Whether a text is a path relative to the configuration that it is in. -/
def IsRelativeBase (units : Text.Units) : Prop := ¬ units.StartsWith '/'

/-- The base of module names is tested for being relative by the path that its text spells. -/
theorem isRelativeBase_iff (units : Text.Units) : isRelativeBase units.toName ↔ IsRelativeBase units := by
  rw [IsRelativeBase, ← Text.Units.head?_toName (by decide)]
  unfold isRelativeBase Path.isAbsolute Path.ofString Path.anchorOf
  cases letters : units.toName.toList with
  | nil => simp
  | cons c rest =>
    by_cases slash : c = '/'
    · subst slash
      cases run : rest.takeWhile (· = '/') with
      | nil => simp [run]
      | cons d more => cases more <;> simp [run]
    · simp [slash]

/-- An extended configuration is tested for being relative by its first character. -/
theorem extendsRelative_iff (units : Text.Units) : extendsRelative units.toName ↔ units.StartsWith '.' := by
  rw [← Text.Units.head?_toName (by decide), extendsRelative, decide_eq_true_eq]

/-- Options that have been derived from others. -/
structure DerivedOptions (tree : Tree) (base : Path) (options derived : Json.Fields) : Prop where
  others : derived.without ["baseUrl", "jsx", "jsxFactory"] = options.without ["baseUrl", "jsx", "jsxFactory"]
  base : Reanchored tree base IsRelativeBase (options.find? "baseUrl") (derived.find? "baseUrl")
  markup : derived.find? "jsx" = some (.ofString "react")
  factory : derived.find? "jsxFactory" = some (.ofString CompilerOptions.markupFactory)

/-- A dictionary made of fields has the same values by name. -/
theorem find?_ofFields (fields : Json.Fields) (name : String) :
    (Json.Dictionary.ofFields fields).find? name = fields.find? name := by
  unfold Json.Dictionary.find? Json.Dictionary.ofFields Json.Fields.find?
  induction fields with
  | nil => rfl
  | cons field rest inductionHypothesis =>
    obtain ⟨key, value⟩ := field
    by_cases same : key = Text.Units.ofString name
    · simp [Json.Fields.get?, same]
    · simpa [Json.Fields.get?, same] using inductionHypothesis

/-- A value is set in a dictionary made of fields as in the fields. -/
theorem setIfGiven_ofFields (fields : Json.Fields) (name : String) (value : Option Json) :
    (Json.Dictionary.ofFields fields).setIfGiven name value = .ofFields (fields.setIfGiven name value) := by
  cases value with
  | none => rfl
  | some value => exact Json.Dictionary.set_ofFields fields name value

/-- The options with another base, if there is one, and with the fields that say how markup is compiled. -/
def overridden (options : Json.Fields) (base : Option Json) : Json.Fields :=
  ((options.setIfGiven "baseUrl" base).set "jsx" (.ofString "react")).set "jsxFactory"
    (.ofString CompilerOptions.markupFactory)

/-- Where the base of module names is replaced, or not, the rest of the derived options is set beside it. -/
theorem deriveOptions_of_replacement {options : Json.Fields} {session : Session} {path : Option Json}
    (told : replacement? base isRelativeBase (options.find? "baseUrl") session = (.ok path, session)) :
    deriveOptions base (.ofFields options) session = (.ok (.ofFields (overridden options path)), session) := by
  unfold deriveOptions overridden
  rw [find?_ofFields, bind_apply, told]
  dsimp only
  rw [setIfGiven_ofFields, Json.Dictionary.set_ofFields, Json.Dictionary.set_ofFields]
  rfl

/-- The overridden options are derived: they have the fields for markup, the base, and all others as before. -/
theorem derivedOptions_overridden {options : Json.Fields} {path : Option Json}
    (anchored : Reanchored tree base IsRelativeBase (options.find? "baseUrl")
      (path.or (options.find? "baseUrl"))) : DerivedOptions tree base options (overridden options path) where
  others := by
    rw [overridden, Json.Fields.without_set (by simp), Json.Fields.without_set (by simp),
      Json.Fields.without_setIfGiven (by simp)]
  base := by
    rwa [overridden, Json.Fields.find?_set_of_ne (by decide), Json.Fields.find?_set_of_ne (by decide),
      Json.Fields.find?_setIfGiven]
  markup := by rw [overridden, Json.Fields.find?_set_of_ne (by decide), Json.Fields.find?_set]
  factory := by rw [overridden, Json.Fields.find?_set]

/-- Deriving the options answers unless the base denotes nothing. -/
theorem deriveOptions_cases (proper : base.IsProper) (options : Json.Fields) (session : Session) :
    (∃ derived, deriveOptions base (.ofFields options) session = (.ok (.ofFields derived), session) ∧
      DerivedOptions session.tree base options derived) ∨
    ∃ fault, deriveOptions base (.ofFields options) session = (.error fault, session) ∧
      ¬ Anchorable session.tree base IsRelativeBase (options.find? "baseUrl") := by
  rcases replacement?_cases isRelativeBase_iff proper (options.find? "baseUrl") session with
    ⟨path, told, anchored⟩ | ⟨fault, told, never⟩
  · exact .inl ⟨_, deriveOptions_of_replacement told, derivedOptions_overridden anchored⟩
  · refine .inr ⟨fault, ?_, never⟩
    unfold deriveOptions
    rw [find?_ofFields, bind_apply, told]

/-- Deriving options that have been derived changes nothing, whatever the directory. -/
theorem deriveOptions_again {options derived : Json.Fields}
    (done : DerivedOptions tree base options derived) (other : Path) (session : Session) :
    deriveOptions other (.ofFields derived) session = (.ok (.ofFields derived), session) := by
  have settled := done.base.settled fun units slash relative => relative slash
  have same : overridden derived none = derived := by
    rw [overridden, Json.Fields.setIfGiven, Json.Fields.set_of_find? done.markup,
      Json.Fields.set_of_find? done.factory]
  rw [deriveOptions_of_replacement (replacement?_of_not isRelativeBase_iff settled session), same]

/-! ### The configuration -/

/-- The options that a configuration gives: none, or those of an object. Others are not options. -/
def optionsOf? (fields : Json.Fields) : Option Json.Fields :=
  match fields.find? "compilerOptions" with
  | none | some .null => some []
  | some (.obj options) => some options
  | some _ => none

/-- The options that a configuration gives are the object in its field for them, or no options at all. -/
theorem given_of_optionsOf? {fields options : Json.Fields} (told : optionsOf? fields = some options) :
    ((fields.find? "compilerOptions").bind Json.given?).getD (.obj []) = .obj options := by
  unfold optionsOf? at told
  split at told
  · rename_i absent
    cases told
    rw [absent]
    rfl
  · rename_i null
    cases told
    rw [null]
    rfl
  · rename_i present
    cases told
    rw [present]
    cases options <;> rfl
  · cases told

/-- A configuration that has been derived from another in a directory. -/
structure Derived (tree : Tree) (base : Path) (fields options derived : Json.Fields) : Prop where
  others : derived.without ["extends", "compilerOptions"] = fields.without ["extends", "compilerOptions"]
  extended : Reanchored tree base (Text.Units.StartsWith · '.') (fields.find? "extends")
    (derived.find? "extends")
  options : ∃ inner, derived.find? "compilerOptions" = some (.obj inner) ∧
    DerivedOptions tree base options inner

/-- The paths of a configuration all denote absolute ones, as far as they are relative. -/
structure IsAnchorable (tree : Tree) (base : Path) (fields options : Json.Fields) : Prop where
  extended : Anchorable tree base (Text.Units.StartsWith · '.') (fields.find? "extends")
  base : Anchorable tree base IsRelativeBase (options.find? "baseUrl")

/-- What deriving the fields comes to: derived ones, or a failure if a path denotes nothing. -/
theorem deriveFields_cases (proper : base.IsProper) {fields options : Json.Fields}
    (given : optionsOf? fields = some options) (session : Session) :
    (∃ derived, deriveFields base fields session = (.ok derived, session) ∧
      Derived session.tree base fields options derived) ∨
    ∃ fault, deriveFields base fields session = (.error fault, session) ∧
      ¬ IsAnchorable session.tree base fields options := by
  unfold deriveFields
  rw [bind_apply, given_of_optionsOf? given]
  rcases replacement?_cases extendsRelative_iff proper (fields.find? "extends") session with
    ⟨path, told, anchored⟩ | ⟨fault, told, never⟩
  · rw [told]
    simp only [dictionaryOf, bind_apply]
    rcases deriveOptions_cases proper options session with ⟨inner, done, derived⟩ | ⟨fault, done, never⟩
    · rw [done]
      refine .inl ⟨_, rfl, ?_⟩
      rw [Json.Dictionary.toFields_ofFields]
      refine ⟨?_, ?_, inner, Json.Fields.find?_set, derived⟩
      · rw [Json.Fields.without_set (by simp), Json.Fields.without_setIfGiven (by simp)]
      · rwa [Json.Fields.find?_set_of_ne (by decide), Json.Fields.find?_setIfGiven]
    · rw [done]
      exact .inr ⟨fault, rfl, fun anchorable => never anchorable.base⟩
  · rw [told]
    exact .inr ⟨fault, rfl, fun anchorable => never anchorable.extended⟩

/-- Deriving fields that have been derived changes nothing, whatever the directory. -/
theorem deriveFields_again {fields options derived : Json.Fields}
    (done : Derived tree base fields options derived) (other : Path) (session : Session) :
    deriveFields other derived session = (.ok derived, session) := by
  obtain ⟨inner, found, derivedOptions⟩ := done.options
  have settled := done.extended.settled fun units slash dot => by
    cases slash.symm.trans dot
  have given : optionsOf? derived = some inner := by rw [optionsOf?, found]
  unfold deriveFields
  rw [bind_apply, given_of_optionsOf? given, replacement?_of_not extendsRelative_iff settled]
  simp only [dictionaryOf, bind_apply, deriveOptions_again derivedOptions other session]
  rw [Json.Dictionary.toFields_ofFields, Json.Fields.setIfGiven, Json.Fields.set_of_find? found]
  rfl

/-- Reading a configuration changes nothing. -/
theorem read_session (path : Path) (session : Session) : (read path session).2 = session := by
  unfold read
  rw [bind_apply, Action.attempt, Action.readText_apply]
  dsimp only
  cases Session.textAt session.tree path with
  | ok text =>
    dsimp only
    cases Json.readCommented text <;> rfl
  | error fault =>
    cases fault with
    | file refused =>
      cases refused with
      | refused refusal _ => cases refusal <;> rfl
      | _ => rfl
    | _ => rfl

/-- A configuration is derived from its fields, if these are what it holds. -/
theorem derive_of_read {path : Path} {session : Session} {fields : Json.Fields}
    (told : (read path session).1 = .ok (.obj fields)) :
    derive path session =
      ((deriveFields path.parent fields session).1.map Json.obj,
        (deriveFields path.parent fields session).2) := by
  have whole : read path session = (.ok (.obj fields), session) :=
    Prod.ext told (read_session path session)
  unfold derive
  rw [bind_apply, whole]
  dsimp only
  rw [bind_apply]
  rcases deriveFields path.parent fields session with ⟨result, later⟩
  cases result <;> rfl

/-- Deriving a configuration never changes the tree, and it answers if its relative paths denote absolute
ones. The answer has the fields and the options of the configuration in their order, but for those that
are replaced. What was relative is absolute in it, and deriving it once more from anywhere leaves it as it
is. -/
theorem derive_reanchors {path : Path} {session : Session} {fields options : Json.Fields}
    (proper : path.IsProper) (told : (read path session).1 = .ok (.obj fields))
    (given : optionsOf? fields = some options) :
    (derive path session).2 = session ∧
    (IsAnchorable session.tree path.parent fields options → ∃ value, (derive path session).1 = .ok value) ∧
    ∀ value, (derive path session).1 = .ok value → ∃ derived, value = .obj derived ∧
      Derived session.tree path.parent fields options derived ∧
      ∀ other later, (read other later).1 = .ok value → derive other later = (.ok value, later) := by
  have base : path.parent.IsProper := fun part member => proper part (List.dropLast_subset _ member)
  rw [derive_of_read told]
  rcases deriveFields_cases base given session with ⟨derived, done, isDerived⟩ | ⟨fault, done, never⟩
  · rw [done]
    refine ⟨rfl, fun _ => ⟨.obj derived, rfl⟩, fun value same => ?_⟩
    cases same
    refine ⟨derived, rfl, isDerived, fun other later again => ?_⟩
    rw [derive_of_read again, deriveFields_again isDerived]
    rfl
  · rw [done]
    exact ⟨rfl, fun anchorable => absurd anchorable never, fun value same => by cases same⟩

/-- A project with a configuration of this text and other entries. -/
def configuredSession (text : String) (others : List (Location × Entry)) : Session where
  tree := ⟨(["p"], .directory) :: (["p", "tsconfig.json"], .file (Text.Utf8.encode text) false) :: others⟩
  environment := []
  directory := ⟨.root, ["p"]⟩
  temporary := ⟨.root, ["t"]⟩
  clock := 0

/-- The path of its configuration. -/
def configuredPath : Path := ⟨.root, ["p", "tsconfig.json"]⟩

/-- A configuration that extends what is next to it under some name. -/
def extendingText (name : String) : String :=
  "\x7b\"extends\": \"./" ++ name ++ "\", \"files\": []\x7d"

/-- The fields that are read from it. -/
def extendingFields (name : String) : Json.Fields :=
  [(.ofString "extends", .ofString ("./" ++ name)), (.ofString "files", .arr [])]

/-- A configuration that extends one that is not there yet is derived, and comes back as it was derived
wherever it is read. -/
theorem derive_reanchors_extending :
    (read configuredPath (configuredSession (extendingText "base") [])).1 =
        .ok (.obj (extendingFields "base")) ∧
      optionsOf? (extendingFields "base") = some [] ∧ ∃ derived : Json.Fields,
      (derive configuredPath (configuredSession (extendingText "base") [])).1 = .ok (.obj derived) ∧
        derived.find? "extends" = some (.str (.ofName "/p/base")) ∧
        ∀ other later, (read other later).1 = .ok (.obj derived) →
          derive other later = (.ok (.obj derived), later) := by
  have proper : configuredPath.IsProper := (by decide : configuredPath.IsPlain).proper
  obtain ⟨-, answers, tells⟩ := @derive_reanchors configuredPath
    (configuredSession (extendingText "base") []) (extendingFields "base") [] proper rfl rfl
  have parts : (configuredPath.parent / (Text.Units.ofString "./base").toName).parts = ["p", "base"] := by
    decide +kernel
  have directory : (configuredSession (extendingText "base") []).tree.get? ["p"] = some .directory := rfl
  have nothing : (configuredSession (extendingText "base") []).tree.get? ["p", "base"] = none := rfl
  have denotes : (configuredSession (extendingText "base") []).tree.Denotes
      (configuredPath.parent / (Text.Units.ofString "./base").toName) ⟨.root, ["p", "base"]⟩ := by
    refine ⟨rfl, ⟨0, ?_⟩, by decide +kernel, by decide +kernel⟩
    rw [parts]
    exact .down (by decide) (by simp [directory]) (.down (by decide) (by simp [nothing]) (.here _))
  obtain ⟨value, told⟩ := answers ⟨fun units same _ => ⟨_, by cases same; exact denotes⟩,
    fun units same => by cases same⟩
  obtain ⟨derived, rfl, isDerived, again⟩ := tells value told
  refine ⟨rfl, rfl, derived, told, ?_, again⟩
  have extended := isDerived.extended
  have before : (extendingFields "base").find? "extends" = some (.str (.ofString "./base")) := rfl
  rw [before] at extended
  change Json.Fields.find? derived "extends" = _
  generalize Json.Fields.find? derived "extends" = after at extended ⊢
  cases extended with
  | moved relative resolved denoted => rw [denoted _ denotes]; rfl
  | kept other => exact absurd (by decide) (other _ rfl)

/-- A configuration that extends a link to itself is not derived, although what it extends is a relative
path: the path denotes nothing. -/
theorem derive_stops_at_loop :
    (read configuredPath (configuredSession (extendingText "loop") [(["p", "loop"], .link "loop")])).1 =
        .ok (.obj (extendingFields "loop")) ∧
      optionsOf? (extendingFields "loop") = some [] ∧
      (Text.Units.ofString "./loop").StartsWith '.' ∧
      ∀ value, (derive configuredPath
        (configuredSession (extendingText "loop") [(["p", "loop"], .link "loop")])).1 ≠ .ok value := by
  have stops : (derive configuredPath
      (configuredSession (extendingText "loop") [(["p", "loop"], .link "loop")])).1 =
      .error (.linkLoop ⟨.root, ["p", "loop"]⟩) := rfl
  refine ⟨rfl, rfl, by decide, fun value told => ?_⟩
  rw [stops] at told
  cases told

end Configuration

end TreeBuild

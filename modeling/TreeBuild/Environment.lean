import TreeBuild.Json.Display
import TreeBuild.Number.Whole
import TreeBuild.Text.Basic
import TreeBuild.Text.Blank

/-!
Environment variables, and the tolerant reading of settings: a value that cannot be understood
gives the default and a complaint, a missing or blank one the default alone.
-/
namespace TreeBuild

/-- The environment variables and their values. -/
abbrev Environment := List (String × String)

namespace Environment

/-- The value of a variable. -/
def get? (environment : Environment) (name : String) : Option String :=
  environment.lookup name

/-- The environment with a variable set. -/
def set (environment : Environment) (name value : String) : Environment :=
  if (environment.lookup name).isSome then
    environment.map fun known => if known.1 = name then (name, value) else known
  else environment ++ [(name, value)]

end Environment

namespace Setting

/-- A value that was read tolerantly, and what there is to complain about. -/
structure Tolerated (α : Type) where
  value : α
  complaint : Option String := none
  deriving Repr

/-- Whether a setting is missing or has nothing but white space. -/
def isBlank : Json → Bool
  | .null => true
  | .str units => units.toStringLossy.toList.all Text.isBlank
  | _ => false

/-- What a setting amounts to as a whole number. -/
inductive Whole where
  | number (value : Int)
  /-- The setting is no whole number. -/
  | unusable
  /-- The setting is infinite, which no tolerance covers. -/
  | unbounded
  deriving DecidableEq, Repr

/-- Reads a whole number: fractions are cut off, truth values count as zero and one. -/
def whole : Json → Whole
  | .bool value => .number (if value then 1 else 0)
  | .int value => .number value
  | .float (.infinity _) => .unbounded
  | .float value =>
    match value.truncate? with
    | some number => .number number
    | none => .unusable
  | .str units =>
    match units.toString?.bind Number.whole? with
    | some number => .number number
    | none => .unusable
  | _ => .unusable

/-- The complaint about a setting that is not of the kind it should be. -/
def complaint (kind context : String) (value : Json) : String :=
  s!"Ignoring non-{kind} " ++ (if context = "" then "value" else context) ++ ": " ++ value.quoted

/-- A whole number, or the default; `none` stands for an infinite setting. -/
def toWhole? (value : Json) (default : α) (ofNumber : Int → α) (context : String) :
    Option (Tolerated α) :=
  if isBlank value then some { value := default }
  else
    match whole value with
    | .number number => some { value := ofNumber number }
    | .unusable => some { value := default, complaint := some (complaint "integer" context value) }
    | .unbounded => none

/-- The words for yes. -/
def trueWords : List String := ["1", "true", "yes", "on"]

/-- The words for no. -/
def falseWords : List String := ["0", "false", "no", "off"]

/-- A truth value, or the default. Only the ASCII letters of the words matter, so only these are
brought to lower case. -/
def toFlag (value : Json) (default : α) (ofBool : Bool → α) (context : String) : Tolerated α :=
  if isBlank value then { value := default }
  else
    match value with
    | .bool flag => { value := ofBool flag }
    | value =>
      let word := String.ofList
        ((Text.trim Text.isBlank value.display.toList).map Text.lowerAscii)
      if trueWords.contains word then { value := ofBool true }
      else if falseWords.contains word then { value := ofBool false }
      else { value := default, complaint := some (complaint "boolean" context value) }

/-- The value of an environment variable, null if it is not set. -/
def ofVariable (environment : Environment) (name : String) : Json :=
  Json.ofOption Json.ofString (environment.get? name)

/-- Whether an environment variable says yes; whatever it says otherwise is not complained about. -/
def flag (environment : Environment) (name : String) (default : Bool) : Bool :=
  (toFlag (ofVariable environment name) default id name).value

end Setting

end TreeBuild

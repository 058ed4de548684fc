/-
What the catch rule is told: the exception an API used to raise, the one
it raises now, and the patterns of the calls that changed.

A document may set each of the three; what it leaves out stays as it is
by default.

Chain: first of the catch rule, after the patterns and the JSON layer.
-/
import JavaRefit.Json.Basic
import JavaRefit.MethodPattern.Reader
import JavaRefit.Report
import JavaRefit.Text.Surrogate

namespace JavaRefit

/-- The options of the catch rule. -/
structure RuleOptions where
  legacyType : String
  replacementType : String
  apiPatterns : List MethodPattern
deriving DecidableEq, Repr

/-- Why a document sets no options. -/
inductive OptionError where
  | notObject
  | unknownOptions (names : List String)
  | notText (key : String)
  | sameTypes
  | notPatterns
  | badPattern (e : PatternError)
deriving DecidableEq, Repr

namespace OptionError

/-- The wording. -/
def message : OptionError → String
  | notObject => "rule options must be a JSON object"
  | unknownOptions names =>
      "unknown option(s): " ++ String.intercalate ", " names
  | notText key => key ++ " must be a non-empty string"
  | sameTypes => "legacy_type and replacement_type must differ"
  | notPatterns => "api_patterns must be a non-empty list of strings"
  | badPattern e => e.message

/-- The failure to report for a document. -/
def failure (path : Option String) (e : OptionError) : Failure :=
  ⟨"bad-config", e.message, path, none⟩

end OptionError

namespace RuleOptions

/-- The calls that are taken to have changed unless it is said. -/
def defaultPatternTexts : List String :=
  ["com.fasterxml.jackson.databind.ObjectMapper *(..)",
   "com.fasterxml.jackson.databind.ObjectReader *(..)",
   "com.fasterxml.jackson.databind.ObjectWriter *(..)"]

/-- The patterns of those calls; all of the texts are patterns. -/
def defaultPatterns : List MethodPattern :=
  defaultPatternTexts.filterMap fun text =>
    (MethodPattern.parse text true).toOption

/-- The options that nothing is said about. -/
def default : RuleOptions :=
  ⟨"java.io.IOException", "tools.jackson.core.JacksonException",
    defaultPatterns⟩

/-- The keys that a document may have. -/
def keys : List String := ["legacy_type", "replacement_type", "api_patterns"]

/-- The name of a class under a key. -/
def classNameOf (fields : List (String × Json)) (key absent : String) :
    Except OptionError String :=
  match Json.lookup key fields with
  | none => .ok absent
  | some (.str s) =>
      if (Text.strip s).isEmpty then .error (.notText key) else .ok s
  | some _ => .error (.notText key)

/-- The pattern texts under their key. -/
def patternTexts (fields : List (String × Json)) :
    Except OptionError (List String) :=
  match Json.lookup "api_patterns" fields with
  | none => .ok defaultPatternTexts
  | some (.arr items) =>
    match items.mapM Json.str? with
    | some (t :: ts) => .ok (t :: ts)
    | _ => .error .notPatterns
  | some _ => .error .notPatterns

/-- A pattern of the rule; it takes overriding methods too. -/
def pattern (text : String) : Except OptionError MethodPattern :=
  match MethodPattern.parse text true with
  | .ok p => .ok p
  | .error e => .error (.badPattern e)

/-- The options that a document sets. -/
def ofJson (document : Json) : Except OptionError RuleOptions := do
  match document with
  | .obj fields =>
    let unknown := (fields.map Prod.fst).filter fun k => !keys.contains k
    if !unknown.isEmpty then
      throw (.unknownOptions (unknown.mergeSort fun a b =>
        Text.comesBefore a.toList b.toList))
    let legacy ← classNameOf fields "legacy_type" default.legacyType
    let replacement ← classNameOf fields "replacement_type"
        default.replacementType
    if legacy = replacement then throw .sameTypes
    let patterns ← (← patternTexts fields).mapM pattern
    return ⟨legacy, replacement, patterns⟩
  | _ => throw .notObject

end RuleOptions

end JavaRefit

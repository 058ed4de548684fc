/-
JSON values.

An object keeps its keys in the order in which they first came, and a key
that comes again changes its value in place. Whole numbers and numbers
with a fraction or an exponent stay apart.

Chain: first of the JSON layer; `Reader`, `Writer` and `Literal` follow.
-/
namespace JavaRefit

/-- A JSON value. -/
inductive Json where
  | null
  | bool (b : Bool)
  | int (n : Int)
  | real (x : Float)
  | str (s : String)
  | arr (items : List Json)
  | obj (fields : List (String × Json))
deriving Inhabited

namespace Json

/-- The value under a key of a list of fields. -/
def lookup (key : String) : List (String × Json) → Option Json
  | [] => none
  | (k, v) :: fields => if k = key then some v else lookup key fields

/-- The fields with a key set: in its place when it is there already, else at
the end. -/
def insert (key : String) (value : Json) : List (String × Json) →
    List (String × Json)
  | [] => [(key, value)]
  | (k, v) :: fields =>
      if k = key then (k, value) :: fields else (k, v) ::
        insert key value fields

/-- The value under a key of an object; nothing else has keys. -/
def get? (v : Json) (key : String) : Option Json :=
  match v with
  | .obj fields => lookup key fields
  | _ => none

/-- The text of a string value. -/
def str? : Json → Option String
  | .str s => some s
  | _ => none

/-- The items of an array. -/
def arr? : Json → Option (List Json)
  | .arr items => some items
  | _ => none

/-- A text or nothing. -/
def ofText? : Option String → Json
  | some s => .str s
  | none => .null

/-- A list of texts. -/
def ofTexts (ss : List String) : Json :=
  .arr (ss.map .str)

@[simp] theorem lookup_insert_self (key : String) (value : Json)
    (fields : List (String × Json)) :
    lookup key (insert key value fields) = some value := by
  induction fields with
  | nil => simp [insert, lookup]
  | cons f fields ih =>
    by_cases h : f.1 = key <;> simp [insert, lookup, h, ih]

end Json

end JavaRefit

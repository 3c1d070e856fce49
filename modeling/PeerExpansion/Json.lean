import PeerExpansion.Association
import PeerExpansion.Text.Quoted

/-! # Setting values

Configuration files are JSON, and a setting keeps whatever value it was given: nothing forces a
suffix to be a text or an indentation to be a number. `Json.isTruthy` says which values count as
set, and `Json.display` how a value reads in a message or in generated text.
-/

namespace PeerExpansion

inductive Json
  | null
  | bool (value : Bool)
  | int (value : Int)
  /-- A number with a fraction or an exponent, kept as it is spelled. -/
  | decimal (spelling : String)
  | text (value : String)
  | list (items : List Json)
  /-- The entries keep the order in which their keys first came. -/
  | object (entries : List (String × Json))
deriving Inhabited

namespace Json

/-- A number that is spelled with zeros only in front of its exponent counts as zero. -/
def isZeroSpelling (spelling : String) : Bool :=
  (spelling.toList.takeWhile (·.toLower != 'e')).all fun character =>
    character == '0' || character == '.' || character == '-'

/-- Empty values, zero, `false` and `null` count as not set. -/
def isTruthy : Json → Bool
  | null => false
  | bool value => value
  | int value => value != 0
  | decimal spelling => !isZeroSpelling spelling
  | text value => !value.isEmpty
  | list items => !items.isEmpty
  | object entries => !entries.isEmpty

def text? : Json → Option String
  | text value => some value
  | _ => none

/-- The whole number that a value counts as. -/
def count? : Json → Option Int
  | int value => some value
  | bool value => some (if value then 1 else 0)
  | _ => none

/-- The name of the sort of value, as messages give it. -/
def sortName : Json → String
  | null => "NoneType"
  | bool _ => "bool"
  | int _ => "int"
  | decimal _ => "float"
  | text _ => "str"
  | list _ => "list"
  | object _ => "dict"

mutual

/-- A value as it is shown inside another one or in a message: texts are quoted. -/
def shown : Json → String
  | null => "None"
  | bool value => if value then "True" else "False"
  | int value => toString value
  | decimal spelling => spelling
  | text value => Text.quoted value
  | list items => "[" ++ String.intercalate ", " (shownItems items) ++ "]"
  | object entries => "\x7b" ++ String.intercalate ", " (shownEntries entries) ++ "\x7d"

def shownItems : List Json → List String
  | [] => []
  | item :: others => item.shown :: shownItems others

def shownEntries : List (String × Json) → List String
  | [] => []
  | (key, value) :: others =>
    (Text.quoted key ++ ": " ++ value.shown) :: shownEntries others

end

/-- A value as it is written into text: a text stands for itself. -/
def display : Json → String
  | text value => value
  | value => value.shown

mutual

def same : Json → Json → Bool
  | null, null => true
  | bool left, bool right => left == right
  | int left, int right => left == right
  | decimal left, decimal right => left == right
  | text left, text right => left == right
  | list left, list right => sameItems left right
  | object left, object right => sameEntries left right
  | _, _ => false

def sameItems : List Json → List Json → Bool
  | [], [] => true
  | left :: lefts, right :: rights => same left right && sameItems lefts rights
  | _, _ => false

def sameEntries : List (String × Json) → List (String × Json) → Bool
  | [], [] => true
  | (key, left) :: lefts, (other, right) :: rights =>
    key == other && same left right && sameEntries lefts rights
  | _, _ => false

end

mutual

theorem same_iff : ∀ left right : Json, same left right = true ↔ left = right
  | null, right => by cases right <;> simp [same]
  | bool _, right => by cases right <;> simp [same]
  | int _, right => by cases right <;> simp [same]
  | decimal _, right => by cases right <;> simp [same]
  | text _, right => by cases right <;> simp [same]
  | list left, right => by cases right <;> simp [same, sameItems_iff left]
  | object left, right => by cases right <;> simp [same, sameEntries_iff left]

theorem sameItems_iff : ∀ left right : List Json, sameItems left right = true ↔ left = right
  | [], right => by cases right <;> simp [sameItems]
  | item :: others, right => by
    cases right <;> simp [sameItems, same_iff item, sameItems_iff others]

theorem sameEntries_iff :
    ∀ left right : List (String × Json), sameEntries left right = true ↔ left = right
  | [], right => by cases right <;> simp [sameEntries]
  | (key, value) :: others, right => by
    cases right <;>
      simp [sameEntries, same_iff value, sameEntries_iff others, Prod.ext_iff, and_assoc]

end

instance : DecidableEq Json := fun left right =>
  decidable_of_iff (same left right = true) (same_iff left right)

end Json

/-- Settings by name, in the order in which their names first came. -/
abbrev Settings := List (String × Json)

namespace Settings

/-- Gives a setting a value. A setting that is there already keeps its place. -/
def put (settings : Settings) (key : String) (value : Json) : Settings :=
  Association.put settings key value

def putAll (settings layer : Settings) : Settings :=
  layer.foldl (fun settings (key, value) => settings.put key value) settings

def get? (settings : Settings) (key : String) : Option Json :=
  settings.lookup key

theorem get?_put (settings : Settings) (key other : String) (value : Json) :
    (settings.put key value).get? other =
      if other = key then some value else settings.get? other :=
  Association.lookup_put settings key other value

end Settings

end PeerExpansion

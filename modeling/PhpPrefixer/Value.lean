import PhpPrefixer.Text.Quoted

/-!
# Configuration data

Settings arrive as plain data: nothing, truth values, integers, texts, lists, and objects with named
fields in the order they were given. `Value.display` is how a value is put into a message; inside
lists and objects texts are quoted (`Value.inner`).
-/

namespace PhpPrefixer

/-- A piece of configuration data. -/
inductive Value where
  /-- Nothing. -/
  | null
  /-- A truth value. -/
  | bool (b : Bool)
  /-- An integer. -/
  | int (n : Int)
  /-- A text. -/
  | text (t : Text)
  /-- A list. -/
  | list (items : List Value)
  /-- Named fields. -/
  | object (fields : List (Text × Value))
  deriving BEq, Repr, Inhabited

namespace Value

/-- The decimal digits of an integer. -/
def decimal (n : Int) : Text := (toString n).toList

/-- Texts in a row, with a comma and a blank between them. -/
def listed (ts : List Text) : Text := [',', ' '].intercalate ts

mutual

/-- A value as it stands inside lists and objects. -/
def inner : Value → Text
  | null => "None".toList
  | bool true => "True".toList
  | bool false => "False".toList
  | int n => decimal n
  | text t => Text.quoted t
  | list items => '[' :: listed (innerAll items) ++ [']']
  | object fields => '\x7b' :: listed (innerFields fields) ++ ['\x7d']

/-- The values of a list. -/
def innerAll : List Value → List Text
  | [] => []
  | v :: vs => inner v :: innerAll vs

/-- The fields of an object. -/
def innerFields : List (Text × Value) → List Text
  | [] => []
  | (name, v) :: rest => (Text.quoted name ++ ':' :: ' ' :: inner v) :: innerFields rest

end

/-- A value as it is put into a message. -/
def display : Value → Text
  | text t => t
  | v => inner v

/-- The word for the type of a value. -/
def typeName : Value → String
  | null => "NoneType"
  | bool _ => "bool"
  | int _ => "int"
  | text _ => "str"
  | list _ => "list"
  | object _ => "dict"

/-- The text a value is. -/
def text? : Value → Option Text
  | text t => some t
  | _ => none

/-- The parts of a value that has parts: the members of a list, the characters of a text, the names
of an object's fields. -/
def parts? : Value → Option (List Value)
  | list items => some items
  | text t => some (t.map fun c => text [c])
  | object fields => some (fields.map fun field => text field.1)
  | _ => none

/-- The value of the field with this name. -/
def field? (fields : List (Text × Value)) (name : String) : Option Value :=
  (fields.find? fun field => field.1 = name.toList).map (·.2)

/-- The fields with the value of one of them set; a new field goes to the end. -/
def setField : List (Text × Value) → Text → Value → List (Text × Value)
  | [], name, v => [(name, v)]
  | (other, w) :: rest, name, v =>
    if other = name then (name, v) :: rest else (other, w) :: setField rest name v

end Value

end PhpPrefixer

import DynamicOps.Text.Decimal

/-!
JSON documents and their compact text. Objects are ordered and may repeat names; a number that is
not an integer is held as its decimal text. Only quotes, backslashes, and control characters are
escaped, the latter by a letter where JSON has one.
-/

namespace DynamicOps.Json

/-- A JSON document. -/
inductive Tree
  | null
  | bool (b : Bool)
  | integer (n : Int)
  | decimal (text : List Char)
  | string (s : String)
  | array (items : List Tree)
  | object (fields : List (String × Tree))

/-- A character within a JSON string. -/
def escape (c : Char) : List Char :=
  if c = '"' then ['\\', '"']
  else if c = '\\' then ['\\', '\\']
  else if c = '\x08' then ['\\', 'b']
  else if c = '\x0c' then ['\\', 'f']
  else if c = '\n' then ['\\', 'n']
  else if c = '\r' then ['\\', 'r']
  else if c = '\t' then ['\\', 't']
  else if c.toNat < 32 then
    ['\\', 'u', '0', '0', Nat.digitChar (c.toNat / 16), Nat.digitChar (c.toNat % 16)]
  else [c]

/-- A text between quotes with its characters escaped. -/
def quote (s : String) : List Char :=
  '"' :: s.toList.flatMap escape ++ ['"']

namespace Tree

mutual

/-- The compact text of a document. -/
def render : Tree → List Char
  | null => ['n', 'u', 'l', 'l']
  | bool true => ['t', 'r', 'u', 'e']
  | bool false => ['f', 'a', 'l', 's', 'e']
  | integer n => Text.integer n
  | decimal text => text
  | string s => quote s
  | array items => '[' :: renderItems items ++ [']']
  | object fields => '\x7b' :: renderFields fields ++ ['\x7d']

/-- The elements of an array, separated by commas. -/
def renderItems : List Tree → List Char
  | [] => []
  | [item] => render item
  | item :: items => render item ++ ',' :: renderItems items

/-- The fields of an object, separated by commas. -/
def renderFields : List (String × Tree) → List Char
  | [] => []
  | [(name, item)] => quote name ++ ':' :: render item
  | (name, item) :: fields => quote name ++ ':' :: render item ++ ',' :: renderFields fields

end

end Tree

end DynamicOps.Json

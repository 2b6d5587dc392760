/-! JSON documents as they are written. Numbers and strings keep their spelling, so that what a
spelling means is decided by whoever expects a value there. A text that stops being JSON is still a
document: everything read so far, with a broken value where reading stopped. -/
namespace TraceAnomaly

inductive Json where
  | null
  | bool (value : Bool)
  /-- A number by its numeral. -/
  | number (numeral : List Char)
  /-- A string by the text between its quotes. -/
  | string (text : List Char)
  | array (items : List Json)
  /-- The members in written order, each under the text of its key. -/
  | object (members : List (List Char × Json))
  /-- The place where the text is not JSON. It is the last thing in whatever holds it, and in an
  object it has an empty key when no key could be read. -/
  | broken
deriving Inhabited

namespace Json

def quoted (text : List Char) : List Char := '"' :: text ++ ['"']

def word (value : Bool) : List Char := if value then "true".toList else "false".toList

mutual

/-- The document without any blanks. -/
def compact : Json → List Char
  | .null => "null".toList
  | .bool b => word b
  | .number n => n
  | .string t => quoted t
  | .array items => '[' :: compactItems items ++ [']']
  | .object members => '{' :: compactMembers members ++ ['}']
  | .broken => []

def compactItems : List Json → List Char
  | [] => []
  | [v] => compact v
  | v :: w :: rest => compact v ++ ',' :: compactItems (w :: rest)

def compactMembers : List (List Char × Json) → List Char
  | [] => []
  | [(k, v)] => quoted k ++ ':' :: compact v
  | (k, v) :: m :: rest => quoted k ++ ':' :: compact v ++ ',' :: compactMembers (m :: rest)

end

/-- A line break followed by two blanks for each level. -/
def lineBreak (level : Nat) : List Char := '\n' :: List.replicate (2 * level) ' '

mutual

/-- The document with every item and member on a line of its own, two blanks deeper than the
container around it. -/
def indented (level : Nat) : Json → List Char
  | .null => "null".toList
  | .bool b => word b
  | .number n => n
  | .string t => quoted t
  | .array [] => "[]".toList
  | .array (v :: rest) => '[' :: indentedItems (level + 1) (v :: rest) ++ lineBreak level ++ [']']
  | .object [] => "{}".toList
  | .object (m :: rest) => '{' :: indentedMembers (level + 1) (m :: rest) ++ lineBreak level ++ ['}']
  | .broken => []

def indentedItems (level : Nat) : List Json → List Char
  | [] => []
  | [v] => lineBreak level ++ indented level v
  | v :: w :: rest => lineBreak level ++ indented level v ++ ',' :: indentedItems level (w :: rest)

def indentedMembers (level : Nat) : List (List Char × Json) → List Char
  | [] => []
  | [(k, v)] => lineBreak level ++ quoted k ++ ':' :: ' ' :: indented level v
  | (k, v) :: m :: rest => lineBreak level ++ quoted k ++ ':' :: ' ' :: indented level v ++
      ',' :: indentedMembers level (m :: rest)

end

mutual

/-- Whether the whole document is JSON. -/
def isWhole : Json → Bool
  | .array items => areWhole items
  | .object members => membersWhole members
  | .broken => false
  | _ => true

def areWhole : List Json → Bool
  | [] => true
  | v :: rest => isWhole v && areWhole rest

def membersWhole : List (List Char × Json) → Bool
  | [] => true
  | (_, v) :: rest => isWhole v && membersWhole rest

end

end Json

end TraceAnomaly

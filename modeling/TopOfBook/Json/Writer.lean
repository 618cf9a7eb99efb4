import TopOfBook.Json.Token
import TopOfBook.Json.Value

/-! Writing JSON values, on one line without blanks or spread over indented lines. -/

namespace TopOfBook.Json

mutual
/-- The tokens of a value. -/
def tokens : Json → List Token
  | .null => [.null]
  | .bool b => [.bool b]
  | .number l => [.number l]
  | .string s => [.string s]
  | .array items => .openArray :: (itemTokens items ++ [.closeArray])
  | .object fields => .openObject :: (fieldTokens fields ++ [.closeObject])

/-- The tokens of the items of an array, with commas between them. -/
def itemTokens : List Json → List Token
  | [] => []
  | [v] => tokens v
  | v :: w :: rest => tokens v ++ .comma :: itemTokens (w :: rest)

/-- The tokens of the fields of an object, with commas between them. -/
def fieldTokens : List (Option String × Json) → List Token
  | [] => []
  | [(name, v)] => .string name :: .colon :: tokens v
  | (name, v) :: f :: rest =>
    .string name :: .colon :: (tokens v ++ .comma :: fieldTokens (f :: rest))
end

/-- The shortest spelling: tokens one behind the other. -/
def compact (v : Json) : String := String.ofList ((tokens v).flatMap Token.text)

/-- A line break and two blanks for each open container. -/
def lineBreak (depth : Nat) : List Char := '\n' :: List.replicate (2 * depth) ' '

mutual
/-- A value spread over lines; empty containers stay on one. -/
def spread (depth : Nat) : Json → List Char
  | .array [] => ['[', ']']
  | .object [] => ['\x7b', '\x7d']
  | .array (v :: rest) =>
    '[' :: (lineBreak (depth + 1) ++ spread (depth + 1) v ++ spreadItems (depth + 1) rest ++
      lineBreak depth ++ [']'])
  | .object ((name, v) :: rest) =>
    '\x7b' :: (lineBreak (depth + 1) ++ (Token.string name).text ++ ':' :: ' ' ::
      (spread (depth + 1) v ++ spreadFields (depth + 1) rest ++ lineBreak depth ++ ['\x7d']))
  | .null => Token.null.text
  | .bool b => (Token.bool b).text
  | .number l => (Token.number l).text
  | .string s => (Token.string s).text

def spreadItems (depth : Nat) : List Json → List Char
  | [] => []
  | v :: rest => ',' :: (lineBreak depth ++ spread depth v ++ spreadItems depth rest)

def spreadFields (depth : Nat) : List (Option String × Json) → List Char
  | [] => []
  | (name, v) :: rest =>
    ',' :: (lineBreak depth ++ (Token.string name).text ++ ':' :: ' ' ::
      (spread depth v ++ spreadFields depth rest))
end

/-- The spelling with one item or field a line. -/
def indented (v : Json) : String := String.ofList (spread 0 v)

end TopOfBook.Json

/-!
# Comma-separated tables

The written form of a table: records end with a carriage return and a line feed, fields are
separated by commas, and a field that holds a comma, a quote or a line end stands between
quotes, its own quotes doubled. A record whose only field is empty is written as two quotes,
so that it is no blank line.
-/

namespace ExpressionArt

namespace Csv

def isSpecial (c : Char) : Bool := c == ',' || c == '"' || c == '\r' || c == '\n'

/-- The characters of a field with quotes doubled. -/
def doubled : List Char → List Char
  | [] => []
  | c :: cs => if c = '"' then '"' :: '"' :: doubled cs else c :: doubled cs

def field (cs : List Char) : List Char :=
  if cs.any isSpecial then '"' :: doubled cs ++ ['"'] else cs

/-- Fields with commas between them. -/
def separated : List (List Char) → List Char
  | [] => []
  | [f] => field f
  | f :: fs => field f ++ ',' :: separated fs

def recordChars : List (List Char) → List Char
  | [[]] => ['"', '"', '\r', '\n']
  | fs => separated fs ++ ['\r', '\n']

def tableChars (rows : List (List (List Char))) : List Char := rows.flatMap recordChars

/-- The written form of a record. -/
def record (fields : List String) : String :=
  String.ofList (recordChars (fields.map String.toList))

/-- The written form of a table. -/
def table (rows : List (List String)) : String :=
  String.ofList (tableChars (rows.map fun fields => fields.map String.toList))

/-- Where a reader stands in a record. -/
inductive Place where
  /-- Before the first character of a record. -/
  | recordStart
  /-- Before the first character of a later field. -/
  | fieldStart
  | plain
  | quoted
  /-- Behind a quote that ends a quoted field, unless another one follows. -/
  | afterQuote
deriving DecidableEq, Repr

/-- Reads the rest of a table, given the field and the fields of the record read so far. Blank
lines are skipped. -/
def readFrom (place : Place) (f : List Char) (fs : List (List Char)) :
    List Char → List (List (List Char))
  | [] => if place = .recordStart then [] else [fs ++ [f]]
  | '\r' :: '\n' :: rest =>
    match place with
    | .recordStart => readFrom .recordStart [] [] rest
    | .quoted => readFrom .quoted (f ++ ['\r', '\n']) fs rest
    | _ => (fs ++ [f]) :: readFrom .recordStart [] [] rest
  | c :: rest =>
    match place with
    | .quoted =>
      if c = '"' then readFrom .afterQuote f fs rest
      else readFrom .quoted (f ++ [c]) fs rest
    | .afterQuote =>
      if c = '"' then readFrom .quoted (f ++ ['"']) fs rest
      else if c = ',' then readFrom .fieldStart [] (fs ++ [f]) rest
      else readFrom .plain (f ++ [c]) fs rest
    | .plain =>
      if c = ',' then readFrom .fieldStart [] (fs ++ [f]) rest
      else readFrom .plain (f ++ [c]) fs rest
    | _ =>
      if c = '"' then readFrom .quoted [] fs rest
      else if c = ',' then readFrom .fieldStart [] (fs ++ [f]) rest
      else readFrom .plain [c] fs rest

/-- A comma ends a field, except between quotes. -/
theorem readFrom_comma {place : Place} {f rest : List Char} {fs : List (List Char)}
    (h : place ≠ .quoted) :
    readFrom place f fs (',' :: rest) = readFrom .fieldStart [] (fs ++ [f]) rest := by
  cases place <;> simp_all [readFrom]

/-- The records of a written table. -/
def read (text : String) : List (List String) :=
  (readFrom .recordStart [] [] text.toList).map fun fields => fields.map String.ofList

end Csv

end ExpressionArt

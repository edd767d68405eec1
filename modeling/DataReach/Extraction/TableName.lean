import DataReach.Text.Ascii
import DataReach.Text.Blank
/-! Which names can be those of tables. -/

namespace DataReach.TableName

def isHead (c : Char) : Bool := c.isAlpha || c == '_'

def isTail (c : Char) : Bool :=
  c.isAlphanum || c == '_' || c == '.' || c == '$' || c == '-'

def placeholders : List String := [
  "unknown", "item", "items", "data", "result", "results", "value", "values",
  "obj", "object", "entity", "entities", "record", "records", "row", "rows",
  "self", "this", "table", "query", "undefined", "null", "none", "temp", "tmp",
  "model", "instance", "res", "req", "response", "request"]

def maxLength : Nat := 128

def isValid (table : String) : Bool :=
  let name := Text.trim table
  2 ≤ name.utf8ByteSize && name.utf8ByteSize ≤ maxLength &&
    (match name.toList with
      | [] => false
      | c :: rest => isHead c && rest.all isTail) &&
    !placeholders.contains (Text.lower name)

end DataReach.TableName

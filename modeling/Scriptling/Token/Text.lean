import Scriptling.Number.Text
import Scriptling.Text.Quoted
import Scriptling.Token.Basic

namespace Scriptling.Token

/-- Kind, lexeme and constant; `null` where a token has none. -/
def display (t : Token) : String :=
  t.kind.name ++ " " ++ t.lexeme ++ " " ++
    match t.literal with
    | .string s => s
    | .number x => Number.tokenText x.toBits
    | _ => "null"

def jsonKind (t : Token) : String :=
  match t.literal with
  | .string s => "\x7b\n      " ++ Text.quoteJson t.kind.name ++ ": " ++ Text.quoteJson s ++ "\n    \x7d"
  | .number x =>
    "\x7b\n      " ++ Text.quoteJson t.kind.name ++ ": " ++ Number.jsonText x.toBits ++ "\n    \x7d"
  | _ => Text.quoteJson t.kind.name

def json (t : Token) : String :=
  "  \x7b\n    \"token_type\": " ++ t.jsonKind ++ ",\n    \"lexeme\": " ++ Text.quoteJson t.lexeme ++
  ",\n    \"line\": " ++ t.place.line.repr ++ ",\n    \"column\": " ++ t.place.column.repr ++ "\n  \x7d"

def jsonList (ts : List Token) : String :=
  if ts.isEmpty then "[]" else "[\n" ++ ",\n".intercalate (ts.map json) ++ "\n]"

end Scriptling.Token

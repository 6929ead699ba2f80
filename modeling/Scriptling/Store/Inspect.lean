import Scriptling.Store.Property
import Scriptling.Text.Quoted

namespace Scriptling.Store

def callableName? (s : Store) : Value → Option String
  | .closure id => some (s.closureName id)
  | .builtin b => some b.name
  | .classRef id => some (s.className id)
  | _ => none

def description? (s : Store) (v : Value) : Option String :=
  match v with
  | .object id => some ("Instance(" ++ s.objectClassName id ++ ")")
  | _ => (s.callableName? v).map fun _ => "Callable(" ++ s.text v ++ ")"

def classDescription (s : Store) (c : ClassId) : String :=
  "Class \x7b name: " ++ Text.quoteName (s.className c) ++ " \x7d"

/-- Does a global name look as it did at the start? A name of a built-in function does while its
value is written as one, be it only a string that reads alike. -/
def looksUntouched (s : Store) (name : String) (v : Value) : Bool :=
  Builtin.all.any fun b => b.name == name && s.text v == s.text (.builtin b)

/-- The global names of a program, without those that look as they did at the start. -/
def visibleGlobals (s : Store) : List (String × Value) :=
  (s.names .globals).filterMap fun name =>
    match s.local? .globals name with
    | none => none
    | some v => if s.looksUntouched name v then none else some (name, v)

end Scriptling.Store

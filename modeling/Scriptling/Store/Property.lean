import Scriptling.Fault
import Scriptling.Number.Text
import Scriptling.Store.Frame

namespace Scriptling.Store

def newClosure (s : Store) (c : Closure) : ClosureId × Store :=
  (s.closures.size, { s with closures := s.closures.push c })

def newClass (s : Store) (c : ClassRecord) : ClassId × Store :=
  (s.classes.size, { s with classes := s.classes.push c })

def newObject (s : Store) (c : ClassId) : ObjectId × Store :=
  (s.objects.size, { s with objects := s.objects.push ⟨c, []⟩ })

/-- The nearest class with the method in the chosen table, among the first `bound` upwards. -/
def findWithin? (s : Store) (table : ClassRecord → Table ClosureId) (name : String) :
    Nat → ClassId → Option ClosureId
  | 0, _ => none
  | bound + 1, c =>
    match s.classes[c]? with
    | none => none
    | some record =>
      match (table record).get? name with
      | some m => some m
      | none => record.superclass.bind (s.findWithin? table name bound)

/-- An instance method of a class or of the nearest superclass that has it. Superclasses are older
than their subclasses, so the way up is no longer than a class's own number says. -/
def findMethod? (s : Store) (c : ClassId) (name : String) : Option ClosureId :=
  s.findWithin? ClassRecord.methods name (c + 1) c

/-- A static method of a class or of the nearest superclass that has it. -/
def findStatic? (s : Store) (c : ClassId) (name : String) : Option ClosureId :=
  s.findWithin? ClassRecord.statics name (c + 1) c

/-- A copy of a method for one receiver, which its body sees as `this`. -/
def bindMethod (s : Store) (m : ClosureId) (receiver : Value) : Value × Store :=
  match s.closures[m]? with
  | none => (.nil, s)
  | some c =>
    let (f, s) := s.openFrame (some c.scope) [("this", receiver)]
    let (id, s) := s.newClosure { c with scope := f }
    (.closure id, s)

/-- What a name stands for in an object: a field's value, or a method not yet bound. -/
inductive Property where
  | field (value : Value)
  | method (id : ClosureId)

/-- A property of an instance: its own field, or else a method. -/
def objectProperty (s : Store) (o : Object) (name : String) : Except RuntimeFault Property :=
  match o.fields.get? name with
  | some v => .ok (.field v)
  | none =>
    match s.findMethod? o.instanceOf name with
    | some m => .ok (.method m)
    | none =>
      if (s.findStatic? o.instanceOf name).isSome then .error (.staticOnInstance name)
      else .error (.undefinedMethod name)

/-- A property of a class: its own field, or else a static method. -/
def classProperty (s : Store) (id : ClassId) (c : ClassRecord) (name : String) :
    Except RuntimeFault Property :=
  match c.fields.get? name with
  | some v => .ok (.field v)
  | none =>
    match s.findStatic? id name with
    | some m => .ok (.method m)
    | none =>
      if (s.findMethod? id name).isSome then .error (.methodOnClass name)
      else .error (.undefinedStatic name)

/-- What a name stands for in a value. Only instances and classes have properties. -/
def property (s : Store) (v : Value) (name : String) : Except RuntimeFault Property :=
  match v with
  | .object id =>
    match s.objects[id]? with
    | some o => s.objectProperty o name
    | none => .error .noProperties
  | .classRef id =>
    match s.classes[id]? with
    | some c => s.classProperty id c name
    | none => .error .noProperties
  | _ => .error .noProperties

def hasFields : Value → Bool
  | .object _ | .classRef _ => true
  | _ => false

/-- Sets a field of an instance or a class; nothing else has any. -/
def setField (s : Store) (v : Value) (name : String) (value : Value) : Store :=
  match v with
  | .object id =>
    { s with objects := s.objects.modify id fun o => { o with fields := o.fields.put name value } }
  | .classRef id =>
    { s with classes := s.classes.modify id fun c => { c with fields := c.fields.put name value } }
  | _ => s

/-- What a class's calls take: the arguments of its initializer. -/
def classArity (s : Store) (c : ClassId) : Arity :=
  match (s.findMethod? c "init").bind fun m => s.closures[m]? with
  | some init => init.decl.arity
  | none => ⟨0, 0⟩

def arity? (s : Store) : Value → Option Arity
  | .closure id => s.closures[id]?.map (·.decl.arity)
  | .builtin b => some b.arity
  | .classRef id => some (s.classArity id)
  | _ => none

def className (s : Store) (c : ClassId) : String :=
  match s.classes[c]? with
  | some record => record.name
  | none => ""

def closureName (s : Store) (c : ClosureId) : String :=
  match s.closures[c]? with
  | some closure => closure.decl.name.lexeme
  | none => ""

def objectClassName (s : Store) (o : ObjectId) : String :=
  match s.objects[o]? with
  | some object => s.className object.instanceOf
  | none => ""

/-- What `print` writes for a value. -/
def text (s : Store) : Value → String
  | .nil => "nil"
  | .bool b => if b then "true" else "false"
  | .number x => Number.valueText x.toBits
  | .string t => t
  | .closure id => "<fn " ++ s.closureName id ++ ">"
  | .builtin _ => "<native fn>"
  | .classRef id => s.className id
  | .object id => s.objectClassName id ++ " instance"

/-- What `typeof` answers for a value; an instance is of its class's type. -/
def typeName (s : Store) : Value → String
  | .nil => "nil"
  | .bool _ => "boolean"
  | .number _ => "number"
  | .string _ => "string"
  | .closure _ | .builtin _ => "function"
  | .classRef _ => "class"
  | .object id => s.objectClassName id

end Scriptling.Store

import Scriptling.Table
import Scriptling.Tree.Basic

namespace Scriptling

abbrev FrameId := Nat

abbrev ClosureId := Nat

abbrev ClassId := Nat

abbrev ObjectId := Nat

inductive Builtin where
  | clock | print | toString | input | toNumber | isNumber | sqrt | randomInt | typeof | len
deriving DecidableEq, Repr

namespace Builtin

def all : List Builtin :=
  [.clock, .print, .toString, .input, .toNumber, .isNumber, .sqrt, .randomInt, .typeof, .len]

def name : Builtin → String
  | .clock => "clock"
  | .print => "print"
  | .toString => "toString"
  | .input => "input"
  | .toNumber => "toNumber"
  | .isNumber => "isNumber"
  | .sqrt => "sqrt"
  | .randomInt => "randomInt"
  | .typeof => "typeof"
  | .len => "len"

end Builtin

inductive Value where
  | nil
  | bool (b : Bool)
  | number (x : Float)
  | string (s : String)
  | closure (id : ClosureId)
  | builtin (function : Builtin)
  | classRef (id : ClassId)
  | object (id : ObjectId)
deriving Inhabited

namespace Value

/-- Everything counts as true but nil and false. -/
def truthy : Value → Bool
  | .nil | .bool false => false
  | _ => true

def isNil : Value → Bool
  | .nil => true
  | _ => false

/-- Equal constants, or the same function, class or instance. A NaN equals nothing. -/
def same : Value → Value → Bool
  | .nil, .nil => true
  | .bool a, .bool b => a == b
  | .number a, .number b => a == b
  | .string a, .string b => a == b
  | .closure a, .closure b => a == b
  | .builtin a, .builtin b => decide (a = b)
  | .classRef a, .classRef b => a == b
  | .object a, .object b => a == b
  | _, _ => false

def ofLiteral : Literal → Value
  | .nil => .nil
  | .bool b => .bool b
  | .number x => .number x
  | .string s => .string s

end Value

/-- Variables of one scope, and the frame of the scope around it. -/
structure Frame where
  bindings : Table Value
  parent : Option FrameId

structure Closure where
  decl : FunctionDecl
  scope : FrameId
  initializer : Bool

/-- How many arguments a call must and may have. -/
structure Arity where
  least : Nat
  most : Nat
deriving DecidableEq, Repr

/-- Arguments may be left out from the end on, as far as there are fallbacks. -/
def FunctionDecl.arity (d : FunctionDecl) : Arity where
  least := (d.params.reverse.dropWhile (·.fallback.isSome)).length
  most := d.params.length

def Builtin.arity : Builtin → Arity
  | .clock => ⟨0, 0⟩
  | .print => ⟨1, 2⟩
  | .toString => ⟨1, 1⟩
  | .input => ⟨0, 1⟩
  | .toNumber => ⟨1, 1⟩
  | .isNumber => ⟨1, 1⟩
  | .sqrt => ⟨1, 1⟩
  | .randomInt => ⟨2, 2⟩
  | .typeof => ⟨1, 1⟩
  | .len => ⟨1, 1⟩

structure ClassRecord where
  name : String
  superclass : Option ClassId
  methods : Table ClosureId
  statics : Table ClosureId
  fields : Table Value

structure Object where
  instanceOf : ClassId
  fields : Table Value

/-- What values refer to: frames of variables, functions with the frame they were made in, classes and
instances, all known by number. -/
structure Store where
  frames : Array Frame
  closures : Array Closure
  classes : Array ClassRecord
  objects : Array Object

/-- The frame that every chain of frames ends in. -/
def FrameId.globals : FrameId := 0

/-- The store before a program starts: the global frame with the built-in functions. -/
def Store.start : Store where
  frames := #[⟨Builtin.all.map fun b => (b.name, .builtin b), none⟩]
  closures := #[]
  classes := #[]
  objects := #[]

end Scriptling

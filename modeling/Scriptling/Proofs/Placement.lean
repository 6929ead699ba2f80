import Scriptling.Scope
import Scriptling.Proofs.Uses

namespace Scriptling

/-- A function around a place, or a method of a class that has a superclass or none. -/
inductive Enclosure where
  | function
  | method (name : String) (static derived : Bool)

/-- A place: what is around it, innermost first, and the names that are declared before it in the
scope it stands in. Outside all scopes names are global. The statements that are looked at may be part
of some function and class themselves. -/
structure Spot where
  around : List Enclosure
  earlier : Option (List String)
  body : Scope.Body
  family : Scope.Family

/-- What may not stand just anywhere. -/
inductive Item where
  | this (keyword : Token)
  | super (keyword : Token)
  | return (keyword : Token) (valued : Bool)
  | declaration (name : Token)
  | superclass (name className : Token)

def Item.token : Item → Token
  | .this keyword => keyword
  | .super keyword => keyword
  | .return keyword _ => keyword
  | .declaration name => name
  | .superclass name _ => name

def Enclosure.derived? : Enclosure → Option Bool
  | .function => none
  | .method _ _ derived => some derived

/-- Is it an instance method named `init`? -/
def Enclosure.initializes : Enclosure → Bool
  | .function => false
  | .method name static _ => !static && name == "init"

def Scope.Family.derived? : Scope.Family → Option Bool
  | .none => .none
  | .root => some false
  | .derived => some true

def Scope.Body.initializes? : Scope.Body → Option Bool
  | .none => .none
  | .function | .method => some false
  | .initializer => some true

namespace Spot

/-- Has the innermost class a superclass? There is none outside all methods. -/
def derived? (S : Spot) : Option Bool :=
  (S.around.findSome? Enclosure.derived?).or S.family.derived?

/-- Is the innermost function an initializer? There is none outside all functions. -/
def initializes? (S : Spot) : Option Bool :=
  (S.around.head?.map Enclosure.initializes).or S.body.initializes?

def declaring (S : Spot) (names : List String) : Spot :=
  { S with earlier := S.earlier.map (· ++ names) }

def opened (S : Spot) : Spot := { S with earlier := some [] }

/-- In a function, whose parameters and body share one scope. -/
def inside (S : Spot) (e : Enclosure) : Spot :=
  { S with around := e :: S.around, earlier := some [] }

end Spot

def Item.fault? (S : Spot) : Item → Option ScopeFault
  | .this _ => if S.derived?.isNone then some .thisOutsideClass else none
  | .super _ =>
    match S.derived? with
    | none => some .superOutsideClass
    | some derived => if derived then none else some .superWithoutSuperclass
  | .return _ valued =>
    match S.initializes? with
    | none => some .topLevelReturn
    | some initializes => if initializes && valued then some .initializerValue else none
  | .declaration name =>
    if S.earlier.any (·.contains name.lexeme) then some .redeclared else none
  | .superclass name className =>
    if name.lexeme = className.lexeme then some .selfInheritance else none

structure Placement where
  spot : Spot
  item : Item

def Placement.report? (p : Placement) : Option (Located ScopeFault) :=
  (p.item.fault? p.spot).map (⟨·, p.item.token.place⟩)

def Use.item? (u : Use) : Option Item :=
  match u.role with
  | .variable => none
  | .this => some (.this u.name)
  | .super => some (.super u.name)

def Spot.references (S : Spot) (us : List Use) : List Placement :=
  us.filterMap fun u => u.item?.map (Placement.mk S)

/-- The names that a statement declares in the scope it stands in. A branch and the body of a loop
have no scope of their own. -/
def Stmt.introduced : Stmt → List String
  | .var name _ => [name.lexeme]
  | .ifThen _ whenTrue => whenTrue.introduced
  | .ifElse _ whenTrue whenFalse => whenTrue.introduced ++ whenFalse.introduced
  | .while _ body => body.introduced
  | .for _ _ body => body.introduced
  | .function decl => [decl.name.lexeme]
  | .class name _ _ _ => [name.lexeme]
  | .expr _ | .block _ | .return _ _ | .break _ | .next _ => []

def Stmt.introducedAll (ss : List Stmt) : List String := ss.flatMap Stmt.introduced

/-- A fallback stands before its parameter. -/
def Param.placements (S : Spot) : List Param → List Placement
  | [] => []
  | p :: ps => S.references (Expr.uses? p.fallback) ++
    ⟨S, .declaration p.name⟩ :: Param.placements (S.declaring [p.name.lexeme]) ps

def Superclass.placements (S : Spot) (className : Token) : Option Superclass → List Placement
  | none => []
  | some s => [⟨S, .superclass s.name className⟩]

mutual

def Stmt.placements (S : Spot) : Stmt → List Placement
  | .expr e => S.references e.uses
  | .var name initial =>
    ⟨S, .declaration name⟩ :: (S.declaring [name.lexeme]).references (Expr.uses? initial)
  | .block body => Stmt.placementsAll S.opened body
  | .ifThen condition whenTrue => S.references condition.uses ++ whenTrue.placements S
  | .ifElse condition whenTrue whenFalse =>
    S.references condition.uses ++
      (whenTrue.placements S ++ whenFalse.placements (S.declaring whenTrue.introduced))
  | .while condition body => S.references condition.uses ++ body.placements S
  | .for condition increment body =>
    S.references condition.uses ++ (body.placements S ++
      (S.declaring body.introduced).references (Expr.uses? increment))
  | .function decl => ⟨S, .declaration decl.name⟩ :: decl.placements (S.inside .function)
  | .return keyword value =>
    ⟨S, .return keyword value.isSome⟩ :: S.references (Expr.uses? value)
  | .break _ | .next _ => []
  | .class name superclass methods statics =>
    ⟨S, .declaration name⟩ :: (Superclass.placements (S.declaring [name.lexeme]) name superclass ++
      (FunctionDecl.placementsAll S superclass.isSome false methods ++
        FunctionDecl.placementsAll S superclass.isSome true statics))

def Stmt.placementsAll (S : Spot) : List Stmt → List Placement
  | [] => []
  | s :: ss => s.placements S ++ Stmt.placementsAll (S.declaring s.introduced) ss

/-- The items of a function's parameters and body, the place being inside it. -/
def FunctionDecl.placements (S : Spot) : FunctionDecl → List Placement
  | ⟨_, params, body⟩ => Param.placements S params ++
    Stmt.placementsAll (S.declaring (params.map fun p => p.name.lexeme)) body

def FunctionDecl.placementsAll (S : Spot) (derived static : Bool) :
    List FunctionDecl → List Placement
  | [] => []
  | d :: ds => d.placements (S.inside (.method d.name.lexeme static derived)) ++
    FunctionDecl.placementsAll S derived static ds

end

def Spot.outside : Spot := ⟨[], none, .none, .none⟩

end Scriptling

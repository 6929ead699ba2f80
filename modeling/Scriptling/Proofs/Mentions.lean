import Scriptling.Proofs.Resolution

namespace Scriptling

/-- How a node names something. Counting up or down reads its target. -/
inductive Naming.Manner where
  | read
  | assigned
  | compound
  | this
  | super
deriving DecidableEq

/-- A node that names something. -/
structure Naming where
  manner : Naming.Manner
  id : ExprId
  name : Token

mutual

def Expr.namings : Expr → List Naming
  | .literal _ => []
  | .group inner => inner.namings
  | .unary _ operand => operand.namings
  | .binary left _ right => left.namings ++ right.namings
  | .logical left _ right => left.namings ++ right.namings
  | .ternary condition whenTrue whenFalse =>
    condition.namings ++ (whenTrue.namings ++ whenFalse.namings)
  | .comma items => Expr.namingsAll items
  | .var id name => [⟨.read, id, name⟩]
  | .assign id name value => value.namings ++ [⟨.assigned, id, name⟩]
  | .compoundAssign id name _ value => value.namings ++ [⟨.compound, id, name⟩]
  | .update _ target _ => target.namings
  | .call callee _ arguments => callee.namings ++ Expr.namingsAll arguments
  | .get object _ => object.namings
  | .set object _ value => value.namings ++ object.namings
  | .compoundSet object _ _ value => value.namings ++ object.namings
  | .this id keyword => [⟨.this, id, keyword⟩]
  | .super id keyword _ => [⟨.super, id, keyword⟩]

def Expr.namingsAll : List Expr → List Naming
  | [] => []
  | e :: es => e.namings ++ Expr.namingsAll es

end

def Expr.namings? : Option Expr → List Naming
  | none => []
  | some e => e.namings

/-- What is known at a place. Scopes stand innermost first, each with the names it defines so far.
`pending` is the local variable whose initial value the place is part of. -/
structure Scene where
  scopes : List (List String)
  known : List String
  pending : Option String
  family : Scope.Family

namespace Scene

/-- How many scopes out the innermost one lies that defines the name. -/
def distance? (S : Scene) (name : String) : Option Nat := S.scopes.findIdx? (·.contains name)

/-- Outside every scope a plain assignment may make a global. -/
def past (S : Scene) (n : Naming) : Scene :=
  if n.manner = .assigned ∧ S.scopes = [] then { S with known := n.name.lexeme :: S.known } else S

def pastAll (S : Scene) (ns : List Naming) : Scene := ns.foldl past S

def inside (S : Scene) (names : List String) : Scene := { S with scopes := names :: S.scopes }

/-- A name that is declared outside every scope is a global at once. -/
def named (S : Scene) (name : String) : Scene :=
  match S.scopes with
  | [] => { S with known := name :: S.known }
  | _ :: _ => S

def starting (S : Scene) (name : String) : Scene :=
  match S.scopes with
  | [] => { S with known := name :: S.known }
  | _ :: _ => { S with pending := some name }

def defined (S : Scene) (name : String) : Scene :=
  match S.scopes with
  | [] => S
  | names :: outer => { S with scopes := (name :: names) :: outer, pending := none }

def declared (S : Scene) (name : String) : Scene := (S.starting name).defined name

/-- Inside a class, where the receiver and the superclass have scopes of their own. -/
def inClass (S : Scene) (derived : Bool) : Scene :=
  if derived then { (S.inside ["super"]).inside ["this"] with family := .derived }
  else { S.inside ["this"] with family := .root }

end Scene

structure Mention where
  naming : Naming
  scene : Scene

namespace Mention

/-- The name is that of the local variable whose initial value this is, and nothing else has it. -/
def bare (x : Mention) : Bool :=
  x.scene.pending = some x.naming.name.lexeme &&
    (x.scene.distance? x.naming.name.lexeme).isNone &&
      !x.scene.known.contains x.naming.name.lexeme

/-- A variable is read that has no value yet. -/
def unready (x : Mention) : Bool := x.naming.manner = .read && x.bare

/-- A variable is read too early exactly if it is pending and nothing else has its name. -/
theorem unready_read (S : Scene) (id : ExprId) (name : Token) :
    unready ⟨⟨.read, id, name⟩, S⟩ = true ↔ S.pending = some name.lexeme ∧
      S.distance? name.lexeme = none ∧ name.lexeme ∉ S.known := by
  simp [unready, bare, and_assoc]

theorem unready_of_manner {n : Naming} (hn : n.manner ≠ .read) (S : Scene) :
    unready ⟨n, S⟩ = false := by
  simp [unready, hn]

def report (x : Mention) : Located ScopeFault := ⟨.ownInitializer, x.naming.name.place⟩

/-- A receiver has its place in a class, and a superclass in a class that has one. -/
def placed (x : Mention) : Bool :=
  match x.naming.manner with
  | .this => x.scene.family ≠ .none
  | .super => x.scene.family = .derived
  | _ => true

/-- The distance of the innermost scope that defines the name, if there is one. -/
def note (x : Mention) : List (ExprId × Nat) :=
  if x.placed then
    ((x.scene.distance? x.naming.name.lexeme).map (x.naming.id, ·)).toList
  else []

end Mention

def Scene.mentions (S : Scene) : List Naming → List Mention
  | [] => []
  | n :: ns => ⟨n, S⟩ :: (S.past n).mentions ns

def Param.mentions (S : Scene) : List Param → List Mention
  | [] => []
  | p :: ps => S.mentions (Expr.namings? p.fallback) ++
    Param.mentions ((S.pastAll (Expr.namings? p.fallback)).declared p.name.lexeme) ps

def Param.behind (S : Scene) : List Param → Scene
  | [] => S
  | p :: ps => Param.behind ((S.pastAll (Expr.namings? p.fallback)).declared p.name.lexeme) ps

/-- A class that names itself as its superclass is not looked up. -/
def Superclass.mentions (S : Scene) (name : Token) : Option Superclass → List Mention
  | none => []
  | some s => if s.name.lexeme = name.lexeme then [] else [⟨⟨.read, s.id, s.name⟩, S⟩]

def Stmt.behind (S : Scene) : Stmt → Scene
  | .expr e => S.pastAll e.namings
  | .var name initial =>
    ((S.starting name.lexeme).pastAll (Expr.namings? initial)).defined name.lexeme
  | .block _ => S
  | .ifThen condition whenTrue => whenTrue.behind (S.pastAll condition.namings)
  | .ifElse condition whenTrue whenFalse =>
    whenFalse.behind (whenTrue.behind (S.pastAll condition.namings))
  | .while condition body => body.behind (S.pastAll condition.namings)
  | .for condition increment body =>
    (body.behind (S.pastAll condition.namings)).pastAll (Expr.namings? increment)
  | .function decl => S.declared decl.name.lexeme
  | .return _ value => S.pastAll (Expr.namings? value)
  | .break _ => S
  | .next _ => S
  | .class name _ _ _ => S.declared name.lexeme

def Stmt.behindAll (S : Scene) (ss : List Stmt) : Scene := ss.foldl Stmt.behind S

mutual

def Stmt.mentions (S : Scene) : Stmt → List Mention
  | .expr e => S.mentions e.namings
  | .var name initial => (S.starting name.lexeme).mentions (Expr.namings? initial)
  | .block body => Stmt.mentionsAll (S.inside []) body
  | .ifThen condition whenTrue =>
    S.mentions condition.namings ++ whenTrue.mentions (S.pastAll condition.namings)
  | .ifElse condition whenTrue whenFalse =>
    S.mentions condition.namings ++ (whenTrue.mentions (S.pastAll condition.namings) ++
      whenFalse.mentions (whenTrue.behind (S.pastAll condition.namings)))
  | .while condition body =>
    S.mentions condition.namings ++ body.mentions (S.pastAll condition.namings)
  | .for condition increment body =>
    S.mentions condition.namings ++ (body.mentions (S.pastAll condition.namings) ++
      (body.behind (S.pastAll condition.namings)).mentions (Expr.namings? increment))
  | .function decl => decl.mentions (S.declared decl.name.lexeme)
  | .return _ value => S.mentions (Expr.namings? value)
  | .break _ => []
  | .next _ => []
  | .class name superclass methods statics =>
    let inside := (S.declared name.lexeme).inClass superclass.isSome
    Superclass.mentions (S.named name.lexeme) name superclass ++
      (FunctionDecl.mentionsAll inside methods ++ FunctionDecl.mentionsAll inside statics)

def Stmt.mentionsAll (S : Scene) : List Stmt → List Mention
  | [] => []
  | s :: ss => s.mentions S ++ Stmt.mentionsAll (s.behind S) ss

def FunctionDecl.mentions (S : Scene) : FunctionDecl → List Mention
  | ⟨_, params, body⟩ => Param.mentions (S.inside []) params ++
    Stmt.mentionsAll (Param.behind (S.inside []) params) body

def FunctionDecl.mentionsAll (S : Scene) : List FunctionDecl → List Mention
  | [] => []
  | d :: ds => d.mentions S ++ FunctionDecl.mentionsAll S ds

end

def Scene.outside (known : List String) : Scene := ⟨[], known, none, .none⟩

namespace Scene

variable {S : Scene}

theorem pastAll_append (S : Scene) (ns ns' : List Naming) :
    S.pastAll (ns ++ ns') = (S.pastAll ns).pastAll ns' := List.foldl_append

theorem mentions_append (S : Scene) (ns ns' : List Naming) :
    S.mentions (ns ++ ns') = S.mentions ns ++ (S.pastAll ns).mentions ns' := by
  induction ns generalizing S with
  | nil => rfl
  | cons n ns ih => exact congrArg (_ :: ·) (ih (S.past n))

theorem past_of_scopes (h : S.scopes ≠ []) (n : Naming) : S.past n = S :=
  if_neg fun hn => h hn.2

theorem pastAll_of_scopes (h : S.scopes ≠ []) (ns : List Naming) : S.pastAll ns = S := by
  induction ns with
  | nil => rfl
  | cons n ns ih => rw [pastAll, List.foldl_cons, past_of_scopes h, ← pastAll, ih]

theorem pending_past (n : Naming) : (S.past n).pending = S.pending := by
  unfold past
  split <;> rfl

theorem pending_pastAll (ns : List Naming) : (S.pastAll ns).pending = S.pending := by
  induction ns generalizing S with
  | nil => rfl
  | cons n ns ih => exact ih.trans (pending_past n)

theorem pending_starting (h : S.pending = none) (name : String) :
    (S.starting name).pending = none ∨ (S.starting name).pending = some name := by
  unfold starting
  split
  · exact .inl h
  · exact .inr rfl

theorem pending_defined {name : String} (h : S.scopes = [] → S.pending = none) :
    (S.defined name).pending = none := by
  unfold defined
  split
  · exact h ‹_›
  · rfl

theorem scopes_pastAll (ns : List Naming) : (S.pastAll ns).scopes = S.scopes := by
  induction ns generalizing S with
  | nil => rfl
  | cons n ns ih =>
    refine ih.trans ?_
    unfold past
    split <;> rfl

/-- Behind the initial value of a variable none is pending. -/
theorem pending_initialized (h : S.pending = none) (name : String) (ns : List Naming) :
    (((S.starting name).pastAll ns).defined name).pending = none := by
  refine pending_defined fun hs => ?_
  rw [scopes_pastAll] at hs
  rw [pending_pastAll]
  unfold starting at hs ⊢
  split
  · exact h
  · rename_i hscopes
    rw [hscopes] at hs
    simp at hs

theorem pending_declared (h : S.pending = none) (name : String) :
    (S.declared name).pending = none := pending_initialized h name []

/-- Behind a local variable's declaration its name is defined, whatever its initial value mentions.
-/
theorem initialized_inside (h : S.pending = none) (names : List String) (name : String)
    (ns : List Naming) :
    (((S.inside names).starting name).pastAll ns).defined name = S.inside (name :: names) := by
  rw [pastAll_of_scopes (List.cons_ne_nil _ _)]
  obtain ⟨scopes, known, pending, family⟩ := S
  cases h
  rfl

/-- A declaration adds its name to the innermost scope. -/
theorem declared_inside (h : S.pending = none) (names : List String) (name : String) :
    (S.inside names).declared name = S.inside (name :: names) := initialized_inside h names name []

/-- Inside a scope no global is made. -/
theorem pastAll_inside (names : List String) (ns : List Naming) :
    (S.inside names).pastAll ns = S.inside names := pastAll_of_scopes (List.cons_ne_nil _ _) ns

end Scene

variable {S : Scene}

/-- Behind parameters one is still inside the scope. -/
theorem Param.behind_inside (h : S.pending = none) (ps : List Param) (names : List String) :
    ∃ names', Param.behind (S.inside names) ps = S.inside names' := by
  induction ps generalizing names with
  | nil => exact ⟨names, rfl⟩
  | cons p ps ih => rw [behind, Scene.pastAll_inside, Scene.declared_inside h]; exact ih _

/-- Inside a scope a statement only defines names of that scope. -/
theorem Stmt.behind_inside (h : S.pending = none) : ∀ (s : Stmt) (names : List String),
    ∃ names', s.behind (S.inside names) = S.inside names'
  | .expr e, names => ⟨names, Scene.pastAll_inside names _⟩
  | .var _ _, names => ⟨_, Scene.initialized_inside h names _ _⟩
  | .block _, names => ⟨names, rfl⟩
  | .ifThen _ whenTrue, names => by
    rw [behind, Scene.pastAll_inside]
    exact behind_inside h whenTrue names
  | .ifElse _ whenTrue whenFalse, names => by
    obtain ⟨names₁, hyes⟩ := behind_inside h whenTrue names
    rw [behind, Scene.pastAll_inside, hyes]
    exact behind_inside h whenFalse names₁
  | .while _ body, names => by
    rw [behind, Scene.pastAll_inside]
    exact behind_inside h body names
  | .for _ _ body, names => by
    obtain ⟨names₁, hbody⟩ := behind_inside h body names
    rw [behind, Scene.pastAll_inside, hbody]
    exact ⟨names₁, Scene.pastAll_inside names₁ _⟩
  | .function _, names => ⟨_, Scene.declared_inside h names _⟩
  | .return _ _, names => ⟨names, Scene.pastAll_inside names _⟩
  | .break _, names => ⟨names, rfl⟩
  | .next _, names => ⟨names, rfl⟩
  | .class _ _ _ _, names => ⟨_, Scene.declared_inside h names _⟩

/-- And so it is behind statements. -/
theorem Stmt.behindAll_inside (h : S.pending = none) (ss : List Stmt) (names : List String) :
    ∃ names', Stmt.behindAll (S.inside names) ss = S.inside names' := by
  induction ss generalizing names with
  | nil => exact ⟨names, rfl⟩
  | cons s ss ih =>
    obtain ⟨names₁, hs⟩ := s.behind_inside h names
    rw [behindAll, List.foldl_cons, hs]
    exact ih names₁

theorem Stmt.pending_behind : ∀ (s : Stmt) {S : Scene}, S.pending = none →
    (s.behind S).pending = none
  | .expr _, _, h => (Scene.pending_pastAll _).trans h
  | .var _ _, _, h => Scene.pending_initialized h _ _
  | .block _, _, h => h
  | .ifThen _ whenTrue, _, h => whenTrue.pending_behind ((Scene.pending_pastAll _).trans h)
  | .ifElse _ whenTrue whenFalse, _, h =>
    whenFalse.pending_behind (whenTrue.pending_behind ((Scene.pending_pastAll _).trans h))
  | .while _ body, _, h => body.pending_behind ((Scene.pending_pastAll _).trans h)
  | .for _ _ body, _, h =>
    (Scene.pending_pastAll _).trans (body.pending_behind ((Scene.pending_pastAll _).trans h))
  | .function _, _, h => Scene.pending_declared h _
  | .return _ _, _, h => (Scene.pending_pastAll _).trans h
  | .break _, _, h => h
  | .next _, _, h => h
  | .class _ _ _ _, _, h => Scene.pending_declared h _

end Scriptling

import Scriptling.Proofs.Sites

namespace Scriptling

/-- Two names that change places, neither of them a keyword that stands for a variable, and the
distances noted for references. -/
structure Renaming where
  old : String
  new : String
  old_plain : old ≠ "this" ∧ old ≠ "super"
  new_plain : new ≠ "this" ∧ new ≠ "super"
  notes : ExprId → Option Nat

def Table.relabel {α : Type} (f : String → String) (t : Table α) : Table α :=
  t.map fun entry => (f entry.1, entry.2)

/-- Under its other name a value is found. -/
theorem Table.get?_relabel {α : Type} {f : String → String} (hf : Function.Injective f)
    (t : Table α) (name : String) : (t.relabel f).get? (f name) = t.get? name := by
  induction t with
  | nil => rfl
  | cons entry rest ih =>
    by_cases hk : entry.1 = name
    · simp [relabel, get?, hk]
    · have hfk : f entry.1 ≠ f name := fun h => hk (hf h)
      simpa [relabel, get?, hk, hfk] using ih

/-- Values are put in under the other names. -/
theorem Table.put_relabel {α : Type} {f : String → String} (hf : Function.Injective f)
    (t : Table α) (name : String) (value : α) :
    (t.relabel f).put (f name) value = (t.put name value).relabel f := by
  induction t with
  | nil => rfl
  | cons entry rest ih =>
    by_cases hk : entry.1 = name
    · simp [relabel, put, hk]
    · have hfk : f entry.1 ≠ f name := fun h => hk (hf h)
      simpa [relabel, put, hk, hfk] using ih

namespace Renaming

variable (ρ : Renaming)

def word (name : String) : String :=
  if name = ρ.old then ρ.new else if name = ρ.new then ρ.old else name

/-- Names change only in scopes that are marked. -/
def image (mark : Bool) (name : String) : String := if mark then ρ.word name else name

def token (mark : Bool) (t : Token) : Token := { t with lexeme := ρ.image mark t.lexeme }

/-- Is the scope marked in which the reference finds its variable? The marks are those of the scopes
around it, the innermost first. -/
def marked (marks : List Bool) (id : ExprId) : Bool :=
  ((ρ.notes id).bind fun d => marks[d]?).getD false

def use (marks : List Bool) (u : Use) : Use :=
  { u with name := ρ.token (ρ.marked marks u.id) u.name }

/-- The name that a declaration makes in the innermost scope. -/
def declared (marks : List Bool) (name : Token) : Token := ρ.token (marks.headD false) name

def param (marks : List Bool) (p : Param) : Param :=
  ⟨ρ.declared marks p.name, p.fallback.map (Expr.turn (ρ.use marks))⟩

def inClass (derived : Bool) (marks : List Bool) : List Bool :=
  false :: if derived then false :: marks else marks

end Renaming

mutual

/-- The statement with names exchanged in the scopes that are picked. Functions and classes keep
their names. -/
def Stmt.rename (ρ : Renaming) (pick : Opener → Bool) (marks : List Bool) : Stmt → Stmt
  | .expr e => .expr (e.turn (ρ.use marks))
  | .var name initial =>
    .var (ρ.declared marks name) (initial.map (Expr.turn (ρ.use marks)))
  | .block body => .block (Stmt.renameAll ρ pick (pick (.block body) :: marks) body)
  | .ifThen condition whenTrue =>
    .ifThen (condition.turn (ρ.use marks)) (whenTrue.rename ρ pick marks)
  | .ifElse condition whenTrue whenFalse =>
    .ifElse (condition.turn (ρ.use marks)) (whenTrue.rename ρ pick marks)
      (whenFalse.rename ρ pick marks)
  | .while condition body => .while (condition.turn (ρ.use marks)) (body.rename ρ pick marks)
  | .for condition increment body =>
    .for (condition.turn (ρ.use marks)) (increment.map (Expr.turn (ρ.use marks)))
      (body.rename ρ pick marks)
  | .function decl => .function (decl.rename ρ pick marks)
  | .return keyword value => .return keyword (value.map (Expr.turn (ρ.use marks)))
  | .break keyword => .break keyword
  | .next keyword => .next keyword
  | .class name superclass methods statics =>
    .class name (superclass.map (Superclass.turn (ρ.use marks)))
      (FunctionDecl.renameAll ρ pick (Renaming.inClass superclass.isSome marks) methods)
      (FunctionDecl.renameAll ρ pick (Renaming.inClass superclass.isSome marks) statics)

def Stmt.renameAll (ρ : Renaming) (pick : Opener → Bool) (marks : List Bool) :
    List Stmt → List Stmt
  | [] => []
  | s :: ss => s.rename ρ pick marks :: Stmt.renameAll ρ pick marks ss

def FunctionDecl.rename (ρ : Renaming) (pick : Opener → Bool) (marks : List Bool) :
    FunctionDecl → FunctionDecl
  | ⟨name, params, body⟩ =>
    let inside := pick (.function ⟨name, params, body⟩) :: marks
    ⟨name, params.map (ρ.param inside), Stmt.renameAll ρ pick inside body⟩

def FunctionDecl.renameAll (ρ : Renaming) (pick : Opener → Bool) (marks : List Bool) :
    List FunctionDecl → List FunctionDecl
  | [] => []
  | d :: ds => d.rename ρ pick marks :: FunctionDecl.renameAll ρ pick marks ds

end

mutual

/-- No function and no class has a name that would change. -/
def Stmt.Keeps (ρ : Renaming) (pick : Opener → Bool) (marks : List Bool) : Stmt → Prop
  | .expr _ => True
  | .var _ _ => True
  | .block body => Stmt.KeepsAll ρ pick (pick (.block body) :: marks) body
  | .ifThen _ whenTrue => whenTrue.Keeps ρ pick marks
  | .ifElse _ whenTrue whenFalse => whenTrue.Keeps ρ pick marks ∧ whenFalse.Keeps ρ pick marks
  | .while _ body => body.Keeps ρ pick marks
  | .for _ _ body => body.Keeps ρ pick marks
  | .function decl => ρ.declared marks decl.name = decl.name ∧ decl.Keeps ρ pick marks
  | .return _ _ => True
  | .break _ => True
  | .next _ => True
  | .class name superclass methods statics =>
    ρ.declared marks name = name ∧
      FunctionDecl.KeepsAll ρ pick (Renaming.inClass superclass.isSome marks) methods ∧
      FunctionDecl.KeepsAll ρ pick (Renaming.inClass superclass.isSome marks) statics

def Stmt.KeepsAll (ρ : Renaming) (pick : Opener → Bool) (marks : List Bool) : List Stmt → Prop
  | [] => True
  | s :: ss => s.Keeps ρ pick marks ∧ Stmt.KeepsAll ρ pick marks ss

def FunctionDecl.Keeps (ρ : Renaming) (pick : Opener → Bool) (marks : List Bool) :
    FunctionDecl → Prop
  | ⟨name, params, body⟩ =>
    Stmt.KeepsAll ρ pick (pick (.function ⟨name, params, body⟩) :: marks) body

def FunctionDecl.KeepsAll (ρ : Renaming) (pick : Opener → Bool) (marks : List Bool) :
    List FunctionDecl → Prop
  | [] => True
  | d :: ds => d.Keeps ρ pick marks ∧ FunctionDecl.KeepsAll ρ pick marks ds

end

namespace Renaming

variable {ρ : Renaming}

theorem word_word (name : String) : ρ.word (ρ.word name) = name := by
  unfold word
  by_cases ho : name = ρ.old
  · by_cases hn : ρ.new = ρ.old <;> simp [ho, hn]
  · by_cases hn : name = ρ.new <;> simp [ho, hn]

theorem image_injective (mark : Bool) : Function.Injective (ρ.image mark) := by
  intro a b h
  cases mark with
  | false => exact h
  | true =>
    have hw : ρ.word a = ρ.word b := h
    rw [← word_word a, hw, word_word]

theorem image_of_ne {name : String} (ho : name ≠ ρ.old) (hn : name ≠ ρ.new) (mark : Bool) :
    ρ.image mark name = name := by
  cases mark with
  | false => rfl
  | true => simp [image, word, ho, hn]

@[simp] theorem image_false (name : String) : ρ.image false name = name := rfl

@[simp] theorem image_this (mark : Bool) : ρ.image mark "this" = "this" :=
  image_of_ne (Ne.symm ρ.old_plain.1) (Ne.symm ρ.new_plain.1) mark

@[simp] theorem image_super (mark : Bool) : ρ.image mark "super" = "super" :=
  image_of_ne (Ne.symm ρ.old_plain.2) (Ne.symm ρ.new_plain.2) mark

@[simp] theorem token_false (t : Token) : ρ.token false t = t := rfl

@[simp] theorem lexeme_token (mark : Bool) (t : Token) :
    (ρ.token mark t).lexeme = ρ.image mark t.lexeme := rfl

@[simp] theorem place_token (mark : Bool) (t : Token) : (ρ.token mark t).place = t.place := rfl

end Renaming

/-- A function keeps its name. -/
@[simp] theorem FunctionDecl.name_rename (ρ : Renaming) (pick : Opener → Bool) (marks : List Bool)
    (d : FunctionDecl) : (d.rename ρ pick marks).name = d.name := by
  cases d
  rfl

def Unmarked (marks : List Bool) : Prop := ∀ mark ∈ marks, mark = false

def pickNone : Opener → Bool := fun _ => false

theorem Unmarked.nil : Unmarked [] := fun _ h => by cases h

theorem Unmarked.cons {marks : List Bool} (h : Unmarked marks) : Unmarked (false :: marks) := by
  intro mark hm
  rcases List.mem_cons.1 hm with rfl | hm
  · rfl
  · exact h mark hm

theorem Unmarked.inClass {marks : List Bool} (h : Unmarked marks) (derived : Bool) :
    Unmarked (Renaming.inClass derived marks) := by
  cases derived with
  | false => exact h.cons
  | true => exact h.cons.cons

namespace Renaming

variable {ρ : Renaming} {marks : List Bool}

theorem use_unmarked (h : Unmarked marks) : ρ.use marks = id := by
  funext u
  have hm : ρ.marked marks u.id = false := by
    unfold marked
    cases hd : ρ.notes u.id with
    | none => rfl
    | some d =>
      cases hk : marks[d]? with
      | none => simp [hk]
      | some mark => simp [hk, h mark (List.mem_of_getElem? hk)]
  simp only [use, hm, token_false, id]

theorem declared_unmarked (h : Unmarked marks) (name : Token) : ρ.declared marks name = name := by
  cases marks with
  | nil => rfl
  | cons mark rest =>
    rw [declared, List.headD_cons, h mark (by simp), token_false]

end Renaming

theorem Expr.turn_id (e : Expr) : e.turn id = e := Expr.turn_eq_self e fun _ _ => rfl

theorem Expr.turn_id? (o : Option Expr) : o.map (Expr.turn id) = o :=
  Expr.turn_eq_self? o fun _ _ => rfl

theorem Param.rename_unmarked {ρ : Renaming} {marks : List Bool} (h : Unmarked marks)
    (ps : List Param) : ps.map (ρ.param marks) = ps := by
  refine List.map_id'' (fun p => ?_) ps
  rw [Renaming.param, ρ.declared_unmarked h, Renaming.use_unmarked h, Expr.turn_id?]

mutual

/-- Where no scope is marked and none is picked, a statement stays as it is. -/
theorem Stmt.rename_unmarked {ρ : Renaming} : ∀ (s : Stmt) {marks : List Bool}, Unmarked marks →
    s.rename ρ pickNone marks = s
  | .expr e, _, h => by rw [Stmt.rename, Renaming.use_unmarked h, Expr.turn_id]
  | .var _ _, _, h => by
    rw [Stmt.rename, Renaming.declared_unmarked h, Renaming.use_unmarked h, Expr.turn_id?]
  | .block body, _, h => by
    rw [Stmt.rename, pickNone, Stmt.renameAll_unmarked body h.cons]
  | .ifThen _ whenTrue, _, h => by
    rw [Stmt.rename, Renaming.use_unmarked h, Expr.turn_id, Stmt.rename_unmarked whenTrue h]
  | .ifElse _ whenTrue whenFalse, _, h => by
    rw [Stmt.rename, Renaming.use_unmarked h, Expr.turn_id, Stmt.rename_unmarked whenTrue h,
      Stmt.rename_unmarked whenFalse h]
  | .while _ body, _, h => by
    rw [Stmt.rename, Renaming.use_unmarked h, Expr.turn_id, Stmt.rename_unmarked body h]
  | .for _ _ body, _, h => by
    rw [Stmt.rename, Renaming.use_unmarked h, Expr.turn_id, Expr.turn_id?,
      Stmt.rename_unmarked body h]
  | .function decl, _, h => by rw [Stmt.rename, FunctionDecl.rename_unmarked decl h]
  | .return _ _, _, h => by rw [Stmt.rename, Renaming.use_unmarked h, Expr.turn_id?]
  | .break _, _, _ => rfl
  | .next _, _, _ => rfl
  | .class _ superclass methods statics, _, h => by
    have hsup : superclass.map (Superclass.turn id) = superclass := by cases superclass <;> rfl
    rw [Stmt.rename, Renaming.use_unmarked h, hsup,
      FunctionDecl.renameAll_unmarked methods (h.inClass _),
      FunctionDecl.renameAll_unmarked statics (h.inClass _)]

theorem Stmt.renameAll_unmarked {ρ : Renaming} : ∀ (ss : List Stmt) {marks : List Bool},
    Unmarked marks → Stmt.renameAll ρ pickNone marks ss = ss
  | [], _, _ => rfl
  | s :: ss, _, h => by
    rw [Stmt.renameAll, Stmt.rename_unmarked s h, Stmt.renameAll_unmarked ss h]

/-- So does a function. -/
theorem FunctionDecl.rename_unmarked {ρ : Renaming} : ∀ (d : FunctionDecl) {marks : List Bool},
    Unmarked marks → d.rename ρ pickNone marks = d
  | ⟨_, params, body⟩, _, h => by
    rw [FunctionDecl.rename, pickNone, Param.rename_unmarked h.cons,
      Stmt.renameAll_unmarked body h.cons]

theorem FunctionDecl.renameAll_unmarked {ρ : Renaming} : ∀ (ds : List FunctionDecl)
    {marks : List Bool}, Unmarked marks → FunctionDecl.renameAll ρ pickNone marks ds = ds
  | [], _, _ => rfl
  | d :: ds, _, h => by
    rw [FunctionDecl.renameAll, FunctionDecl.rename_unmarked d h,
      FunctionDecl.renameAll_unmarked ds h]

end

mutual

theorem Stmt.keeps_unmarked {ρ : Renaming} : ∀ (s : Stmt) {marks : List Bool}, Unmarked marks →
    s.Keeps ρ pickNone marks
  | .expr _, _, _ => trivial
  | .var _ _, _, _ => trivial
  | .block body, _, h => Stmt.keepsAll_unmarked body h.cons
  | .ifThen _ whenTrue, _, h => Stmt.keeps_unmarked whenTrue h
  | .ifElse _ whenTrue whenFalse, _, h =>
    ⟨Stmt.keeps_unmarked whenTrue h, Stmt.keeps_unmarked whenFalse h⟩
  | .while _ body, _, h => Stmt.keeps_unmarked body h
  | .for _ _ body, _, h => Stmt.keeps_unmarked body h
  | .function decl, _, h =>
    ⟨Renaming.declared_unmarked h _, FunctionDecl.keeps_unmarked decl h⟩
  | .return _ _, _, _ => trivial
  | .break _, _, _ => trivial
  | .next _, _, _ => trivial
  | .class _ _ methods statics, _, h =>
    ⟨Renaming.declared_unmarked h _, FunctionDecl.keepsAll_unmarked methods (h.inClass _),
      FunctionDecl.keepsAll_unmarked statics (h.inClass _)⟩

/-- And no function or class has a name that would change. -/
theorem Stmt.keepsAll_unmarked {ρ : Renaming} : ∀ (ss : List Stmt) {marks : List Bool},
    Unmarked marks → Stmt.KeepsAll ρ pickNone marks ss
  | [], _, _ => trivial
  | s :: ss, _, h => ⟨Stmt.keeps_unmarked s h, Stmt.keepsAll_unmarked ss h⟩

theorem FunctionDecl.keeps_unmarked {ρ : Renaming} : ∀ (d : FunctionDecl) {marks : List Bool},
    Unmarked marks → d.Keeps ρ pickNone marks
  | ⟨_, _, body⟩, _, h => Stmt.keepsAll_unmarked body h.cons

theorem FunctionDecl.keepsAll_unmarked {ρ : Renaming} : ∀ (ds : List FunctionDecl)
    {marks : List Bool}, Unmarked marks → FunctionDecl.KeepsAll ρ pickNone marks ds
  | [], _, _ => trivial
  | d :: ds, _, h => ⟨FunctionDecl.keeps_unmarked d h, FunctionDecl.keepsAll_unmarked ds h⟩

end

end Scriptling

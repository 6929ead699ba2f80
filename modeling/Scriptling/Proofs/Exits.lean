import Scriptling.Eval

namespace Scriptling

/-- What leaves a round of a loop early, with the keyword that does it. -/
inductive Signal where
  | break (keyword : Token)
  | next (keyword : Token)

namespace Signal

def keyword : Signal → Token
  | .break k => k
  | .next k => k

/-- What a signal is reported as where there is no loop. -/
def fault : Signal → RuntimeFault
  | .break _ => .breakOutsideLoop
  | .next _ => .nextOutsideLoop

def flow : Signal → Flow
  | .break k => .break k
  | .next k => .next k

/-- The report of a signal that no loop takes up. -/
def failure (x : Signal) : Failure := .runtime ⟨x.fault, x.keyword.place⟩

end Signal

/-- Faults of the pieces of a program. The others are those of calls: of a signal that leaves a
function, and of a parameter without a value. -/
def RuntimeFault.Ordinary : RuntimeFault → Prop
  | .missingArgument _ | .breakOutsideLoop | .nextOutsideLoop => False
  | _ => True

mutual

/-- The signals in a statement that are inside none of its loops, functions and classes. -/
def Stmt.signals : Stmt → List Signal
  | .expr _ | .var _ _ | .while _ _ | .for _ _ _ | .function _ | .return _ _ | .class _ _ _ _ => []
  | .block body => Stmt.signalsAll body
  | .ifThen _ whenTrue => whenTrue.signals
  | .ifElse _ whenTrue whenFalse => whenTrue.signals ++ whenFalse.signals
  | .break keyword => [.break keyword]
  | .next keyword => [.next keyword]

def Stmt.signalsAll : List Stmt → List Signal
  | [] => []
  | s :: ss => s.signals ++ Stmt.signalsAll ss

end

mutual

/-- Does a `return` stand in the statement outside its functions and classes? -/
def Stmt.returns : Stmt → Bool
  | .expr _ | .var _ _ | .function _ | .break _ | .next _ | .class _ _ _ _ => false
  | .block body => Stmt.returnsAll body
  | .ifThen _ whenTrue => whenTrue.returns
  | .ifElse _ whenTrue whenFalse => whenTrue.returns || whenFalse.returns
  | .while _ body => body.returns
  | .for _ _ body => body.returns
  | .return _ _ => true

def Stmt.returnsAll : List Stmt → Bool
  | [] => false
  | s :: ss => s.returns || Stmt.returnsAll ss

end

mutual

/-- The functions and methods declared in a statement, without those inside one another. -/
def Stmt.decls : Stmt → List FunctionDecl
  | .expr _ | .var _ _ | .return _ _ | .break _ | .next _ => []
  | .block body => Stmt.declsAll body
  | .ifThen _ whenTrue => whenTrue.decls
  | .ifElse _ whenTrue whenFalse => whenTrue.decls ++ whenFalse.decls
  | .while _ body => body.decls
  | .for _ _ body => body.decls
  | .function decl => [decl]
  | .class _ _ methods statics => methods ++ statics

def Stmt.declsAll : List Stmt → List FunctionDecl
  | [] => []
  | s :: ss => s.decls ++ Stmt.declsAll ss

end

mutual

/-- Does every `break` and `next` of the statement stand in the body of a loop inside the same
function? The flag says whether one is around the statement. -/
def Stmt.guarded (inLoop : Bool) : Stmt → Bool
  | .expr _ | .var _ _ | .return _ _ => true
  | .block body => Stmt.guardedAll inLoop body
  | .ifThen _ whenTrue => whenTrue.guarded inLoop
  | .ifElse _ whenTrue whenFalse => whenTrue.guarded inLoop && whenFalse.guarded inLoop
  | .while _ body => body.guarded true
  | .for _ _ body => body.guarded true
  | .function decl => decl.guarded
  | .break _ | .next _ => inLoop
  | .class _ _ methods statics => FunctionDecl.guardedAll methods && FunctionDecl.guardedAll statics

def Stmt.guardedAll (inLoop : Bool) : List Stmt → Bool
  | [] => true
  | s :: ss => s.guarded inLoop && Stmt.guardedAll inLoop ss

def FunctionDecl.guarded : FunctionDecl → Bool
  | ⟨_, _, body⟩ => Stmt.guardedAll false body

def FunctionDecl.guardedAll : List FunctionDecl → Bool
  | [] => true
  | d :: ds => d.guarded && FunctionDecl.guardedAll ds

end

/-- A flow with signals of a list, or with a value if that may be. -/
def Flow.Among (signals : List Signal) (returns : Bool) : Flow → Prop
  | .normal => True
  | .return _ => returns = true
  | .break k => .break k ∈ signals
  | .next k => .next k ∈ signals

/-- A flow among some signals is one among more. -/
theorem Flow.Among.mono {signals signals' : List Signal} {returns returns' : Bool} {flow : Flow}
    (h : flow.Among signals returns) (hs : ∀ x ∈ signals, x ∈ signals')
    (hr : returns = true → returns' = true) : flow.Among signals' returns' := by
  cases flow with
  | normal => trivial
  | «return» v => exact hr h
  | «break» k => exact hs _ h
  | next k => exact hs _ h

theorem Flow.Among.signal {signals : List Signal} {returns : Bool} {x : Signal}
    (h : x.flow.Among signals returns) : x ∈ signals := by
  cases x <;> exact h

theorem Stmt.returnsAll_of_mem {s : Stmt} {ss : List Stmt} (hs : s ∈ ss) (h : s.returns = true) :
    Stmt.returnsAll ss = true := by
  induction ss with
  | nil => cases hs
  | cons s' ss ih =>
    rw [returnsAll, Bool.or_eq_true]
    rcases List.mem_cons.1 hs with rfl | hs
    · exact .inl h
    · exact .inr (ih hs)

@[simp] theorem FunctionDecl.guardedAll_eq_true {ds : List FunctionDecl} :
    FunctionDecl.guardedAll ds = true ↔ ∀ d ∈ ds, d.guarded = true := by
  induction ds with
  | nil => simp [guardedAll]
  | cons d ds ih => simp [guardedAll, ih]

theorem FunctionDecl.guarded_eq (d : FunctionDecl) : d.guarded = Stmt.guardedAll false d.body := by
  cases d
  rfl

mutual

/-- No signal leaves a statement that is guarded outside every loop. -/
theorem Stmt.signals_of_guarded {s : Stmt} (h : s.guarded false = true) : s.signals = [] := by
  cases s with
  | block body => exact Stmt.signalsAll_of_guarded h
  | ifThen condition whenTrue => exact whenTrue.signals_of_guarded h
  | ifElse condition whenTrue whenFalse =>
    rw [guarded, Bool.and_eq_true] at h
    rw [signals, whenTrue.signals_of_guarded h.1, whenFalse.signals_of_guarded h.2]
    rfl
  | «break» keyword => cases h
  | next keyword => cases h
  | _ => rfl

theorem Stmt.signalsAll_of_guarded {ss : List Stmt} (h : Stmt.guardedAll false ss = true) :
    Stmt.signalsAll ss = [] := by
  cases ss with
  | nil => rfl
  | cons s ss =>
    rw [guardedAll, Bool.and_eq_true] at h
    rw [signalsAll, s.signals_of_guarded h.1, Stmt.signalsAll_of_guarded h.2]
    rfl

end

mutual

/-- The functions in a guarded statement are guarded, whether or not it is in a loop. -/
theorem Stmt.guarded_decls {s : Stmt} {inLoop : Bool} (h : s.guarded inLoop = true) :
    ∀ d ∈ s.decls, d.guarded = true := by
  cases s with
  | block body => exact Stmt.guarded_declsAll h
  | ifThen condition whenTrue => exact whenTrue.guarded_decls h
  | ifElse condition whenTrue whenFalse =>
    rw [guarded, Bool.and_eq_true] at h
    exact List.forall_mem_append.2 ⟨whenTrue.guarded_decls h.1, whenFalse.guarded_decls h.2⟩
  | «while» condition body => exact body.guarded_decls h
  | «for» condition increment body => exact body.guarded_decls h
  | function decl =>
    rw [guarded] at h
    simpa [decls] using h
  | «class» name superclass methods statics =>
    rw [guarded, Bool.and_eq_true, FunctionDecl.guardedAll_eq_true,
      FunctionDecl.guardedAll_eq_true] at h
    exact List.forall_mem_append.2 h
  | _ => nofun

/-- In statements that are guarded all functions are. -/
theorem Stmt.guarded_declsAll {ss : List Stmt} {inLoop : Bool}
    (h : Stmt.guardedAll inLoop ss = true) : ∀ d ∈ Stmt.declsAll ss, d.guarded = true := by
  cases ss with
  | nil => nofun
  | cons s ss =>
    rw [guardedAll, Bool.and_eq_true] at h
    exact List.forall_mem_append.2 ⟨s.guarded_decls h.1, Stmt.guarded_declsAll h.2⟩

end

end Scriptling

namespace Scriptling

abbrev Table (α : Type) := List (String × α)

namespace Table

variable {α : Type} {table : Table α} {name : String}

def get? : Table α → String → Option α
  | [], _ => none
  | (key, value) :: rest, name => if key = name then some value else get? rest name

def has (t : Table α) (name : String) : Bool := (t.get? name).isSome

/-- Gives a name a value, whether or not it has one. -/
def put (name : String) (value : α) : Table α → Table α
  | [] => [(name, value)]
  | (key, old) :: rest =>
    if key = name then (key, value) :: rest else (key, old) :: put name value rest

def names (t : Table α) : List String := t.map Prod.fst

@[simp] theorem get?_put (t : Table α) (name key : String) (value : α) :
    (put name value t).get? key = if name = key then some value else t.get? key := by
  induction t with
  | nil => simp [put, get?]
  | cons entry rest ih =>
    obtain ⟨k, old⟩ := entry
    by_cases hk : k = name
    · subst hk
      by_cases hq : k = key <;> simp [put, get?, hq]
    · by_cases hq : k = key
      · subst hq
        simp [put, get?, hk, Ne.symm hk]
      · simp [put, get?, hk, hq, ih]

/-- What is true of every value stays so when a value is put in that it is true of. -/
theorem forall_put {P : α → Prop} (h : ∀ key u, table.get? key = some u → P u) {v : α} (hv : P v) :
    ∀ key u, (table.put name v).get? key = some u → P u := by
  intro key u hu
  rw [get?_put] at hu
  split at hu
  · cases hu
    exact hv
  · exact h key u hu

theorem has_iff : table.has name = true ↔ name ∈ table.names := by
  induction table with
  | nil => simp [has, get?, names]
  | cons entry rest ih =>
    by_cases h : entry.1 = name
    · simp [has, get?, names, h]
    · simp only [has, names] at ih
      simp [has, get?, names, h, Ne.symm h, ih]

theorem names_put_of_mem (h : name ∈ table.names) (v : α) :
    (table.put name v).names = table.names := by
  induction table with
  | nil => cases h
  | cons entry rest ih =>
    rw [put]
    split
    · rfl
    · rename_i hne
      have hrest : name ∈ names rest := (List.mem_cons.1 h).resolve_left (Ne.symm hne)
      exact congrArg (entry.1 :: ·) (ih hrest)

theorem names_put_of_notMem (h : name ∉ table.names) (v : α) :
    (table.put name v).names = table.names ++ [name] := by
  induction table with
  | nil => rfl
  | cons entry rest ih =>
    obtain ⟨hne, hrest⟩ := not_or.1 (mt List.mem_cons.2 h)
    rw [put, if_neg (Ne.symm hne)]
    exact congrArg (entry.1 :: ·) (ih hrest)

end Table

end Scriptling

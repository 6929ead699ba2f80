namespace Scriptling.Text

def within (ranges : Array (Nat × Nat)) (c : Char) : Bool :=
  ranges.any fun r => decide (r.1 ≤ c.toNat ∧ c.toNat ≤ r.2)

end Scriptling.Text

/-!
# Numbers

Limits of words, and sums and greatest members of lists of numbers.
-/

namespace AssemblyGate

def wordLimit : Nat := 0x100000000

def total : List Nat → Nat
  | [] => 0
  | value :: values => value + total values

@[simp] theorem total_nil : total [] = 0 := rfl

@[simp] theorem total_cons (value : Nat) (values : List Nat) :
    total (value :: values) = value + total values := rfl

@[simp] theorem total_append (front back : List Nat) :
    total (front ++ back) = total front + total back := by
  induction front with
  | nil => simp
  | cons value values ih => simp [ih, Nat.add_assoc]

@[simp] theorem foldl_max_le_iff {values : List Nat} {start bound : Nat} :
    values.foldl max start ≤ bound ↔ start ≤ bound ∧ ∀ value ∈ values, value ≤ bound := by
  induction values generalizing start with
  | nil => simp
  | cons value values ih =>
      rw [List.foldl_cons, ih, Nat.max_le, List.forall_mem_cons, and_assoc]

end AssemblyGate

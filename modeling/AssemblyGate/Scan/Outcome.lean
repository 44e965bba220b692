import AssemblyGate.Metadata.Resolve
import AssemblyGate.Violation

/-!
# Outcomes of reading a row

Reading a row for a scan either fails, which ends the scan, or has an outcome: the
row is kept, it is refused with a violation, or it is of no interest.
-/

namespace AssemblyGate

inductive Outcome (α : Type) where
  | kept (value : α)
  | refused (violation : Violation)
  | skipped
  deriving Repr

namespace Outcome

variable {α β : Type}

def kept? : Outcome α → Option α
  | .kept value => some value
  | _ => none

def refused? : Outcome α → Option Violation
  | .refused violation => some violation
  | _ => none

def keptOf (outcomes : List (Outcome α)) : List α := outcomes.filterMap kept?

def refusedOf (outcomes : List (Outcome α)) : List Violation := outcomes.filterMap refused?

end Outcome

/-- A construct that is not modelled becomes a violation; any other failure stays one. -/
def Resolve.modelled {α : Type} (action : Resolve α) : Resolve (Outcome α) := fun cache =>
  match action cache with
  | (.ok value, cache) => (.ok (.kept value), cache)
  | (.error (.unmodelled cause), cache) => (.ok (.refused (.unmodelled cause)), cache)
  | (.error error, cache) => (.error error, cache)

def rids (count : Nat) : List Nat := (List.range count).map (· + 1)

end AssemblyGate

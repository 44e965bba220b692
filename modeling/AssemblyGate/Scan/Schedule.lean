import AssemblyGate.Scan.Members

/-!
# Orders of work

Reading the rows of the members and checking the members may be spread over several
workers, which take the work in any order.  A schedule is such an order: it
rearranges the work and leaves nothing out.  Members are handed on in the order of
their rows; violations come in the order in which they were found.
-/

namespace AssemblyGate

structure Schedule where
  rows : List Nat → List Nat
  members : List MemberRef → List MemberRef
  rows_perm : ∀ work, (rows work).Perm work
  members_perm : ∀ work, (members work).Perm work

namespace Schedule

/-- A single worker, which goes from the first to the last. -/
def inOrder : Schedule := ⟨id, id, List.Perm.refl, List.Perm.refl⟩

end Schedule

def Outcome.inRowOrder {α : Type} (found : List (Nat × Outcome α)) : List (Outcome α) :=
  (found.mergeSort fun left right => decide (left.1 ≤ right.1)).map Prod.snd

def Metadata.memberReferencesIn (metadata : Metadata) (schedule : Schedule) :
    Resolve (List (Nat × Outcome MemberRef)) :=
  (schedule.rows (rids (metadata.rowCount .memberRef))).mapM fun rid => do
    let outcome ← metadata.memberReference rid
    pure (rid, outcome)

end AssemblyGate

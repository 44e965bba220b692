import AssemblyGate.Error

/-!
# Computations that fail and keep a state

Decoders, resolvers and scans may fail.  What they have done to their state up to
then is kept, because whoever goes on after the failure can see it.
-/

namespace AssemblyGate

abbrev Fallible (σ : Type) := ExceptT Error (StateM σ)

namespace Fallible

variable {σ α : Type}

def ofExcept (result : Except Error α) : Fallible σ α := fun state => (result, state)

def runOn (computation : Fallible σ α) (state : σ) : Except Error α × σ := computation state

end Fallible

end AssemblyGate

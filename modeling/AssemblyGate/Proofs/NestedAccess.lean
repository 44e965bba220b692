import AssemblyGate.Policy.Access

/-!
# Access to nested types

Access to a nested type is decided from the inside out, through the type around it, while
policies are nested from the outside in.  `TypeReference.descend` goes from a type inwards
along a list of names, and `TypePolicy.descend?` follows the same names through the policies:
the policy of the type that is reached is the policy that is reached.
-/

namespace AssemblyGate

/-! ## Going inwards -/

namespace TypeReference

def descend (root : TypeReference) (names : List String) : TypeReference :=
  names.foldl (fun outer name => .nested (.referenced outer) none name) root

@[simp] theorem descend_nil (root : TypeReference) : root.descend [] = root := rfl

@[simp] theorem descend_cons (root : TypeReference) (name : String) (names : List String) :
    root.descend (name :: names) =
      (TypeReference.nested (.referenced root) none name).descend names := rfl

@[simp] theorem descend_append (root : TypeReference) (names deeper : List String) :
    root.descend (names ++ deeper) = (root.descend names).descend deeper :=
  List.foldl_append

def ns? : TypeReference → Option String
  | .top _ ns _ => ns
  | .nested _ ns _ => ns

end TypeReference

namespace TypePolicy

/-- The policy below a policy along a list of names.  Below full access there is full access. -/
def descend? : TypePolicy → List String → Option TypePolicy
  | policy, [] => some policy
  | policy, name :: names =>
      if policy.all then allowAll.descend? names
      else
        match policy.nested.lookup name with
        | none => none
        | some inner => inner.descend? names

@[simp] theorem descend?_nil (policy : TypePolicy) : policy.descend? [] = some policy := rfl

@[simp] theorem descend?_cons (policy : TypePolicy) (name : String) (names : List String) :
    policy.descend? (name :: names) =
      (Policy.nestedAccess policy name).bind fun inner => inner.descend? names := by
  simp only [descend?, Policy.nestedAccess, nestedPolicy?]
  split
  · rfl
  · cases policy.nested.lookup name <;> rfl

@[simp] theorem descend?_allowAll (names : List String) :
    allowAll.descend? names = some allowAll := by
  induction names with
  | nil => rfl
  | cons name names ih => simpa [descend?, allowAll] using ih

@[simp] theorem descend?_of_all {policy : TypePolicy} (hall : policy.all = true) (name : String)
    (names : List String) : policy.descend? (name :: names) = some allowAll := by
  simp [descend?, hall]

end TypePolicy

namespace Policy

variable {policy : Policy} {root : TypeReference}

/-! ## Access -/

@[simp] theorem access_nested (policy : Policy) (outer : TypeReference) (name : String) :
    policy.access (.nested (.referenced outer) none name) =
      (policy.access outer).bind fun around => nestedAccess around name := by
  simp [access]

@[simp] theorem access_descend (policy : Policy) (root : TypeReference) (names : List String) :
    policy.access (root.descend names) =
      (policy.access root).bind fun outer => outer.descend? names := by
  -- The outermost name is taken into the root, so the root is general in the induction.
  induction names generalizing root with
  | nil => simp
  | cons name names ih =>
      rw [TypeReference.descend_cons, ih, access_nested, Option.bind_assoc]
      simp only [TypePolicy.descend?_cons]

theorem access_descend_of_all {outer : TypePolicy} (haccess : policy.access root = some outer)
    (hall : outer.all = true) (name : String) (names : List String) :
    policy.access (root.descend (name :: names)) = some .allowAll := by
  rw [access_descend, haccess, Option.bind_some, TypePolicy.descend?_of_all hall]

inductive Trusts (policy : Policy) : TypeReference → Prop
  | byNamespace {reference : TypeReference} {ns : String} (hns : reference.ns? = some ns)
      (h : policy.trustsNamespace ns = true) : Trusts policy reference
  | byAssembly {assembly name : String} {ns : Option String}
      (h : policy.trustsAssembly assembly = true) : Trusts policy (.top assembly ns name)

@[simp] theorem Trusts.access (h : policy.Trusts root) : policy.access root = some .allowAll := by
  cases h with
  | byNamespace hns htrusts =>
      cases root <;> simp only [TypeReference.ns?] at hns <;> simp [Policy.access, hns, htrusts]
  | @byAssembly assembly name ns htrusts => cases ns <;> simp [Policy.access, htrusts]

/--
The policy of a nested type is found by going inwards from the policy of the outermost one.
Inside of a type with full access, and inside of one whose namespace or assembly is trusted,
all access is full.
-/
theorem access_along_path (policy : Policy) (root : TypeReference) (names : List String) :
    policy.access (root.descend names) =
        ((policy.access root).bind fun outer => outer.descend? names) ∧
      (∀ (outer : TypePolicy) (name : String) (deeper : List String),
        policy.access (root.descend names) = some outer → outer.all = true →
          policy.access (root.descend (names ++ name :: deeper)) = some .allowAll) ∧
      (policy.Trusts root → policy.access (root.descend names) = some .allowAll) := by
  refine ⟨access_descend policy root names, ?_, ?_⟩
  · intro outer name deeper haccess hall
    rw [TypeReference.descend_append]
    exact access_descend_of_all haccess hall name deeper
  · intro htrusts
    rw [access_descend, htrusts.access, Option.bind_some, TypePolicy.descend?_allowAll]

private def slotPolicy : TypePolicy := ⟨true, .block, [], [], []⟩

/-- An enumerator is allowed in a dictionary, and everything inside of its slots. -/
def dictionaryPolicy : Policy where
  systemAssembly := "System.Runtime"
  namespaces := ["Game.Shared"]
  assemblies := ["Bundle"]
  toleratedDefects := []
  types := [("System.Collections.Generic", [("Dictionary`2", ⟨false, .default, [], [],
    [("Enumerator", ⟨false, .allow, [], [], [("Slot", slotPolicy)]⟩)]⟩)])]

theorem access_dictionarySlot :
    let root : TypeReference := .top "System.Collections" (some "System.Collections.Generic")
      "Dictionary`2"
    dictionaryPolicy.access (root.descend ["Enumerator", "Slot"]) = some slotPolicy ∧
      dictionaryPolicy.access (root.descend ["Enumerator", "Slot", "Entry", "Key"]) =
        some .allowAll ∧
      dictionaryPolicy.access (root.descend ["Keys", "Slot"]) = none ∧
      dictionaryPolicy.access ((TypeReference.top "Bundle" none "Outer").descend ["Inner"]) =
        some .allowAll := by
  intro root
  obtain ⟨hslot, hinside, -⟩ := access_along_path dictionaryPolicy root ["Enumerator", "Slot"]
  have hfound : dictionaryPolicy.access (root.descend ["Enumerator", "Slot"]) = some slotPolicy :=
    hslot.trans rfl
  refine ⟨hfound, hinside slotPolicy "Entry" ["Key"] hfound rfl, ?_, ?_⟩
  · exact (access_along_path dictionaryPolicy root ["Keys", "Slot"]).1.trans rfl
  · exact (access_along_path dictionaryPolicy _ ["Inner"]).2.2 (.byAssembly (by decide))

end Policy

end AssemblyGate

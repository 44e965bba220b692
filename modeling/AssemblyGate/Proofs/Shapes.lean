import AssemblyGate.Policy.Access
import AssemblyGate.Proofs.Declarations
import AssemblyGate.Proofs.Histories
import AssemblyGate.Proofs.Mentions

/-!
# Shapes of types

Types of an assembly and types of a policy share one representation, but neither uses all of
it.  `Scanned` gives the types that tokens and signatures of an assembly can stand for, in
whatever order they are asked for and whatever a cache holds by then; `Written` gives those
that a declaration can name.  They overlap only in what both are meant to write.  So access is
never decided for a type that stands inside anything but a reference.
-/

namespace AssemblyGate

open Fallible

/-! ## Types of an assembly -/

inductive TypeReference.Rooted : TypeReference → Prop
  | top {assembly : String} {ns : Option String} {name : String} : Rooted (.top assembly ns name)
  | nested {outer : TypeReference} {ns : Option String} {name : String} (houter : Rooted outer) :
      Rooted (.nested (.referenced outer) ns name)

namespace TypeExpr

/--
The types that an assembly can mention.  None of them is written in a policy, at whatever
depth; all references are rooted, and every instantiation has arguments.
-/
inductive Scanned : TypeExpr → Prop
  | primitive {builtin : Primitive} : Scanned (.primitive builtin)
  | definition {type : TypeExpr} (hdefinition : IsDefinition type) : Scanned type
  | referenced {reference : TypeReference} (hrooted : reference.Rooted) :
      Scanned (.referenced reference)
  | generic {definition : TypeExpr} {arguments : List TypeExpr} (hdefinition : Scanned definition)
      (hnonempty : arguments ≠ []) (harguments : ∀ argument ∈ arguments, Scanned argument) :
      Scanned (.generic definition arguments)
  | modified {underlying modifier : TypeExpr} {required : Bool} (hunderlying : Scanned underlying)
      (hmodifier : Scanned modifier) : Scanned (.modified underlying modifier required)
  | array {element : TypeExpr} {rank : Nat} (helement : Scanned element) :
      Scanned (.array element rank)
  | szArray {element : TypeExpr} (helement : Scanned element) : Scanned (.szArray element)
  | pointer {element : TypeExpr} (helement : Scanned element) : Scanned (.pointer element)
  | byRef {element : TypeExpr} (helement : Scanned element) : Scanned (.byRef element)
  | typeParameter {index : Nat} : Scanned (.typeParameter index)
  | methodParameter {index : Nat} : Scanned (.methodParameter index)
  | functionPointer {header : SignatureHeader} {returnType : TypeExpr} {required arity : Nat}
      {parameters : List TypeExpr} (hreturn : Scanned returnType)
      (hparameters : ∀ parameter ∈ parameters, Scanned parameter) :
      Scanned (.functionPointer header returnType required arity parameters)

end TypeExpr

theorem SigType.Over.scanned {type : SigType TypeExpr} (h : type.Over TypeExpr.Scanned) :
    type.toTypeExpr.Scanned := by
  induction h with
  | primitive => exact .primitive
  | pointer _ ih => exact .pointer ih
  | byRef _ ih => exact .byRef ih
  | handle hleaf => exact hleaf
  | typeParameter => exact .typeParameter
  | methodParameter => exact .methodParameter
  | array _ ih => exact .array ih
  | szArray _ ih => exact .szArray ih
  | generic _ hnonempty _ ihdefinition iharguments =>
      rw [toTypeExpr, toTypeExprs_eq_map]
      exact .generic ihdefinition (mt List.map_eq_nil_iff.mp hnonempty)
        (List.forall_mem_map.mpr iharguments)
  | functionPointer _ _ ihreturn ihparameters =>
      rw [toTypeExpr, toTypeExprs_eq_map]
      exact .functionPointer ihreturn (List.forall_mem_map.mpr ihparameters)
  | modified hmodifier _ ih => exact .modified ih hmodifier
  | pinned _ ih => exact ih

namespace Metadata

variable {metadata : Metadata}

theorem Refers.rooted {rows rid : Nat} {reference : TypeReference}
    (h : metadata.Refers rows rid reference) : reference.Rooted := by
  induction h with
  | top => exact .top
  | inside _ _ ih => exact .nested ih

theorem hereditary_scanned (metadata : Metadata) : metadata.Hereditary TypeExpr.Scanned where
  definition := fun _ _ htype => .definition (isDefinition_of_typeDefinitionIn htype)
  reference := fun _ _ _ hrefers => .referenced hrefers.rooted
  signature := fun _ htype => htype.scanned

/-! ## Requests -/

inductive Request where
  | call (call : Call)
  | field (blob : List UInt8)
  | method (blob : List UInt8)
  deriving DecidableEq, Repr

def fieldType (metadata : Metadata) (blob : List UInt8) : Resolve TypeExpr := do
  let type ← Signature.Decoder.onBlob (Signature.Decoder.field metadata.leaf) blob
  pure type.toTypeExpr

def methodTypes (metadata : Metadata) (blob : List UInt8) : Resolve (List TypeExpr) := do
  let signature ← Signature.Decoder.onBlob (Signature.Decoder.method metadata.leaf) blob
  pure (signature.returnType.toTypeExpr :: SigType.toTypeExprs signature.parameters)

def afterRequest (metadata : Metadata) (cache : Cache) : Request → Cache
  | .call call => metadata.afterCall cache call
  | .field blob => ((metadata.fieldType blob).runOn cache).2
  | .method blob => ((metadata.methodTypes blob).runOn cache).2

theorem ensures_fieldType (metadata : Metadata) (blob : List UInt8) :
    Ensures metadata.CacheSound TypeExpr.Scanned (metadata.fieldType blob) := by
  have hleaf : ∀ token mark, Ensures metadata.CacheSound TypeExpr.Scanned
      (metadata.leaf token mark) :=
    fun token _ => metadata.hereditary_scanned.ensures_resolve token
  exact .bind (Signature.Decoder.ensures_field hleaf _)
    fun _ htype => .pure htype.scanned

theorem ensures_methodTypes (metadata : Metadata) (blob : List UInt8) :
    Ensures metadata.CacheSound (fun types => ∀ type ∈ types, type.Scanned)
      (metadata.methodTypes blob) := by
  have hleaf : ∀ token mark, Ensures metadata.CacheSound TypeExpr.Scanned
      (metadata.leaf token mark) :=
    fun token _ => metadata.hereditary_scanned.ensures_resolve token
  refine .bind (Signature.Decoder.ensures_method hleaf _)
    fun signature hsignature => .pure ?_
  rw [SigType.toTypeExprs_eq_map, List.forall_mem_cons]
  exact ⟨hsignature.returnType.scanned,
    List.forall_mem_map.mpr fun type htype => (hsignature.parameters type htype).scanned⟩

theorem CacheSound.afterRequest {cache : Cache} (h : metadata.CacheSound cache)
    (request : Request) : metadata.CacheSound (metadata.afterRequest cache request) := by
  have hscanned := metadata.hereditary_scanned
  intro rid reference hfound
  cases request with
  | field blob => exact (metadata.ensures_fieldType blob cache h).1 hfound
  | method blob => exact (metadata.ensures_methodTypes blob cache h).1 hfound
  | call call =>
      cases call with
      | reference rid => exact (hscanned.ensures_typeReference rid cache h).1 hfound
      | specification rid =>
          have hleaf := fun token (_ : Bool) => hscanned.ensures_resolveAt (nestingLimit - 1) token
          exact (hscanned.ensures_specification hleaf rid cache h).1 hfound
      | resolve token => exact (hscanned.ensures_resolve token cache h).1 hfound

theorem CacheSound.afterRequests {cache : Cache} (h : metadata.CacheSound cache)
    (requests : List Request) :
    metadata.CacheSound (requests.foldl metadata.afterRequest cache) := by
  induction requests generalizing cache with
  | nil => exact h
  | cons request requests ih => exact ih (h.afterRequest request)

end Metadata

/-! ## Access -/

theorem TypeReference.Rooted.mentioned {reference : TypeReference} (h : reference.Rooted) :
    ∀ other ∈ reference.mentioned, other.Rooted := by
  induction h with
  | top => exact List.forall_mem_singleton.mpr .top
  | nested houter ih => exact List.forall_mem_cons.mpr ⟨.nested houter, ih⟩

theorem TypeExpr.Scanned.mentionsOnly_rooted {type : TypeExpr} (h : type.Scanned) :
    type.MentionsOnly TypeReference.Rooted := by
  induction h with
  | primitive | typeParameter | methodParameter => exact List.forall_mem_nil _
  | definition hdefinition =>
      intro reference hmentioned
      simp [hdefinition] at hmentioned
  | referenced hrooted => exact hrooted.mentioned
  | generic _ _ _ ihdefinition iharguments =>
      exact List.forall_mem_append.mpr ⟨ihdefinition, forall_mem_mentionedIn_iff.mpr iharguments⟩
  | modified _ _ ihunderlying ihmodifier =>
      exact List.forall_mem_append.mpr ⟨ihunderlying, ihmodifier⟩
  | array _ ih | szArray _ ih | pointer _ ih | byRef _ ih => exact ih
  | functionPointer _ _ ihreturn ihparameters =>
      exact List.forall_mem_append.mpr ⟨ihreturn, forall_mem_mentionedIn_iff.mpr ihparameters⟩

namespace Policy

/--
Access to types, where a type without a namespace that stands inside anything but a reference is
decided by `otherwise`.
-/
def accessOr (otherwise : TypeExpr → String → Option TypePolicy) (policy : Policy) :
    TypeReference → Option TypePolicy
  | .nested (.referenced outer) none name =>
      (accessOr otherwise policy outer).bind fun outer => nestedAccess outer name
  | .nested scope none name => otherwise scope name
  | reference => policy.access reference

@[simp] theorem accessOr_none (policy : Policy) (reference : TypeReference) :
    policy.accessOr (fun _ _ => none) reference = policy.access reference := by
  fun_induction accessOr (fun _ _ => none) policy reference with
  | case1 outer name ih => rw [ih, access]
  | case2 scope name hscope => rw [access]; exact hscope
  | case3 reference => rfl

@[simp] theorem accessOr_of_rooted (otherwise : TypeExpr → String → Option TypePolicy) (policy : Policy)
    {reference : TypeReference} (h : reference.Rooted) :
    policy.accessOr otherwise reference = policy.access reference := by
  induction h with
  | top => rw [accessOr] <;> nofun
  | @nested outer ns name _ ih =>
      cases ns with
      | none => rw [accessOr, access, ih]
      | some ns => rw [accessOr] <;> nofun

end Policy

/-! ## Types of a policy -/

namespace TypeExpr

inductive IsName : TypeExpr → Prop
  | parsed {ns : Option String} {name : String} : IsName (.parsed ns name)
  | parsedIn {parent : TypeExpr} {name : String} (hparent : IsName parent) :
      IsName (.parsedIn parent none name)

/--
The types that a declaration can name.  Only names are instantiated, and arrays and pointers
have no by-references as elements.
-/
inductive Written : TypeExpr → Prop
  | primitive {builtin : Primitive} : Written (.primitive builtin)
  | named {type : TypeExpr} (hname : IsName type) : Written type
  | generic {definition : TypeExpr} {arguments : List TypeExpr} (hname : IsName definition)
      (hnonempty : arguments ≠ []) (harguments : ∀ argument ∈ arguments, Written argument) :
      Written (.generic definition arguments)
  | szArray {element : TypeExpr} (helement : Written element)
      (hvalue : ∀ inner, element ≠ .byRef inner) : Written (.szArray element)
  | pointer {element : TypeExpr} (helement : Written element)
      (hvalue : ∀ inner, element ≠ .byRef inner) : Written (.pointer element)
  | byRef {element : TypeExpr} (helement : Written element) : Written (.byRef element)
  | typeParameter {index : Nat} : Written (.typeParameter index)
  | methodParameter {index : Nat} : Written (.methodParameter index)

end TypeExpr

namespace Declaration

theorem isName_dottedType (first : String) (others : List String) :
    (dottedType first others).IsName := by
  unfold dottedType
  split <;> exact .parsed

theorem isName_nestedType {outer : TypeExpr} (houter : outer.IsName) (names : List String) :
    (nestedType outer names).IsName := by
  induction names generalizing outer with
  | nil => exact houter
  | cons name names ih => exact ih (.parsedIn houter)

theorem Path.isName (path : Path) : path.type.IsName :=
  isName_nestedType (isName_dottedType _ _) _

theorem Declared.written {type : TypeExpr} (h : Declared type) : type.Written := by
  induction h with
  | primitive builtin => exact .primitive
  | typeParameter => exact .typeParameter
  | methodParameter => exact .methodParameter
  | named path _ => exact .named path.isName
  | generic path hnonempty _ ih => exact .generic path.isName hnonempty ih
  | szArray _ hvalue ih => exact .szArray ih hvalue
  | pointer _ hvalue ih => exact .pointer ih hvalue
  | byRef _ ih => exact .byRef ih

end Declaration

namespace Metadata

variable {metadata : Metadata}

/--
Whatever was asked before, with a cache or without one, a type of an assembly is scanned and
the access to the references in it is decided through references alone.  A type of a policy
is written.
-/
theorem types_have_shapes {start : Cache} (hstart : start = Cache.disabled ∨ start = Cache.empty)
    (requests : List Request) :
    let cache := requests.foldl metadata.afterRequest start
    (∀ rid reference, ((metadata.typeReference rid).runOn cache).1 = .ok reference →
      reference.Rooted) ∧
    (∀ token type, ((metadata.resolve token).runOn cache).1 = .ok type → type.Scanned) ∧
    (∀ blob type, ((metadata.fieldType blob).runOn cache).1 = .ok type → type.Scanned) ∧
    (∀ blob types, ((metadata.methodTypes blob).runOn cache).1 = .ok types →
      ∀ type ∈ types, type.Scanned) ∧
    (∀ type : TypeExpr, type.Scanned → ∀ reference ∈ type.mentioned, ∀ policy otherwise,
      Policy.accessOr otherwise policy reference = policy.access reference) ∧
    ∀ text type, parseType text = .ok type → type.Written := by
  intro cache
  have hsound : metadata.CacheSound start := by
    rcases hstart with rfl | rfl
    · exact cacheSound_disabled
    · exact cacheSound_empty
  have hcache : metadata.CacheSound cache := hsound.afterRequests requests
  have hscanned := metadata.hereditary_scanned
  refine ⟨?reference, ?resolve, ?field, ?method, ?access, ?written⟩
  case reference =>
    intro rid reference h
    cases (hscanned.ensures_typeReference rid cache hcache).2 reference h with
    | referenced hrooted => exact hrooted
    | definition hdefinition => cases hdefinition
  case resolve => exact fun token => (hscanned.ensures_resolve token cache hcache).2
  case field => exact fun blob => (metadata.ensures_fieldType blob cache hcache).2
  case method => exact fun blob => (metadata.ensures_methodTypes blob cache hcache).2
  case access =>
    intro type htype reference hmentioned policy otherwise
    exact Policy.accessOr_of_rooted otherwise policy
      (htype.mentionsOnly_rooted reference hmentioned)
  case written => exact fun text type h => (declared_of_parseType h).written

/-- A type of `L`, a type nested in it, and the first one over arrays of the second. -/
def overNested : Metadata :=
  ofTables [(.typeRef, 2), (.typeSpec, 1), (.assemblyRef, 1)]
    #[6, 0, 3, 0, 0, 0,
      7, 0, 3, 0, 0, 0,
      1, 0,
      0, 0, 0, 0, 0, 0, 0, 0, 0, 0, 0, 0, 0, 0, 5, 0, 0, 0, 0, 0]
    #[0, 77, 0, 84, 0, 76, 0] #[0, 7, 0x15, 0x12, 5, 1, 0x1d, 0x12, 9]

theorem shape_of_overNested :
    let outer := TypeReference.top "L" none "T"
    let inner := TypeReference.nested (.referenced outer) none "T"
    let type := TypeExpr.generic (.referenced outer) [.szArray (.referenced inner)]
    ((overNested.resolve ⟨0x1b000001⟩).runOn
        ([.field [6, 0x12, 9]].foldl overNested.afterRequest Cache.disabled)).1 = .ok type ∧
      type.Scanned ∧ ∀ policy otherwise,
        Policy.accessOr otherwise policy inner = policy.access inner := by
  intro outer inner type
  have hresolve : ((overNested.resolve ⟨0x1b000001⟩).runOn
      ([.field [6, 0x12, 9]].foldl overNested.afterRequest Cache.disabled)).1 = .ok type := by
    decide +kernel
  obtain ⟨-, hscanned, -, -, haccess, -⟩ := types_have_shapes (.inl rfl) [.field [6, 0x12, 9]]
  have htype : type.Scanned := hscanned ⟨0x1b000001⟩ type hresolve
  have hinner : inner ∈ type.mentioned := by
    simp [type, inner, TypeExpr.mentioned, TypeExpr.mentionedIn, TypeReference.mentioned]
  exact ⟨hresolve, htype, haccess type htype inner hinner⟩

end Metadata

end AssemblyGate

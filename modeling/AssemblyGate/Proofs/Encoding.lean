import AssemblyGate.Proofs.Leaves

/-!
# Encoding signatures

`SigType.encode` and `MethodSignature.encode` write a tree as a blob holds it.  The decoder
is their inverse on every tree that can be encoded: whatever stands behind the encoding, it
gives the tree back and stops right there, unless types are nested past the limit.
Every step of the decoder is described by `Signature.Reads`, which says how the bytes of one
part are read and when its nesting fits.
-/

namespace AssemblyGate

/-! ## Compressed numbers and tokens -/

def compressedLimit : Nat := 0x20000000

@[simp] theorem compressedNumber_one {lead : UInt8} (h : lead.toNat < 0x80) (rest : List UInt8) :
    compressedNumber (lead :: rest) = (.ok lead.toNat, rest) := by
  have hone : lead < 0x80 := UInt8.lt_iff_toNat_lt.mpr h
  simp [compressedNumber, hone]

@[simp] theorem compressedNumber_two {lead : UInt8} (hlow : 0x80 ≤ lead.toNat)
    (hhigh : lead.toNat < 0xc0) (low : UInt8) (rest : List UInt8) :
    compressedNumber (lead :: low :: rest) =
      (.ok ((lead.toNat - 0x80) * 256 + low.toNat), rest) := by
  have hone : ¬ lead < 0x80 := Nat.not_lt.mpr hlow
  have htwo : lead < 0xc0 := UInt8.lt_iff_toNat_lt.mpr hhigh
  simp [compressedNumber, hone, htwo]

@[simp] theorem compressedNumber_four {lead : UInt8} (hlow : 0xc0 ≤ lead.toNat)
    (hhigh : lead.toNat < 0xe0) (high mid low : UInt8) (rest : List UInt8) :
    compressedNumber (lead :: high :: mid :: low :: rest) =
      (.ok ((((lead.toNat - 0xc0) * 256 + high.toNat) * 256 + mid.toNat) * 256 + low.toNat),
        rest) := by
  have hone : ¬ lead < 0x80 := Nat.not_lt.mpr (Nat.le_trans (by decide) hlow)
  have htwo : ¬ lead < 0xc0 := Nat.not_lt.mpr hlow
  have hfour : lead < 0xe0 := UInt8.lt_iff_toNat_lt.mpr hhigh
  simp [compressedNumber, hone, htwo, hfour]

@[simp] theorem compressedNumber_encodeCompressed {value : Nat} (h : value < compressedLimit)
    (rest : List UInt8) :
    compressedNumber (encodeCompressed value ++ rest) = (.ok value, rest) := by
  rw [compressedLimit] at h
  unfold encodeCompressed
  split
  · next hone =>
      have hlead : (UInt8.ofNat value).toNat = value := Nat.mod_eq_of_lt (by omega)
      rw [List.singleton_append, compressedNumber_one (by omega), hlead]
  · split
    · next hone htwo =>
        have hlead : (UInt8.ofNat (0x80 + value / 0x100)).toNat = 0x80 + value / 0x100 :=
          Nat.mod_eq_of_lt (by omega)
        have hlow : (UInt8.ofNat value).toNat = value % 256 := rfl
        rw [List.cons_append, List.singleton_append,
          compressedNumber_two (by omega) (by omega), hlead, hlow]
        congr 2
        omega
    · next hone htwo =>
        have hlead : (UInt8.ofNat (0xc0 + value / 0x1000000)).toNat = 0xc0 + value / 0x1000000 :=
          Nat.mod_eq_of_lt (by omega)
        have hhigh : (UInt8.ofNat (value / 0x10000)).toNat = value / 0x10000 % 256 := rfl
        have hmid : (UInt8.ofNat (value / 0x100)).toNat = value / 0x100 % 256 := rfl
        have hlow : (UInt8.ofNat value).toNat = value % 256 := rfl
        simp only [List.cons_append, List.nil_append]
        rw [compressedNumber_four (by omega) (by omega), hlead, hhigh, hmid, hlow]
        congr 2
        omega

def compressedTag (number : Nat) : Nat :=
  compressedTables.findIdx fun table => table.number == number

def encodeToken (token : Token) : List UInt8 :=
  encodeCompressed (token.row * 4 + compressedTag token.table)

def Token.IsCompressible (token : Token) : Prop :=
  ∃ table ∈ compressedTables, token.table = table.number

@[simp] theorem ofNat_tokenBase_or_row {token : Token} {table : TableId}
    (h : token.table = table.number) :
    Token.ofNat (table.tokenBase ||| token.row) = token := by
  have hrow : token.row < 2 ^ 24 := Nat.mod_lt _ (by decide)
  have hlimit : Token.rowLimit = 2 ^ 24 := rfl
  have hbase : table.tokenBase = 2 ^ 24 * token.table := by
    rw [TableId.tokenBase, h, hlimit, Nat.mul_comm]
  have hvalue : 2 ^ 24 * token.table + token.row = token.value.toNat :=
    Nat.div_add_mod _ _
  rw [hbase, ← Nat.two_pow_add_eq_or_of_lt hrow, hvalue, Token.ofNat, UInt32.ofNat_toNat]

theorem compressedTag_lt {table : TableId} (h : table ∈ compressedTables) :
    compressedTables[compressedTag table.number]? = some table ∧
      compressedTag table.number < 4 := by
  simp only [compressedTables, List.mem_cons, List.not_mem_nil, or_false] at h
  rcases h with rfl | rfl | rfl <;> decide

@[simp] theorem compressedToken_eq_ok {token : Token} (h : token.IsCompressible) :
    compressedToken (token.row * 4 + compressedTag token.table) = .ok token := by
  obtain ⟨table, htable, hnumber⟩ := h
  obtain ⟨htag, hlt⟩ := compressedTag_lt htable
  have hmod : (token.row * 4 + compressedTag table.number) % 4 = compressedTag table.number := by
    omega
  have hdiv : (token.row * 4 + compressedTag table.number) / 4 = token.row := by
    omega
  rw [hnumber, compressedToken, hmod, hdiv, htag]
  simp only [ofNat_tokenBase_or_row hnumber]

theorem compressedToken_lt {token : Token} (h : token.IsCompressible) :
    token.row * 4 + compressedTag token.table < compressedLimit := by
  obtain ⟨table, htable, hnumber⟩ := h
  have hrow : token.row < 2 ^ 24 := Nat.mod_lt _ (by decide)
  have htag := (compressedTag_lt htable).2
  rw [hnumber, compressedLimit]
  omega

/-! ## Encoded trees -/

def encodeNumbers (values : List Nat) : List UInt8 :=
  encodeCompressed values.length ++ (values.map encodeCompressed).flatten

def ArrayShape.encode (shape : ArrayShape) : List UInt8 :=
  encodeCompressed shape.rank ++ (encodeNumbers shape.sizes ++ encodeNumbers shape.lowerBounds)

def encodeParameters (required : Nat) (parameters : List (List UInt8)) : List UInt8 :=
  if required < parameters.length then
    (parameters.take required).flatten ++ sentinelByte :: (parameters.drop required).flatten
  else
    parameters.flatten

def encodeMethod (signature : MethodSignature (List UInt8)) : List UInt8 :=
  signature.header.byte ::
    ((if signature.header.isGeneric then encodeCompressed signature.arity else []) ++
      (encodeCompressed signature.parameters.length ++
        (signature.returnType ++ encodeParameters signature.required signature.parameters)))

namespace SigType

mutual
def encode : SigType Handle → List UInt8
  | .primitive builtin => [(Element.primitive builtin).byte]
  | .pointer element => Element.pointer.byte :: element.encode
  | .byRef element => Element.byRef.byte :: element.encode
  | .handle leaf => (Element.handle leaf.isValueType).byte :: encodeToken leaf.token
  | .typeParameter index => Element.typeParameter.byte :: encodeCompressed index
  | .methodParameter index => Element.methodParameter.byte :: encodeCompressed index
  | .array element shape => Element.array.byte :: (element.encode ++ shape.encode)
  | .szArray element => Element.szArray.byte :: element.encode
  | .generic definition arguments =>
      Element.generic.byte :: (definition.encode ++
        (encodeCompressed arguments.length ++ (encodeEach arguments).flatten))
  | .functionPointer header returnType required arity parameters =>
      Element.functionPointer.byte ::
        encodeMethod ⟨header, returnType.encode, required, arity, encodeEach parameters⟩
  | .modified modifier underlying required =>
      (Element.modifier required).byte :: (encodeToken modifier.token ++ underlying.encode)
  | .pinned element => Element.pinned.byte :: element.encode

def encodeEach : List (SigType Handle) → List (List UInt8)
  | [] => []
  | type :: types => type.encode :: encodeEach types
end

mutual
def height {η : Type} : SigType η → Nat
  | .primitive _ | .handle _ | .typeParameter _ | .methodParameter _ => 1
  | .pointer element | .byRef element | .szArray element | .pinned element
  | .array element _ | .modified _ element _ => element.height + 1
  | .generic definition arguments => max definition.height (heightOfAll arguments) + 1
  | .functionPointer _ returnType _ _ parameters =>
      max returnType.height (heightOfAll parameters) + 1

def heightOfAll {η : Type} : List (SigType η) → Nat
  | [] => 0
  | type :: types => max type.height (heightOfAll types)
end

@[simp] theorem encodeEach_eq_map (types : List (SigType Handle)) :
    encodeEach types = types.map encode := by
  induction types with
  | nil => rfl
  | cons type types ih => simp [encodeEach, ih]

@[simp] theorem heightOfAll_le_iff {η : Type} {types : List (SigType η)} {limit : Nat} :
    heightOfAll types ≤ limit ↔ ∀ type ∈ types, type.height ≤ limit := by
  induction types with
  | nil => simp [heightOfAll]
  | cons type types ih => rw [heightOfAll, Nat.max_le, ih, List.forall_mem_cons]

theorem height_pos {η : Type} (type : SigType η) : 0 < type.height := by
  cases type <;> simp [height]

theorem encode_eq_cons (type : SigType Handle) :
    ∃ element bytes, type.encode = Element.byte element :: bytes := by
  cases type <;> simp only [encode] <;> exact ⟨_, _, rfl⟩

end SigType

def MethodSignature.encode (signature : MethodSignature (SigType Handle)) : List UInt8 :=
  encodeMethod ⟨signature.header, signature.returnType.encode, signature.required,
    signature.arity, SigType.encodeEach signature.parameters⟩

def MethodSignature.height {η : Type} (signature : MethodSignature (SigType η)) : Nat :=
  max signature.returnType.height (SigType.heightOfAll signature.parameters)

def MethodSignature.unpinned {η : Type} (signature : MethodSignature (SigType η)) :
    MethodSignature (SigType η) :=
  { signature with
    returnType := signature.returnType.unpinned
    parameters := SigType.unpinnedList signature.parameters }

def fieldByte : UInt8 := 0x06

theorem Element.byte_ne_sentinelByte (element : Element) : element.byte ≠ sentinelByte := by
  cases element with
  | primitive builtin => cases builtin <;> decide
  | handle isValueType => cases isValueType <;> decide
  | modifier required => cases required <;> decide
  | _ => decide

/-! ### What can be encoded -/

structure ArrayShape.Encodable (shape : ArrayShape) : Prop where
  rank : shape.rank < compressedLimit
  sizeCount : shape.sizes.length ≤ shape.rank
  sizes : ∀ size ∈ shape.sizes, size < compressedLimit
  boundCount : shape.lowerBounds.length ≤ shape.rank
  lowerBounds : ∀ bound ∈ shape.lowerBounds, bound < compressedLimit

structure MethodSignature.CountsFit {τ : Type} (signature : MethodSignature τ) : Prop where
  isMethod : signature.header.isMethod = true
  arity : if signature.header.isGeneric then signature.arity < compressedLimit
    else signature.arity = 0
  count : signature.parameters.length < compressedLimit
  required : signature.required ≤ signature.parameters.length

inductive SigType.Encodable : SigType Handle → Prop
  | primitive {builtin : Primitive} : Encodable (.primitive builtin)
  | pointer {element : SigType Handle} (h : Encodable element) : Encodable (.pointer element)
  | byRef {element : SigType Handle} (h : Encodable element) : Encodable (.byRef element)
  | handle {leaf : Handle} (h : leaf.token.IsCompressible) : Encodable (.handle leaf)
  | typeParameter {index : Nat} (h : index < compressedLimit) : Encodable (.typeParameter index)
  | methodParameter {index : Nat} (h : index < compressedLimit) :
      Encodable (.methodParameter index)
  | array {element : SigType Handle} {shape : ArrayShape} (helement : Encodable element)
      (hshape : shape.Encodable) : Encodable (.array element shape)
  | szArray {element : SigType Handle} (h : Encodable element) : Encodable (.szArray element)
  | generic {leaf : Handle} {arguments : List (SigType Handle)} (hleaf : leaf.token.IsCompressible)
      (hne : arguments ≠ []) (hcount : arguments.length < compressedLimit)
      (harguments : ∀ argument ∈ arguments, Encodable argument) :
      Encodable (.generic (.handle leaf) arguments)
  | functionPointer {header : SignatureHeader} {returnType : SigType Handle} {required arity : Nat}
      {parameters : List (SigType Handle)}
      (hcounts : MethodSignature.CountsFit ⟨header, returnType, required, arity, parameters⟩)
      (hreturn : Encodable returnType) (hparameters : ∀ parameter ∈ parameters, Encodable parameter) :
      Encodable (.functionPointer header returnType required arity parameters)
  | modified {modifier : Handle} {underlying : SigType Handle} {required : Bool}
      (hmodifier : modifier.token.IsCompressible) (hmark : modifier.isValueType = false)
      (hunderlying : Encodable underlying) : Encodable (.modified modifier underlying required)
  | pinned {element : SigType Handle} (h : Encodable element) : Encodable (.pinned element)

structure MethodSignature.Encodable (signature : MethodSignature (SigType Handle)) : Prop where
  counts : signature.CountsFit
  types : signature.All SigType.Encodable

namespace Signature

/-! ## Reading what is encoded -/

/--
The bytes are read as the value and nothing behind them is touched, or, if the value does not
fit, the nesting limit is reported.
-/
def Reads {α : Type} (step : Decoder Unit α) (fits : Prop) (bytes : List UInt8) (value : α) : Prop :=
  ∀ rest depth,
    (fits → step.runOn (⟨bytes ++ rest, depth⟩, ()) = (.ok value, (⟨rest, depth⟩, ()))) ∧
    (¬ fits → (step.runOn (⟨bytes ++ rest, depth⟩, ())).1 = .error .nestingLimit)

namespace Reads

variable {α β : Type} {fits fits' : Prop} {bytes bytes' : List UInt8}

theorem of_runOn {step : Decoder Unit α} {value : α}
    (h : ∀ rest depth,
      step.runOn (⟨bytes ++ rest, depth⟩, ()) = (.ok value, (⟨rest, depth⟩, ()))) :
    Reads step True bytes value :=
  fun rest depth => ⟨fun _ => h rest depth, fun hnot => absurd trivial hnot⟩

theorem congr {step : Decoder Unit α} {value : α} (h : Reads step fits bytes value)
    (hfits : fits' ↔ fits) (hbytes : bytes' = bytes) : Reads step fits' bytes' value := by
  rwa [propext hfits, hbytes]

theorem pure (value : α) : Reads (Pure.pure value) True [] value :=
  of_runOn fun _ _ => rfl

theorem bind {first : Decoder Unit α} {next : α → Decoder Unit β} {value : α} {result : β}
    (hfirst : Reads first fits bytes value) (hnext : Reads (next value) fits' bytes' result) :
    Reads (first >>= next) (fits ∧ fits') (bytes ++ bytes') result := by
  intro rest depth
  obtain ⟨hok, hlimit⟩ := hfirst (bytes' ++ rest) depth
  obtain ⟨hok', hlimit'⟩ := hnext rest depth
  rw [List.append_assoc, Fallible.runOn_bind]
  constructor
  · rintro ⟨hfits, hfits'⟩
    rw [hok hfits]
    exact hok' hfits'
  · intro hnot
    by_cases hfits : fits
    · rw [hok hfits]
      exact hlimit' fun hfits' => hnot ⟨hfits, hfits'⟩
    · have herror := hlimit hfits
      rcases hrun : first.runOn (⟨bytes ++ (bytes' ++ rest), depth⟩, ()) with ⟨result, state⟩
      rw [hrun] at herror
      cases herror
      rfl

theorem after {first : Decoder Unit α} {next : α → Decoder Unit β} {value : α} {result : β}
    (hfirst : Reads first True bytes value) (hnext : Reads (next value) fits' bytes' result) :
    Reads (first >>= next) fits' (bytes ++ bytes') result :=
  (bind hfirst hnext).congr (by simp) rfl

theorem map {step : Decoder Unit α} {value : α} (h : Reads step fits bytes value) (f : α → β) :
    Reads (step >>= fun value => Pure.pure (f value)) fits bytes (f value) :=
  (bind h (pure (f value))).congr (by simp) (by simp)

theorem lead {next : UInt8 → Decoder Unit α} {lead : UInt8} {value : α}
    (h : Reads (next lead) fits bytes value) :
    Reads (Decoder.byte >>= next) fits (lead :: bytes) value :=
  have hlead : Reads Decoder.byte True [lead] lead := of_runOn fun _ _ => rfl
  after hlead h

theorem ahead {next : UInt8 → Decoder Unit α} {lead : UInt8} {value : α}
    (h : Reads (next lead) fits (lead :: bytes) value) :
    Reads (Decoder.peek >>= next) fits (lead :: bytes) value :=
  fun rest depth => h rest depth

theorem within {step : Decoder Unit α} {value : α} (h : Reads step fits bytes value) :
    Reads (Decoder.within step) fits bytes value := by
  intro rest depth
  obtain ⟨hok, hlimit⟩ := h rest (depth + 1)
  constructor
  · intro hfits
    have hrun : step (⟨bytes ++ rest, depth + 1⟩, ()) = (.ok value, (⟨rest, depth + 1⟩, ())) :=
      hok hfits
    simp only [Fallible.runOn, Decoder.within, hrun, Nat.add_sub_cancel]
  · exact hlimit

theorem times {item : Decoder Unit α} {values : List α} {encode : α → List UInt8}
    {fits : α → Prop} (h : ∀ value ∈ values, Reads item (fits value) (encode value) value) :
    Reads (Decoder.times item values.length) (∀ value ∈ values, fits value)
      (values.map encode).flatten values := by
  induction values with
  | nil => exact (pure []).congr (by simp) rfl
  | cons value values ih =>
      refine (bind (h value (by simp)) (map (ih fun other hother => h other ?_) _)).congr ?_ rfl
      · simp [hother]
      · simp

end Reads

open Decoder

theorem reads_number {value : Nat} (h : value < compressedLimit) :
    Reads number True (encodeCompressed value) value := by
  refine .of_runOn fun rest depth => ?_
  have hread := compressedNumber_encodeCompressed h rest
  simp only [Fallible.runOn, number, Decoder.read, hread]

theorem reads_token {token : Token} (h : token.IsCompressible) :
    Reads Decoder.token True (encodeToken token) token := by
  have htoken : Reads (Fallible.ofExcept (compressedToken _)) True [] token :=
    .of_runOn fun rest depth => by rw [Fallible.runOn_ofExcept, compressedToken_eq_ok h]; rfl
  exact ((reads_number (compressedToken_lt h)).after htoken).congr Iff.rfl (by simp [encodeToken])

theorem reads_leaf {leaf : Handle} (h : leaf.token.IsCompressible) {α : Type}
    {next : Handle → Decoder Unit α} {fits : Prop} {bytes : List UInt8} {value : α}
    (hnext : Reads (next leaf) fits bytes value) :
    Reads (do
        let token ← Decoder.token
        next (← resolving (bareHandles token leaf.isValueType)))
      fits (encodeToken leaf.token ++ bytes) value := by
  have hleaf : Reads (resolving (bareHandles leaf.token leaf.isValueType)) True [] leaf :=
    .of_runOn fun _ _ => rfl
  exact .after (reads_token h) (.after hleaf hnext)

theorem reads_counted {values : List Nat} {limit : Nat} {cause : Nat → Malformation} {α : Type}
    {next : List Nat → Decoder Unit α} {bytes : List UInt8} {value : α}
    (hcount : values.length < compressedLimit) (hlimit : values.length ≤ limit)
    (hvalues : ∀ value ∈ values, value < compressedLimit)
    (hnext : Reads (next values) True bytes value) :
    Reads (do
        let count ← number
        if count > limit then
          malformed (cause count)
        next (← times number count))
      True (encodeNumbers values ++ bytes) value := by
  have hnumbers : Reads (times number values.length) True (values.map encodeCompressed).flatten
      values :=
    (Reads.times fun value hvalue => reads_number (hvalues value hvalue)).congr (by simp) rfl
  rw [encodeNumbers, List.append_assoc]
  refine .after (reads_number hcount) ?_
  simp only [if_neg (Nat.not_lt.mpr hlimit)]
  exact .after hnumbers hnext

theorem reads_arrayShape {shape : ArrayShape} (h : shape.Encodable) :
    Reads arrayShape True shape.encode shape := by
  have hsizes := Nat.lt_of_le_of_lt h.sizeCount h.rank
  have hbounds := Nat.lt_of_le_of_lt h.boundCount h.rank
  rw [ArrayShape.encode, ← List.append_nil (encodeNumbers shape.lowerBounds)]
  refine .after (reads_number h.rank) ?_
  refine reads_counted hsizes h.sizeCount h.sizes ?_
  exact reads_counted hbounds h.boundCount h.lowerBounds (.pure shape)

theorem reads_arity {generic : Bool} {arity : Nat} {α : Type} {next : Nat → Decoder Unit α}
    {fits : Prop} {bytes : List UInt8} {value : α}
    (h : if generic then arity < compressedLimit else arity = 0)
    (hnext : Reads (next arity) fits bytes value) :
    Reads (if generic then number >>= next else pure 0 >>= next) fits
      ((if generic then encodeCompressed arity else []) ++ bytes) value := by
  cases generic with
  | true => exact .after (reads_number h) hnext
  | false =>
      cases h
      exact .after (.pure 0) hnext

section

variable {type : Decoder Unit (SigType Handle)} {levels : Nat}
  (htype : ∀ {tree : SigType Handle}, tree.Encodable →
    Reads type (tree.height ≤ levels) tree.encode tree)

include htype

theorem reads_parameters_cons {count remaining required : Nat} {tree : SigType Handle}
    {found : List (SigType Handle) × Nat} {fits : Prop} {bytes : List UInt8}
    (htree : tree.Encodable)
    (hothers : Reads (parameters type count remaining required) fits bytes found) :
    Reads (parameters type count (remaining + 1) required) (tree.height ≤ levels ∧ fits)
      (tree.encode ++ bytes) (tree :: found.1, found.2) := by
  -- What is ahead is the first byte of the type, which is never the sentinel.
  obtain ⟨element, tail, hencode⟩ := tree.encode_eq_cons
  have hlead : element.byte ≠ sentinelByte := element.byte_ne_sentinelByte
  have hbytes : tree.encode ++ bytes = element.byte :: (tail ++ bytes) := by simp [hencode]
  rw [hbytes]
  refine .ahead ?_
  simp only [if_neg hlead, pure_bind]
  rw [← hbytes]
  exact .bind (htype htree) (.map hothers fun found => (tree :: found.1, found.2))

theorem reads_parameters (count required : Nat) {trees : List (SigType Handle)}
    (h : ∀ tree ∈ trees, tree.Encodable) :
    Reads (parameters type count trees.length required) (∀ tree ∈ trees, tree.height ≤ levels)
      (trees.map SigType.encode).flatten (trees, required) := by
  induction trees with
  | nil => exact (Reads.pure ([], required)).congr (by simp) rfl
  | cons tree trees ih =>
      obtain ⟨htree, htrees⟩ := List.forall_mem_cons.mp h
      rw [List.forall_mem_cons]
      exact reads_parameters_cons htype htree (ih htrees)

theorem reads_parameters_sentinel (count : Nat) {before after : List (SigType Handle)}
    (hbefore : ∀ tree ∈ before, tree.Encodable) (hafter : ∀ tree ∈ after, tree.Encodable)
    (hne : after ≠ []) :
    Reads (parameters type count (before ++ after).length count)
      (∀ tree ∈ before ++ after, tree.height ≤ levels)
      ((before.map SigType.encode).flatten ++ sentinelByte :: (after.map SigType.encode).flatten)
      (before ++ after, count - after.length) := by
  induction before with
  | nil =>
      obtain ⟨tree, trees, rfl⟩ := List.exists_cons_of_ne_nil hne
      obtain ⟨htree, htrees⟩ := List.forall_mem_cons.mp hafter
      rw [List.nil_append, List.forall_mem_cons]
      refine .ahead ?_
      simp only [if_true, ne_eq, not_true, if_false, pure_bind]
      refine .lead ?_
      refine .bind (htype htree) ?_
      exact .map (reads_parameters htype count _ htrees) fun found => (tree :: found.1, found.2)
  | cons tree trees ih =>
      obtain ⟨htree, htrees⟩ := List.forall_mem_cons.mp hbefore
      rw [List.cons_append, List.forall_mem_cons, List.map_cons, List.flatten_cons,
        List.append_assoc]
      exact reads_parameters_cons htype htree (ih htrees)

theorem reads_allParameters {required : Nat} {trees : List (SigType Handle)}
    (hrequired : required ≤ trees.length) (h : ∀ tree ∈ trees, tree.Encodable) :
    Reads (parameters type trees.length trees.length trees.length)
      (∀ tree ∈ trees, tree.height ≤ levels)
      (encodeParameters required (trees.map SigType.encode)) (trees, required) := by
  rw [encodeParameters, List.length_map]
  split
  · next hlt =>
      have hbefore : ∀ tree ∈ trees.take required, tree.Encodable :=
        fun tree htree => h tree (List.mem_of_mem_take htree)
      have hafter : ∀ tree ∈ trees.drop required, tree.Encodable :=
        fun tree htree => h tree (List.mem_of_mem_drop htree)
      have hread := reads_parameters_sentinel htype trees.length hbefore hafter (by simpa using hlt)
      have hcount : trees.length - (trees.length - required) = required := by omega
      rwa [List.take_append_drop, List.length_drop, hcount, List.map_take, List.map_drop] at hread
  · next hnot =>
      obtain rfl : required = trees.length := by omega
      exact reads_parameters htype trees.length trees.length h

theorem reads_methodSignature {signature : MethodSignature (SigType Handle)}
    (h : signature.Encodable) :
    Reads (methodSignature type) (signature.height ≤ levels) signature.encode signature := by
  obtain ⟨⟨header⟩, returnType, required, arity, trees⟩ := signature
  obtain ⟨⟨hmethod, harity, hcount, hrequired⟩, htypes⟩ := h
  rw [MethodSignature.height, Nat.max_le, SigType.heightOfAll_le_iff, MethodSignature.encode,
    encodeMethod, SigType.encodeEach_eq_map, List.length_map]
  refine .lead ?_
  simp only [hmethod, Bool.not_true, Bool.false_eq_true, if_false]
  refine reads_arity harity (.after (reads_number hcount) (.bind (htype htypes.returnType) ?_))
  exact .map (reads_allParameters htype hrequired htypes.parameters) fun found =>
    (⟨⟨header⟩, returnType, found.2, arity, found.1⟩ : MethodSignature (SigType Handle))

theorem reads_typeBody {tree : SigType Handle} (h : tree.Encodable) :
    Reads (typeBody bareHandles type) (tree.height ≤ levels + 1) tree.encode tree := by
  cases h
  -- The first byte tells the constructor, and what is left to fit is one level less.
  all_goals refine .lead ?_
  all_goals simp only [Element.ofByte?_byte, SigType.height, Nat.add_le_add_iff_right,
    Nat.le_add_left, Nat.max_le, SigType.heightOfAll_le_iff]
  case primitive => exact .pure _
  case pointer helement => exact .map (htype helement) _
  case byRef helement => exact .map (htype helement) _
  case handle hleaf => exact .congr (reads_leaf hleaf (.pure _)) Iff.rfl (by simp)
  case typeParameter hindex => exact .map (reads_number hindex) _
  case methodParameter hindex => exact .map (reads_number hindex) _
  case array helement hshape =>
    exact .congr (.bind (htype helement) (.map (reads_arrayShape hshape) _)) (by simp) rfl
  case szArray helement => exact .map (htype helement) _
  case generic leaf arguments hleaf hne hcount harguments =>
    have hdefinition := htype (.handle hleaf)
    have hkind : ¬ ((Element.handle leaf.isValueType).byte ≠ (Element.handle true).byte ∧
        (Element.handle leaf.isValueType).byte ≠ (Element.handle false).byte) := by
      cases leaf.isValueType <;> decide
    rw [SigType.encodeEach_eq_map]
    refine .ahead ?_
    simp only [if_neg hkind]
    refine .bind hdefinition (.after (reads_number hcount) ?_)
    simp only [List.length_eq_zero_iff, if_neg hne]
    exact .map (.times fun argument hargument => htype (harguments argument hargument)) _
  case functionPointer header returnType required arity parameters hcounts hreturn hparameters =>
    have hread := reads_methodSignature htype ⟨hcounts, hreturn, hparameters⟩
    refine .congr (.map hread _) ?_ rfl
    rw [MethodSignature.height, Nat.max_le, SigType.heightOfAll_le_iff]
  case modified modifier underlying required hmodifier hmark hunderlying =>
    rw [← hmark]
    exact reads_leaf hmodifier (.map (htype hunderlying) _)
  case pinned helement => exact .map (htype helement) _

end

theorem reads_typeAt (levels : Nat) {tree : SigType Handle} (h : tree.Encodable) :
    Reads (typeAt bareHandles levels) (tree.height ≤ levels) tree.encode tree := by
  induction levels generalizing tree with
  | zero =>
      intro rest depth
      have hpos := tree.height_pos
      exact ⟨fun hfits => absurd hfits (by omega), fun _ => rfl⟩
  | succ levels ih => exact (reads_typeBody ih h).within

theorem reads_fieldSignature (levels : Nat) {tree : SigType Handle} (h : tree.Encodable) :
    Reads (fieldSignature (typeAt bareHandles levels)) (tree.height ≤ levels)
      (fieldByte :: tree.encode) tree :=
  .lead (reads_typeAt levels h)

/-! ## Decoding what was encoded -/

/--
A blob that starts with the bytes gives the value and is left right behind them if the height
is within the limit, and is refused for its nesting otherwise.
-/
def Inverts {α : Type} (step : Decoder Unit α) (bytes : List UInt8) (height : Nat) (value : α) :
    Prop :=
  ∀ rest,
    (height ≤ 50 → step.runOn (.start (bytes ++ rest), ()) = (.ok value, (.start rest, ()))) ∧
    (50 < height → (step.runOn (.start (bytes ++ rest), ())).1 = .error .nestingLimit)

theorem Reads.inverts {α β : Type} {step : Nat → Decoder Unit α}
    {bytes : List UInt8} {value : α} {height : Nat}
    (h : Reads (step nestingLimit) (height ≤ nestingLimit) bytes value) (f : α → β) :
    Inverts (f <$> withLevels step) bytes height (f value) := by
  intro rest
  obtain ⟨hok, hlimit⟩ := h.map f rest 0
  rw [map_eq_pure_bind]
  exact ⟨hok, fun hlt => hlimit (Nat.not_le.mpr hlt)⟩

theorem decode_encode :
    (∀ tree : SigType Handle, tree.Encodable →
      Inverts (SigType.unpinned <$> type bareHandles) tree.encode tree.height tree.unpinned ∧
      Inverts (SigType.unpinned <$> field bareHandles) (fieldByte :: tree.encode) tree.height
        tree.unpinned) ∧
    (∀ signature : MethodSignature (SigType Handle), signature.Encodable →
      Inverts (MethodSignature.unpinned <$> method bareHandles) signature.encode signature.height
        signature.unpinned) := by
  refine ⟨fun tree h => ⟨?_, ?_⟩, fun signature h => ?_⟩
  · exact (reads_typeAt nestingLimit h).inverts _
  · exact (reads_fieldSignature nestingLimit h).inverts _
  · exact (reads_methodSignature (reads_typeAt nestingLimit) h).inverts _

/-- A generic method with a variable part, whose types have every layout. -/
def everyLayout : MethodSignature (SigType Handle) where
  header := ⟨0x15⟩
  returnType := .modified ⟨⟨0x01000002⟩, false⟩ (.byRef (.methodParameter 0)) true
  required := 1
  arity := 1
  parameters :=
    [.pinned (.pointer (.primitive .int32)),
     .functionPointer ⟨0x00⟩ (.primitive .void) 1 0 [.array (.typeParameter 3) ⟨2, [4], [0, 300]⟩],
     .generic (.handle ⟨⟨0x02000003⟩, true⟩) [.szArray (.handle ⟨⟨0x1b000001⟩, false⟩)]]

theorem everyLayout_encodable : everyLayout.Encodable := by
  have hmodifier : Token.IsCompressible ⟨0x01000002⟩ := ⟨.typeRef, by decide, rfl⟩
  have hdefinition : Token.IsCompressible ⟨0x02000003⟩ := ⟨.typeDef, by decide, rfl⟩
  have hargument : Token.IsCompressible ⟨0x1b000001⟩ := ⟨.typeSpec, by decide, rfl⟩
  have hshape : ArrayShape.Encodable ⟨2, [4], [0, 300]⟩ := by constructor <;> decide
  refine ⟨by constructor <;> decide, ?_, ?_⟩
  · exact .modified hmodifier rfl (.byRef (.methodParameter (by decide)))
  · refine List.forall_mem_cons.mpr ⟨.pinned (.pointer .primitive), ?_⟩
    refine List.forall_mem_cons.mpr ⟨.functionPointer ?_ .primitive ?_, ?_⟩
    · constructor <;> decide
    · exact List.forall_mem_singleton.mpr (.array (.typeParameter (by decide)) hshape)
    · refine List.forall_mem_singleton.mpr (.generic hdefinition (by simp) (by decide) ?_)
      exact List.forall_mem_singleton.mpr (.szArray (.handle hargument))

theorem decode_everyLayout :
    everyLayout.encode =
      [0x15, 0x01, 0x03, 0x1f, 0x09, 0x10, 0x1e, 0x00, 0x45, 0x0f, 0x08, 0x41,
        0x1b, 0x00, 0x01, 0x01, 0x14, 0x13, 0x03, 0x02, 0x01, 0x04, 0x02, 0x00, 0x81, 0x2c,
        0x15, 0x11, 0x0c, 0x01, 0x1d, 0x12, 0x06] ∧
    (MethodSignature.unpinned <$> method bareHandles).runOn
        (.start (everyLayout.encode ++ [0xff]), ()) =
      (.ok everyLayout.unpinned, (.start [0xff], ())) ∧
    ((SigType.unpinned <$> type bareHandles).runOn
      (.start (List.replicate 50 0x0f ++ [0x08]), ())).1 = .error .nestingLimit := by
  refine ⟨by decide, ?_, ?_⟩
  · exact (decode_encode.2 everyLayout everyLayout_encodable [0xff]).1 (by decide)
  · have hdeep : (Nat.repeat SigType.pointer 50 (.primitive .int32)).Encodable := by
      repeat first | exact .primitive | refine .pointer ?_
    exact ((decode_encode.1 _ hdeep).1 []).2 (by decide)

end Signature

end AssemblyGate

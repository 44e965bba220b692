import Mathlib.Data.List.Chain
import Mathlib.Logic.Function.Iterate
import Mathlib.Logic.Relation
import AssemblyGate.Metadata.Resolve
import AssemblyGate.Proofs.Definitions
import AssemblyGate.Proofs.Nesting

/-!
# Specifications inside of specifications

Resolving a token and decoding a signature call each other, each with a count of its own that
only goes up: the specifications that are entered, and the types that are open in one of them.
Told as equations, without levels that run out, they have exactly one solution.  It does not
depend on what is put in for calls that are nested deeper than the two counts allow.

What a specification asks for is a matter of its bytes alone.  So a specification that is inside
of itself would be resolved through itself, at ever fewer levels, and has no type.
-/

namespace AssemblyGate

open Fallible

namespace Signature.Decoder

variable {σ η α α' : Type} {same : α → α' → Prop} {depth : Nat}

/-! ## Steps that do the same at a depth -/

/-- Runs that end alike; those that do not fail end as deep as they started. -/
inductive AgreeingRuns (depth : Nat) (same : α → α' → Prop) :
    Except Error α × Cursor × σ → Except Error α' × Cursor × σ → Prop
  | ok {value : α} {value' : α'} {place : Cursor × σ} (hsame : same value value')
      (hdepth : place.1.depth = depth) : AgreeingRuns depth same (.ok value, place) (.ok value', place)
  | error {error : Error} {place : Cursor × σ} :
      AgreeingRuns depth same (.error error, place) (.error error, place)

def AgreesAt (depth : Nat) : Relation σ σ := fun _ _ same step step' =>
  ∀ place, place.1.depth = depth → AgreeingRuns depth same (step.runOn place) (step'.runOn place)

theorem AgreeingRuns.eq {run run' : Except Error α × Cursor × σ}
    (h : AgreeingRuns depth Eq run run') : run = run' := by
  cases h with
  | ok hsame => rw [hsame]
  | error => rfl

theorem agreesAt_read (parse : List UInt8 → Except Error α × List UInt8) :
    AgreesAt depth Eq (read parse : Decoder σ α) (read parse) := by
  rintro ⟨⟨rest, _⟩, state⟩ rfl
  simp only [runOn, read]
  rcases parse rest with ⟨_ | value, rest'⟩
  · exact .error
  · exact .ok rfl rfl

theorem agreesAt_resolving (action : Fallible σ α) :
    AgreesAt depth Eq (resolving action) (resolving action) := by
  rintro ⟨cursor, state⟩ rfl
  simp only [runOn, resolving]
  rcases action state with ⟨_ | value, state'⟩
  · exact .error
  · exact .ok rfl rfl

theorem lockstep_agreesAt : Lockstep (AgreesAt depth : Relation σ σ) where
  pure hsame _ hdepth := .ok hsame hdepth
  throw _ _ _ := .error
  bind := by
    intro α α' β β' same same' first first' next next' hfirst hnext place hdepth
    have hrun := hfirst place hdepth
    rw [runOn_bind, runOn_bind]
    generalize first.runOn place = run at hrun
    generalize first'.runOn place = run' at hrun
    cases hrun with
    | ok hsame hdepth' => exact hnext _ _ hsame _ hdepth'
    | error => exact .error
  byte := agreesAt_read _
  peek := agreesAt_read _
  number := agreesAt_read _

theorem AgreesAt.typeBody {resolve : Resolver σ η} {type type' : Decoder σ (SigType η)}
    (h : AgreesAt depth Eq type type') :
    AgreesAt depth Eq (typeBody resolve type) (typeBody resolve type') :=
  lockstep_agreesAt.typeBody SigType.congruent_eq (fun _ _ => agreesAt_resolving _) h

theorem AgreesAt.within {step : Decoder σ α} {step' : Decoder σ α'}
    (h : AgreesAt (depth + 1) same step step') :
    AgreesAt depth same (within step) (within step') := by
  rintro place rfl
  have hrun := h (enter place) rfl
  rw [runOn_within, runOn_within]
  generalize step.runOn _ = run at hrun
  generalize step'.runOn _ = run' at hrun
  cases hrun with
  | ok hsame hdepth => exact .ok hsame (congrArg (· - 1) hdepth)
  | error => exact .error

theorem AgreesAt.onBlob_eq {step step' : Decoder σ α} (h : AgreesAt 0 Eq step step')
    (blob : List UInt8) : onBlob step blob = onBlob step' blob := by
  funext state
  have hrun : step (Cursor.start blob, state) = step' (Cursor.start blob, state) :=
    (h (Cursor.start blob, state) rfl).eq
  simp only [onBlob, hrun]

theorem agreesAt_type (resolve : Resolver σ η) :
    AgreesAt depth Eq (typeAt resolve (nestingLimit - depth)) (type resolve) := by
  rintro place rfl
  change AgreeingRuns _ Eq _ ((typeAt resolve (nestingLimit - place.1.depth)).runOn place)
  have hruns := (deepens_typeAt resolve (nestingLimit - place.1.depth)).2 place
  generalize (typeAt resolve (nestingLimit - place.1.depth)).runOn place = run at hruns ⊢
  generalize (typeAt resolve (nestingLimit - place.1.depth + 1)).runOn place = deeper at hruns
  cases hruns with
  | ok _ hdepth => exact .ok rfl hdepth
  | error | stopped => exact .error

theorem type_eq (resolve : Resolver σ η) (place : Cursor × σ) :
    type resolve place =
      if nestingLimit ≤ place.1.depth then limitReached place
      else within (typeBody resolve (type resolve)) place := by
  split
  · next hopened =>
      simp only [type, withLevels, Nat.sub_eq_zero_of_le hopened]
      rfl
  · next hopened =>
      have hlevels : nestingLimit - place.1.depth = nestingLimit - (place.1.depth + 1) + 1 := by
        omega
      have hinner : AgreesAt (place.1.depth + 1) Eq
          (typeAt resolve (nestingLimit - (place.1.depth + 1))) (type resolve) :=
        agreesAt_type resolve
      calc type resolve place
          = within (typeBody resolve (typeAt resolve (nestingLimit - (place.1.depth + 1)))) place := by
            simp only [type, withLevels, hlevels]
            rfl
        _ = within (typeBody resolve (type resolve)) place := (hinner.typeBody.within place rfl).eq

theorem length_rest_of_type {resolve : Resolver σ η} {place place' : Cursor × σ}
    {value : SigType η} (h : (type resolve).runOn place = (.ok value, place')) :
    place'.1.rest.length < place.1.rest.length := by
  rw [type, runOn_withLevels] at h
  cases hlevels : nestingLimit - place.1.depth with
  | zero =>
      rw [hlevels] at h
      cases h
  | succ levels =>
      obtain ⟨behind, htype, hbehind⟩ := exists_behind_shrinks resolve levels
      obtain ⟨⟨rest, depth⟩, state⟩ := place
      rw [hlevels, htype, runOn_within, runOn_bind] at h
      cases rest with
      | nil => cases h
      | cons lead rest =>
          have hle := hbehind lead (⟨rest, depth + 1⟩, state)
          have hrest := congrArg (fun run => run.2.1.rest.length) h
          exact Nat.lt_succ_of_le (hrest ▸ hle)

end Signature.Decoder

open Signature Signature.Decoder

/-! ## The recursion -/

structure Calls where
  resolve : (depth : Nat) → Token → Resolve TypeExpr
  decode : (depth : Nat) → Decoder Cache (SigType TypeExpr)

namespace Metadata

/-- What the two functions do, with the calls that they make put in. -/
def round (metadata : Metadata) (calls : Calls) : Calls where
  resolve depth token :=
    match TableId.ofNumber? token.table with
    | some .typeDef => Fallible.ofExcept (metadata.typeDefinition token.row)
    | some .typeRef => do
        let reference ← metadata.typeReference token.row
        pure (.referenced reference)
    | some .typeSpec =>
        if nestingLimit ≤ depth then
          throw .nestingLimit
        else do
          let row ← Fallible.ofExcept (metadata.row TypeSpecRow token.row)
          let blob ← Fallible.ofExcept (metadata.blob row.signature)
          let type ← onBlob (calls.decode (depth + 1)) blob.toList
          pure type.toTypeExpr
    | _ => throw (.inconsistent (.notAType token))
  decode depth := fun (cursor, cache) =>
    if nestingLimit ≤ cursor.depth then
      limitReached (cursor, cache)
    else
      within (typeBody (fun token _ => calls.resolve depth token) (calls.decode depth))
        (cursor, cache)

def calls (metadata : Metadata) : Calls where
  resolve depth := metadata.resolveAt (nestingLimit - depth)
  decode depth := type fun token _ => metadata.resolveAt (nestingLimit - depth) token

end Metadata

namespace Calls

variable {calls calls' : Calls} {metadata : Metadata} {count : Nat}

def rank (depth : Nat) : Nat := (nestingLimit - depth) * (nestingLimit + 2)

def rounds : Nat := (nestingLimit + 1) * (nestingLimit + 2)

theorem rank_lt {depth : Nat} (h : depth < nestingLimit) :
    rank (depth + 1) + (nestingLimit + 1) < rank depth := by
  have hlevels : nestingLimit - depth = (nestingLimit - (depth + 1)) + 1 := by omega
  rw [rank, rank, hlevels, Nat.add_mul]
  omega

structure AgreeFor (count : Nat) (calls calls' : Calls) : Prop where
  resolve : ∀ depth, rank depth < count → calls.resolve depth = calls'.resolve depth
  decode : ∀ depth opened, rank depth + (nestingLimit + 1 - opened) < count →
    AgreesAt opened Eq (calls.decode depth) (calls'.decode depth)

theorem AgreeFor.round (h : AgreeFor count calls calls') :
    AgreeFor (count + 1) (metadata.round calls) (metadata.round calls') where
  resolve depth hrank := by
    funext token
    simp only [Metadata.round]
    split
    · rfl
    · rfl
    · split
      · rfl
      · next hdepth =>
          -- The count of open types starts again, which one specification less pays for.
          have hlt := rank_lt (Nat.lt_of_not_le hdepth)
          have hdecode := h.decode (depth + 1) 0 (by omega)
          simp only [hdecode.onBlob_eq]
    · rfl
  decode depth opened hrank := by
    intro place hplace
    simp only [Metadata.round, runOn]
    split
    · exact .error
    · next hopened =>
        have hlt : opened < nestingLimit := hplace ▸ Nat.lt_of_not_le hopened
        have hbody : AgreesAt (opened + 1) Eq
            (typeBody (fun token _ => calls.resolve depth token) (calls.decode depth))
            (typeBody (fun token _ => calls'.resolve depth token) (calls'.decode depth)) := by
          rw [h.resolve depth (by omega)]
          exact (h.decode depth (opened + 1) (by omega)).typeBody
        exact hbody.within place hplace

theorem agreeFor_iterate (metadata : Metadata) (calls calls' : Calls) (count : Nat) :
    AgreeFor count (metadata.round^[count] calls) (metadata.round^[count] calls') := by
  induction count with
  | zero => exact ⟨nofun, nofun⟩
  | succ count ih =>
      rw [Function.iterate_succ_apply', Function.iterate_succ_apply']
      exact ih.round

theorem AgreeFor.eq (h : AgreeFor Calls.rounds calls calls') : calls = calls' := by
  -- No call has a rank of as many rounds, so that none is left out.
  have hrank : ∀ depth, rank depth ≤ nestingLimit * (nestingLimit + 2) := fun depth =>
    Nat.mul_le_mul_right _ (Nat.sub_le _ _)
  have hrounds : Calls.rounds = nestingLimit * (nestingLimit + 2) + (nestingLimit + 2) :=
    Nat.succ_mul _ _
  obtain ⟨resolve, decode⟩ := calls
  obtain ⟨resolve', decode'⟩ := calls'
  have hresolve : resolve = resolve' := by
    funext depth
    exact h.resolve depth (by have := hrank depth; omega)
  have hdecode : decode = decode' := by
    funext depth place
    exact (h.decode depth place.1.depth (by have := hrank depth; omega) place rfl).eq
  rw [hresolve, hdecode]

end Calls

namespace Metadata

variable {metadata : Metadata}

theorem round_iterate_eq (metadata : Metadata) (calls calls' : Calls) :
    metadata.round^[Calls.rounds] calls = metadata.round^[Calls.rounds] calls' :=
  (Calls.agreeFor_iterate metadata calls calls' Calls.rounds).eq

@[simp] theorem round_calls (metadata : Metadata) :
    metadata.round metadata.calls = metadata.calls := by
  have hresolve : (metadata.round metadata.calls).resolve = metadata.calls.resolve := by
    funext depth token
    by_cases hdepth : nestingLimit ≤ depth
    · simp only [round, calls, if_pos hdepth, Nat.sub_eq_zero_of_le hdepth]
      exact (resolveAt.eq_def metadata 0 token).symm
    · have hlevels : nestingLimit - depth = nestingLimit - (depth + 1) + 1 := by omega
      simp only [round, calls, if_neg hdepth, hlevels]
      exact (resolveAt.eq_def metadata (nestingLimit - (depth + 1) + 1) token).symm
  have hdecode : (metadata.round metadata.calls).decode = metadata.calls.decode := by
    funext depth place
    exact (type_eq _ place).symm
  exact congrArg₂ Calls.mk hresolve hdecode

@[simp] theorem round_eq_self_iff {calls : Calls} :
    metadata.round calls = calls ↔ calls = metadata.calls := by
  constructor
  · intro hcalls
    -- Rounds do not change either of them, but make them the same.
    have hsame := round_iterate_eq metadata calls metadata.calls
    rwa [Function.iterate_fixed hcalls, Function.iterate_fixed metadata.round_calls] at hsame
  · rintro rfl
    exact metadata.round_calls

end Metadata

/-! ## What a blob asks for -/

namespace Signature

variable {σ σ' η α α' : Type} {leaf : Resolver σ η} {blob : List UInt8} {state after : σ}

def recording (leaf : Resolver σ η) : Resolver (σ × List Token) η := fun token mark noted =>
  let answer := leaf token mark noted.1
  (answer.1, answer.2, token :: noted.2)

/-- The tokens that a blob asks for, as long as it is answered. -/
def tokensOf (blob : List UInt8) : List Token :=
  ((onBlob (type (recording fun _ _ => (pure () : Fallible Unit Unit))) blob).runOn ((), [])).2.2

def Answered (leaf : Resolver σ η) (token : Token) : Prop :=
  ∃ mark state value, ((leaf token mark).runOn state).1 = .ok value

abbrev Simulates (states : σ → σ' → Prop) (same : α → α' → Prop) (action : Fallible σ α)
    (action' : Fallible σ' α') : Prop :=
  Alike .always .never states same action action'

theorem recording_of_onBlob {value : SigType η}
    (h : (onBlob (type leaf) blob).runOn state = (.ok value, after)) :
    (onBlob (type (recording leaf)) blob).runOn (state, []) = (.ok value, after, tokensOf blob) ∧
      ∀ token ∈ tokensOf blob, Answered leaf token := by
  -- The recording goes along with the run, and the run that is always answered with the recording.
  let kept (state : σ) (noted : σ × List Token) : Prop :=
    noted.1 = state ∧ ∀ token ∈ noted.2, Answered leaf token
  let sameTokens (noted : σ × List Token) (noted' : Unit × List Token) : Prop :=
    noted.2 = noted'.2
  have hkept : ∀ token mark, Simulates kept Eq (leaf token mark) (recording leaf token mark) := by
    rintro token mark _ ⟨state, tokens⟩ ⟨rfl, htokens⟩
    simp only [runOn, recording]
    rcases hanswer : leaf token mark state with ⟨_ | value, after⟩
    · exact .excused trivial
    · have hanswered : Answered leaf token := ⟨mark, state, value, congrArg Prod.fst hanswer⟩
      exact .ok rfl ⟨rfl, List.forall_mem_cons.mpr ⟨hanswered, htokens⟩⟩
  have hsame : ∀ token mark, Simulates sameTokens (fun _ _ => True) (recording leaf token mark)
      (recording (fun _ _ => (pure () : Fallible Unit Unit)) token mark) := by
    rintro token mark ⟨state, tokens⟩ ⟨_, _⟩ rfl
    simp only [runOn, recording]
    rcases leaf token mark state with ⟨_ | value, after⟩
    · exact .excused trivial
    · exact .ok trivial rfl
  obtain ⟨_, ⟨_, tokens⟩, hrun, rfl, rfl, hanswered⟩ :=
    (alike_onBlob (alike_type SigType.congruent_eq hkept) blob state (state, [])
      ⟨rfl, by simp⟩).exists_of_ok h
  obtain ⟨_, ⟨_, _⟩, hrun', -, rfl⟩ :=
    (alike_onBlob (alike_type SigType.congruent_any hsame) blob (state, []) ((), [])
      rfl).exists_of_ok hrun
  have htokens : tokensOf blob = tokens := congrArg (fun run => run.2.2) hrun'
  rw [htokens]
  exact ⟨hrun, hanswered⟩

end Signature

/-! ## Specifications that are inside of others -/

namespace Metadata

variable {metadata : Metadata} {levels rid inner : Nat} {rows : List Nat}

/-- The blob of a specification asks for another one. -/
def Enters (metadata : Metadata) (rid inner : Nat) : Prop :=
  ∃ row blob token, metadata.row TypeSpecRow rid = .ok row ∧
    metadata.blob row.signature = .ok blob ∧ token ∈ tokensOf blob.toList ∧
    TableId.ofNumber? token.table = some .typeSpec ∧ token.row = inner

def HasType (metadata : Metadata) (levels rid : Nat) : Prop :=
  ∃ cache type, ((metadata.specification rid fun token _ =>
    metadata.resolveAt levels token).runOn cache).1 = .ok type

theorem hasType_of_resolveAt {token : Token} {cache : Cache} {type : TypeExpr}
    (htable : TableId.ofNumber? token.table = some .typeSpec)
    (h : ((metadata.resolveAt levels token).runOn cache).1 = .ok type) :
    ∃ fewer, levels = fewer + 1 ∧ metadata.HasType fewer token.row := by
  rw [resolveAt.eq_def] at h
  cases levels with
  | zero =>
      simp only [htable] at h
      cases h
  | succ levels =>
      simp only [htable] at h
      exact ⟨levels, rfl, cache, type, h⟩

theorem answered_of_enters {leaf : Resolver Cache TypeExpr} {cache : Cache} {type : TypeExpr}
    (h : ((metadata.specification rid leaf).runOn cache).1 = .ok type)
    (henters : metadata.Enters rid inner) :
    ∃ token, TableId.ofNumber? token.table = some .typeSpec ∧ token.row = inner ∧
      Answered leaf token := by
  obtain ⟨row, blob, token, hrow, hblob, htoken, htable, rfl⟩ := henters
  refine ⟨token, htable, rfl, ?_⟩
  simp only [specification, runOn_bind, runOn_ofExcept, hrow, hblob] at h
  rcases hrun : (onBlob (Decoder.type leaf) blob.toList).runOn cache with ⟨_ | value, after⟩
  · rw [hrun] at h
    cases h
  · exact (recording_of_onBlob hrun).2 token htoken

theorem HasType.enters (h : metadata.HasType levels rid) (henters : metadata.Enters rid inner) :
    ∃ fewer, levels = fewer + 1 ∧ metadata.HasType fewer inner := by
  obtain ⟨cache, type, htype⟩ := h
  obtain ⟨token, htable, rfl, mark, cache', type', htype'⟩ := answered_of_enters htype henters
  exact hasType_of_resolveAt htable htype'

theorem HasType.reaches (h : metadata.HasType levels rid)
    (hreaches : Relation.TransGen metadata.Enters rid inner) :
    ∃ fewer < levels, metadata.HasType fewer inner := by
  induction hreaches with
  | single henters =>
      obtain ⟨fewer, rfl, hinner⟩ := h.enters henters
      exact ⟨fewer, Nat.lt_succ_self _, hinner⟩
  | tail _ henters ih =>
      obtain ⟨fewer, hlt, hmiddle⟩ := ih
      obtain ⟨fewest, rfl, hinner⟩ := hmiddle.enters henters
      exact ⟨fewest, by omega, hinner⟩

theorem HasType.not_reaches_self (h : metadata.HasType levels rid) :
    ¬ Relation.TransGen metadata.Enters rid rid := by
  intro hself
  induction levels using Nat.strong_induction_on with
  | _ levels ih =>
      obtain ⟨fewer, hlt, hfewer⟩ := h.reaches hself
      exact ih fewer hlt hfewer

theorem HasType.length_le (h : metadata.HasType levels rid)
    (hchain : List.IsChain metadata.Enters (rid :: rows)) : rows.length ≤ levels := by
  induction rows generalizing levels rid with
  | nil => exact Nat.zero_le _
  | cons inner rows ih =>
      obtain ⟨henters, hrest⟩ := List.isChain_cons_cons.mp hchain
      obtain ⟨fewer, rfl, hinner⟩ := h.enters henters
      exact Nat.succ_le_succ (ih hinner hrest)

theorem HasType.nodup (h : metadata.HasType levels rid)
    (hchain : List.IsChain metadata.Enters (rid :: rows)) : (rid :: rows).Nodup := by
  induction rows generalizing levels rid with
  | nil => simp
  | cons inner rows ih =>
      obtain ⟨henters, hrest⟩ := List.isChain_cons_cons.mp hchain
      obtain ⟨fewer, rfl, hinner⟩ := h.enters henters
      refine List.nodup_cons.mpr ⟨fun hmem => ?_, ih hinner hrest⟩
      have hchain' : List.IsChain (Relation.TransGen metadata.Enters) (rid :: inner :: rows) :=
        hchain.imp fun _ _ => Relation.TransGen.single
      have hpairwise := List.isChain_iff_pairwise.mp hchain'
      exact h.not_reaches_self ((List.pairwise_cons.mp hpairwise).1 rid hmem)

/--
The equations of the recursion have one solution.  Whatever is put in for the calls that nest
deeper, the result is the same, and every type that is decoded takes some of its bytes.  What is
asked for on the way are the tokens of the blob.  Where a specification has a type, the
specifications that are entered one inside the other are no more than the limit and all
different; one that comes to itself has no type, under whatever cache.
-/
theorem specifications_terminate (metadata : Metadata) :
    (∀ calls, metadata.round calls = calls ↔ calls = metadata.calls) ∧
    (∀ calls, (metadata.round^[Calls.rounds] calls).resolve 0 = metadata.resolve) ∧
    (∀ depth place type place', (metadata.calls.decode depth).runOn place = (.ok type, place') →
      place'.1.rest.length < place.1.rest.length) ∧
    (∀ levels blob cache value cache',
      let leaf : Resolver Cache TypeExpr := fun token _ => metadata.resolveAt levels token
      (onBlob (type leaf) blob).runOn cache = (.ok value, cache') →
        (onBlob (type (recording leaf)) blob).runOn (cache, []) =
          (.ok value, cache', tokensOf blob)) ∧
    (∀ token cache type rows, TableId.ofNumber? token.table = some .typeSpec →
      ((metadata.resolve token).runOn cache).1 = .ok type →
      List.IsChain metadata.Enters (token.row :: rows) →
        (token.row :: rows).length ≤ nestingLimit ∧ (token.row :: rows).Nodup) ∧
    ∀ token cache, TableId.ofNumber? token.table = some .typeSpec →
      Relation.TransGen metadata.Enters token.row token.row →
        ∃ error, ((metadata.resolve token).runOn cache).1 = .error error := by
  refine ⟨fun _ => round_eq_self_iff, ?bound, fun _ _ _ _ => length_rest_of_type,
    fun _ _ _ _ _ hrun => (recording_of_onBlob hrun).1, ?chains, ?self⟩
  case bound =>
    intro calls
    rw [round_iterate_eq metadata calls metadata.calls,
      Function.iterate_fixed metadata.round_calls]
    rfl
  case chains =>
    intro token cache type rows htable hresolve hchain
    obtain ⟨fewer, hlevels, htype⟩ := hasType_of_resolveAt htable hresolve
    have hlength := htype.length_le hchain
    exact ⟨by rw [List.length_cons]; omega, htype.nodup hchain⟩
  case self =>
    intro token cache htable hself
    cases hresult : ((metadata.resolve token).runOn cache).1 with
    | error error => exact ⟨error, rfl⟩
    | ok type =>
        obtain ⟨fewer, -, htype⟩ := hasType_of_resolveAt htable hresult
        exact absurd hself htype.not_reaches_self

/-- A pointer to a number through another specification, and two that are inside of each other. -/
def knottedSpecifications : Metadata :=
  ofTables [(.typeSpec, 4)] #[1, 0, 5, 0, 7, 0, 11, 0] #[0]
    #[0, 3, 0x0f, 0x12, 10, 1, 8, 3, 0x1d, 0x12, 18, 2, 0x12, 14]

theorem chains_of_knottedSpecifications :
    ((knottedSpecifications.resolve ⟨0x1b000001⟩).runOn Cache.empty).1 =
        .ok (.pointer (.primitive .int32)) ∧
      ([] : List UInt8).length < [Primitive.int32.elementByte].length ∧
      (onBlob (type (recording knottedSpecifications.leaf)) [0x0f, 0x12, 10]).runOn
          (Cache.empty, []) =
        (.ok (.pointer (.handle (.primitive .int32))), Cache.empty, [⟨0x1b000002⟩]) ∧
      ([1, 2].length ≤ nestingLimit ∧ [1, 2].Nodup) ∧
      ∃ error, ((knottedSpecifications.resolve ⟨0x1b000003⟩).runOn Cache.empty).1 =
        .error error := by
  have hresolve : ((knottedSpecifications.resolve ⟨0x1b000001⟩).runOn Cache.empty).1 =
      .ok (.pointer (.primitive .int32)) := rfl
  have hpointer : knottedSpecifications.Enters 1 2 :=
    ⟨_, _, ⟨0x1b000002⟩, rfl, rfl, by decide, rfl, rfl⟩
  have harray : knottedSpecifications.Enters 3 4 :=
    ⟨_, _, ⟨0x1b000004⟩, rfl, rfl, by decide, rfl, rfl⟩
  have hback : knottedSpecifications.Enters 4 3 :=
    ⟨_, _, ⟨0x1b000003⟩, rfl, rfl, by decide, rfl, rfl⟩
  have hnumber : (knottedSpecifications.calls.decode 2).runOn
      (Cursor.start [Primitive.int32.elementByte], Cache.empty) =
        (.ok (.primitive .int32), Cursor.start [], Cache.empty) := rfl
  obtain ⟨-, -, hbytes, hasked, hchains, hself⟩ := specifications_terminate knottedSpecifications
  refine ⟨hresolve, hbytes 2 _ _ _ hnumber, hasked nestingLimit _ _ _ _ rfl, ?_, ?_⟩
  · exact hchains ⟨0x1b000001⟩ _ _ [2] rfl hresolve (.cons_cons hpointer (.singleton 2))
  · exact hself ⟨0x1b000003⟩ _ rfl (.tail (.single harray) hback)

end Metadata

end AssemblyGate

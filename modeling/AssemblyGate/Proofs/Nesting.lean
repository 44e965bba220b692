import AssemblyGate.Proofs.Decoding
import AssemblyGate.Proofs.Encoding

/-!
# The count of open types

A decoder counts the types that are open around the place where it stands.  The count is given
back on every way out of a type but one: a type that the nesting limit refuses stays counted.
A decoder that goes on behind such a refusal has one level less, and apart from the levels
and the bytes that are left nothing of its past shows in what comes of its next call.
-/

namespace AssemblyGate.Signature

open Fallible

namespace Decoder

variable {σ η α α' β : Type}

/-! ## Bytes are only taken away -/

def AtMost (length : Nat) (place : Cursor × σ) : Prop := place.1.rest.length ≤ length

/-- The second of two steps takes bytes away, and gives what could be like a value of the first. -/
def Shrinks : Relation σ σ := fun _ _ same _ step =>
  ∀ length, Ensures (AtMost length) (fun value' => ∃ value, same value value') step

theorem length_compressedNumber (bytes : List UInt8) :
    (compressedNumber bytes).2.length ≤ bytes.length := by
  fun_cases compressedNumber bytes <;> simp <;> omega

theorem shrinks_read {parse : List UInt8 → Except Error α × List UInt8}
    (h : ∀ bytes, (parse bytes).2.length ≤ bytes.length) :
    Shrinks Eq (read parse : Decoder σ α) (read parse) :=
  fun _ place hplace => ⟨Nat.le_trans (h place.1.rest) hplace, fun value _ => ⟨value, rfl⟩⟩

theorem lockstep_shrinks : Lockstep (Shrinks : Relation σ σ) where
  pure hsame _ := .pure ⟨_, hsame⟩
  throw error _ := .throw error
  bind hfirst hnext length :=
    .bind (hfirst length) fun value' ⟨value, hsame⟩ => hnext value value' hsame length
  byte := shrinks_read fun bytes => by cases bytes <;> simp
  peek := shrinks_read fun bytes => by cases bytes <;> simp
  number := shrinks_read length_compressedNumber

theorem shrinks_resolving (action : Fallible σ α) :
    Shrinks Eq (resolving action) (resolving action) :=
  fun _ _ hplace => ⟨hplace, fun value _ => ⟨value, rfl⟩⟩

theorem shrinks_limitReached : Shrinks Eq (limitReached : Decoder σ α) limitReached :=
  fun _ _ hplace => ⟨hplace, nofun⟩

theorem Shrinks.within {same : α → α' → Prop} {step : Decoder σ α} {step' : Decoder σ α'}
    (h : Shrinks same step step') : Shrinks same (within step) (within step') :=
  fun length place hplace => h length (enter place) hplace

theorem shrinks_typeAt (resolve : Resolver σ η) (levels : Nat) :
    Shrinks Eq (typeAt resolve levels) (typeAt resolve levels) :=
  lockstep_shrinks.typeAt SigType.congruent_eq (fun _ _ => shrinks_resolving _) Shrinks.within 0
    shrinks_limitReached levels

theorem exists_behind_shrinks (resolve : Resolver σ η) (levels : Nat) :
    ∃ behind : UInt8 → Decoder σ (SigType η),
      typeAt resolve (levels + 1) = within (byte >>= behind) ∧
      ∀ lead place, ((behind lead).runOn place).2.1.rest.length ≤ place.1.rest.length := by
  obtain ⟨_, behind, -, hbody, hbehind⟩ := lockstep_shrinks.exists_behind SigType.congruent_eq
    (fun _ _ => shrinks_resolving _) (shrinks_typeAt resolve levels)
  exact ⟨behind, congrArg within hbody,
    fun lead place => (hbehind lead _ place (Nat.le_refl _)).1⟩

/-! ## The count shows in nothing but the count -/

/-- Places that differ only in `more` open types around the second, with at least some around
the first: leaving a type is then the same for both. -/
def Apart (more least : Nat) (left right : Cursor × σ) : Prop :=
  left.1.rest = right.1.rest ∧ right.1.depth = left.1.depth + more ∧ least ≤ left.1.depth ∧
    left.2 = right.2

def Framed (more : Nat) : Relation σ σ := fun _ _ same step step' =>
  ∀ least, Alike .never .never (Apart more least) same step step'

theorem readAlike_apart (more least : Nat) :
    ReadAlike (Apart more least : Cursor × σ → Cursor × σ → Prop) where
  rest hplaces := hplaces.1
  advance hplaces _ := ⟨rfl, hplaces.2⟩

theorem lockstep_framed (more : Nat) : Lockstep (Framed more : Relation σ σ) :=
  .forall fun least => (readAlike_apart more least).lockstep .never .never

theorem framed_resolving (more : Nat) (action : Fallible σ α) :
    Framed more Eq (resolving action) (resolving action) := by
  rintro least ⟨⟨rest, depth⟩, state⟩ ⟨⟨_, _⟩, _⟩ ⟨rfl, rfl, hleast, rfl⟩
  simp only [runOn, resolving]
  rcases action state with ⟨_ | value, after⟩
  · exact .error ⟨rfl, rfl, hleast, rfl⟩
  · exact .ok rfl ⟨rfl, rfl, hleast, rfl⟩

theorem Framed.within {more : Nat} {same : α → α' → Prop} {step : Decoder σ α}
    {step' : Decoder σ α'} (h : Framed more same step step') :
    Framed more same (within step) (within step') := by
  intro least left right ⟨hrest, hdepth, hleast, hstate⟩
  rw [runOn_within, runOn_within]
  have hinner : Apart more (least + 1) (enter left) (enter right) :=
    ⟨hrest, by simp only [enter]; omega, Nat.succ_le_succ hleast, hstate⟩
  refine (h (least + 1) _ _ hinner).imp id ?_
  rintro left right ⟨hrest, hdepth, hleast, hstate⟩
  exact ⟨hrest, by simp only [leave]; omega, Nat.le_sub_of_add_le hleast, hstate⟩

theorem framed_typeAt (more : Nat) (resolve : Resolver σ η) (levels : Nat) :
    Framed more Eq (typeAt resolve levels) (typeAt resolve levels) := by
  refine (lockstep_framed more).typeAt SigType.congruent_eq (fun _ _ => framed_resolving more _)
    Framed.within 0 ?_ levels
  rintro least left right ⟨hrest, hdepth, hleast, hstate⟩
  exact .error ⟨hrest, by simp only; omega, Nat.le_succ_of_le hleast, hstate⟩

/-! ## One more level -/

/--
A run with its levels and the run with one more are alike, or the limit has stopped the first
one.  Then a type stays open, and the other run goes on to other bytes or to their end.
-/
inductive Widened (depth : Nat) (same : α → α' → Prop) :
    Except Error α × Cursor × σ → Except Error α' × Cursor × σ → Prop
  | ok {value : α} {value' : α'} {place : Cursor × σ} (hsame : same value value')
      (hdepth : place.1.depth = depth) : Widened depth same (.ok value, place) (.ok value', place)
  | error {error : Error} {place : Cursor × σ} (hdepth : place.1.depth = depth) :
      Widened depth same (.error error, place) (.error error, place)
  | stopped {place : Cursor × σ} {wide : Except Error α' × Cursor × σ}
      (hdepth : place.1.depth = depth + 1)
      (hwide : wide.1 = .error .outOfBounds ∨ wide.2.1.rest.length < place.1.rest.length) :
      Widened depth same (.error .nestingLimit, place) wide

def Deepens : Relation σ σ := fun _ _ same step deeper => Shrinks same step deeper ∧
  ∀ place, Widened place.1.depth same (step.runOn place) (deeper.runOn place)

theorem deepens_of_depth {step : Decoder σ α} (hshrinks : Shrinks Eq step step)
    (h : ∀ place, (step.runOn place).2.1.depth = place.1.depth) : Deepens Eq step step := by
  refine ⟨hshrinks, fun place => ?_⟩
  have hdepth := h place
  rcases hrun : step.runOn place with ⟨_ | value, after⟩ <;> rw [hrun] at hdepth
  · exact .error hdepth
  · exact .ok rfl hdepth

theorem Deepens.bind {same : α → α' → Prop} {β' : Type} {same' : β → β' → Prop}
    {first : Decoder σ α} {first' : Decoder σ α'} {next : α → Decoder σ β}
    {next' : α' → Decoder σ β'} (hfirst : Deepens same first first')
    (hnext : ∀ value value', same value value' → Deepens same' (next value) (next' value')) :
    Deepens same' (first >>= next) (first' >>= next') := by
  refine ⟨lockstep_shrinks.bind hfirst.1 fun value value' hsame => (hnext value value' hsame).1, ?_⟩
  intro place
  have hruns := hfirst.2 place
  rcases hrun' : first'.runOn place with ⟨result', place'⟩
  rw [runOn_bind, runOn_bind, hrun']
  rw [hrun'] at hruns
  generalize first.runOn place = run at hruns
  cases hruns with
  | ok hsame hdepth =>
      rw [← hdepth]
      exact (hnext _ _ hsame).2 place'
  | error hdepth => exact .error hdepth
  | stopped hdepth hwide =>
      cases result' with
      | error error => exact .stopped hdepth (hwide.imp (fun herror => by cases herror; rfl) id)
      | ok value' =>
          -- What comes behind the first step only takes more bytes away.
          obtain ⟨value, hsame⟩ := (hfirst.1 place.1.rest.length place (Nat.le_refl _)).2 value'
            (congrArg Prod.fst hrun')
          have hle := ((hnext value value' hsame).1 _ place' (Nat.le_refl _)).1
          rcases hwide with herror | hlt
          · cases herror
          · exact .stopped hdepth (.inr (Nat.lt_of_le_of_lt hle hlt))

theorem Deepens.within {same : α → α' → Prop} {step : Decoder σ α} {deeper : Decoder σ α'}
    (h : Deepens same step deeper) : Deepens same (within step) (within deeper) := by
  refine ⟨h.1.within, fun place => ?_⟩
  have hruns := h.2 (enter place)
  rw [runOn_within, runOn_within]
  generalize step.runOn (enter place) = run at hruns
  generalize deeper.runOn (enter place) = run' at hruns
  cases hruns with
  | ok hsame hdepth => exact .ok hsame (congrArg (· - 1) hdepth)
  | error hdepth => exact .error (congrArg (· - 1) hdepth)
  | stopped hdepth hwide => exact .stopped (congrArg (· - 1) hdepth) hwide

theorem lockstep_deepens : Lockstep (Deepens : Relation σ σ) where
  pure hsame := ⟨lockstep_shrinks.pure hsame, fun _ => .ok hsame rfl⟩
  throw error := ⟨lockstep_shrinks.throw error, fun _ => .error rfl⟩
  bind := .bind
  byte := deepens_of_depth lockstep_shrinks.byte fun _ => rfl
  peek := deepens_of_depth lockstep_shrinks.peek fun _ => rfl
  number := deepens_of_depth lockstep_shrinks.number fun _ => rfl

theorem deepens_typeAt_zero (resolve : Resolver σ η) :
    Deepens Eq (typeAt resolve 0) (typeAt resolve 1) := by
  refine ⟨shrinks_typeAt resolve 1, ?_⟩
  obtain ⟨behind, hone, hbehind⟩ := exists_behind_shrinks resolve 0
  rintro ⟨⟨rest, depth⟩, state⟩
  refine .stopped rfl ?_
  rw [hone, runOn_within, runOn_bind]
  cases rest with
  | nil => exact .inl rfl
  | cons lead rest => exact .inr (Nat.lt_succ_of_le (hbehind lead (⟨rest, depth + 1⟩, state)))

theorem deepens_typeAt (resolve : Resolver σ η) (levels : Nat) :
    Deepens Eq (typeAt resolve levels) (typeAt resolve (levels + 1)) :=
  lockstep_deepens.typeAt SigType.congruent_eq
    (fun _ _ => deepens_of_depth (shrinks_resolving _) fun _ => rfl) Deepens.within 1
    (deepens_typeAt_zero resolve) levels

end Decoder

/-! ## Calls -/

inductive Call where
  | type
  | field
  | method
  deriving DecidableEq, Repr

inductive Answer (η : Type) where
  | type (type : SigType η)
  | method (signature : MethodSignature (SigType η))

namespace Call

variable {σ η α : Type}

def run (resolve : Resolver σ η) : Call → Decoder σ (Answer η)
  | .type => .type <$> Decoder.type resolve
  | .field => .type <$> Decoder.field resolve
  | .method => .method <$> Decoder.method resolve

def runAt (resolve : Resolver σ η) (levels : Nat) : Call → Decoder σ (Answer η)
  | .type => .type <$> Decoder.typeAt resolve levels
  | .field => .type <$> Decoder.fieldSignature (Decoder.typeAt resolve levels)
  | .method => .method <$> Decoder.methodSignature (Decoder.typeAt resolve levels)

theorem runOn_run (resolve : Resolver σ η) (call : Call) (place : Cursor × σ) :
    (call.run resolve).runOn place =
      (call.runAt resolve (nestingLimit - place.1.depth)).runOn place := by
  cases call <;> simp only [run, runAt, Decoder.type, Decoder.field, Decoder.method,
    map_eq_pure_bind, Fallible.runOn_bind, Decoder.runOn_withLevels]

theorem related_runAt {related : Relation σ σ} (h : Lockstep related) {resolve : Resolver σ η}
    {levels levels' : Nat}
    (htype : related Eq (Decoder.typeAt resolve levels) (Decoder.typeAt resolve levels'))
    (call : Call) : related Eq (call.runAt resolve levels) (call.runAt resolve levels') := by
  cases call with
  | type => exact h.map htype (congrArg Answer.type)
  | field => exact h.map (h.fieldSignature htype) (congrArg Answer.type)
  | method =>
      exact h.map (h.methodSignature htype) fun hsame =>
        congrArg Answer.method (MethodSignature.eq_of_alike hsame)

def outcome (run : Except Error α × Cursor × σ) : Except Error α × List UInt8 × σ :=
  (run.1, run.2.1.rest, run.2.2)

theorem outcome_runAt (resolve : Resolver σ η) (levels : Nat) (call : Call)
    (place : Cursor × σ) :
    outcome ((call.runAt resolve levels).runOn place) =
      outcome ((call.runAt resolve levels).runOn (.start place.1.rest, place.2)) := by
  have hframed := related_runAt (Decoder.lockstep_framed place.1.depth)
    (Decoder.framed_typeAt place.1.depth resolve levels) call
  have hplaces : Decoder.Apart place.1.depth 0 (.start place.1.rest, place.2) place :=
    ⟨rfl, (Nat.zero_add _).symm, Nat.zero_le _, rfl⟩
  have hruns := hframed 0 _ _ hplaces
  generalize (call.runAt resolve levels).runOn place = run at hruns
  generalize (call.runAt resolve levels).runOn (.start place.1.rest, place.2) = run' at hruns
  cases hruns with
  | ok hsame hafter => simp only [outcome, hsame, hafter.1, hafter.2.2.2]
  | error hafter => simp only [outcome, hafter.1, hafter.2.2.2]
  | excused h | excusedOther h => exact h.elim

/-- The nesting limit stops a call: with one level more something else comes of it. -/
def Stopped (resolve : Resolver σ η) (call : Call) (place : Cursor × σ) : Prop :=
  outcome ((call.runAt resolve (nestingLimit - place.1.depth + 1)).runOn place) ≠
    outcome ((call.run resolve).runOn place)

theorem run_cases (resolve : Resolver σ η) (call : Call) (place : Cursor × σ) :
    ¬ call.Stopped resolve place ∧
        ((call.run resolve).runOn place).2.1.depth = place.1.depth ∨
      call.Stopped resolve place ∧
        ((call.run resolve).runOn place).2.1.depth = place.1.depth + 1 ∧
        ((call.run resolve).runOn place).1 = .error .nestingLimit := by
  have hruns := (related_runAt Decoder.lockstep_deepens
    (Decoder.deepens_typeAt resolve (nestingLimit - place.1.depth)) call).2 place
  rw [Stopped, runOn_run]
  generalize (call.runAt resolve (nestingLimit - place.1.depth)).runOn place = run at hruns ⊢
  generalize (call.runAt resolve (nestingLimit - place.1.depth + 1)).runOn place = wide at hruns ⊢
  cases hruns with
  | ok hsame hdepth => exact .inl ⟨fun hne => hne (by rw [hsame]), hdepth⟩
  | error hdepth => exact .inl ⟨fun hne => hne rfl, hdepth⟩
  | stopped hdepth hwide =>
      refine .inr ⟨fun heq => ?_, hdepth, rfl⟩
      obtain ⟨heq, hrest⟩ := Prod.mk.inj heq
      rcases hwide with herror | hlt
      · rw [heq] at herror
        cases herror
      · rw [(Prod.mk.inj hrest).1] at hlt
        exact Nat.lt_irrefl _ hlt

/-! ## Runs of calls on one decoder -/

def after (resolve : Resolver σ η) : List Call → Cursor × σ → Cursor × σ
  | [], place => place
  | call :: calls, place => after resolve calls ((call.run resolve).runOn place).2

open Classical in
noncomputable def stops (resolve : Resolver σ η) : List Call → Cursor × σ → Nat
  | [], _ => 0
  | call :: calls, place =>
      (if call.Stopped resolve place then 1 else 0) +
        stops resolve calls ((call.run resolve).runOn place).2

@[simp] theorem depth_after (resolve : Resolver σ η) (calls : List Call) (place : Cursor × σ) :
    (after resolve calls place).1.depth = place.1.depth + stops resolve calls place := by
  induction calls generalizing place with
  | nil => rfl
  | cons call calls ih =>
      rw [after, ih, stops]
      rcases run_cases resolve call place with ⟨hnot, hdepth⟩ | ⟨hstopped, hdepth, -⟩
      · rw [hdepth, if_neg hnot, Nat.zero_add]
      · rw [hdepth, if_pos hstopped, Nat.add_assoc]

/--
Whatever a decoder was asked for before, one type stays open for each call that the limit has
stopped, and none for any other call.  What comes of the next call is what comes of it in a new
decoder over the bytes that are left, with as many levels less as types stayed open.
-/
theorem depth_and_outcome_after_calls (resolve : Resolver σ η) (calls : List Call)
    (place : Cursor × σ) (call : Call) :
    let left := after resolve calls place
    let stopped := stops resolve calls place
    left.1.depth = place.1.depth + stopped ∧
      outcome ((call.run resolve).runOn left) =
        outcome ((call.runAt resolve (nestingLimit - (place.1.depth + stopped))).runOn
          (.start left.1.rest, left.2)) ∧
      (((call.run resolve).runOn left).2.1.depth = left.1.depth ↔ ¬ call.Stopped resolve left) ∧
      (call.Stopped resolve left → ((call.run resolve).runOn left).1 = .error .nestingLimit) := by
  intro left stopped
  have hdepth : left.1.depth = place.1.depth + stopped := depth_after resolve calls place
  refine ⟨hdepth, ?_, ?_⟩
  · rw [runOn_run, outcome_runAt, hdepth]
  · rcases run_cases resolve call left with ⟨hnot, hsame⟩ | ⟨hstopped, hmore, hresult⟩
    · exact ⟨iff_of_true hsame hnot, fun hstopped => absurd hstopped hnot⟩
    · exact ⟨iff_of_false (by omega) (not_not_intro hstopped), fun _ => hresult⟩

def pointers : Nat → SigType Handle
  | 0 => .primitive .int32
  | depth + 1 => .pointer (pointers depth)

theorem encodable_pointers : (depth : Nat) → (pointers depth).Encodable
  | 0 => .primitive
  | depth + 1 => .pointer (encodable_pointers depth)

@[simp] theorem height_pointers (depth : Nat) : (pointers depth).height = depth + 1 := by
  induction depth with
  | zero => rfl
  | succ depth ih => rw [pointers, SigType.height, ih]

theorem runOn_typeAt_pointers (levels more depth : Nat) :
    (Decoder.typeAt bareHandles levels).runOn (⟨(pointers (levels + more)).encode, depth⟩, ()) =
      (.error .nestingLimit, ⟨(pointers more).encode, depth + 1⟩, ()) := by
  induction levels generalizing depth with
  | zero => rw [Nat.zero_add]; rfl
  | succ levels ih =>
      have hlead : (Decoder.byte : Decoder Unit UInt8).runOn
          (Decoder.enter (⟨Element.pointer.byte :: (pointers (levels + more)).encode, depth⟩, ())) =
            (.ok Element.pointer.byte, ⟨(pointers (levels + more)).encode, depth + 1⟩, ()) := rfl
      rw [Nat.succ_add, pointers, SigType.encode, Decoder.typeAt, Decoder.runOn_within,
        Decoder.typeBody, Fallible.runOn_bind, hlead]
      simp only [Element.ofByte?_byte, Fallible.runOn_bind, ih]
      rfl

theorem runOn_runAt_type {resolve : Resolver σ η} {levels : Nat} {place place' : Cursor × σ}
    {result : Except Error (SigType η)}
    (h : (Decoder.typeAt resolve levels).runOn place = (result, place')) :
    (Call.type.runAt resolve levels).runOn place = (result.map .type, place') := by
  rw [runAt, map_eq_pure_bind, Fallible.runOn_bind, h]
  cases result <;> rfl

/-- After a type that is too deep the next one is refused, which a new decoder would read. -/
theorem pointers_after_calls :
    after bareHandles [.type] (.start (pointers 99).encode, ()) =
        (⟨(pointers 49).encode, 1⟩, ()) ∧
      ((Call.type.run bareHandles).runOn (⟨(pointers 49).encode, 1⟩, ())).1 =
        .error .nestingLimit ∧
      ((Call.type.run bareHandles).runOn (.start (pointers 49).encode, ())).1 =
        .ok (.type (pointers 49)) := by
  have hleft : after bareHandles [.type] (.start (pointers 99).encode, ()) =
      (⟨(pointers 49).encode, 1⟩, ()) := by
    rw [after, after, runOn_run]
    exact congrArg Prod.snd (runOn_runAt_type (runOn_typeAt_pointers 50 49 0))
  obtain ⟨hdepth, houtcome, -, -⟩ :=
    depth_and_outcome_after_calls bareHandles [.type] (.start (pointers 99).encode, ()) .type
  refine ⟨hleft, ?_, ?_⟩
  · rw [← hdepth, hleft] at houtcome
    simp only [outcome, Prod.mk.injEq] at houtcome
    rw [houtcome.1]
    exact congrArg Prod.fst (runOn_runAt_type (runOn_typeAt_pointers 49 0 0))
  · have hfits : (pointers 49).height ≤ nestingLimit := by
      rw [height_pointers]
      decide
    have hread := (reads_typeAt nestingLimit (encodable_pointers 49) [] 0).1 hfits
    rw [List.append_nil] at hread
    rw [runOn_run]
    exact congrArg Prod.fst (runOn_runAt_type hread)

end Call

end AssemblyGate.Signature

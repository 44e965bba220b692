import Mathlib.Data.List.Forall2
import AssemblyGate.Scan.Outcome

/-!
# Laws of computations that fail

How results are composed, and four ways to speak about computations with a state.
`Fallible.Alike` says that two computations on related states come to related results;
`Fallible.Respects` that a single one cannot tell related states apart;
`Fallible.Yields` that its result does not depend on the state at all;
`Fallible.Ensures` that it keeps an invariant of the state, and what holds of its result.
-/

namespace AssemblyGate

variable {σ α β ε : Type}

/-! ## Results -/

@[simp] theorem bind_eq_ok_iff {result : Except ε α} {next : α → Except ε β} {value : β} :
    (result >>= next) = .ok value ↔ ∃ first, result = .ok first ∧ next first = .ok value := by
  cases result <;> simp [bind, Except.bind]

@[simp] theorem bind_eq_error_iff {result : Except ε α} {next : α → Except ε β} {error : ε} :
    (result >>= next) = .error error ↔
      result = .error error ∨ ∃ first, result = .ok first ∧ next first = .error error := by
  cases result <;> simp [bind, Except.bind]

@[simp] theorem mapError_eq_ok_iff {ε' : Type} {f : ε → ε'} {result : Except ε α} {value : α} :
    result.mapError f = .ok value ↔ result = .ok value := by
  cases result <;> simp [Except.mapError]

@[simp] theorem mapError_eq_error_iff {ε' : Type} {f : ε → ε'} {result : Except ε α} {error : ε'} :
    result.mapError f = .error error ↔ ∃ before, result = .error before ∧ f before = error := by
  cases result <;> simp [Except.mapError]

theorem mapError_bind_eq_ok {ε' : Type} {f : ε → ε'} {result : Except ε α} {first : α}
    {next : α → Except ε' β} {value : β} (h : result = .ok first) (hnext : next first = .ok value) :
    (result.mapError f >>= next) = .ok value :=
  bind_eq_ok_iff.mpr ⟨first, mapError_eq_ok_iff.mpr h, hnext⟩

theorem mapM_eq_ok_iff {f : α → Except ε β} {items : List α} {values : List β} :
    items.mapM f = .ok values ↔ List.Forall₂ (fun item value => f item = .ok value) items values := by
  induction items generalizing values with
  | nil => cases values <;> simp [pure, Except.pure]
  | cons item items ih =>
      rw [List.mapM_cons, bind_eq_ok_iff]
      constructor
      · rintro ⟨first, hfirst, hrest⟩
        obtain ⟨others, hothers, hvalues⟩ := bind_eq_ok_iff.mp hrest
        cases hvalues
        exact .cons hfirst (ih.mp hothers)
      · rintro (_ | ⟨hfirst, hothers⟩)
        exact ⟨_, hfirst, bind_eq_ok_iff.mpr ⟨_, ih.mpr hothers, rfl⟩⟩

theorem mapM_eq_ok_iff_map {f : α → Except ε β} {items : List α} {values : List β} :
    items.mapM f = .ok values ↔ items.map f = values.map .ok := by
  rw [mapM_eq_ok_iff, ← List.forall₂_eq_eq_eq, List.forall₂_map_left_iff,
    List.forall₂_map_right_iff]

theorem mapM_mapM_eq_ok_iff {γ : Type} {f : α → Except ε β} {g : β → Except ε γ} {items : List α}
    {values : List γ} :
    (∃ middle, items.mapM f = .ok middle ∧ middle.mapM g = .ok values) ↔
      items.mapM (fun item => f item >>= g) = .ok values := by
  simp only [mapM_eq_ok_iff]
  constructor
  · rintro ⟨middle, hmiddle, hvalues⟩
    induction hmiddle generalizing values with
    | nil =>
        cases hvalues
        exact .nil
    | cons hfirst _ ih =>
        obtain _ | ⟨hvalue, hvalues⟩ := hvalues
        exact .cons (bind_eq_ok_iff.mpr ⟨_, hfirst, hvalue⟩) (ih hvalues)
  · intro h
    induction h with
    | nil => exact ⟨[], .nil, .nil⟩
    | cons hvalue _ ih =>
        obtain ⟨first, hfirst, hvalue⟩ := bind_eq_ok_iff.mp hvalue
        obtain ⟨others, hothers, hvalues⟩ := ih
        exact ⟨first :: others, .cons hfirst hothers, .cons hvalue hvalues⟩

theorem exists_of_mapM_eq_ok {f : α → Except ε β} {items : List α} {values : List β}
    (h : items.mapM f = .ok values) {item : α} (hitem : item ∈ items) :
    ∃ value ∈ values, f item = .ok value := by
  rw [mapM_eq_ok_iff] at h
  induction h with
  | nil => simp at hitem
  | cons hfirst hothers ih =>
      rcases List.mem_cons.mp hitem with rfl | hitem
      · exact ⟨_, by simp, hfirst⟩
      · obtain ⟨value, hvalue, hf⟩ := ih hitem
        exact ⟨value, by simp [hvalue], hf⟩

theorem exists_of_mem_of_mapM_eq_ok {f : α → Except ε β} {items : List α} {values : List β}
    (h : items.mapM f = .ok values) {value : β} (hvalue : value ∈ values) :
    ∃ item ∈ items, f item = .ok value := by
  rw [mapM_eq_ok_iff] at h
  induction h with
  | nil => simp at hvalue
  | cons hfirst hothers ih =>
      rcases List.mem_cons.mp hvalue with rfl | hvalue
      · exact ⟨_, by simp, hfirst⟩
      · obtain ⟨item, hitem, hf⟩ := ih hvalue
        exact ⟨item, by simp [hitem], hf⟩

theorem exists_of_mapM_eq_error {f : α → Except ε β} {items : List α} {error : ε}
    (h : items.mapM f = .error error) : ∃ item ∈ items, f item = .error error := by
  induction items with
  | nil => cases h
  | cons item items ih =>
      rw [List.mapM_cons, bind_eq_error_iff] at h
      rcases h with hfirst | ⟨first, -, hrest⟩
      · exact ⟨item, by simp, hfirst⟩
      · rcases bind_eq_error_iff.mp hrest with hothers | ⟨others, -, hpure⟩
        · obtain ⟨other, hother, herror⟩ := ih hothers
          exact ⟨other, by simp [hother], herror⟩
        · cases hpure

theorem exists_mapM_eq_ok_iff {f : α → Except ε β} {items : List α} :
    (∃ values, items.mapM f = .ok values) ↔ ∀ item ∈ items, ∃ value, f item = .ok value := by
  constructor
  · rintro ⟨values, h⟩ item hitem
    obtain ⟨value, -, hvalue⟩ := exists_of_mapM_eq_ok h hitem
    exact ⟨value, hvalue⟩
  · intro h
    induction items with
    | nil => exact ⟨[], rfl⟩
    | cons item items ih =>
        obtain ⟨first, hfirst⟩ := h item (by simp)
        obtain ⟨others, hothers⟩ := ih fun other hother => h other (by simp [hother])
        exact ⟨first :: others, mapM_eq_ok_iff.mpr (.cons hfirst (mapM_eq_ok_iff.mp hothers))⟩

theorem forall_mem_iff_of_mapM_eq_ok {f : α → Except ε β} {items : List α} {values : List β}
    (h : items.mapM f = .ok values) {p : β → Prop} {q : α → Prop}
    (hstep : ∀ item ∈ items, ∀ value, f item = .ok value → (p value ↔ q item)) :
    (∀ value ∈ values, p value) ↔ ∀ item ∈ items, q item := by
  constructor
  · intro hvalues item hitem
    obtain ⟨value, hvalue, hf⟩ := exists_of_mapM_eq_ok h hitem
    exact (hstep item hitem value hf).mp (hvalues value hvalue)
  · intro hitems value hvalue
    obtain ⟨item, hitem, hf⟩ := exists_of_mem_of_mapM_eq_ok h hvalue
    exact (hstep item hitem value hf).mpr (hitems item hitem)

theorem flatten_eq_nil_iff_of_mapM_eq_ok {f : α → Except ε (List β)} {items : List α}
    {parts : List (List β)} (h : items.mapM f = .ok parts) {q : α → Prop}
    (hstep : ∀ item ∈ items, ∀ part, f item = .ok part → (part = [] ↔ q item)) :
    parts.flatten = [] ↔ ∀ item ∈ items, q item := by
  rw [List.flatten_eq_nil_iff]
  exact forall_mem_iff_of_mapM_eq_ok h hstep

theorem rids_eq_range' (count : Nat) : rids count = List.range' 1 count := by
  simp [rids, List.range'_eq_map_range, Nat.add_comm]

@[simp] theorem mem_rids {count rid : Nat} : rid ∈ rids count ↔ 1 ≤ rid ∧ rid ≤ count := by
  simp only [rids, List.mem_map, List.mem_range]
  constructor
  · rintro ⟨position, hposition, rfl⟩
    omega
  · rintro ⟨hpos, hle⟩
    exact ⟨rid - 1, by omega, by omega⟩

/-! ## Outcomes -/

namespace Outcome

variable {p : α → Prop}

def Passes (p : α → Prop) (outcome : Outcome α) : Prop :=
  outcome.refused? = none ∧ ∀ value, outcome.kept? = some value → p value

@[simp] theorem passes_kept {value : α} : Passes p (.kept value) ↔ p value := by
  simp [Passes, refused?, kept?]

@[simp] theorem passes_skipped : Passes p (.skipped : Outcome α) := by
  simp [Passes, refused?, kept?]

@[simp] theorem not_passes_refused {violation : Violation} :
    ¬ Passes p (.refused violation : Outcome α) := by
  simp [Passes, refused?]

theorem forall_passes_iff {outcomes : List (Outcome α)} :
    (∀ outcome ∈ outcomes, outcome.Passes p) ↔
      refusedOf outcomes = [] ∧ ∀ value ∈ keptOf outcomes, p value := by
  simp only [refusedOf, keptOf, List.filterMap_eq_nil_iff, List.mem_filterMap]
  constructor
  · intro hall
    refine ⟨fun outcome houtcome => (hall outcome houtcome).1, ?_⟩
    rintro value ⟨outcome, houtcome, hkept⟩
    exact (hall outcome houtcome).2 value hkept
  · rintro ⟨hrefused, hkept⟩ outcome houtcome
    exact ⟨hrefused outcome houtcome, fun value hvalue => hkept value ⟨outcome, houtcome, hvalue⟩⟩

def Keeps (p : α → Prop) (outcome : Outcome α) : Prop :=
  ∀ value, outcome.kept? = some value → p value

@[simp] theorem keeps_kept {value : α} : Keeps p (.kept value) ↔ p value := by
  simp [Keeps, kept?]

@[simp] theorem keeps_refused {violation : Violation} : Keeps p (.refused violation) := nofun

@[simp] theorem keeps_skipped : Keeps p .skipped := nofun

theorem forall_mem_keptOf_iff {outcomes : List (Outcome α)} :
    (∀ value ∈ keptOf outcomes, p value) ↔ ∀ outcome ∈ outcomes, outcome.Keeps p := by
  simp only [keptOf, Keeps, List.mem_filterMap]
  constructor
  · intro h outcome houtcome value hvalue
    exact h value ⟨outcome, houtcome, hvalue⟩
  · rintro h value ⟨outcome, houtcome, hvalue⟩
    exact h outcome houtcome value hvalue

end Outcome

/-! ## Computations with a state -/

namespace Fallible

@[simp] theorem runOn_pure (value : α) (state : σ) :
    (pure value : Fallible σ α).runOn state = (.ok value, state) := rfl

@[simp] theorem runOn_throw (error : Error) (state : σ) :
    (throw error : Fallible σ α).runOn state = (.error error, state) := rfl

@[simp] theorem runOn_ofExcept (result : Except Error α) (state : σ) :
    (ofExcept result : Fallible σ α).runOn state = (result, state) := rfl

theorem runOn_bind (first : Fallible σ α) (next : α → Fallible σ β) (state : σ) :
    (first >>= next).runOn state =
      match first.runOn state with
      | (.ok value, state) => (next value).runOn state
      | (.error error, state) => (.error error, state) := by
  change ExceptT.bindCont next (first.runOn state).1 (first.runOn state).2 = _
  rcases first.runOn state with ⟨_ | _, _⟩ <;> rfl

/-! ### Two computations side by side -/

/-- Failures after which nothing is asked of the other computation. -/
abbrev Excuse := Error → Prop

def Excuse.never : Excuse := fun _ => False

def Excuse.always : Excuse := fun _ => True

def Excuse.limit : Excuse := (· = .nestingLimit)

/-- A refusal is no excuse. -/
def Excuse.Strict (excuse : Excuse) : Prop := ∀ cause, ¬ excuse (.unmodelled cause)

theorem Excuse.Strict.never : Excuse.never.Strict := fun _ => id

theorem Excuse.Strict.limit : Excuse.limit.Strict := nofun

section Alike

variable {σ' α' β' : Type} {excuse excuse' : Excuse} {states : σ → σ' → Prop}
  {same : α → α' → Prop} {same' : β → β' → Prop}

/-- Runs that end alike, unless one of them has failed with an excuse. -/
inductive AlikeRuns (excuse excuse' : Excuse) (states : σ → σ' → Prop) (same : α → α' → Prop) :
    Except Error α × σ → Except Error α' × σ' → Prop
  | ok {value : α} {value' : α'} {state : σ} {state' : σ'} (hsame : same value value')
      (hstates : states state state') :
      AlikeRuns excuse excuse' states same (.ok value, state) (.ok value', state')
  | error {error : Error} {state : σ} {state' : σ'} (hstates : states state state') :
      AlikeRuns excuse excuse' states same (.error error, state) (.error error, state')
  | excused {error : Error} {state : σ} {run' : Except Error α' × σ'} (h : excuse error) :
      AlikeRuns excuse excuse' states same (.error error, state) run'
  | excusedOther {error : Error} {run : Except Error α × σ} {state' : σ'} (h : excuse' error) :
      AlikeRuns excuse excuse' states same run (.error error, state')

theorem AlikeRuns.imp {ρ ρ' : Type} {states₂ : ρ → ρ' → Prop} {same₂ : α → α' → Prop}
    {view : σ → ρ} {view' : σ' → ρ'} {run : Except Error α × σ} {run' : Except Error α' × σ'}
    (h : AlikeRuns excuse excuse' states same run run')
    (hsame : ∀ {value value'}, same value value' → same₂ value value')
    (hstates : ∀ {state state'}, states state state' → states₂ (view state) (view' state')) :
    AlikeRuns excuse excuse' states₂ same₂ (run.1, view run.2) (run'.1, view' run'.2) := by
  cases h with
  | ok hvalues hafter => exact .ok (hsame hvalues) (hstates hafter)
  | error hafter => exact .error (hstates hafter)
  | excused h => exact .excused h
  | excusedOther h => exact .excusedOther h

theorem AlikeRuns.exists_of_ok {run : Except Error α × σ} {run' : Except Error α' × σ'}
    {value : α} {after : σ} (h : AlikeRuns excuse .never states same run run')
    (hrun : run = (.ok value, after)) :
    ∃ value' after', run' = (.ok value', after') ∧ same value value' ∧ states after after' := by
  subst hrun
  cases h with
  | ok hsame hstates => exact ⟨_, _, rfl, hsame, hstates⟩
  | excusedOther h => exact h.elim

def Alike (excuse excuse' : Excuse) (states : σ → σ' → Prop) (same : α → α' → Prop)
    (action : Fallible σ α) (action' : Fallible σ' α') : Prop :=
  ∀ state state', states state state' →
    AlikeRuns excuse excuse' states same (action.runOn state) (action'.runOn state')

namespace Alike

theorem pure {value : α} {value' : α'} (h : same value value') :
    Alike excuse excuse' states same (Pure.pure value) (Pure.pure value') :=
  fun _ _ hstates => .ok h hstates

theorem throw (error : Error) :
    Alike excuse excuse' states same (MonadExcept.throw error) (MonadExcept.throw error) :=
  fun _ _ hstates => .error hstates

theorem ofExcept (result : Except Error α) :
    Alike excuse excuse' states Eq (Fallible.ofExcept result) (Fallible.ofExcept result) := by
  cases result with
  | ok value => exact pure rfl
  | error error => exact throw error

theorem bind {first : Fallible σ α} {first' : Fallible σ' α'} {next : α → Fallible σ β}
    {next' : α' → Fallible σ' β'} (hfirst : Alike excuse excuse' states same first first')
    (hnext : ∀ value value', same value value' →
      Alike excuse excuse' states same' (next value) (next' value')) :
    Alike excuse excuse' states same' (first >>= next) (first' >>= next') := by
  intro state state' hstates
  have hruns := hfirst state state' hstates
  rw [runOn_bind, runOn_bind]
  generalize first.runOn state = run at hruns
  generalize first'.runOn state' = run' at hruns
  cases hruns with
  | ok hsame hafter => exact hnext _ _ hsame _ _ hafter
  | error hafter => exact .error hafter
  | excused h => exact .excused h
  | excusedOther h => exact .excusedOther h

theorem mono {same₂ : α → α' → Prop} {action : Fallible σ α} {action' : Fallible σ' α'}
    (h : Alike excuse excuse' states same action action')
    (hsame : ∀ {value value'}, same value value' → same₂ value value') :
    Alike excuse excuse' states same₂ action action' :=
  fun state state' hstates => (h state state' hstates).imp hsame id

end Alike

end Alike

/-! ### States that cannot be told apart -/

abbrev Uniform (excuse : Excuse) (related : σ → σ → Prop) (action : Fallible σ α) : Prop :=
  Alike excuse excuse related Eq action action

abbrev Respects (related : σ → σ → Prop) (action : Fallible σ α) : Prop :=
  Uniform .never related action

theorem respects_iff {related : σ → σ → Prop} {action : Fallible σ α} :
    Respects related action ↔ ∀ left right, related left right →
      (action.runOn left).1 = (action.runOn right).1 ∧
        related (action.runOn left).2 (action.runOn right).2 := by
  constructor <;> intro h left right hrelated
  · have hruns := h left right hrelated
    generalize action.runOn left = run at hruns
    generalize action.runOn right = run' at hruns
    cases hruns with
    | ok hsame hstates => exact ⟨congrArg Except.ok hsame, hstates⟩
    | error hstates => exact ⟨rfl, hstates⟩
    | excused h | excusedOther h => exact h.elim
  · obtain ⟨hresult, hstates⟩ := h left right hrelated
    rcases hleft : action.runOn left with ⟨result, after⟩
    rcases hright : action.runOn right with ⟨result', after'⟩
    rw [hleft, hright] at hresult hstates
    cases hresult
    cases result with
    | ok value => exact .ok rfl hstates
    | error error => exact .error hstates

namespace Uniform

variable {excuse : Excuse} {related : σ → σ → Prop}

theorem bind {first : Fallible σ α} {next : α → Fallible σ β}
    (hfirst : Uniform excuse related first) (hnext : ∀ value, Uniform excuse related (next value)) :
    Uniform excuse related (first >>= next) := by
  refine Alike.bind hfirst ?_
  rintro value _ rfl
  exact hnext value

theorem ite {condition : Prop} [Decidable condition] {left right : Fallible σ α}
    (hleft : Uniform excuse related left) (hright : Uniform excuse related right) :
    Uniform excuse related (if condition then left else right) := by
  split
  · exact hleft
  · exact hright

theorem mapM {step : α → Fallible σ β} {items : List α}
    (h : ∀ item ∈ items, Uniform excuse related (step item)) :
    Uniform excuse related (items.mapM step) := by
  induction items with
  | nil => exact .pure rfl
  | cons item items ih =>
      rw [List.mapM_cons]
      refine bind (h item (by simp)) fun first => ?_
      exact bind (ih fun other hother => h other (by simp [hother])) fun others => .pure rfl

end Uniform

/-! ### States that stay as they are -/

def Still (state : σ) (computation : Fallible σ α) : Prop :=
  (computation.runOn state).2 = state

namespace Still

variable {state : σ}

theorem of_respects {computation : Fallible σ α}
    (h : Respects (fun left right => left = state ∧ right = state) computation) :
    Still state computation :=
  (respects_iff.mp h state state ⟨rfl, rfl⟩).2.1

theorem respects {computation : Fallible σ α} (h : Still state computation) :
    Respects (fun left right => left = state ∧ right = state) computation := by
  refine respects_iff.mpr ?_
  rintro _ _ ⟨rfl, rfl⟩
  exact ⟨rfl, h, h⟩

theorem runOn_bind {first : Fallible σ α} (h : Still state first) (next : α → Fallible σ β) :
    (first >>= next).runOn state =
      match (first.runOn state).1 with
      | .ok value => (next value).runOn state
      | .error error => (.error error, state) := by
  rw [Fallible.runOn_bind]
  rcases hfirst : first.runOn state with ⟨_ | _, state'⟩ <;>
    simp only [Still, hfirst] at h <;> simp [h]

theorem ofExcept (result : Except Error α) :
    Still state (Fallible.ofExcept result : Fallible σ α) := rfl

theorem result_bind {first : Fallible σ α} (h : Still state first) (next : α → Fallible σ β) :
    ((first >>= next).runOn state).1 =
      (first.runOn state).1 >>= fun value => ((next value).runOn state).1 := by
  rw [runOn_bind h]
  cases (first.runOn state).1 <;> rfl

theorem mapM {step : α → Fallible σ β} {items : List α}
    (h : ∀ item ∈ items, Still state (step item)) : Still state (items.mapM step) :=
  of_respects (.mapM fun item hitem => (h item hitem).respects)

theorem result_mapM {step : α → Fallible σ β} {items : List α}
    (h : ∀ item ∈ items, Still state (step item)) :
    ((items.mapM step).runOn state).1 =
      items.mapM fun item => ((step item).runOn state).1 := by
  induction items with
  | nil => rfl
  | cons item items ih =>
      have hothers : ∀ other ∈ items, Still state (step other) :=
        fun other hother => h other (by simp [hother])
      rw [List.mapM_cons, List.mapM_cons, result_bind (h item (by simp))]
      congr
      funext first
      rw [result_bind (mapM hothers), ih hothers]
      rfl

end Still

/-! ### Results that do not depend on the state -/

def Yields (computation : Fallible σ α) (result : Except Error α) : Prop :=
  ∀ state, (computation.runOn state).1 = result

namespace Yields

theorem ofExcept (result : Except Error α) :
    Yields (Fallible.ofExcept result : Fallible σ α) result :=
  fun _ => rfl

theorem pure (value : α) : Yields (Pure.pure value : Fallible σ α) (.ok value) :=
  fun _ => rfl

theorem bind {first : Fallible σ α} {next : α → Fallible σ β} {result : Except Error α}
    {results : α → Except Error β} (hfirst : Yields first result)
    (hnext : ∀ value, Yields (next value) (results value)) :
    Yields (first >>= next) (result >>= results) := by
  intro state
  rw [runOn_bind, ← hfirst state]
  rcases first.runOn state with ⟨_ | value, state'⟩
  · rfl
  · exact hnext value state'

theorem after {first : Fallible σ α} {next : α → Fallible σ β} {value : α}
    {result : Except Error β} (hfirst : Yields first (.ok value))
    (hnext : Yields (next value) result) : Yields (first >>= next) result := by
  intro state
  have h := hfirst state
  rw [runOn_bind]
  rcases hrun : first.runOn state with ⟨result', state'⟩
  rw [hrun] at h
  cases h
  exact hnext state'

theorem ite {condition : Prop} [Decidable condition] {left right : Fallible σ α}
    {leftResult rightResult : Except Error α} (hleft : Yields left leftResult)
    (hright : Yields right rightResult) :
    Yields (if condition then left else right)
      (if condition then leftResult else rightResult) := by
  split
  · exact hleft
  · exact hright

theorem mapM {step : α → Fallible σ β} {result : α → Except Error β}
    (h : ∀ item, Yields (step item) (result item)) (items : List α) :
    Yields (items.mapM step) (items.mapM result) := by
  induction items with
  | nil => exact pure []
  | cons item items ih =>
      rw [List.mapM_cons, List.mapM_cons]
      exact bind (h item) fun first => bind ih fun others => pure _

theorem forM {step : α → Fallible σ PUnit} (h : ∀ item, Yields (step item) (.ok ⟨⟩))
    (items : List α) : Yields (items.forM step) (.ok ⟨⟩) := by
  induction items with
  | nil => exact pure _
  | cons item items ih => exact after (h item) ih

end Yields

/-! ### Invariants of the state, and what holds of results -/

/-- The invariant is kept, also by a failure, and whatever is given has the property. -/
def Ensures (inv : σ → Prop) (post : α → Prop) (computation : Fallible σ α) : Prop :=
  ∀ state, inv state →
    inv (computation.runOn state).2 ∧ ∀ value, (computation.runOn state).1 = .ok value → post value

namespace Ensures

variable {inv : σ → Prop} {post : α → Prop}

theorem ofExcept {result : Except Error α} (h : ∀ value, result = .ok value → post value) :
    Ensures inv post (Fallible.ofExcept result : Fallible σ α) :=
  fun _ hinv => ⟨hinv, h⟩

theorem any (result : Except Error α) :
    Ensures inv (fun _ => True) (Fallible.ofExcept result : Fallible σ α) :=
  ofExcept fun _ _ => trivial

theorem pure {value : α} (h : post value) : Ensures inv post (Pure.pure value : Fallible σ α) := by
  refine ofExcept fun value' hvalue => ?_
  cases hvalue
  exact h

theorem throw (error : Error) : Ensures inv post (MonadExcept.throw error : Fallible σ α) :=
  ofExcept nofun

theorem bind {first : Fallible σ α} {next : α → Fallible σ β} {post' : β → Prop}
    (hfirst : Ensures inv post first)
    (hnext : ∀ value, post value → Ensures inv post' (next value)) :
    Ensures inv post' (first >>= next) := by
  intro state hinv
  obtain ⟨hstate, hvalue⟩ := hfirst state hinv
  rw [runOn_bind]
  rcases hrun : first.runOn state with ⟨_ | value, state'⟩
  · rw [hrun] at hstate
    exact ⟨hstate, nofun⟩
  · rw [hrun] at hstate hvalue
    exact hnext value (hvalue value rfl) state' hstate

theorem mono {computation : Fallible σ α} {post' : α → Prop} (h : Ensures inv post computation)
    (himp : ∀ value, post value → post' value) : Ensures inv post' computation := by
  intro state hinv
  obtain ⟨hstate, hvalue⟩ := h state hinv
  exact ⟨hstate, fun value hok => himp value (hvalue value hok)⟩

theorem ite {condition : Prop} [Decidable condition] {left right : Fallible σ α}
    (hleft : Ensures inv post left) (hright : ¬ condition → Ensures inv post right) :
    Ensures inv post (if condition then left else right) := by
  split
  · exact hleft
  · next hnot => exact hright hnot

theorem mapM_forall₂ {step : β → Fallible σ α} {post : β → α → Prop} {items : List β}
    (h : ∀ item ∈ items, Ensures inv (post item) (step item)) :
    Ensures inv (List.Forall₂ post items) (items.mapM step) := by
  induction items with
  | nil => exact pure .nil
  | cons item items ih =>
      rw [List.mapM_cons]
      refine bind (h item (by simp)) fun first hfirst => ?_
      refine bind (ih fun other hother => h other (by simp [hother])) fun others hothers => ?_
      exact pure (.cons hfirst hothers)

theorem mapM {step : β → Fallible σ α} {items : List β}
    (h : ∀ item ∈ items, Ensures inv post (step item)) :
    Ensures inv (fun values => ∀ value ∈ values, post value) (items.mapM step) := by
  refine mono (mapM_forall₂ h) fun values hvalues => ?_
  clear h
  induction hvalues with
  | nil => simp
  | cons hfirst _ ih => exact List.forall_mem_cons.mpr ⟨hfirst, ih⟩

end Ensures

def Only {τ : Type} (p : τ → Prop) (left right : τ) : Prop := left = right ∧ p left

theorem ensures_iff_alike {inv : σ → Prop} {post : α → Prop} {action : Fallible σ α} :
    Ensures inv post action ↔ Alike .never .never (Only inv) (Only post) action action := by
  constructor
  · rintro h state _ ⟨rfl, hinv⟩
    obtain ⟨hstate, hvalue⟩ := h state hinv
    rcases hrun : action.runOn state with ⟨_ | value, after⟩ <;> rw [hrun] at hstate hvalue
    · exact .error ⟨rfl, hstate⟩
    · exact .ok ⟨rfl, hvalue value rfl⟩ ⟨rfl, hstate⟩
  · intro h state hinv
    have hruns := h state state ⟨rfl, hinv⟩
    rcases hrun : action.runOn state with ⟨_ | value, after⟩ <;> rw [hrun] at hruns
    · cases hruns with
      | error hstates => exact ⟨hstates.2, nofun⟩
      | excused h | excusedOther h => exact h.elim
    · cases hruns with
      | ok hsame hstates =>
          refine ⟨hstates.2, ?_⟩
          rintro _ ⟨⟩
          exact hsame.2

end Fallible

end AssemblyGate

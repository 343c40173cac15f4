import Mathlib.Data.List.Basic

namespace Scada.Machines

-- A machine is its partial step function.
variable {σ α τ β : Type} {step : σ → α → Option σ}

inductive Runs (step : σ → α → Option σ) : σ → List α → σ → Prop where
  | nil : Runs step s [] s
  | step : Runs step origin earlier middle → step middle action = some after →
      Runs step origin (earlier++[action]) after

def run (step : σ → α → Option σ) : σ → List α → Option σ
  | s,[] => some s
  | s,action::rest => (step s action).bind (run step · rest)

theorem guarded {admits : Prop} [Decidable admits] {later after : σ}
    (taken : (if admits then some later else none) = some after) : admits ∧ later = after :=
  (Option.ite_none_right_eq_some.mp taken).imp_right Option.some.inj

theorem Runs.append (left : Runs step before earlier middle) (right : Runs step middle later after) :
    Runs step before (earlier++later) after := by
  induction right with
  | nil => simpa using left
  | step prior taken ih => simpa only [List.append_assoc] using Runs.step ih taken

theorem Runs.single (taken : step before action = some after) : Runs step before [action] after :=
  .step .nil taken

theorem Runs.cons (taken : step before action = some middle) (rest : Runs step middle later after) :
    Runs step before (action::later) after := (Runs.single taken).append rest

theorem run_append (earlier later : List α) :
    run step s (earlier++later) = (run step s earlier).bind (run step · later) := by
  induction earlier generalizing s with
  | nil => rfl
  | cons action rest ih => cases taken : step s action <;> simp [run,taken,ih]

theorem run_exact : run step before actions = some after ↔ Runs step before actions after := by
  constructor
  · intro accepted
    induction actions generalizing before with
    | nil => cases Option.some.inj accepted; exact .nil
    | cons action rest ih =>
      obtain ⟨middle,taken,later⟩ := Option.bind_eq_some_iff.mp accepted
      exact .cons taken (ih later)
  · intro path
    induction path with
    | nil => rfl
    | step prior taken ih => simp [run_append,ih,run,taken]

theorem run_observed (step : σ → α → Option σ) (before : σ) (actions : List α) (f : σ → β) (value : β)
    (observed : (run step before actions).map f = some value) : ∃ after, Runs step before actions after ∧ f after = value := by
  obtain ⟨after,accepted,seen⟩ := Option.map_eq_some_iff.mp observed
  exact ⟨after,run_exact.mp accepted,seen⟩

theorem Runs.unique (left : Runs step before actions after) (right : Runs step before actions other) :
    after = other :=
  Option.some.inj ((run_exact.mpr left).symm.trans (run_exact.mpr right))

theorem Runs.uncons (path : Runs step before (action::rest) after) :
    ∃ middle, step before action = some middle ∧ Runs step middle rest after := by
  obtain ⟨middle,taken,later⟩ := Option.bind_eq_some_iff.mp (run_exact.mpr path)
  exact ⟨middle,taken,run_exact.mp later⟩

theorem Runs.invariant {P : σ → Prop} (start : P before)
    (kept : ∀ {s action next}, P s → step s action = some next → P next)
    (path : Runs step before actions after) : P after := by
  induction path with
  | nil => exact start
  | step prior taken ih => exact kept ih taken

def Visits (step : σ → α → Option σ) (before : σ) (actions : List α) (s : σ) : Prop :=
  ∃ earlier later, actions = earlier++later ∧ Runs step before earlier s

def Takes (step : σ → α → Option σ) (before : σ) (actions : List α) (s : σ) (action : α) (next : σ) : Prop :=
  ∃ earlier later, actions = earlier++action::later ∧ Runs step before earlier s ∧ step s action = some next

def Always (step : σ → α → Option σ) (P : σ → Prop) (before : σ) (actions : List α) : Prop :=
  ∀ s, Visits step before actions s → P s

theorem Takes.visits (taken : Takes step origin actions s action next) : Visits step origin actions s := by
  obtain ⟨earlier,later,split,path,_⟩ := taken
  exact ⟨earlier,action::later,split,path⟩

theorem Takes.visits_next (taken : Takes step origin actions s action next) : Visits step origin actions next := by
  obtain ⟨earlier,later,split,path,one⟩ := taken
  exact ⟨earlier++[action],later,by simpa using split,.step path one⟩

theorem Visits.invariant {P : σ → Prop} (start : P before)
    (kept : ∀ {s action next}, P s → step s action = some next → P next)
    (visited : Visits step before actions s) : P s := by
  obtain ⟨_,_,_,path⟩ := visited
  exact path.invariant start kept

theorem always_of_takes {J : σ → Prop} (start : J before)
    (kept : ∀ {s action next}, Takes step before actions s action next → J s → J next) :
    Always step J before actions := by
  rintro s ⟨earlier,later,split,path⟩
  induction path generalizing later with
  | nil => exact start
  | @step earlier middle action after prior taken ih =>
    refine kept ⟨earlier,later,by simpa using split,prior,taken⟩ ?_
    exact ih (action::later) (by simpa using split)

-- A state property fails at its first bad step and nowhere before it.
theorem always_iff_takes {J P : σ → Prop} {good : σ → α → σ → Prop} (start : J before)
    (sound : ∀ {s}, J s → P s)
    (kept : ∀ {s action next}, J s → step s action = some next → good s action next → J next)
    (exposes : ∀ {s action next}, Visits step before actions s → step s action = some next →
      P s → P next → good s action next) :
    Always step P before actions ↔ ∀ s action next, Takes step before actions s action next → good s action next := by
  constructor
  · intro always s action next taken
    have one := taken
    obtain ⟨_,_,_,_,one⟩ := one
    exact exposes taken.visits one (always s taken.visits) (always next taken.visits_next)
  · intro good s visited
    refine sound (always_of_takes start ?_ s visited)
    intro s action next taken valid
    have one := taken
    obtain ⟨_,_,_,_,one⟩ := one
    exact kept valid one (good s action next taken)

-- A concrete run read through `view` is a run of the abstract machine whose
-- actions are `see` of the concrete ones, none for a stuttering step.
def Refines (step : σ → α → Option σ) (abstract : τ → β → Option τ) (relate : σ → τ → Prop)
    (see : σ → α → List β) : Prop :=
  ∀ {s action next t}, relate s t → step s action = some next →
    ∃ t', Runs abstract t (see s action) t' ∧ relate next t'

theorem Refines.runs {abstract : τ → β → Option τ} {relate : σ → τ → Prop} {see : σ → α → List β}
    (refines : Refines step abstract relate see) (start : relate before t)
    (path : Runs step before actions after) :
    ∃ seen t', Runs abstract t seen t' ∧ relate after t' := by
  induction path with
  | nil => exact ⟨[],t,.nil,start⟩
  | step prior taken ih =>
    obtain ⟨seen,middle,earlier,related⟩ := ih
    obtain ⟨t',later,next⟩ := refines related taken
    exact ⟨_,t',earlier.append later,next⟩

def along (step : σ → α → Option σ) (weight : σ → α → Nat) : σ → List α → Nat
  | _,[] => 0
  | s,action::rest => weight s action+((step s action).map fun next => along step weight next rest).getD 0

theorem along_append {weight : σ → α → Nat} (path : Runs step before earlier middle) (later : List α) :
    along step weight before (earlier++later) = along step weight before earlier+along step weight middle later := by
  induction path generalizing later with
  | nil => simp [along]
  | step prior taken ih =>
    rw [List.append_assoc,ih,ih]
    simp [along,taken,Nat.add_assoc]

theorem Runs.balance {I : σ → Prop} (level : σ → Nat) (weight : σ → α → Nat) (start : I before)
    (kept : ∀ {s action next}, I s → step s action = some next → I next)
    (each : ∀ {s action next}, I s → step s action = some next → level next = level s+weight s action)
    (path : Runs step before actions after) : level after = level before+along step weight before actions := by
  induction path with
  | nil => simp [along]
  | @step _ middle action _ prior taken ih =>
    rw [each (prior.invariant start kept) taken,ih,along_append prior]
    simp [along,taken,Nat.add_assoc]

end Scada.Machines

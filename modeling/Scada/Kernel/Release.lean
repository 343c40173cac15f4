import Scada.Kernel.Lifecycle

namespace Scada.Kernel
open Programs BoundedQueues Machines

-- What must hold once init_module has returned -1 or cleanup_module has returned.
structure Board.Released (b : Board) : Prop where
  detached : b.attached = false
  disabled : b.enabled = false
  absent : b.fifo = none
  unmapped : b.held = []

namespace Host

def ReleasedOut (h : Host) : Prop := match h.thread with
  | .out => h.board.Released
  | _ => True

-- init_module returns with a refusal behind it only if each __ioremap was
-- among the refused, and cleanup_module does not return at all.
def FailsEmpty (h : Host) : Action → Prop
  | .ret => match h.thread with
    | .loading _ => refused h.calls = true → ∀ e ∈ h.calls, obtained e = []
    | .unloading _ => False
    | _ => True
  | _ => True

end Host

variable {h next : Host} {action : Action}

theorem held_empty (valid : Lifecycle Q h) : h.board.held = [] ↔ ∀ e ∈ h.calls, obtained e = [] := by
  rw [valid.held,List.reverse_eq_nil_iff,List.flatMap_eq_nil_iff]

structure Tidy (h : Host) : Prop where
  lifecycle : Lifecycle (fun attached enabled => attached = false ∧ enabled = false) h
  unmapped : h.thread = .out → h.board.held = []

theorem tidy_released (tidy : Tidy h) : h.ReleasedOut := by
  obtain ⟨⟨_,stage⟩,unmapped⟩ := tidy
  unfold Host.ReleasedOut
  cases thread : h.thread with
  | out =>
    rw [thread] at stage
    exact ⟨stage.2.2.1,stage.2.2.2,by simpa [Host.resources,Board.resources] using stage.2.1,unmapped thread⟩
  | _ => trivial

theorem step_tidy (tidy : Tidy h) (taken : h.step action = some next) (good : h.FailsEmpty action) : Tidy next := by
  obtain ⟨lifecycle,unmapped⟩ := tidy
  have empty := held_empty lifecycle
  have stage := lifecycle.stage
  -- only a return leaves nothing loaded
  have returned : action = .ret → next.thread = .out →
      (next.resources.attached = false ∧ next.resources.enabled = false) ∧ next.board.held = [] := by
    intro same out
    cases h.step_moved taken with
    | @initReturns value thread =>
      rw [thread] at stage
      obtain ⟨before,clean,condition⟩ := stage
      simp only [Host.FailsEmpty,thread] at good
      have failed : value ≠ 0 := fun zero => by simp [zero] at out
      have none := empty.mpr (good (condition.fails.mp failed))
      have untouched := condition.untouched failed none
      exact ⟨⟨untouched.1.trans clean.1,untouched.2.trans clean.2⟩,none⟩
    | cleanupReturns thread => simp only [Host.FailsEmpty,thread] at good
    | _ => cases same
  refine ⟨step_lifecycle lifecycle taken fun same out => (returned same out).1,fun out => ?_⟩
  cases h.step_moved taken with
  | initReturns | cleanupReturns => exact (returned rfl out).2
  | interrupt deliverable =>
    exact (congrArg Resources.held (interrupted_resources deliverable _)).trans (unmapped out)
  | _ => cases out

theorem step_fails_empty (lifecycle : Lifecycle Q h) (taken : h.step action = some next) (released : next.ReleasedOut) :
    h.FailsEmpty action := by
  have empty := held_empty lifecycle
  have stage := lifecycle.stage
  cases h.step_moved taken with
  | @initReturns value thread =>
    rw [thread] at stage
    obtain ⟨before,_,condition⟩ := stage
    simp only [Host.FailsEmpty,thread]
    intro refused
    simp only [Host.ReleasedOut,if_neg (condition.fails.mpr refused)] at released
    exact empty.mp released.unmapped
  | cleanupReturns thread =>
    rw [thread] at stage
    exact absurd released.unmapped stage.2
  | _ => trivial

theorem released_iff_fails_empty (registers : Register → Word) (actions : List Action) :
    Always Host.step Host.ReleasedOut (.start registers) actions ↔
      ∀ h action next, Takes Host.step (.start registers) actions h action next → h.FailsEmpty action := by
  refine always_iff_takes (J := Tidy) ⟨start_lifecycle registers ⟨rfl,rfl⟩,fun _ => rfl⟩ tidy_released step_tidy ?_
  intro h action next visited taken _ released
  have lifecycle : Lifecycle (fun _ _ => True) h :=
    visited.invariant (start_lifecycle registers trivial) fun valid taken => step_lifecycle valid taken fun _ _ => trivial
  exact step_fails_empty lifecycle taken released

def noFifo : Oracle
  | .rtfCreate _ _ => -1
  | c => Oracle.uneventful c

theorem refused_fifo_unreleased : ¬ ∀ registers actions h, Runs Host.step (.start registers) actions h → h.ReleasedOut := by
  intro all
  let actions : List Action := .insmod::List.replicate 21 (.call noFifo)++[.ret]
  obtain ⟨h,path,seen⟩ := run_observed Host.step (.start fun _ => 0) actions
    (fun h => (h.thread matches .out,h.board.enabled)) (true,true) (by decide +kernel)
  have released := all _ _ h path
  obtain ⟨out,enabled⟩ := Prod.mk.inj seen
  unfold Host.ReleasedOut at released
  cases thread : h.thread with
  | out =>
    rw [thread] at released
    exact absurd (released.disabled.symm.trans enabled) Bool.false_ne_true
  | _ => rw [thread] at out; cases out

end Scada.Kernel

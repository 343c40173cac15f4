import Scada.Kernel.Invocation
import Scada.Kernel.Lifecycle

namespace Scada.Kernel
open Programs BoundedQueues Machines

namespace Host

def Recorded (h : Host) : Prop := ∀ e ∈ h.handled, e.call.consumes = true → e.state.fifo.isSome = true

def Sheltered (h : Host) : Action → Prop
  | .interrupt inputs => window (h.earlier++h.calls) = true → selects inputs = false
  | _ => True

end Host

variable {h next : Host} {action : Action}

theorem lifecycle_safe (valid : Lifecycle Q h) : h.resources.Safe := by
  have stage := valid.stage
  cases thread : h.thread with
  | out => rw [thread] at stage; exact stage.1
  | loaded => rw [thread] at stage; exact stage.1
  | loading rest =>
    rw [thread] at stage
    obtain ⟨before,_,condition⟩ := stage
    cases rest with
    | done value => exact condition.safe
    | call c rest => exact (loader_call.mp condition).1.1
  | unloading rest =>
    rw [thread] at stage
    obtain ⟨condition,_⟩ := stage
    cases rest with
    | done value => exact condition.safe
    | call c rest => exact (loader_call.mp condition).1.1

theorem deliverable_fifo (valid : Lifecycle Q h) (deliverable : h.board.deliverable) :
    h.board.fifo.isSome = !window (h.earlier++h.calls) := lifecycle_safe valid deliverable.2

theorem step_recorded (valid : Lifecycle Q h) (recorded : h.Recorded) (taken : h.step action = some next)
    (good : h.Sheltered action) : next.Recorded := by
  cases h.step_moved taken with
  | @interrupt inputs deliverable =>
    have fifo := deliverable_fifo valid deliverable
    obtain ⟨states,consumed,_⟩ := handler_visits h.board inputs
    intro e member consumes
    rcases List.mem_append.mp member with old | new
    · exact recorded e old consumes
    · rw [states e new,fifo]
      cases open_ : window (h.earlier++h.calls) with
      | false => rfl
      | true =>
        have none := List.any_eq_false.mp (consumed.trans (good open_)) e new
        exact absurd consumes none
  | _ => exact recorded

theorem step_sheltered (valid : Lifecycle Q h) (taken : h.step action = some next) (recorded : next.Recorded) :
    h.Sheltered action := by
  cases h.step_moved taken with
  | @interrupt inputs deliverable =>
    have fifo := deliverable_fifo valid deliverable
    obtain ⟨states,consumed,_⟩ := handler_visits h.board inputs
    intro open_
    rw [← consumed,Bool.eq_false_iff]
    intro some
    obtain ⟨e,member,consumes⟩ := List.any_eq_true.mp some
    have there := recorded e (List.mem_append_right _ member) consumes
    rw [states e member,fifo,open_] at there
    cases there
  | _ => trivial

-- No edge is ever consumed without a FIFO exactly when no button interrupts
-- while the loader's window is open.
theorem recorded_iff_sheltered (registers : Register → Word) (actions : List Action) :
    Always Host.step Host.Recorded (.start registers) actions ↔
      ∀ h action next, Takes Host.step (.start registers) actions h action next → h.Sheltered action := by
  have lifecycle : ∀ {h}, Visits Host.step (.start registers) actions h → Lifecycle (fun _ _ => True) h := fun visited =>
    visited.invariant (start_lifecycle registers trivial) fun valid taken => step_lifecycle valid taken fun _ _ => trivial
  refine always_iff_takes (J := fun h => Lifecycle (fun _ _ => True) h ∧ h.Recorded)
    ⟨start_lifecycle registers trivial,List.forall_mem_nil _⟩ (fun both => both.2) ?_ ?_
  · intro h action next both taken good
    exact ⟨step_lifecycle both.1 taken fun _ _ => trivial,step_recorded both.1 both.2 taken good⟩
  · intro h action next visited taken _ recorded
    exact step_sheltered (lifecycle visited) taken recorded

theorem early_press_unrecorded : ¬ ∀ registers actions h, Runs Host.step (.start registers) actions h → h.Recorded := by
  intro all
  let actions : List Action := .insmod::List.replicate 19 (.call .uneventful)++[.interrupt fun _ => .pressed]
  obtain ⟨h,path,seen⟩ := run_observed Host.step (.start fun _ => 0) actions
    (fun h => h.handled.any fun e => e.call.consumes && !e.state.fifo.isSome) true (by decide +kernel)
  obtain ⟨e,member,lost⟩ := List.any_eq_true.mp seen
  rw [Bool.and_eq_true,Bool.not_eq_true'] at lost
  exact absurd (lost.2.symm.trans (all _ _ h path e member lost.1)) Bool.false_ne_true

end Scada.Kernel

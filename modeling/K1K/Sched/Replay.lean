import K1K.Lib.Strict
import K1K.Sched.Model

/-!
# Evaluating runs of the scheduler

Runs on fixed inputs are replayed with the state in evaluated form, for the task ids
below a bound.
-/

namespace K1K.Sched

open K1K.Lib Strict

variable {n : Nat}

instance strictTaskState : Strict TaskState where
  force
    | .ready, k => k .ready
    | .running, k => k .running
    | .blocked, k => k .blocked
    | .sleeping, k => k .sleeping
    | .dead, k => k .dead
  force_eq a k := by cases a <;> rfl

instance strictPlacement : Strict Placement where
  force
    | .nowhere, k => k .nowhere
    | .queued, k => k .queued
    | .running, k => k .running
  force_eq a k := by cases a <;> rfl

instance strictTask : Strict (Task n) where
  force task k :=
    force task.state fun state => force task.onCpu fun onCpu =>
    force task.placement fun placement => force task.lastSeen fun lastSeen =>
    force task.sleepUntil fun sleepUntil => force task.quantumLeft fun quantumLeft =>
    force task.isIdle fun isIdle => force task.addrSpace fun addrSpace =>
    k ⟨state, onCpu, placement, lastSeen, sleepUntil, quantumLeft, isIdle, addrSpace⟩
  force_eq task k := by simp only [force_eq]

instance strictJob : Strict (Job n) where
  force
    | .code, k => k .code
    | job, k => k job
  force_eq job k := by cases job <;> rfl

def Kernel.strict {β : Type} (bound : Nat) (s : Kernel n) (k : Kernel n → β) : β :=
  forceAt (List.range bound) s.tasks fun tasks =>
  force s.table fun table => force s.reap fun reap => force s.nextId fun nextId =>
  force s.supervisor fun supervisor =>
  forceAt (List.finRange (n + 1)) s.queue fun queue =>
  forceAt (List.finRange (n + 1)) s.sleepers fun sleepers =>
  forceAt (List.finRange (n + 1)) s.current fun current =>
  forceAt (List.finRange (n + 1)) s.stealCursor fun stealCursor =>
  forceAt (List.finRange (n + 1)) s.cr3 fun cr3 =>
  force s.spaces fun spaces => force s.ticks fun ticks =>
  forceAt ((List.finRange (n + 1)).map Thread.cpu ++ (List.range bound).map Thread.task) s.job
    fun job =>
  k ⟨tasks, table, reap, nextId, supervisor, queue, sleepers, current, stealCursor, cr3, spaces,
    ticks, job⟩

theorem Kernel.strict_eq {β : Type} (bound : Nat) (s : Kernel n) (k : Kernel n → β) :
    s.strict bound k = k s := by
  simp only [Kernel.strict, force_eq, forceAt_eq]

end K1K.Sched

import OsStuff.BottomHalves.Tasklet
import OsStuff.BottomHalves.WorkQueue

/-!
# Keys between interrupt and bottom half

Both modules hand a scancode over in one variable.  A key is lost when the next
interrupt comes before the handler has read it; a handler that has been taken out
of the queue but has not read yet prints the later key, and once more when it is
called for it.
-/

namespace OsStuff
namespace BottomHalves

open Library

/-- When the keys printed are the keys pressed.  For the tasklet the condition on
the run is exact.  For the work queue it is enough, and after the first interrupt
that does not meet it the handlers, left alone, print something else. -/
theorem keys_printed (events : List Tasklet.Event) (final : Tasklet.State)
    (arrivals : List WorkQueue.Event) (state : WorkQueue.State) :
    (run Tasklet.step Tasklet.start events = some final → Tasklet.Quiet final →
      (final.printed = Tasklet.pressed events ↔
        GuardedRun Tasklet.step Tasklet.Harmless Tasklet.start events final)) ∧
    (GuardedRun WorkQueue.step WorkQueue.Harmless WorkQueue.start arrivals state →
      (WorkQueue.Quiet state → state.printed = WorkQueue.pressed arrivals) ∧
      ∀ event next, WorkQueue.step state event = some next →
        ¬ WorkQueue.Harmless state event next →
          ∃ handlers drained,
            (∀ event ∈ handlers, WorkQueue.Event.arrival event = none) ∧
            run WorkQueue.step next handlers = some drained ∧ WorkQueue.Quiet drained ∧
              drained.printed ≠ WorkQueue.pressed (arrivals ++ [event] ++ handlers)) := by
  refine ⟨Tasklet.printed_iff, fun hrun => ⟨WorkQueue.printed_of_guarded hrun, ?_⟩⟩
  intro event next hstep hharm
  exact WorkQueue.exists_other_printed hrun hstep hharm

/-- The key `A` is pressed and released and `S` is pressed, and every handler runs
before the next interrupt. -/
def slowTasklet : List Tasklet.Event :=
  [.interrupt 1 0x1e, .begin, .call, .interrupt 1 0x9e, .interrupt 1 0x1f, .begin, .call]

def slowTaskletEnd : Tasklet.State := ⟨0x1f, false, false, [some "A", some "S"]⟩

def slowWork : List WorkQueue.Event :=
  [.interrupt 1 0x1e, .begin1, .test, .print, .begin2, .end2,
    .interrupt 1 0x9e, .begin1, .test, .begin2, .end2,
    .interrupt 1 0x1f, .begin1, .test, .print, .begin2, .end2]

def slowWorkEnd : WorkQueue.State :=
  ⟨0x1f, true, false, .idle, false, false, [some "A", some "S"]⟩

theorem slowWork_guarded : GuardedRun WorkQueue.step WorkQueue.Harmless
    WorkQueue.start slowWork slowWorkEnd :=
  GuardedRun.of_checked (by decide)

theorem keys_printed_slow :
    (slowTaskletEnd.printed = Tasklet.pressed slowTasklet ↔
      GuardedRun Tasklet.step Tasklet.Harmless Tasklet.start slowTasklet
        slowTaskletEnd) ∧
    slowWorkEnd.printed = WorkQueue.pressed slowWork := by
  obtain ⟨htasklet, hwork⟩ :=
    keys_printed slowTasklet slowTaskletEnd slowWork slowWorkEnd
  exact ⟨htasklet (by decide) ⟨rfl, rfl⟩,
    (hwork slowWork_guarded).1 ⟨rfl, rfl, rfl, rfl⟩⟩

/-- The tasklet loses the first of two keys; the work queue loses a key that is
released before its handler runs. -/
theorem keys_lost :
    (¬ ∀ events final,
      (∀ irq scancode, .interrupt irq scancode ∈ events → Covered scancode) →
      run Tasklet.step Tasklet.start events = some final → Tasklet.Quiet final →
        final.printed = Tasklet.pressed events) ∧
    ¬ ∀ events final,
      (∀ irq scancode, .interrupt irq scancode ∈ events → Covered scancode) →
      run WorkQueue.step WorkQueue.start events = some final → WorkQueue.Quiet final →
        final.printed = WorkQueue.pressed events := by
  constructor
  · intro hall
    have hprinted := hall [.interrupt 1 0x1e, .interrupt 1 0x1f, .begin, .call]
      ⟨0x1f, false, false, [some "S"]⟩ ?_ (by decide) ⟨rfl, rfl⟩
    · exact absurd hprinted (by decide)
    · intro irq scancode hmem
      simp only [List.mem_cons, Tasklet.Event.interrupt.injEq, reduceCtorEq,
        List.not_mem_nil, or_false] at hmem
      rcases hmem with ⟨-, rfl⟩ | ⟨-, rfl⟩ <;> exact ⟨by decide, by decide⟩
  · intro hall
    have hprinted := hall
      [.interrupt 1 0x1e, .interrupt 1 0x9e, .begin1, .test, .begin2, .end2]
      ⟨0x9e, true, false, .idle, false, false, []⟩ ?_ (by decide)
      ⟨rfl, rfl, rfl, rfl⟩
    · exact absurd hprinted (by decide)
    · intro irq scancode hmem
      simp only [List.mem_cons, WorkQueue.Event.interrupt.injEq, reduceCtorEq,
        List.not_mem_nil, or_false] at hmem
      rcases hmem with ⟨-, rfl⟩ | ⟨-, rfl⟩ <;> exact ⟨by decide, by decide⟩

end BottomHalves
end OsStuff

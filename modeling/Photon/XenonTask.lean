import Mathlib.Logic.Basic
/-!
# XenonTask — the stages of a task service

The task services keep a `TaskState` in their document.  A patch moves the stage forward, never back, and a task in a
final stage takes no more patches.
-/
namespace Photon.Xenon

inductive TaskStage where
  | created
  | started
  | finished
  | failed
  | cancelled
  deriving DecidableEq

def TaskStage.ordinal : TaskStage → Nat
  | .created => 0
  | .started => 1
  | .finished => 2
  | .failed => 3
  | .cancelled => 4

def TaskStage.isFinal (stage : TaskStage) : Bool := TaskStage.finished.ordinal ≤ stage.ordinal

/-- The check of a patch to the stage: not from a final stage, and not back. -/
def TaskStage.mayMove (current patch : TaskStage) : Bool :=
  current.ordinal < TaskStage.finished.ordinal && current.ordinal ≤ patch.ordinal

end Photon.Xenon

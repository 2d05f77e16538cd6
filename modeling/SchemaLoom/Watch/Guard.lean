import SchemaLoom.Watch.Loop

/-!
# The mark of a running batch

A loop carries a mark while it works. A tick that meets the mark does nothing.
-/

namespace SchemaLoom

structure GuardedLoop where
  loop : WatchLoop
  /-- Whether a tick is at work. -/
  working : Bool

namespace GuardedLoop

def start (bench : Workbench) (c : Configuration) : GuardedLoop := ⟨.start bench c, false⟩

/-- One step, or nothing while another one is at work. -/
def tick (g : GuardedLoop) : Option Tick × GuardedLoop :=
  if g.working then (none, g)
  else
    let g := { g with working := true }
    let (t, loop) := g.loop.tick
    (some t, { loop, working := false })

theorem tick_of_resting {g : GuardedLoop} (h : g.working = false) :
    g.tick = (some g.loop.tick.1, ⟨g.loop.tick.2, false⟩) := by
  unfold tick
  rw [h]
  rfl

end GuardedLoop

end SchemaLoom

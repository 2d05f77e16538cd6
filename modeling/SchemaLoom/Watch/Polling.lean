import SchemaLoom.FileSystem.Difference
import SchemaLoom.Watch.Loop

/-!
# Events from two looks at a file system

What happened between two looks is one event for every file that is gone, changed or new.
-/

namespace SchemaLoom

namespace WatchEvent

def ofRemoved (place : Place) : WatchEvent := ⟨.remove, [FileSystem.pathOf place]⟩

def ofWritten (before : FileSystem) (place : Place) : WatchEvent :=
  ⟨if (before.entry? place).isSome then .modify else .create, [FileSystem.pathOf place]⟩

/-- The events that lead from one look to the next. -/
def between (before after : FileSystem) : List WatchEvent :=
  (FileSystem.removedFiles before after).map ofRemoved ++
    (FileSystem.writtenFiles before after).map fun file => ofWritten before file.1

end WatchEvent

namespace WatchLoop

/-- The loop on the files as they are now, with what happened to them taken in and an empty log. -/
def observe (l : WatchLoop) (files : FileSystem) : List WatchEvent × WatchLoop :=
  let events := WatchEvent.between l.bench.files files
  (events, events.foldl intake { l with bench := { l.bench with files, log := [] } })

/-- The lines that say what is watched. -/
def announcement (l : WatchLoop) : List Log.Line :=
  [FileCategory.template, .registry].filterMap fun category =>
    ((category.watched? l.configuration).filter l.bench.files.pathExists).map fun path =>
      ⟨"watch", s!"{category.name}: {l.configuration.shown path}"⟩

end WatchLoop

end SchemaLoom

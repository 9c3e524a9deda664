import Lineage.Files.Path

/-! Debouncing: a path is released once nothing has happened to it for a while, however
often it was touched before. -/

namespace Lineage.Watch

/-- A path and the time of its last touch. -/
structure Touched where
  path : String
  time : Int
deriving DecidableEq, Repr

/-- The paths that wait, each once. -/
structure Debouncer where
  delay : Nat
  waiting : List Touched
deriving Repr

namespace Debouncer

def new (delay : Nat) : Debouncer := ⟨delay, []⟩

/-- Touches a path at a time. One that waits already keeps the spelling it came with. -/
def touch (d : Debouncer) (path : String) (time : Int) : Debouncer :=
  if d.waiting.any fun t => Path.same t.path path then
    { d with waiting := d.waiting.map fun t =>
        if Path.same t.path path then { t with time } else t }
  else { d with waiting := d.waiting ++ [⟨path, time⟩] }

/-- Whether a path has been quiet for long enough. A time before its touch is none. -/
def isQuiet (d : Debouncer) (now : Int) (t : Touched) : Bool :=
  (d.delay : Int) ≤ max (now - t.time) 0

/-- The quiet paths in their order, and the others, which go on waiting. -/
def takeReady (d : Debouncer) (now : Int) : List String × Debouncer :=
  let ready := (d.waiting.filter (d.isQuiet now)).mergeSort fun a b =>
    (Path.order (Path.components a.path) (Path.components b.path)).isLE
  (ready.map Touched.path, { d with waiting := d.waiting.filter fun t => !d.isQuiet now t })

def isEmpty (d : Debouncer) : Bool := d.waiting.isEmpty

end Debouncer

end Lineage.Watch

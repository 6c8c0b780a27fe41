import InDoubt.Registry

/-!
Recovery logs and the processes that keep them. Opening a log touches no file. The directory of a
log can be moved only while its process owns no registry, since the files written so far would no
longer be found. A log can be registered with the host, which sweeps it from then on. A crash ends
a process and leaves its files.
-/

namespace InDoubt.World

/-- Starts a process with a log of its own. -/
def openLog (w : World) (config : Config) (node : String) : ProcessRef × World :=
  (⟨w.processes.length⟩,
    { w with processes := w.processes ++ [⟨config.dir, node, .empty, [], false, true⟩] })

/-- Moves the directory of a log under another base directory. -/
def relocate (w : World) (p : ProcessRef) (base : String) : Except Failure Unit × World :=
  let owned := (w.process p).openIds.size
  if 0 < owned then (.error (.registriesOpen owned), w)
  else (.ok (), w.updateProcess p fun proc => { proc with dir := recoveryDir base })

/-- Registers a log with the host once more. The process holds the new registration only. -/
def register (w : World) (p : ProcessRef) : World :=
  { w with callbacks := w.callbacks ++ [p] }.updateProcess p fun proc =>
    { proc with registered := true }

/-- Takes back the registration that a process holds, which is its latest. -/
def unregister (w : World) (p : ProcessRef) : World :=
  if (w.process p).registered then
    { w with callbacks := (w.callbacks.reverse.erase p).reverse }.updateProcess p fun proc =>
      { proc with registered := false }
  else w

/-- Ends a process: its files are closed, which frees their locks, its branches are in doubt no
longer, and the registration it holds is taken back. An earlier registration stays with the host,
and so does what the process owned. -/
def crash (w : World) (p : ProcessRef) : World :=
  let mine (g : Registry) : Bool := g.owner = p
  let held := (w.registries.filter mine).filterMap Registry.handle?
  let alone := w.unregister p
  { alone with
    files := w.files.unlock held
    processes := alone.processes.modify p.index fun proc =>
      { proc with inDoubt := [], running := false }
    registries := w.registries.map fun g => if mine g then g.closed else g }

/-- Claims an identifier, and says whether it was free. -/
def claim (w : World) (p : ProcessRef) (id : String) : Bool × World :=
  (decide (id ∉ (w.process p).openIds),
    w.updateProcess p fun proc => { proc with openIds := proc.openIds.insert id })

/-- Gives an identifier back, and says whether it was claimed. -/
def unclaim (w : World) (p : ProcessRef) (id : String) : Bool × World :=
  (decide (id ∈ (w.process p).openIds),
    w.updateProcess p fun proc => { proc with openIds := proc.openIds.erase id })

end InDoubt.World

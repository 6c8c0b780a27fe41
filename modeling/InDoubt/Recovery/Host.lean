import InDoubt.Recovery.Scan

/-!
The transaction manager that hosts the logs. It sweeps every registered log in the order of
registration and collects the branches in doubt.
-/

namespace InDoubt.World

def sweepEach : List ProcessRef → World → List BranchRef × World
  | [], w => ([], w)
  | p :: rest, w =>
      let (found, after) := w.sweep p []
      let (more, last) := sweepEach rest after
      (found ++ more, last)

def hostSweep (w : World) : List BranchRef × World := sweepEach w.callbacks w

end InDoubt.World

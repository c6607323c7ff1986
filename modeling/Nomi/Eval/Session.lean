import Nomi.Eval.Evaluate

/-!
# Runs and sessions

A run evaluates one source in a fresh world.  A session evaluates sources one
after the other in the same world, and goes on after a failure.
-/

namespace Nomi

/-- How deep evaluation may nest. -/
def depthLimit : Nat :=
  1000

abbrev Outcome :=
  Except Failure Value

def Eval.outcome (computation : Eval Value) (world : World) : Outcome × World :=
  match computation world with
  | .ok value world => (.ok value, world)
  | .error failure world => (.error failure, world)

def evaluateGlobally (host : Host) (node : Node) : World → Outcome × World :=
  (evaluate host depthLimit Store.globalId node).outcome

/-- Evaluates a source in the global scope. -/
def step (host : Host) (source : String) (world : World) : Outcome × World :=
  match parse source with
  | .ok program => evaluateGlobally host program world
  | .error error => (.error (.source error), world)

def run (host : Host) (source : String) (input : List String) : Outcome × World :=
  step host source (.initial input)

/-- Evaluates sources one after the other, from a world on.  The outcome of
each comes with the world it leaves. -/
def session (host : Host) : List String → World → List (Outcome × World)
  | [], _ => []
  | source :: sources, world =>
      let result := step host source world
      result :: session host sources result.2

end Nomi

import ProblemBoard.Finding.Basic

/-!
# Producers

What a producer is asked, and why it may have nothing to say.
-/

namespace ProblemBoard

/-- What a producer is asked. -/
structure Request where
  root : Path
  /-- The configuration to be used; without one the producer looks for its own. -/
  config : Option Path
  componentChecker : Bool
  deriving DecidableEq, Repr

/-- A request about a workspace and nothing else. -/
def Request.bare (root : Path) : Request := ⟨root, none, false⟩

/-- Why a producer has nothing to say. -/
inductive Failure where
  /-- Its program did not run, or ended badly. -/
  | invocationFailed (producer message : String)
  /-- What its program wrote is not understood. -/
  | outputUnparseable (producer message : String)
  /-- Its program is not installed. -/
  | engineNotFound (producer engine : String)
  | panicked (producer message : String)
  deriving DecidableEq, Repr

namespace Failure

def producer : Failure → String
  | invocationFailed p _ => p
  | outputUnparseable p _ => p
  | engineNotFound p _ => p
  | panicked p _ => p

def message : Failure → String
  | invocationFailed p m => p ++ " failed: " ++ m
  | outputUnparseable p m => p ++ " produced output that could not be parsed: " ++ m
  | engineNotFound p e =>
      p ++ ": could not find " ++ e ++ " (install it in node_modules or on PATH)"
  | panicked p m => p ++ " panicked: " ++ m

end Failure

def typeCheckName : String := "typecheck"

def lintName : String := "lint"

def liveName : String := "live"

end ProblemBoard

import CallFlow.Conformance.Creation
import CallFlow.Conformance.Refusal
import CallFlow.Conformance.Isolation
import CallFlow.Conformance.Versions
import CallFlow.Conformance.Order
import CallFlow.Conformance.Append

/-! # The conformance suite

Every check runs on a fresh store of its own; the report says which ones failed and why.
-/
namespace CallFlow.Conformance

structure CheckResult where
  group : String
  name : String
  /-- Why the check failed; nothing when it passed. -/
  failure : Option String
deriving DecidableEq, Repr

namespace CheckResult

def passed (r : CheckResult) : Bool := r.failure.isNone

end CheckResult

structure Report where
  results : List CheckResult
deriving DecidableEq, Repr

namespace Report

def total (r : Report) : Nat := r.results.length

def failures (r : Report) : List CheckResult := r.results.filter (!·.passed)

def failed (r : Report) : Nat := r.failures.length

def passed (r : Report) : Nat := r.total - r.failed

def head (r : Report) : String :=
  toString r.passed ++ " of " ++ toString r.total ++ " store checks passed"

def failureLine (r : CheckResult) : String :=
  "\n  " ++ r.group ++ "::" ++ r.name ++ " failed: " ++ r.failure.getD ""

def text (r : Report) : String := r.head ++ String.join (r.failures.map failureLine)

end Report

variable {σ : Type} [Backend σ]

def Check.runOn (c : Check σ) (fresh : σ) : CheckResult :=
  match (c.body.run fresh).1 with
  | .ok () => ⟨c.group, c.name, none⟩
  | .error reason => ⟨c.group, c.name, some reason⟩

def allChecks (σ : Type) [Backend σ] : List (Check σ) :=
  Creation.checks σ ++ Refusal.checks σ ++ Isolation.checks σ ++ Versions.checks σ ++
    Order.checks σ ++ Append.checks σ

def runSuite (fresh : σ) : Report := ⟨(allChecks σ).map (·.runOn fresh)⟩

end CallFlow.Conformance

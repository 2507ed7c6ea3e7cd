import Mathlib.Tactic

namespace Kernel

/-- Primary failure class. -/
inductive ErrorCategory where
  | invalidArgument
  | invalidHandle
  | wrongContext
  | alreadyReleased
  | bufferTooSmall
  | capacityExceeded
  | capabilityUnavailable
  | cancelled
  | timedOut
  | contextClosing
  | contextDestroyed
  | panicBoundary
  | internalInvariant
  deriving DecidableEq, Repr

/-- Bounded context attached to a category. -/
inductive ErrorDetail where
  | none
  | requiredCapacity (required provided : Nat)
  | limitExceeded (limit requested : Nat)
  | staticMessage (text : String)
  deriving DecidableEq, Repr

structure KernelError where
  category : ErrorCategory
  detail : ErrorDetail
  deriving DecidableEq, Repr

/-- A failure without further detail. -/
def error (category : ErrorCategory) : KernelError := ⟨category, .none⟩

end Kernel

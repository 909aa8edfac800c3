import Mathlib.Tactic.TypeStar

/-! Errors as observers receive them: those of the platform's frameworks, and
the one the storage service declares itself. -/

namespace Reservation

structure NSError where
  code : Int
  deriving DecidableEq

inductive EntityError
  | entityNotFound
  deriving DecidableEq

inductive AnyError
  | nsError (error : NSError)
  | entityError (error : EntityError)
  deriving DecidableEq

end Reservation

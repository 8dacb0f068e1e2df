import Mathlib.Algebra.Group.Nat.Defs

namespace PipeIo
set_option autoImplicit true

/-- `StageId`: the name of a stage. -/
abbrev StageId := String

/-- `BoxError`: an error of user code, boxed; only its text is kept here. -/
abbrev BoxError := String

/-- `Box<dyn Any>`: a value whose type is known only at run time. -/
structure AnyBox where
  type : Type
  val : type

/-- A `Duration`, in nanoseconds. -/
abbrev Duration := Nat

inductive ConfigErrorKind where
  | zeroDuration (field : String)
  | zeroLimit (field : String)
  | slideExceedsSize
  | tooManyOverlappingWindows (overlap max : Nat)
  | noBatchTrigger
  | bytesRequireByteSize
  | deadLetterSinkMissing
  | limitTooLarge (field : String) (max : Nat)
  deriving DecidableEq, Repr

structure ConfigError where
  stage : StageId
  kind : ConfigErrorKind
  deriving DecidableEq, Repr

/-- The error every pipeline operation returns. -/
inductive Error where
  | source (stage : StageId) (source : BoxError)
  | stage (stage : StageId) (source : BoxError)
  | sink (stage : StageId) (source : BoxError)
  | config (e : ConfigError)
  | cancelled
  | closed
  | driver (source : BoxError)
  deriving DecidableEq, Repr

/-- What happens to an item a fallible stage rejects. -/
inductive ErrorPolicy where
  | failFast | continue | deadLetter
  deriving DecidableEq, Repr

/-- A failed item on its way to the dead-letter sink. -/
structure StageFailure where
  stage : StageId
  source : BoxError
  input : Option AnyBox
  attempts : Nat

namespace StageFailure

def new (stage : StageId) (source : BoxError) : StageFailure := ⟨stage, source, none, 1⟩

def with_attempts (f : StageFailure) (attempts : Nat) : StageFailure :=
  { f with attempts := attempts }

end StageFailure

/-- `RunStats`, without the duration of the run. -/
structure RunStats where
  items_in : Nat
  items_out : Nat
  errors : Nat
  dead_lettered : Nat
  retries : Nat
  deriving DecidableEq, Repr

def RunStats.default : RunStats := ⟨0, 0, 0, 0, 0⟩

/-- What an observer is told. -/
inductive Event where
  | started
  | stageError (stage : StageId) (policy : ErrorPolicy) (error : BoxError)
  | retry (stage : StageId) (attempt : Nat) (delay : Duration) (error : BoxError)
  | deadLettered (stage : StageId)
  | idle
  | teardownError (error : Error)
  | finished (stats : RunStats) (error : Option Error)
  deriving DecidableEq, Repr

end PipeIo

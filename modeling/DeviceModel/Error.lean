/-!
Why an operation on the device model fails. There are four causes; every refusal of the
file system below is read as one of them.
-/

namespace DeviceModel

inductive Error where
  | invalidArgument
  | notFound
  | readError
  | allocationFailure
  deriving DecidableEq

namespace Error

def message : Error → String
  | invalidArgument => "invalid argument"
  | notFound => "no such file or directory"
  | readError => "read error"
  | allocationFailure => "out of memory"

/-- The error number handed to callers that count errors below zero. -/
def errno : Error → Int
  | notFound => -2
  | readError => -5
  | allocationFailure => -12
  | invalidArgument => -22

end Error

/-- What a failed file operation reports. Only three kinds are told apart. -/
inductive FailureKind where
  | notFound
  | invalidInput
  | outOfMemory
  | other
  deriving DecidableEq

namespace FailureKind

/-- The kind that an error number of the system stands for. -/
def ofErrno (n : Int) : FailureKind :=
  if n = 2 then notFound else if n = 22 then invalidInput else if n = 12 then outOfMemory else other

end FailureKind

namespace Error

def ofFailure : FailureKind → Error
  | .notFound => notFound
  | .invalidInput => invalidArgument
  | .outOfMemory => allocationFailure
  | .other => readError

def ofErrno (n : Int) : Error := ofFailure (.ofErrno n)

/-- An error's own number is read back as the error. -/
theorem ofErrno_neg_errno (e : Error) : ofErrno (-e.errno) = e := by
  cases e <;> rfl

theorem errno_injective {e f : Error} (h : e.errno = f.errno) : e = f := by
  rw [← ofErrno_neg_errno e, ← ofErrno_neg_errno f, h]

end Error

end DeviceModel

/-!
# Errors

`std::io::Error` as far as the code looks at it, and the enums of `error.rs`.
-/

namespace ErrorTypes

universe u
variable {X : Type u}

/-- The kinds that the code names, and the others. -/
inductive ErrorKind where
  | interrupted
  | wouldBlock
  | other
  | unnamed (kind : Nat)
  deriving DecidableEq

/-- An error of the operating system, or one made by `io::Error::new`. -/
structure IoError (X : Type u) where
  kind : ErrorKind
  error : X

inductive ExecutorError (X : Type u) where
  | lockPoisoned
  | threadSpawn (err : IoError X)
  | taskExecution (message : String)
  | io (err : IoError X)

inductive ReactorError (X : Type u) where
  | init (err : IoError X)
  | registration (err : IoError X)
  | polling (err : IoError X)
  | lockPoisoned
  | io (err : IoError X)

end ErrorTypes

import Mathlib.Tactic.TypeStar

/-!
# Database errors
-/

namespace AimDb

inductive DbError where
  | connectionFailed (endpoint reason : String)
  | bufferFull (size : UInt32) (bufferName : String)
  | bufferLagged (lagCount : UInt64) (bufferName : String)
  | bufferClosed (bufferName : String)
  | bufferEmpty
  | recordNotFound (recordName : String)
  | recordKeyNotFound (key : String)
  | invalidRecordId (id : UInt32)
  | typeMismatch (recordId : UInt32) (expectedType : String)
  | invalidOperation (operation reason : String)
  | permissionDenied (operation : String)
  | missingConfiguration (parameter : String)
  | invalidConfiguration (errors : List String)
  | runtimeError (message : String)
  | internal (code : UInt32) (message : String)
  | cyclicDependency (records : List String)
  | transformInputNotFound (outputKey inputKey : String)
  | io (source : String)
  | ioWithContext (context source : String)
  | json (source : String)
  deriving DecidableEq, Repr

end AimDb

import QueryCache.Key.Basic
import QueryCache.Text.Duration

/-!
# What can go wrong

Three kinds of causes: a cache refuses an operation, a configuration cannot be
honoured, a session cannot run a statement.  An error that leaves a session or
a builder says which kind it is in front of the wording of the cause.
-/

namespace QueryCache

/-- What a cache was expected to hold. -/
inductive Expected where
  | referenceHandle
  | serializedSnapshot
deriving DecidableEq, Repr

/-- The wording of what was expected. -/
def Expected.text : Expected → String
  | .referenceHandle => "reference handle"
  | .serializedSnapshot => "serialized snapshot"

/-- Why a cache refuses an operation. -/
inductive CacheError where
  /-- Another thread held the lock of the key for the whole timeout. -/
  | lockTimeout (cache : String) (key : CacheKey) (timeout : Duration)
  | notSerializable (cache : String) (typeName : String)
  | serialization (cache : String) (reason : String)
  | deserialization (cache : String) (reason : String)
  | nullKeyUpdate
  | unexpectedValue (cache : String) (expected : Expected)
deriving DecidableEq, Repr

/-- The wording of a cache error. -/
def CacheError.message : CacheError → String
  | .lockTimeout cache key timeout =>
    "Couldn't get a lock in " ++ timeout.text ++ " for the key " ++ key.display ++
      " at the cache " ++ cache
  | .notSerializable cache typeName =>
    "Value of type " ++ typeName ++ " stored in cache " ++ cache ++ " is not serializable"
  | .serialization cache reason => "Serialization failed in cache " ++ cache ++ ": " ++ reason
  | .deserialization cache reason => "Deserialization failed in cache " ++ cache ++ ": " ++ reason
  | .nullKeyUpdate => "Not allowed to update a null cache key instance"
  | .unexpectedValue cache expected =>
    "Unexpected value in cache " ++ cache ++ ": expected " ++ expected.text

/-- The name of the cause. -/
def CacheError.kind : CacheError → String
  | .lockTimeout .. => "LockTimeout"
  | .notSerializable .. => "NotSerializable"
  | .serialization .. => "Serialization"
  | .deserialization .. => "Deserialization"
  | .nullKeyUpdate => "NullKeyUpdate"
  | .unexpectedValue .. => "UnexpectedValue"

/-- Why a configuration cannot be honoured. -/
inductive ConfigError where
  | missingRequired (field : String)
  | invalidValue (field value reason : String)
  | incompatibleOptions (a b : String)
  | unknownEviction (name : String)
  | duplicateNamespace (ns : String)
  | unknownNamespace (ns : String)
  | outputParametersNotCacheable (statement : String)
deriving DecidableEq, Repr

/-- The wording of a configuration error. -/
def ConfigError.message : ConfigError → String
  | .missingRequired field => "Missing required configuration field: " ++ field
  | .invalidValue field value reason =>
    "Invalid value for " ++ field ++ ": " ++ value ++ " - " ++ reason
  | .incompatibleOptions a b => "Incompatible options: " ++ a ++ " and " ++ b
  | .unknownEviction name => "Unknown eviction policy: " ++ name
  | .duplicateNamespace ns => "Cache already registered for namespace " ++ ns
  | .unknownNamespace ns => "No cache for namespace '" ++ ns ++ "' could be found"
  | .outputParametersNotCacheable statement =>
    "Caching stored procedures with OUT params is not supported. " ++
      "Please configure use_cache=false in " ++ statement ++ " statement"

/-- The name of the cause. -/
def ConfigError.kind : ConfigError → String
  | .missingRequired .. => "MissingRequired"
  | .invalidValue .. => "InvalidValue"
  | .incompatibleOptions .. => "IncompatibleOptions"
  | .unknownEviction .. => "UnknownEviction"
  | .duplicateNamespace .. => "DuplicateNamespace"
  | .unknownNamespace .. => "UnknownNamespace"
  | .outputParametersNotCacheable .. => "OutputParametersNotCacheable"

/-- Why a session cannot run a statement. -/
inductive ExecutorError where
  | closed
  | statementFailed (statement reason : String)
deriving DecidableEq, Repr

/-- The wording of a session error. -/
def ExecutorError.message : ExecutorError → String
  | .closed => "Executor was closed"
  | .statementFailed statement reason => "Statement " ++ statement ++ " failed: " ++ reason

/-- The name of the cause. -/
def ExecutorError.kind : ExecutorError → String
  | .closed => "Closed"
  | .statementFailed .. => "StatementFailed"

/-- An error of any kind. -/
inductive Error where
  | cache (cause : CacheError)
  | config (cause : ConfigError)
  | executor (cause : ExecutorError)
deriving DecidableEq, Repr

/-- The wording of an error: its kind, then the cause. -/
def Error.message : Error → String
  | .cache cause => "Cache error: " ++ cause.message
  | .config cause => "Config error: " ++ cause.message
  | .executor cause => "Executor error: " ++ cause.message

/-- The name of the cause. -/
def Error.kind : Error → String
  | .cache cause => cause.kind
  | .config cause => cause.kind
  | .executor cause => cause.kind

end QueryCache

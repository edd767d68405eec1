/-! What can go wrong, with a code for programs and a message for people. -/

namespace DataReach

inductive StorageError where
  | io (path cause : String)
  | serialization (what cause : String)
  | corrupt (path cause : String)
  | invalidRoot (path : String)
  deriving DecidableEq, Repr, Inhabited

inductive GraphError where
  | notBuilt (path : String)
  | functionNotFound (id : String)
  | cancelled (completedBatches : Nat)
  | writerFailed (cause : String)
  | storage (e : StorageError)
  deriving DecidableEq, Repr, Inhabited

inductive ExtractionError where
  | unreadable (file cause : String)
  | unsupported (file : String)
  | failed (file cause : String)
  deriving DecidableEq, Repr, Inhabited

inductive ConfigError where
  | fileNotFound (path : String)
  | unparsable (path cause : String)
  | validationFailed (field cause : String)
  | invalidValue (field cause : String)
  deriving DecidableEq, Repr, Inhabited

/-- Any error that can turn up while a graph is built. -/
inductive BuildError where
  | extraction (e : ExtractionError)
  | storage (e : StorageError)
  | graph (e : GraphError)
  | config (e : ConfigError)
  | cancelled
  deriving DecidableEq, Repr, Inhabited

namespace StorageError

def message : StorageError → String
  | .io path cause => "I/O error at " ++ path ++ ": " ++ cause
  | .serialization what cause => "Failed to serialize " ++ what ++ ": " ++ cause
  | .corrupt path cause => "Corrupt document at " ++ path ++ ": " ++ cause
  | .invalidRoot path => "Invalid store root: " ++ path

def code : StorageError → String
  | .corrupt .. => "SHARD_CORRUPT"
  | _ => "STORAGE_ERROR"

end StorageError

namespace GraphError

def message : GraphError → String
  | .notBuilt path => "No call graph found at " ++ path ++ ". Run the build first."
  | .functionNotFound id => "Function not found: " ++ id
  | .cancelled n => "Resolution cancelled after " ++ Nat.repr n ++ " batch(es)"
  | .writerFailed cause => "Shard writer failed: " ++ cause
  | .storage e => e.message

def code : GraphError → String
  | .notBuilt _ => "GRAPH_NOT_BUILT"
  | .cancelled _ => "CANCELLED"
  | .storage e => e.code
  | _ => "CALL_GRAPH_ERROR"

end GraphError

namespace ExtractionError

def message : ExtractionError → String
  | .unreadable file cause => "Cannot read " ++ file ++ ": " ++ cause
  | .unsupported file => "No extractor handles " ++ file
  | .failed file cause => "Extraction failed for " ++ file ++ ": " ++ cause

def code : ExtractionError → String
  | .unsupported _ => "UNSUPPORTED_FILE"
  | _ => "EXTRACTION_ERROR"

def file : ExtractionError → String
  | .unreadable file _ | .unsupported file | .failed file _ => file

end ExtractionError

namespace ConfigError

def message : ConfigError → String
  | .fileNotFound path => "Config file not found: " ++ path
  | .unparsable path cause => "Config parse error in " ++ path ++ ": " ++ cause
  | .validationFailed field cause => "Config validation failed for " ++ field ++ ": " ++ cause
  | .invalidValue field cause => "Invalid config value for " ++ field ++ ": " ++ cause

def code (_ : ConfigError) : String := "CONFIG_ERROR"

end ConfigError

namespace BuildError

def message : BuildError → String
  | .extraction e => "Extraction error: " ++ e.message
  | .storage e => "Storage error: " ++ e.message
  | .graph e => "Call graph error: " ++ e.message
  | .config e => "Configuration error: " ++ e.message
  | .cancelled => "Pipeline cancelled"

def code : BuildError → String
  | .extraction e => e.code
  | .storage e => e.code
  | .graph e => e.code
  | .config e => e.code
  | .cancelled => "CANCELLED"

end BuildError

def coded (code message : String) : String := "[" ++ code ++ "] " ++ message

def BuildError.coded (e : BuildError) : String := DataReach.coded e.code e.message

/-- A result that is kept in spite of errors along the way. -/
structure Outcome (α : Type) where
  data : α
  errors : List BuildError
  deriving Inhabited

namespace Outcome

def clean (data : α) : Outcome α := ⟨data, []⟩

def add (r : Outcome α) (e : BuildError) : Outcome α := { r with errors := r.errors ++ [e] }

def isClean (r : Outcome α) : Bool := r.errors.isEmpty

def messages (r : Outcome α) : List String := r.errors.map BuildError.coded

end Outcome

end DataReach

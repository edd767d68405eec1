import DataReach.Config.Toml
/-!
Settings from all their layers. The user's file comes first, then the project's, the environment and
the command line, each over the ones before.
-/

namespace DataReach.Config

def userFile (home : String) : String := Path.join (Path.join home ".provenance") "config.toml"

def projectFile (root : String) : String := Path.join root "provenance.toml"

def home? (env : Environment) : Option String :=
  (env.lookup "HOME").or (env.lookup "USERPROFILE")

/-- The settings of a file, or none if there is nothing at its path. -/
def readFile? (disk : Disk) (path : String) : Except ConfigError (Option Config) :=
  match disk.find path with
  | .error _ => .ok none
  | .ok (_, .file (.text s)) => (readToml path s).map some
  | .ok _ => .error (.fileNotFound path)

/-- A user's file that cannot be read is passed over; one that cannot be parsed is not. -/
def readUser? (disk : Disk) (env : Environment) : Except ConfigError (Option Config) :=
  match home? env with
  | none => .ok none
  | some home =>
    match readFile? disk (userFile home) with
    | .error (.fileNotFound _) => .ok none
    | r => r

def mergeSome (base : Config) : Option Config → Config
  | none => base
  | some c => base.merge c

def load (disk : Disk) (env : Environment) (root : String) (flags : Flags) :
    Except ConfigError Config := do
  let user ← readUser? disk env
  let project ← readFile? disk (projectFile root)
  let layered := mergeSome (mergeSome {} user) project
  let c := (layered.merge (ofEnvironment env)).merge (ofFlags flags)
  c.validate
  return c

end DataReach.Config

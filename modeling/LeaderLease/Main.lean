import LeaderLease.Election.Identity
import LeaderLease.Logging.Format
import LeaderLease.Process.Course

/-!
# The program

Loads the configuration of this process, runs the election that it asks for over the store in
memory, and prints what happens. A signal ends the process by its default action.
-/

set_option autoImplicit false

namespace LeaderLease

namespace Program

def variableNames : List String :=
  [Loader.pathVariable, LogFormat.variableName, LogFilter.variableName, "SOLO_LEADER_ENABLED",
    "SOLO_LEADER_INSTANCE_ID", "SOLO_LEADER_TTL_SECS", "SOLO_LEADER_NAMESPACE", "SOLO_LEADER_NAME",
    "SOLO_LEADER_LOCK_KIND", "SOLO_LEADER_REDIS_URL", ElectionSettings.developmentVariable]

def readEnvironment : IO Environment :=
  variableNames.foldlM (fun env name => do
    match ← IO.getEnv name with
    | some value => return env.put name (Text.bytes value)
    | none => return env) Table.empty

/-- What is found under a path. -/
def look (path : String) : IO (Except FileError FileNode) := do
  try
    let bytes ← IO.FS.readBinFile path
    return .ok (.file bytes.data.toList)
  catch
    | .noFileOrDirectory .. => return .error .absent
    | .inappropriateType .. => return .ok .directory
    | _ => return .ok .directory

/-- The file system as far as the configuration asks for it. -/
def readFiles (paths : List String) : IO FileSystem := do
  let found ← paths.mapM fun path => return (path, ← look path)
  return fun path => (found.lookup path).getD (.error .absent)

def lineText (format : LogFormat) (line : LogLine) : String :=
  match format with
  | .json =>
    String.ofList (Json.ofMembers ([("level", .ofString line.level.name.toUpper),
      ("message", .ofString line.message)] ++
        (line.detail.map fun detail => [("detail", Json.ofString detail)]).getD [])).text
  | .text =>
    line.level.name.toUpper ++ " " ++ line.message ++
      (line.detail.map fun detail => " (" ++ detail ++ ")").getD ""

def print (format : LogFormat) (filter : LogFilter) (lines : List LogLine) : IO Unit :=
  for line in lines do
    if filter.passes line.level then IO.println (lineText format line)

/-- Beats for as long as the process lives. -/
partial def beat (format : LogFormat) (filter : LogFilter) : IO Unit := do
  IO.sleep 10000
  print format filter [.plain .info Course.heartbeatMessage]
  beat format filter

end Program

end LeaderLease

open LeaderLease in
def main : IO UInt32 := do
  let env ← Program.readEnvironment
  let files ← Program.readFiles (({} : Loader).candidates env)
  let bytes ← IO.getRandomBytes 16
  let format := LogFormat.ofEnvironment env
  let filter := LogFilter.ofEnvironment env
  let course := Course.of env files (Identity.ofBytes bytes.data.toList) []
  Program.print format filter course.lines
  match course.ending with
  | .exited code => return code.toUInt32
  | .killed _ => return 1
  | .lasting =>
    Program.beat format filter
    return 0

import FeatureFlags.Host.Server

/-!
# The command line

Starts a server from the environment variables and the file `.env`, then answers the requests that
it reads from standard input, one a line: a method, a target and, after that, a JSON body if there
is one. A line of output has the status and the body of an answer.
-/

namespace FeatureFlags.Main

/-- the variables that are set -/
def readEnvironment : List String → IO EnvFile.Environment
  | [] => pure {}
  | name :: names => do
    let rest ← readEnvironment names
    match ← IO.getEnv name with
    | some value => pure (rest.insert name value)
    | none => pure rest

def readFile (path : String) : IO Memory.File := do
  try
    let bytes ← IO.FS.readBinFile path
    pure (.content bytes)
  catch _ => pure .absent

def fileText : Memory.File → Option String
  | .absent => none
  | .content bytes => String.fromUTF8? bytes

/-- The environment, as far as it counts, and the files that it leads to; no remote service can be
reached. -/
def surroundings : IO Surroundings := do
  let envFile := fileText (← readFile ".env")
  let environment ← readEnvironment (Config.names envFile)
  let definitions ← match Config.load environment envFile with
    | .ok c =>
      match c.definitionsPath with
      | some path => readFile path
      | none => pure .absent
    | .error _ => pure .absent
  pure
    { environment, envFile
      files := fun _ => definitions
      free := fun _ => true
      remote := fun _ => [.drop] }

def request (line : String) : Request :=
  match line.splitOn " " with
  | method :: target :: rest =>
    { method, target
      headers := [("content-type", "application/json")]
      body := " ".intercalate rest }
  | _ => { method := line, target := "", headers := [], body := "" }

def line (r : Response) : String :=
  let content := match r.body with
    | .text content => content
    | _ => ""
  toString r.status ++ " " ++ content

partial def serve (s : Server) (input output : IO.FS.Stream) : IO Unit := do
  let text ← input.getLine
  if text.isEmpty then return
  let a := s.respond (request (text.dropEndWhile (fun c => c == '\n' || c == '\r')).toString)
  output.putStrLn (line a.2.response)
  output.flush
  serve a.1 input output

end FeatureFlags.Main

def main : IO UInt32 := do
  match FeatureFlags.Server.launch (← FeatureFlags.Main.surroundings) with
  | .error e =>
    IO.eprintln e.message
    pure 1
  | .ok s =>
    FeatureFlags.Main.serve s (← IO.getStdin) (← IO.getStdout)
    pure 0

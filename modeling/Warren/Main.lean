import Warren.Configuration.Options
import Warren.Service.Startup

/-!
# The command line

The program checks whether the service can start as it is called: it reads the options, the
configuration file, and the files that the configuration names. It ends with 0 if all is well, with
2 if it does not understand its options, with 3 after a fault that another attempt would meet again,
with 101 after a crash, and with 1 after any other fault.
-/

namespace Warren

def usageText : String :=
  "Usage: warren [--config FILE] [--kubeconfig FILE] [--listen ADDRESS]\n"
    ++ "  [--watch-interval SECONDS] [--min-allocation-size BYTES] [--drain-allowlist HOSTS]\n"
    ++ "  [--retry-delay SECONDS] [--resource-graph FILE] [--disable-fluxion]\n"
    ++ "  [-v | --verbose] [-h | --help] [-V | --version]"

def versionText : String := "warren 0.1.0"

def Fault.describe (f : Fault) : String :=
  f.message?.getD <| match f with
    | .malformedConfiguration => "The configuration file is malformed"
    | .malformedDocument => "The resource graph is malformed"
    | _ => "A file cannot be read"

def Fault.status : Fault → UInt32
  | .crash _ => 101
  | f => if f.isFatal then 3 else 1

def readFile (path : String) : IO File := do
  let content ← try pure (some (← IO.FS.readFile path)) catch _ => pure none
  return ⟨path, content⟩

def processUser : IO UInt32 := do
  let status ← readFile "/proc/self/status"
  let lines := (status.content.getD "").splitOn "\n"
  let user := lines.findSome? fun line => match line.splitOn "\t" with
    | "Uid:" :: user :: _ => user.toNat?
    | _ => none
  return UInt32.ofNat (user.getD 0)

def check : Except Fault α → ExceptT Fault IO α
  | .ok a => pure a
  | .error fault => throw fault

/-- Checks everything that the service needs to start, apart from the server. -/
def checkStart (options : Options) : ExceptT Fault IO Unit := do
  let owner ← processUser
  let (config, warnings) ← match options.config with
    | some path => check (Configuration.ofFile owner path (← readFile path).content)
    | none => pure (Configuration.standard owner, [])
  for warning in warnings do IO.eprintln warning.message
  let config ← check ((config.withOptions options).mapError .ofConfiguration)
  if let some path := config.mapping then
    let _ ← check (Topology.ofMappingFile config.claimPolicy (← readFile path))
  let _ ← check (Startup.graph config (← config.graph.mapM fun path => readFile path))

end Warren

open Warren

def main (arguments : List String) : IO UInt32 := do
  match Options.read arguments with
  | .error .displayHelp => IO.println usageText; return 0
  | .error .displayVersion => IO.println versionText; return 0
  | .error _ => IO.eprintln usageText; return 2
  | .ok options => match ← checkStart options with
    | .ok () => return 0
    | .error fault => IO.eprintln fault.describe; return fault.status

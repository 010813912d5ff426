import Warren.Configuration
import Warren.Fault
import Warren.Toml.Document

/-!
# The configuration file

The settings stand in the table `rabbit` of a TOML document, those that are not named keep their
standard values. A key that is not known leads to a warning, a value of the wrong kind to a fault.
-/

namespace Warren

/-- Something odd in a configuration file that does not keep the service from starting. -/
inductive Warning where
  | unknownKey (key : String)
  | unknownPolicyKey (key : String)
  | unknownMaximum (key : String)
deriving DecidableEq, Repr

def Warning.message : Warning → String
  | .unknownKey key => s!"misconfiguration: unrecognized `rabbit.{key}` key in configuration"
  | .unknownPolicyKey key =>
    s!"misconfiguration: unrecognized `rabbit.policy.{key}` key, "
      ++ "the policy table only accepts `maximums`"
  | .unknownMaximum key =>
    s!"misconfiguration: unrecognized `rabbit.policy.maximums.{key}` key, "
      ++ "accepted keys are [\"xfs\", \"gfs2\", \"raw\", \"lustre\"]"

namespace Toml.Value

/-- A span of whole seconds, or the span nearest to a float. -/
def span? : Value → Option Span
  | .integer n => if 0 ≤ n ∧ n < UInt64.size then some (.seconds n.toNat) else none
  | .float x => (Span.ofSeconds x).toOption
  | _ => none

def preset? : Value → Option Preset
  | .string s => some (.single s)
  | .array items => (items.mapM string?).map .multiple
  | _ => none

def presets? (v : Value) : Option (Dict String Preset) :=
  v.entries?.bind (·.mapM fun (key, value) => (preset? value).map fun preset => (key, preset))

/-- Whether a value is an empty table or an empty array. -/
def isHollow : Value → Bool
  | .table [] | .array [] => true
  | _ => false

/-- The name of a case: a string, or a table with an empty table under that name. -/
def caseName? : Value → Option String
  | .string s => some s
  | .table [(s, content)] => if content.isHollow then some s else none
  | _ => none

def claimPolicy? (v : Value) : Option ClaimPolicy :=
  match v.caseName? with
  | some "warn" => some .warn
  | some "fail" => some .fail
  | _ => none

/-- A table in which all integers have a sign and 64 bits. -/
def plainTable? (v : Value) : Option Toml.Entries :=
  if v.integersWithin wordStart wordEnd then v.entries? else none

/-- The time limits of the stages: a table, or an array in the order of the stages. -/
def timeouts? (v : Value) : Option Stage.Timeouts :=
  let names := ["setup", "prerun", "postrun"]
  let entries := match v with
    | .array items => some (names.zip items)
    | v => v.entries?
  entries.bind fun entries =>
    let limit (name : String) : Option (Option Span) :=
      match Dict.find? entries name with
      | none => some none
      | some value => (span? value).map some
    do some ⟨← limit "setup", ← limit "prerun", ← limit "postrun"⟩

end Toml.Value

/-- The settings in a file, as they are written. -/
structure Section where
  kubeconfig : Option String
  listen : Option String
  watchInterval : Option Span
  retryDelay : Option Span
  maxRetryDelay : Option Span
  conditionTimeout : Option Span
  timeouts : Option Stage.Timeouts
  drains : Option Bool
  softDrains : Option Bool
  drainAllowlist : Option String
  restrictsPersistent : Option Bool
  owner : Option UInt32
  savedMovements : Option Nat
  leastAllocation : Option UInt64
  /-- The table of the limits on capacity. -/
  maximums : Option Toml.Entries
  presets : Option (Dict String Preset)
  mapping : Option String
  withoutGraph : Option Bool
  graph : Option String
  excluded : Option String
  claimPolicy : Option ClaimPolicy
  warnings : List Warning

namespace Section

/-- The known keys in the table `rabbit`. -/
def keys : List String :=
  ["kubeconfig", "listen", "watch_interval", "retry_delay", "max_retry_delay", "tc_timeout",
    "timeouts", "drain_compute_nodes", "soft_drain", "drain_allowlist",
    "restrict_persistent_creation", "instance_owner", "save_datamovements", "min_allocation_size",
    "policy", "presets", "mapping", "disable_fluxion", "resource_graph", "exclude_hosts",
    "duplicate_claims"]

/-- The other entries of a table, if their integers have a sign and 64 bits. -/
def unknown? (known : List String) (entries : Toml.Entries) : Option (List String) :=
  let others := entries.filter fun entry => !known.contains entry.1
  if Toml.Value.entriesWithin Toml.Value.wordStart Toml.Value.wordEnd others then
    some (others.map Prod.fst)
  else none

/-- The value under a key, none if the key is missing. -/
def setting (entries : Toml.Entries) (key : String) (read : Toml.Value → Option α) :
    Option (Option α) :=
  match entries.find? key with
  | none => some none
  | some value => (read value).map some

def policy? (v : Toml.Value) : Option (Option Toml.Entries × List String) := do
  let entries ← v.entries?
  let maximums ← setting entries "maximums" Toml.Value.plainTable?
  some (maximums, ← unknown? ["maximums"] entries)

/-- The settings in the table `rabbit`. -/
def ofEntries? (entries : Toml.Entries) : Option Section := do
  let get {α : Type} (key : String) (read : Toml.Value → Option α) : Option (Option α) :=
    setting entries key read
  let policy ← get "policy" policy?
  let others ← unknown? keys entries
  some {
    kubeconfig := ← get "kubeconfig" Toml.Value.string?
    listen := ← get "listen" Toml.Value.string?
    watchInterval := ← get "watch_interval" Toml.Value.span?
    retryDelay := ← get "retry_delay" Toml.Value.span?
    maxRetryDelay := ← get "max_retry_delay" Toml.Value.span?
    conditionTimeout := ← get "tc_timeout" Toml.Value.span?
    timeouts := ← get "timeouts" Toml.Value.timeouts?
    drains := ← get "drain_compute_nodes" Toml.Value.boolean?
    softDrains := ← get "soft_drain" Toml.Value.boolean?
    drainAllowlist := ← get "drain_allowlist" Toml.Value.string?
    restrictsPersistent := ← get "restrict_persistent_creation" Toml.Value.boolean?
    owner := (← get "instance_owner" (Toml.Value.below? UInt32.size)).map UInt32.ofNat
    savedMovements := ← get "save_datamovements" (Toml.Value.below? UInt64.size)
    leastAllocation :=
      (← get "min_allocation_size" (Toml.Value.below? UInt64.size)).map UInt64.ofNat
    maximums := policy.bind Prod.fst
    presets := ← get "presets" Toml.Value.presets?
    mapping := ← get "mapping" Toml.Value.string?
    withoutGraph := ← get "disable_fluxion" Toml.Value.boolean?
    graph := ← get "resource_graph" Toml.Value.string?
    excluded := ← get "exclude_hosts" Toml.Value.string?
    claimPolicy := ← get "duplicate_claims" Toml.Value.claimPolicy?
    warnings := others.map .unknownKey
      ++ ((policy.map Prod.snd).getD []).map .unknownPolicyKey }

/-- The settings in a document: those in the table `rabbit`, none without that table. All other
keys are ignored. -/
def ofText? (text : String) : Option Section := do
  let entries ← Toml.parse? text
  let others := entries.filter fun entry => entry.1 ≠ "rabbit"
  if !Toml.Value.entriesWithin Toml.Value.longStart Toml.Value.longEnd others then none
  match entries.find? "rabbit" with
  | none => ofEntries? []
  | some value => ofEntries? (← value.entries?)

end Section

namespace Configuration

def hostSet (text : String) : Except (Failure Misconfiguration) NameSet := do
  match ← Failure.ofCrash (Hostlist.expand? text) with
  | some hosts => return .ofList hosts
  | none => throw (.fault (.invalidHosts text))

/-- The limits with one more maximum, or a warning. -/
def addMaximum (limits : Allocation.Limits × List Warning) (entry : String × Toml.Value) :
    Except Misconfiguration (Allocation.Limits × List Warning) :=
  let (key, value) := entry
  let maximum : Except Misconfiguration (Option UInt64) :=
    match value.below? 0x8000000000000000 with
    | some n => .ok (some (UInt64.ofNat n))
    | none => .error (.invalidMaximum key)
  match key with
  | "xfs" => maximum.map fun n => ({ limits.1 with xfs := n }, limits.2)
  | "gfs2" => maximum.map fun n => ({ limits.1 with gfs2 := n }, limits.2)
  | "lustre" => maximum.map fun n => ({ limits.1 with lustre := n }, limits.2)
  | "raw" => maximum.map fun n => ({ limits.1 with raw := n }, limits.2)
  | _ => .ok (limits.1, limits.2 ++ [.unknownMaximum key])

def limitsOf (entries : Toml.Entries) :
    Except Misconfiguration (Allocation.Limits × List Warning) :=
  entries.foldlM addMaximum (.unlimited, [])

def validate (config : Configuration) : Except Misconfiguration Configuration :=
  if config.watchInterval.nanos = 0 then .error .watchInterval
  else if config.conditionTimeout.nanos = 0 then .error .conditionTimeout
  else .ok config

/-- The standard settings of a user, changed by the settings of a file. -/
def ofSection (owner : UInt32) (s : Section) :
    Except (Failure Misconfiguration) (Configuration × List Warning) := do
  let standard := Configuration.standard owner
  let (limits, odd) ← match s.maximums with
    | some entries => Failure.ofFault (limitsOf entries)
    | none => .ok (standard.limits, [])
  let drainAllowlist ← s.drainAllowlist.mapM hostSet
  let excluded ← match s.excluded with
    | some text => hostSet text
    | none => .ok standard.excluded
  let config ← Failure.ofFault <| validate {
    kubeconfig := s.kubeconfig
    listen := s.listen.getD standard.listen
    watchInterval := s.watchInterval.getD standard.watchInterval
    retryDelay := s.retryDelay.getD standard.retryDelay
    maxRetryDelay := s.maxRetryDelay.getD standard.maxRetryDelay
    conditionTimeout := s.conditionTimeout.getD standard.conditionTimeout
    timeouts := s.timeouts.getD standard.timeouts
    drains := s.drains.getD standard.drains
    softDrains := s.softDrains.getD standard.softDrains
    drainAllowlist
    restrictsPersistent := s.restrictsPersistent.getD standard.restrictsPersistent
    owner := s.owner.getD owner
    savedMovements := s.savedMovements.getD standard.savedMovements
    leastAllocation := s.leastAllocation.getD standard.leastAllocation
    limits
    presets := s.presets.getD standard.presets
    mapping := s.mapping
    withoutGraph := s.withoutGraph.getD standard.withoutGraph
    graph := s.graph
    excluded
    claimPolicy := s.claimPolicy.getD standard.claimPolicy }
  return (config, s.warnings ++ odd)

def ofText (owner : UInt32) (text : String) : Except Fault (Configuration × List Warning) :=
  match Section.ofText? text with
  | none => .error .malformedConfiguration
  | some s => (ofSection owner s).mapError .ofConfiguration

/-- The configuration in a file of which the content is known, none if it cannot be read. -/
def ofFile (owner : UInt32) (path : String) :
    Option String → Except Fault (Configuration × List Warning)
  | none => .error (.misconfigured (.unreadable path))
  | some text => ofText owner text

end Configuration

end Warren

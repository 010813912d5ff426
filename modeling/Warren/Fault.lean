import Warren.Api.Basic
import Warren.Hostlist
import Warren.Span
import Warren.Topology

/-!
# Faults at the start

Why the service does not start: its configuration or its surroundings are not as they have to be, or
the program crashes while it reads them.
-/

namespace Warren

/-- Something wrong with the configuration or with a file that it names. -/
inductive Misconfiguration where
  | unreadable (path : String)
  | invalidMapping (path : String)
  | invalidHosts (text : String)
  | invalidHostsOf (storage text : String)
  | claimConflict (conflict : ClaimConflict)
  | noGraphVertices (path : String)
  | invalidDevices (storage : String)
  | noRackPath (storage : String)
  /-- The service is to keep the state of storage in a graph, but none is configured. -/
  | graphRequired
  | invalidMaximum (key : String)
  | invalidSeconds (option : String) (fault : Span.Fault)
  | watchInterval
  | conditionTimeout
deriving DecidableEq, Repr

namespace Misconfiguration

def message : Misconfiguration → String
  | .unreadable path => s!"Cannot read {path}"
  | .invalidMapping path => s!"Invalid mapping file {path}"
  | .invalidHosts text => Hostlist.invalidMessage text
  | .invalidHostsOf storage text =>
    s!"Invalid hostlist of {storage}: " ++ Hostlist.invalidMessage text
  | .claimConflict conflict => conflict.message
  | .noGraphVertices path => s!"Resource graph {path} does not contain graph nodes"
  | .invalidDevices storage => s!"Invalid ssdcount of rack holding {storage}"
  | .noRackPath storage => s!"Rack holding {storage} has no path"
  | .graphRequired => "resource_graph has to be set unless disable_fluxion is enabled"
  | .invalidMaximum key => s!"`rabbit.policy.maximums.{key}` must be a non-negative integer"
  | .invalidSeconds option fault => s!"Invalid value of {option}: " ++ fault.message
  | .watchInterval => "watch interval must be positive"
  | .conditionTimeout => "`rabbit.tc_timeout` must be positive"

end Misconfiguration

inductive Fault where
  /-- A file cannot be read. -/
  | unreadable
  /-- A document does not have the expected form. -/
  | malformedDocument
  /-- The configuration file does not have the expected form. -/
  | malformedConfiguration
  | misconfigured (cause : Misconfiguration)
  | api (fault : Api.Fault)
  | crash (cause : Crash)
deriving DecidableEq, Repr

namespace Fault

/-- The wording of a fault, where it has one of its own. -/
def message? : Fault → Option String
  | .unreadable | .malformedDocument | .malformedConfiguration => none
  | .misconfigured cause => some ("Invalid configuration: " ++ cause.message)
  | .api .decode => none
  | .api fault => some fault.message
  | .crash cause => some cause.message

/-- Whether another attempt would meet the same fault. -/
def isFatal : Fault → Bool
  | .misconfigured _ | .api _ | .crash _ => true
  | _ => false

/-- A configuration that is not as it has to be, or that crashes the program. -/
def ofConfiguration : Failure Misconfiguration → Fault
  | .fault cause => .misconfigured cause
  | .crash cause => .crash cause

end Fault

end Warren

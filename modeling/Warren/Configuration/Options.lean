import Warren.Configuration.Section

/-!
# Options of the command line

Options take the place of settings in the configuration file. An option stands before its value or
is joined to it by an equals sign; single letters may be written together.
-/

namespace Warren

structure Options where
  config : Option String
  kubeconfig : Option String
  listen : Option String
  watchInterval : Option Extended
  verbose : Nat
  leastAllocation : Option UInt64
  drainAllowlist : Option String
  withoutGraph : Bool
  retryDelay : Option Extended
  graph : Option String
deriving DecidableEq, Repr

/-- Why a command line is not followed. -/
inductive Usage where
  | unknownArgument
  /-- A value is missing. -/
  | invalidValue
  /-- A value is not of the kind of its option. -/
  | valueValidation
  /-- An option is repeated. -/
  | argumentConflict
  /-- A value for an option that takes none. -/
  | tooManyValues
  | displayHelp
  | displayVersion
deriving DecidableEq, Repr

namespace Options

def none : Options := ⟨.none, .none, .none, .none, 0, .none, .none, false, .none, .none⟩

/-- An option with a value. -/
inductive Key where
  | config
  | kubeconfig
  | listen
  | watchInterval
  | leastAllocation
  | drainAllowlist
  | retryDelay
  | graph
deriving DecidableEq, Repr

/-- An option without a value. -/
inductive Flag where
  | verbose
  | withoutGraph
  | help
  | version
deriving DecidableEq, Repr

/-- An option. -/
inductive Name where
  | key (key : Key)
  | flag (flag : Flag)
deriving DecidableEq, Repr

def ofName? : String → Option Name
  | "config" => some (.key .config)
  | "kubeconfig" => some (.key .kubeconfig)
  | "listen" => some (.key .listen)
  | "watch-interval" => some (.key .watchInterval)
  | "min-allocation-size" => some (.key .leastAllocation)
  | "drain-allowlist" => some (.key .drainAllowlist)
  | "retry-delay" => some (.key .retryDelay)
  | "resource-graph" => some (.key .graph)
  | "verbose" => some (.flag .verbose)
  | "disable-fluxion" => some (.flag .withoutGraph)
  | "help" => some (.flag .help)
  | "version" => some (.flag .version)
  | _ => .none

def ofLetter? : Char → Option Flag
  | 'v' => some .verbose
  | 'h' => some .help
  | 'V' => some .version
  | _ => .none

def has (o : Options) : Key → Bool
  | .config => o.config.isSome
  | .kubeconfig => o.kubeconfig.isSome
  | .listen => o.listen.isSome
  | .watchInterval => o.watchInterval.isSome
  | .leastAllocation => o.leastAllocation.isSome
  | .drainAllowlist => o.drainAllowlist.isSome
  | .retryDelay => o.retryDelay.isSome
  | .graph => o.graph.isSome

def readPath (value : String) : Except Usage String :=
  if value.isEmpty then .error .invalidValue else .ok value

def readSeconds (value : String) : Except Usage Extended :=
  match Extended.read? value.toList with
  | some x => .ok x
  | .none => .error .valueValidation

def readBytes (value : String) : Except Usage UInt64 :=
  match Text.readBelow? UInt64.size value.toList with
  | some n => .ok (UInt64.ofNat n)
  | .none => .error .valueValidation

def set (o : Options) (key : Key) (value : String) : Except Usage Options :=
  match key with
  | .config => return { o with config := ← readPath value }
  | .kubeconfig => return { o with kubeconfig := ← readPath value }
  | .listen => return { o with listen := value }
  | .watchInterval => return { o with watchInterval := ← readSeconds value }
  | .leastAllocation => return { o with leastAllocation := ← readBytes value }
  | .drainAllowlist => return { o with drainAllowlist := value }
  | .retryDelay => return { o with retryDelay := ← readSeconds value }
  | .graph => return { o with graph := ← readPath value }

def raise (o : Options) : Flag → Except Usage Options
  | .verbose => .ok { o with verbose := min (o.verbose + 1) 255 }
  | .withoutGraph =>
    if o.withoutGraph then .error .argumentConflict else .ok { o with withoutGraph := true }
  | .help => .error .displayHelp
  | .version => .error .displayVersion

/-- A command line that is read up to some argument. -/
structure Reading where
  options : Options
  /-- The last option that stands before its value, with the value if it was there. -/
  pending : Option (Key × Option String)

/-- Settles the last option that stands before its value. Nothing is said of the value of an
option that is repeated. -/
def Reading.settle (r : Reading) : Except Usage Options :=
  match r.pending with
  | .none => .ok r.options
  | some (_, .none) => .error .invalidValue
  | some (key, some value) =>
    if r.options.has key then .error .argumentConflict else r.options.set key value

def Reading.follow (r : Reading) (next : Options → Except Usage Options) :
    Except Usage Reading := do
  return ⟨← next (← r.settle), .none⟩

def Reading.letters (r : Reading) : List Char → Except Usage Reading
  | [] => .ok r
  | c :: rest => match ofLetter? c with
    | some flag => do (← r.follow (·.raise flag)).letters rest
    | .none => .error .unknownArgument

/-- The reading after an option with a name, and the value that is joined to it. -/
def Reading.long (r : Reading) (name : String) (value : Option String) : Except Usage Reading :=
  match ofName? name, value with
  | .none, _ => .error .unknownArgument
  | some (.flag _), some _ => .error .tooManyValues
  | some (.flag flag), .none => r.follow (·.raise flag)
  | some (.key key), some value => r.follow fun o =>
    if o.has key then .error .argumentConflict else o.set key value
  | some (.key key), .none => do return ⟨← r.settle, some (key, .none)⟩

/-- The reading after an argument that is no option: the value of the option before it. -/
def Reading.plain (r : Reading) (argument : String) : Except Usage Reading :=
  match r.pending with
  | some (key, .none) => .ok { r with pending := some (key, some argument) }
  | _ => .error .unknownArgument

def Reading.argument (r : Reading) (argument : String) : Except Usage Reading :=
  match argument.toList with
  | '-' :: '-' :: rest => match Text.cut? '=' rest with
    | some (name, value) => r.long (String.ofList name) (some (String.ofList value))
    | .none => r.long (String.ofList rest) .none
  | '-' :: c :: rest => r.letters (c :: rest)
  | _ => r.plain argument

/-- The reading after some arguments. Behind a double dash stands nothing. -/
def Reading.arguments (r : Reading) : List String → Except Usage Reading
  | [] => .ok r
  | "--" :: rest => if rest.isEmpty then .ok r else .error .unknownArgument
  | argument :: rest => do (← r.argument argument).arguments rest

def read (arguments : List String) : Except Usage Options := do
  (← Reading.arguments ⟨.none, .none⟩ arguments).settle

end Options

namespace Configuration

def optionSpan (name : String) (standard : Span) :
    Option Extended → Except Misconfiguration Span
  | none => .ok standard
  | some seconds => (Span.ofSeconds seconds).mapError (.invalidSeconds name)

def withOptions (config : Configuration) (o : Options) :
    Except (Failure Misconfiguration) Configuration := do
  let watchInterval ← Failure.ofFault
    (optionSpan "--watch-interval" config.watchInterval o.watchInterval)
  let drainAllowlist ← match o.drainAllowlist with
    | some text => (hostSet text).map some
    | none => .ok config.drainAllowlist
  let retryDelay ← Failure.ofFault (optionSpan "--retry-delay" config.retryDelay o.retryDelay)
  Failure.ofFault <| validate { config with
    kubeconfig := o.kubeconfig.or config.kubeconfig
    listen := o.listen.getD config.listen
    watchInterval
    leastAllocation := o.leastAllocation.getD config.leastAllocation
    drainAllowlist
    withoutGraph := o.withoutGraph || config.withoutGraph
    retryDelay
    graph := o.graph.or config.graph }

end Configuration

end Warren

import Warren.Json.Decode
import Warren.Json.Printer
import Warren.Text.Blank
import Warren.Text.Occurrence

/-!
# Directives

The storage of a job is described by directives. They come as a text or as a list of texts, each
of which may hold several directives or be the name of a preset; they leave as a list of single
directives.
-/

namespace Warren

/-- A name for one or more directives. -/
inductive Preset where
  | single (text : String)
  | multiple (texts : List String)
deriving DecidableEq, Repr

namespace Preset

def texts : Preset → List String
  | .single text => [text]
  | .multiple texts => texts

/-- A preset is a text or a list of texts. -/
def decode? : Decoder Preset
  | .string s => some (.single s)
  | j => (Json.list? Json.string? j).map .multiple

end Preset

namespace Directive

def marker : String := "#DW "

def split (text : String) : List String :=
  let pieces := (Text.piecesBetween marker.toList text.toList).map Text.trimChars
  (pieces.filter fun piece => !piece.isEmpty).map fun piece => marker ++ String.ofList piece

def expand (presets : Dict String Preset) (entry : String) : List String :=
  match presets.find? (Text.trim entry) with
  | some preset => preset.texts.flatMap split
  | none => split entry

/-- The directives of a job, unless they are neither a text nor a list of texts. -/
def read? (presets : Dict String Preset) : Json → Option (List String)
  | .string text => some (expand presets text)
  | .array items => (items.mapM Json.string?).map (·.flatMap (expand presets))
  | _ => none

/-- Says that directives are neither a text nor a list of texts. -/
def malformedMessage (directives : Json) : String :=
  let shown := directives.compact
  s!"Malformed dw_directives, not list or string: {shown}"

/-- Whether a directive creates a file system that outlives the job. -/
def isPersistent (directive : String) : Bool :=
  Text.occurs "create_persistent".toList directive.toList

/-- Whether a user may use the directives: only the owner may create file systems that outlive
the job. -/
def allowed (directives : List String) (user owner : UInt32) : Bool :=
  user = owner || !directives.any isPersistent

def persistentMessage : String := "only the instance owner can create persistent file systems"

end Directive

end Warren

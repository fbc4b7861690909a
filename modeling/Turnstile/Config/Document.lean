import Turnstile.Config.Codec
import Turnstile.Config.Rail

/-!
# Configuration documents

A configuration is written as a document with one table for the breaker and one
for the metrics. Reading takes the default for every setting that is left out.
-/

namespace Turnstile

open Toml (Value)

/-- Why a file could not be read. -/
inductive ReadFault where
  | missing
  | directory
  | noText
  deriving DecidableEq, Repr

def ReadFault.message : ReadFault → String
  | .missing => "No such file or directory (os error 2)"
  | .directory => "Is a directory (os error 21)"
  | .noText => "stream did not contain valid UTF-8"

/-- Why a configuration could not be loaded or written. -/
inductive LoadFault where
  | unreadable (path : String) (fault : ReadFault)
  /-- The format finds fault with the text, or with a value in it. -/
  | malformed (detail : String)
  | invalid (fault : ConfigFault)
  deriving DecidableEq, Repr

def LoadFault.toError : LoadFault → GuardError
  | .unreadable path fault => .configParse (path ++ ": " ++ fault.message)
  | .malformed detail => .configParse detail
  | .invalid fault => fault.toError

namespace BreakerConfig

/-- How many bits the named setting has. -/
def width (name : String) : Nat := if name = "failure_percentage_threshold" then 32 else 64

def fields (k : Codec) : List (Field BreakerConfig) :=
  ({} : BreakerConfig).settings.map fun s => k.number (width s.1) s.1 fun n c => c.set s.1 n

end BreakerConfig

namespace MetricsConfig

def fields (k : Codec) : List (Field MetricsConfig) :=
  ({} : MetricsConfig).settings.map fun s => k.number 64 s.1 fun n c => c.set s.1 n

end MetricsConfig

namespace RailConfig

def fields (k : Codec) : List (Field RailConfig) :=
  [k.number 64 "max_concurrency" fun n c => { c with maxConcurrency := n },
    k.part "breaker" {} (BreakerConfig.fields k) fun b c => { c with breaker := b },
    k.part "metrics" {} (MetricsConfig.fields k) fun m c => { c with metrics := m }]

/-- The document of a configuration, with every setting written out. -/
def document (c : RailConfig) : List (String × Value) :=
  Toml.sheet [("max_concurrency", c.maxConcurrency)]
    [("breaker", c.breaker.settings), ("metrics", c.metrics.settings)]

/-- The text of a configuration. -/
def toText (k : Codec) (c : RailConfig) : Except LoadFault String :=
  (k.write c.document).mapError .malformed

/-- The configuration in a text. -/
def ofText (k : Codec) (text : String) : Except LoadFault RailConfig :=
  match (k.read text).bind fun entries => k.fill {} (fields k) (.table entries) with
  | .error detail => .error (.malformed detail)
  | .ok c =>
    match c.fault? with
    | some fault => .error (.invalid fault)
    | none => .ok c

/-- The configuration in a file, which must be a text in UTF-8. -/
def ofFile (k : Codec) (files : String → Except ReadFault ByteArray) (path : String) :
    Except LoadFault RailConfig :=
  match files path with
  | .error fault => .error (.unreadable path fault)
  | .ok bytes =>
    match String.fromUTF8? bytes with
    | none => .error (.unreadable path .noText)
    | some text => ofText k text

end RailConfig

end Turnstile

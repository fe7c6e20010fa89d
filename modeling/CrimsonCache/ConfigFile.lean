import CrimsonCache.Library.BoundedLines
import CrimsonCache.ServerState

/-!
config.c: the settings of a file, read through a buffer of 256 bytes. The
integers of the configuration are of type `int` and not checked.
-/

namespace CrimsonCache.ConfigFile

open CString ServerState BoundedLines

structure Config where
  port : Int
  concurrencyModel : ConcurrencyModel
  maxClients : Int
  logFile : Bytes
  saveAfterSeconds : Int
  saveAfterChanges : Int
  bufferSize : Int
  maxEvents : Int
  deriving DecidableEq

def loadDefaultConfig : Config where
  port := 6379
  concurrencyModel := .threaded
  maxClients := 100
  logFile := ascii "crimsoncache.log"
  saveAfterSeconds := 300
  saveAfterChanges := 1000
  bufferSize := 1024
  maxEvents := 64

/-- An assignment to a field of the configuration. -/
inductive Setting where
  | port (value : Int)
  | concurrency (model : ConcurrencyModel)
  | maxClients (value : Int)
  | logFile (value : Bytes)
  | saveSeconds (value : Int)
  | saveChanges (value : Int)
  | bufferSize (value : Int)
  | maxEvents (value : Int)
  deriving DecidableEq

def Setting.apply (config : Config) : Setting → Config
  | .port value => { config with port := value }
  | .concurrency model => { config with concurrencyModel := model }
  | .maxClients value => { config with maxClients := value }
  | .logFile value => { config with logFile := value }
  | .saveSeconds value => { config with saveAfterSeconds := value }
  | .saveChanges value => { config with saveAfterChanges := value }
  | .bufferSize value => { config with bufferSize := value }
  | .maxEvents value => { config with maxEvents := value }

def concurrencyNamed (value : Bytes) : ConcurrencyModel :=
  if strcaseeq value (ascii "eventloop") then .eventLoop else .threaded

/-- The assignment that the chain of comparisons selects. `strncpy` fills 255 bytes of the name. -/
def assignment (key : Bytes) : Option (Bytes → Setting) :=
  if strcaseeq key (ascii "port") then some fun value => .port (atoi value)
  else if strcaseeq key (ascii "concurrency") then some fun value => .concurrency (concurrencyNamed value)
  else if strcaseeq key (ascii "maxClients") then some fun value => .maxClients (atoi value)
  else if strcaseeq key (ascii "logFile") then some fun value => .logFile (value.take 255)
  else if strcaseeq key (ascii "saveSeconds") then some fun value => .saveSeconds (atoi value)
  else if strcaseeq key (ascii "saveChanges") then some fun value => .saveChanges (atoi value)
  else if strcaseeq key (ascii "buffer_size") then some fun value => .bufferSize (atoi value)
  else if strcaseeq key (ascii "max_events") then some fun value => .maxEvents (atoi value)
  else none

def setting (key value : Bytes) : Option Setting := (assignment key).map fun assign => assign value

def solid (c : UInt8) : Bool := !isspace c

/-- `sscanf(line, "%63s %191[^\n]", key, value)`, if it converts both. -/
def sscanf (line : Bytes) : Option (Bytes × Bytes) :=
  let text := (cstr line).dropWhile isspace
  let key := (text.takeWhile solid).take 63
  let value := (((text.drop key.length).dropWhile isspace).takeWhile (· ≠ lf)).take 191
  if key = [] ∨ value = [] then none else some (key, value)

def hash : UInt8 := 35

/-- One round of the loop over the buffers. -/
def readBuffer (line : Bytes) : Option Setting :=
  if line.head? = some hash ∨ line.head? = some lf then none
  else (sscanf line).bind fun (key, value) => setting key value

/-- `fgets(line, sizeof(line), fp)`, which reads nothing at the end of the file. -/
def fgets (stream : Bytes) : Bytes × Bytes := readPiece lf 255 stream

/-- The loop takes a byte at least in each round. -/
def loadLines : Nat → Bytes → Config → Config
  | 0, _, config => config
  | count + 1, stream, config =>
      match fgets stream with
      | ([], _) => config
      | (line, rest) =>
          loadLines count rest
            (match readBuffer line with
            | none => config
            | some setting => setting.apply config)

/-- The file is what `fopen` finds. -/
def loadConfigFromFile (file : Option Bytes) (config : Config) : Config × Bool :=
  match file with
  | none => (config, false)
  | some contents => (loadLines contents.length contents config, true)

end CrimsonCache.ConfigFile

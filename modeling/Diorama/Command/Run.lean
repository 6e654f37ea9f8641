import Diorama.Command.Arguments
import Diorama.Conversion.Basic
import Diorama.Files.Store
import Diorama.Settings.Reading

/-! # Running commands

A command reads its settings and its input, and then replaces one file. `plan` decides what is to be
written, and where, from nothing but the contents of the files that it asks for; `run` does it to a
store.
-/

namespace Diorama.Command

/-- What can be learned of files. -/
structure Files where
  present : String → Bool
  read : String → Except FileFault ByteArray

/-- A file that is to be replaced. -/
structure Output where
  path : String
  text : String
deriving DecidableEq, Repr

def readText (files : Files) (path : String) : Except FileFault String := do
  let contents ← files.read path
  match String.fromUTF8? contents with
  | some text => return text
  | none => throw .invalidData

/-- The settings file of a project. -/
def localSettings : String := "stratum/config.toml"

def settingsFile (files : Files) (path : String) : Except Failure Settings := do
  if !files.present path then throw (.settings (.missing path))
  let document ← (readText files path).mapError .file
  match Settings.ofToml? document with
  | none => throw (.settings .malformed)
  | some settings =>
    match settings.validate with
    | .error fault => throw (.settings (.unusable fault))
    | .ok () => return settings

/-- The file that decides on the settings: the given one, else that of the project, else that of the
user. -/
def settingsPath? (files : Files) (userSettings : String) (given : Option String) :
    Option String :=
  match given with
  | some path => some path
  | none =>
    if files.present localSettings then some localSettings
    else if files.present userSettings then some userSettings
    else none

/-- The settings of the file that decides, or the standard ones if there is none. -/
def settings (files : Files) (userSettings : String) (given : Option String) :
    Except Failure Settings :=
  match settingsPath? files userSettings given with
  | some path => settingsFile files path
  | none => .ok .standard

def readInput (files : Files) (path : String) : Except Failure String :=
  match readText files path with
  | .ok text => .ok text
  | .error .notFound => .error (.inputNotFound path)
  | .error fault => .error (.file fault)

/-- The text that a request makes of a document. -/
def Request.text (settings : Settings) (document : String) : Request → Except Failure String
  | .convert r =>
    Rendering.documentText ⟨{ settings with strict := r.strict || settings.strict }, r.timestamp,
      r.format⟩ (r.source.resolve r.input) document
  | .reencode .. => Diorama.reencode document

def plan (files : Files) (userSettings : String) (a : Arguments) : Except Failure Output := do
  let settings ← settings files userSettings a.config
  let document ← readInput files a.request.input
  return ⟨a.request.outputPath, ← a.request.text settings document⟩

/-- What can be learned of the files of a store. -/
def filesOf (s : Store) : Files := ⟨s.present, s.read⟩

/-- Runs a command on a store: the outcome, and the store after it. -/
def run (userSettings : String) (a : Arguments) (s : Store) : Except Failure Unit × Store :=
  match plan (filesOf s) userSettings a with
  | .error failure => (.error failure, s)
  | .ok output =>
    match s.write output.path output.text.toUTF8 with
    | (.error fault, after) => (.error (.file fault), after)
    | (.ok (), after) => (.ok (), after)

end Diorama.Command

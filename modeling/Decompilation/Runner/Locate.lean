import Decompilation.Process.Start
import Decompilation.Settings.Basic

/-!
# Finding ilspycmd and dotnet

ilspycmd is looked for in the settings, in the tools folder, on the search path and in the usual
folders, in this order; what is found on the way but in the first two places is saved as a setting.
Only if it is nowhere, `resolve` lets dotnet install it into the tools folder. What has been found
once is remembered.
-/

namespace Decompilation.Runner

open Act
open Json (Value)

/-- What a runner is made with; what is missing or zero comes from the settings. -/
structure Options where
  toolsFolder : Option Path
  permits : Value
  seconds : Value

def Options.none : Options := ⟨.none, .null, .null⟩

/-- A value that is present, or else the number that an operation finds. -/
def givenOr (given : Value) (act : Act Int) : Act Value :=
  if given.isPresent then pure given else return .int (← act)

def make (o : Options) : Act Runner := do
  let toolsFolder ← match o.toolsFolder with
    | some p => pure p
    | Option.none => do pure ((← cwdPath) / "tools")
  let permits ← givenOr o.permits Settings.permits
  let seconds ← givenOr o.seconds Settings.seconds
  match permits.isBelow? 0 with
  | some true => throw .negativePermits
  | some false => pure ()
  | Option.none => throw (.incomparable "<" permits.kindName (Value.int 0).kindName)
  return { toolsFolder, permits, seconds }

/-- Whether programs have the names that Windows gives them. -/
def onWindows : Act Bool := do return (← get).system == "Windows"

/-- The path at which an ilspycmd of one's own is installed. -/
def localTool (r : Runner) : Act Path := do
  return r.toolsFolder / (if ← onWindows then "ilspycmd.exe" else "ilspycmd")

/-- The folder of a home, which is written without slashes at its end. -/
def homeFolder (h : String) : String :=
  let h := String.ofList (h.toList.reverse.dropWhile (· == '/')).reverse
  if h.isEmpty then "/" else h

/-- The folder that a name with a tilde at its start stands for: the home of the account with the rest
of the name or, if there is no rest, of the service's own account, for which the environment has the
first word. -/
def homeOf? (name : String) (environment : Table String String) (homes : Homes) : Option String :=
  (if name = "~" then (environment.get? "HOME").or homes.own
    else homes.named (String.ofList (name.toList.drop 1))).map homeFolder

/-- A path with a home folder in the place of a first name that starts with a tilde. -/
def expandHome (p : Path) : Act Path := do
  match p.anchor, p.segments with
  | .here, s :: rest =>
    if s.startsWith "~" then
      if s.toList.elem '\x00' then throw (.refused .nullByte [])
      let m ← get
      match homeOf? s m.environment m.homes with
      | some h =>
        if h.startsWith "~" then throw .noHome
        let q := Path.ofString h
        return { q with segments := q.segments ++ rest }
      | Option.none => throw .noHome
    else return p
  | _, _ => return p

def home : Act Path := expandHome (Path.ofString "~")

def environmentText (key : String) : Act String := do return ((← get).environment.get? key).getD ""

def searchPath (m : Machine) : List String :=
  match m.environment.get? "PATH" with
  | some "" => []
  | some s => Text.pieces ':' s
  | Option.none => ["/bin", "/usr/bin"]

/-- The path of a name in a folder that is given as text. -/
def nameIn (folder name : String) : String :=
  if folder.isEmpty then name
  else if folder.endsWith "/" then folder ++ name
  else folder ++ "/" ++ name

def isRunnable (m : Machine) (path : String) : Bool :=
  match m.disk.stat m.cwd (Path.ofString path) with
  | .ok (.file f) => f.executable
  | _ => false

/-- A program on the search path. -/
def onSearchPath? (name : String) (m : Machine) : Option String :=
  (searchPath m).findSome? fun folder =>
    let path := nameIn folder name
    if isRunnable m path then some path else Option.none

def firstExisting? : List Path → Act (Option Path)
  | [] => return Option.none
  | p :: ps => do if ← Files.isThere p then return some p else firstExisting? ps

def remember (path : String) : Act Unit :=
  modify fun m => { m with memory := { m.memory with ilspycmd := some path } }

/-- The path of ilspycmd is saved as a setting, if the system lets it. -/
def persist (path : String) : Act Unit :=
  optional do let _ ← Settings.save "ILSPY_CMD" path Option.none

/-- The folders in which dotnet keeps tools for everybody. -/
def usualPaths : Act (List Path) := do
  let home ← home
  if ← onWindows then
    let profile ← environmentText "USERPROFILE"
    return [home / ".dotnet" / "tools" / "ilspycmd.exe",
      Path.ofString profile / ".dotnet" / "tools" / "ilspycmd.exe"]
  else
    return [home / ".dotnet" / "tools" / "ilspycmd", Path.ofString "/usr/local/bin/ilspycmd",
      Path.ofString "/usr/bin/ilspycmd"]

/-- The ilspycmd that the settings name, if it is there. -/
def configured? : Act (Option String) := do
  match ← Settings.get? "ILSPY_CMD" with
  | some path =>
    if path.isEmpty then return Option.none
    else if ← Files.isThere (Path.ofString path) then return some path
    else return Option.none
  | Option.none => return Option.none

/-- ilspycmd on the search path or in the usual folders. -/
def public? : Act (Option String) := do
  match onSearchPath? "ilspycmd" (← get) with
  | some path => return some path
  | Option.none => return (← firstExisting? (← usualPaths)).map (·.toString)

/-- The path of ilspycmd, found without installing anything. -/
def find? (r : Runner) : Act (Option String) := do
  if let some path := (← get).memory.ilspycmd then return some path
  if let some path := ← configured? then
    remember path
    return some path
  let own ← localTool r
  if ← Files.isThere own then
    remember own.toString
    return some own.toString
  match ← public? with
  | some path =>
    remember path
    persist path
    return some path
  | Option.none => return Option.none

def usualDotnetPaths : Act (List Path) := do
  if ← onWindows then
    let programs ← environmentText "ProgramFiles"
    return [Path.ofString programs / "dotnet" / "dotnet.exe",
      Path.ofString "C:\\Program Files\\dotnet\\dotnet.exe"]
  else
    return [Path.ofString "/usr/share/dotnet/dotnet",
      Path.ofString "/usr/local/share/dotnet/dotnet",
      (← home) / ".dotnet" / "dotnet"]

def findDotnet? : Act (Option String) := do
  let m ← get
  if let some path := m.memory.dotnet then return some path
  let found ← match onSearchPath? "dotnet" m with
    | some path => pure (some path)
    | Option.none => do pure ((← firstExisting? (← usualDotnetPaths)).map (·.toString))
  modify fun m => { m with memory := { m.memory with dotnet := found } }
  return found

def installSeconds : Value := .int 300

/-- dotnet's tool actions are tried in order until one ends well; the answer is what the last one
said, or nothing if one ended well. -/
def tryActions (dotnet folder : String) (said : String) : List String → Act String
  | [] => return said
  | action :: rest => do
    match ← Process.start [dotnet, "tool", action, "ilspycmd", "--tool-path", folder]
        installSeconds with
    | .error i => tryActions dotnet folder (Process.interruptionText i) rest
    | .ok c =>
      if c.code = 0 then return ""
      else tryActions dotnet folder (if c.errors.isEmpty then c.output else c.errors) rest

/-- ilspycmd is installed into the tools folder; the answer is what went wrong. -/
def install (r : Runner) (dotnet : String) : Act String := do
  Files.makeFolders r.toolsFolder
  tryActions dotnet r.toolsFolder.toString "" ["install", "update"]

/-- The path of ilspycmd, which is installed if it is nowhere. -/
def resolve (r : Runner) : Act String := do
  if let some path := ← find? r then return path
  match ← findDotnet? with
  | Option.none => throw (.reported .tool Problem.sdkMissing)
  | some dotnet =>
    let said ← install r dotnet
    let own ← localTool r
    if ← Files.isThere own then
      remember own.toString
      persist own.toString
      return own.toString
    else if said.isEmpty then
      throw (.reported .tool
        (.toolNotFound ["ILSPY_CMD", own.toString, "PATH", "~/.dotnet/tools"]))
    else throw (.reported .tool (.installFailed r.toolsFolder.toString (some said)))

end Decompilation.Runner

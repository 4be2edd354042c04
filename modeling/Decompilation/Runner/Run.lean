import Decompilation.Runner.Locate

/-!
# Running ilspycmd

A run gives either a program that ended with code zero or a reported problem. `decompileTo` runs
ilspycmd on an assembly, with the debug symbols beside the assembly copied to where the output goes.
-/

namespace Decompilation.Runner

open Act
open Json (Value)

/-- ilspycmd is run with arguments; `assembly` is the path that problems name. -/
def run (r : Runner) (arguments : List String) (assembly : Path) : Act Completed := do
  let tool ← resolve r
  match ← Process.start (tool :: arguments) r.seconds with
  | .error (.overrun _) =>
    throw (.reported .decompilation (.timedOut assembly.toString r.seconds))
  | .error (.failure message) =>
    throw (.reported .decompilation (.runFailed assembly.toString (some message) none))
  | .ok c =>
    if c.code = 0 then return c
    else
      let said := if c.errors.isEmpty then c.output else c.errors
      throw (.reported .decompilation
        (.runFailed assembly.toString (some said) (some (.int c.code))))

/-- Whether a language asks for the disassembly rather than for C#, which none does. A language
that is present must be a text. -/
def asksForDisassembly (language : Value) : Except Fault Bool :=
  match language with
  | .str s => .ok (Text.lower (Text.trim s.toList) == ['i', 'l'])
  | v => if v.isPresent then .error (.notText v.kindName) else .ok false

/-- The arguments for a decompilation, of one type if it is named. -/
def arguments (assembly output : Path) (typeName : Value) (disassembled : Bool) : List String :=
  ["-o", output.toString] ++ (if typeName.isPresent then ["-t", Json.display typeName] else []) ++
    (if disassembled then ["--il"] else []) ++ [assembly.toString]

/-- The path beside a path that differs in the suffix. -/
def besides (p : Path) (suffix : String) : Act Path :=
  match p.withSuffix? suffix with
  | some q => pure q
  | none => throw (.noName p.toString)

def copySymbols (assembly output : Path) : Act Unit := do
  let symbols ← besides assembly ".pdb"
  if ← Files.isFile symbols then optional (Files.copyFile symbols (output.child symbols.name))

/-- An assembly is decompiled into a folder, which is made if it is missing. -/
def decompileTo (r : Runner) (assembly output : Path) (typeName language : Value) :
    Act Unit := do
  Files.makeFolders output
  copySymbols assembly output
  match asksForDisassembly language with
  | .error f => throw f
  | .ok disassembled =>
    let _ ← run r (arguments assembly output typeName disassembled) assembly

end Decompilation.Runner

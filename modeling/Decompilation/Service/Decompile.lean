import Decompilation.Runner.Output
import Decompilation.Runner.Run
import Decompilation.Service.Request
import Decompilation.Source.Division
import Decompilation.Text.Order

/-!
# Decompiling an assembly

An assembly as one text, as files in a folder, or as a source text divided into units. What is only
read again is written to a temporary folder.
-/

namespace Decompilation.Service

open Act
open Json (Value)
open Source (Division divide)

/-- What a request says about the assembly: its path and, if it is present, one type of it. -/
structure Subject where
  assembly : Value
  typeName : Value

/-- The text of a file under a line that names it. -/
def titled (names : List String) (text : List Char) : List Char :=
  ("// File: " ++ Path.segmentText names ++ "\n").toList ++ text

def decompile (r : Runner) (s : Subject) (language : Value) : Act (List Char) := do
  let assembly ← assemblyPath s.assembly maxAssemblySize
  Files.withScratch fun folder => do
    Runner.decompileTo r assembly folder s.typeName language
    let files ← Runner.collect folder Runner.listingSuffixes
    if files.isEmpty then throw (.reported .decompilation (.noOutput assembly.toString))
    let texts ← Runner.readAll (files.map (Runner.under folder)) .null .null
    return Text.joinWith ['\n', '\n'] ((files.zip texts).map fun (names, text) => titled names text)

/-- The files of an assembly written to a folder; all files in it, in order. -/
def decompileToFolder (r : Runner) (s : Subject) (output : Value) : Act (List String) := do
  let assembly ← assemblyPath s.assembly maxAssemblySize
  let folder ← outputFolder output
  Runner.decompileTo r assembly folder s.typeName .null
  return Text.inOrder ((← Files.filesBelow folder).map Path.segmentText)

def decompileAndDivide (r : Runner) (s : Subject) : Act Division := do
  let assembly ← assemblyPath s.assembly maxAssemblySize
  let texts ← Files.withScratch fun folder => do
    Runner.decompileTo r assembly folder s.typeName .null
    let files ← Runner.collect folder Runner.sourceSuffixes
    Runner.readAll (files.map (Runner.under folder)) .null .null
  return divide (Text.joinWith ['\n'] texts)

/-- The namespaces declared in an assembly, in order, each once. -/
def namespaces (r : Runner) (s : Subject) : Act (List String) := do
  return Text.distinct (← decompileAndDivide r s).declared

end Decompilation.Service

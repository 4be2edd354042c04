import Decompilation.Json.Printer

/-!
# Listings

The texts in which tools answer with lists and data.
-/

namespace Decompilation.Report

open Json (Value)

def writtenCount (count : Nat) (folder : String) : String := s!"Wrote {count} files to {folder}"

def writtenFiles (files : List String) (folder : String) : String :=
  "\n".intercalate (writtenCount files.length folder :: files.map (" - " ++ ·))

def namespaceList (names : List String) : String :=
  let s := "\n".intercalate names
  if s.isEmpty then "(none)" else s

def fenceOpen : String := "```json"

def fenceClose : String := "```"

/-- A data value as a block between fences. -/
def dataBlock (v : Value) : String := fenceOpen ++ "\n" ++ Json.print 2 v ++ "\n" ++ fenceClose

end Decompilation.Report

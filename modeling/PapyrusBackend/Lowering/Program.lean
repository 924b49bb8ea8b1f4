import PapyrusBackend.Lowering.TypeCode

namespace PapyrusBackend.Lowering

open Source

structure LoweredProgram where
  assembly : Assembly
  listings : List Listing
  warnings : List String

def lowerTypes (options : Options) (program : Source.Module) :
    List TypeDecl → Except Fault (List LoweredType)
  | [] => .ok []
  | t :: rest => do
    let first ← lowerType options program t
    let types ← lowerTypes options program rest
    return first :: types

def debugOf (time : UInt64) (types : List LoweredType) : DebugInfo :=
  { time
    methods := types.flatMap LoweredType.methods
    structs := types.flatMap LoweredType.structs }

def lowerProgram (options : Options) (time : UInt64) (program : Source.Module) :
    Except Fault LoweredProgram := do
  let types ← lowerTypes options program program.types
  let source := if options.sourceFile.isEmpty then program.name ++ ".psc" else options.sourceFile
  let header := { Header.make options.generation source time with
    user := options.user, computer := options.computer }
  return {
    assembly := {
      generation := options.generation
      header
      debug := if options.debugInfo then some (debugOf time types) else none
      types := types.map LoweredType.definition }
    listings := types.flatMap LoweredType.listings
    warnings := types.flatMap LoweredType.warnings }

end PapyrusBackend.Lowering

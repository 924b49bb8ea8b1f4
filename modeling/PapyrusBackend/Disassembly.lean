import PapyrusBackend.Assembly

namespace PapyrusBackend

def padLeft (width : Nat) (s : String) : String :=
  String.ofList (List.replicate (width - s.length) ' ') ++ s

def Method.disassemble (m : Method) : String :=
  let parameters := ", ".intercalate (m.parameters.map fun p => p.type ++ " " ++ p.name)
  let locals := m.body.variables.map fun v => "  .local " ++ v.type ++ " " ++ v.name ++ "\n"
  let code := m.body.instructions.map fun i =>
    "  " ++ padLeft 4 (toString i.offset) ++ ": " ++ i.render ++ "\n"
  m.returns ++ " " ++ m.name ++ "(" ++ parameters ++ ")\n" ++ String.join locals ++ String.join code

def State.disassemble (s : State) : String :=
  ".state " ++ Text.quote s.name ++ "\n" ++ String.join (s.methods.map Method.disassemble)

def ObjectType.disassemble (t : ObjectType) : String :=
  ".object " ++ t.name ++ " " ++ t.base ++ "\n" ++
    String.join (t.properties.flatMap fun p => p.methods.map Method.disassemble) ++
    String.join (t.states.map State.disassemble)

def Assembly.disassemble (a : Assembly) : String :=
  String.join (a.types.map ObjectType.disassemble)

end PapyrusBackend

import PapyrusBackend.Assembly
import PapyrusBackend.Json

namespace PapyrusBackend

/-- Numbers in dumps: a power of ten from `1e+13` on and below `1e-6`. -/
def Json.numberStyle : Number.Style where
  positional e := -6 ≤ e && e ≤ 12
  fraction := true
  plus := true
  tie := .even
  nan := "null"
  infinite := "null"
  negativeInfinite := "null"

open Json

def Value.toJson : Value → Json
  | none => .string "None"
  | reference name => .object [("Reference", .string name)]
  | string text => .object [("String", .string text)]
  | int i => .object [("Int", .word (toString i.toInt))]
  | float x => .object [("Float", .word (numberStyle.render x))]
  | bool b => .object [("Bool", .bool b)]

def Target.toJson : Target → Json
  | source offset => .object [("Source", .nat offset.toNat)]
  | position index => .object [("Instruction", .nat index)]

def TypedName.toJson (v : TypedName) : Json :=
  .object [("name", .string v.name), ("type_name", .string v.type)]

def Instruction.toJson (i : Instruction) : Json :=
  .object
    [("opcode", .string i.opcode.title),
     ("arguments", .list (i.arguments.map Value.toJson)),
     ("variable_arguments", .list (i.variadic.map Value.toJson)),
     ("target", option Target.toJson i.target),
     ("offset", .nat i.offset),
     ("method", .string i.method)]

def Body.toJson (b : Body) : Json :=
  .object
    [("owner", .string b.owner),
     ("variables", .list (b.variables.map TypedName.toJson)),
     ("instructions", .list (b.instructions.map Instruction.toJson))]

def Method.toJson (m : Method) : Json :=
  .object
    [("name", .string m.name),
     ("return_type", .string m.returns),
     ("documentation", .string m.documentation),
     ("user_flags", .nat m.userFlags.toNat),
     ("flags", .nat m.flags.toNat),
     ("parameters", .list (m.parameters.map TypedName.toJson)),
     ("body", m.body.toJson)]

def Field.toJson (f : Field) : Json :=
  .object
    [("name", .string f.name),
     ("type_name", .string f.type),
     ("user_flags", .nat f.userFlags.toNat),
     ("value", f.value.toJson),
     ("flags", .nat f.flags.toNat),
     ("documentation", .string f.documentation)]

def Accessors.toJson : Accessors → Json
  | auto backing => .object [("Auto", .object [("backing_field", .string backing)])]
  | explicit getter setter =>
    .object [("Explicit",
      .object [("getter", option Method.toJson getter), ("setter", option Method.toJson setter)])]

def Property.toJson (p : Property) : Json :=
  .object
    [("name", .string p.name),
     ("type_name", .string p.type),
     ("documentation", .string p.documentation),
     ("user_flags", .nat p.userFlags.toNat),
     ("flags", .nat p.flags.toNat),
     ("accessors", p.accessors.toJson)]

def State.toJson (s : State) : Json :=
  .object [("name", .string s.name), ("methods", .list (s.methods.map Method.toJson))]

def Struct.toJson (s : Struct) : Json :=
  .object [("name", .string s.name), ("fields", .list (s.fields.map Field.toJson))]

def ObjectType.toJson (t : ObjectType) : Json :=
  .object
    [("name", .string t.name),
     ("base_type", .string t.base),
     ("documentation", .string t.documentation),
     ("flags", .nat t.flags.toNat),
     ("user_flags", .nat t.userFlags.toNat),
     ("auto_state_name", .string t.autoState),
     ("structs", .list (t.structs.map Struct.toJson)),
     ("fields", .list (t.fields.map Field.toJson)),
     ("properties", .list (t.properties.map Property.toJson)),
     ("states", .list (t.states.map State.toJson))]

def Header.toJson (h : Header) : Json :=
  .object
    [("identifier", .nat h.identifier.toNat),
     ("major_version", .nat h.major.toNat),
     ("minor_version", .nat h.minor.toNat),
     ("game_id", .nat h.gameId.toNat),
     ("compile_time", .nat h.compileTime.toNat),
     ("source", .string h.source),
     ("user", .string h.user),
     ("computer", .string h.computer)]

def Role.title : Role → String
  | method => "Method"
  | getter => "Getter"
  | setter => "Setter"

def MethodLines.toJson (m : MethodLines) : Json :=
  .object
    [("declaring_type", .string m.type),
     ("state", .string m.state),
     ("name", .string m.name),
     ("method_type", .string m.role.title),
     ("line_numbers", .list (m.lines.map fun n => .nat n.toNat))]

def PropertyGroup.toJson (g : PropertyGroup) : Json :=
  .object
    [("object_name", .string g.object),
     ("group_name", .string g.name),
     ("documentation", .string g.documentation),
     ("user_flags", .nat g.userFlags.toNat),
     ("property_names", .strings g.properties)]

def StructOrder.toJson (s : StructOrder) : Json :=
  .object
    [("declaring_type", .string s.type),
     ("name", .string s.name),
     ("field_names", .strings s.fields)]

def DebugInfo.toJson (d : DebugInfo) : Json :=
  .object
    [("modification_time", .nat d.time.toNat),
     ("methods", .list (d.methods.map MethodLines.toJson)),
     ("property_groups", .list (d.groups.map PropertyGroup.toJson)),
     ("structs", .list (d.structs.map StructOrder.toJson))]

def UserFlag.toJson (f : UserFlag) : Json :=
  .object [("name", .string f.name), ("flag_index", .nat f.index.toNat)]

def Generation.tag : Generation → String
  | skyrim => "Skyrim"
  | fallout4 => "Fallout4"

def Assembly.toJson (a : Assembly) : Json :=
  .object
    [("target", .string a.generation.tag),
     ("header", a.header.toJson),
     ("debug_info", option DebugInfo.toJson a.debug),
     ("user_flags", .list (a.userFlags.map UserFlag.toJson)),
     ("types", .list (a.types.map ObjectType.toJson)),
     ("corrupted", .bool a.corrupted)]

def Assembly.dump (a : Assembly) : String := a.toJson.render 0

end PapyrusBackend

import PapyrusBackend.Body

namespace PapyrusBackend

/-- The label that a jump leads to. Conditional jumps carry it behind their condition. -/
structure LabelRef where
  label : String
  conditional : Bool
  deriving DecidableEq, Inhabited

inductive Row where
  | label (name : String)
  | code (text : String) (jump : Option LabelRef)
  deriving DecidableEq, Inhabited

namespace Row

def isLabel : Row → Bool
  | label _ => true
  | code .. => false

def render : Row → String
  | label name => name ++ ":"
  | code text none => text
  | code text (some jump) => text ++ " " ++ jump.label

def jump? : Row → Option String
  | code _ (some jump) => some jump.label
  | _ => none

def ofInstruction (i : Instruction) (label : Option String) : Row :=
  code i.renderWithoutDelta
    (label.map fun label => { label, conditional := i.opcode.jumpArgument? == some 1 })

def relabel (f : String → String) : Row → Row
  | code text (some jump) => code text (some { jump with label := f jump.label })
  | row => row

end Row

structure Listing where
  method : String := ""
  rows : List Row := []
  deriving DecidableEq, Inhabited

namespace Listing

def labelName (position : Nat) : String := "_label" ++ toString position

def push (l : Listing) (row : Row) : Listing := { l with rows := l.rows ++ [row] }

def targetLabel (i : Instruction) : Option String :=
  i.target.map fun
    | .position index => labelName index
    | .source offset => labelName offset.toNat

/-- A label in front of every instruction, and one at the end. -/
def ofBody (b : Body) : Listing where
  method := b.owner
  rows := (b.instructions.mapIdx fun k i =>
      [Row.label (labelName k), Row.ofInstruction i (targetLabel i)]).flatten ++
    [Row.label (labelName b.length)]

def usedLabels (l : Listing) : List String := l.rows.filterMap Row.jump?

def removeUnused (l : Listing) : Nat × Listing :=
  let used := l.usedLabels
  let rows := l.rows.filter fun
    | .label name => used.contains name
    | .code .. => true
  (l.rows.length - rows.length, { l with rows })

/-- The rows without the labels that directly follow another label, and for each of these the label
that begins its run, the last one first. `first` is the label that the next row follows. -/
def mergeRuns (first : Option String) (aliases : List (String × String)) :
    List Row → List Row × List (String × String)
  | [] => ([], aliases)
  | .label name :: rest =>
    match first with
    | some first => mergeRuns (some first) ((name, first) :: aliases) rest
    | none =>
      let (rows, aliases) := mergeRuns (some name) aliases rest
      (.label name :: rows, aliases)
  | row :: rest =>
    let (rows, aliases) := mergeRuns none aliases rest
    (row :: rows, aliases)

/-- Keeps the first label of each run and leads the jumps to it. Tells how many names went. -/
def collapse (l : Listing) : Nat × Listing :=
  let (rows, aliases) := mergeRuns none [] l.rows
  let rows := rows.map (Row.relabel fun name => (aliases.lookup name).getD name)
  ((aliases.map Prod.fst).eraseDups.length, { l with rows })

def optimize (l : Listing) : Nat × Listing :=
  let (unused, l) := l.removeUnused
  let (merged, l) := l.collapse
  (unused + merged, l)

def renderRow (row : Row) : String :=
  (if row.isLabel then "  " else "    ") ++ row.render ++ "\n"

def render (l : Listing) : String :=
  ".code\n" ++ String.join (l.rows.map renderRow) ++ ".endCode\n"

end Listing

end PapyrusBackend

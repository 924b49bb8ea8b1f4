import PapyrusBackend.Instruction

namespace PapyrusBackend

structure Body where
  owner : String := ""
  «variables» : List TypedName := []
  instructions : List Instruction := []
  deriving DecidableEq, BEq, Inhabited

namespace Body

def length (b : Body) : Nat := b.instructions.length

def stamp (owner : String) (first : Nat) (code : List Instruction) : List Instruction :=
  code.mapIdx fun k i => { i with offset := first + k, method := owner }

def append (b : Body) (code : List Instruction) : Body :=
  { b with instructions := b.instructions ++ stamp b.owner b.length code }

def push (b : Body) (i : Instruction) : Body := b.append [i]

/-- Dense offsets, and the distance of every jump from its own offset to its target. -/
def renumber (b : Body) : Body :=
  { b with instructions := b.instructions.mapIdx fun k i => { i with offset := k }.withDelta }

def retarget (f : Nat → Nat) (i : Instruction) : Instruction :=
  match i.target with
  | some (.position t) => { i with target := some (.position (f t)) }
  | _ => i

/-- Puts an instruction at `index`, or at the end. Jumps to what stood there move with it. -/
def insert (b : Body) (index : Nat) (i : Instruction) : Body :=
  let index := min index b.length
  let moved := b.instructions.map (retarget fun t => if index ≤ t then t + 1 else t)
  renumber { b with instructions := moved.insertIdx index { i with method := b.owner } }

/-- Takes an instruction out. Jumps to it lead to its successor. -/
def remove (b : Body) (index : Nat) : Option Instruction × Body :=
  match b.instructions[index]? with
  | none => (none, b)
  | some removed =>
    let rest := (b.instructions.eraseIdx index).map
      (retarget fun t => if index < t then t - 1 else t)
    (some removed, renumber { b with instructions := rest })

def local? (b : Body) (name : String) : Option TypedName :=
  b.variables.find? fun v => v.name == name

def declare (b : Body) (name type : String) : Body :=
  if (b.local? name).isSome then b else { b with «variables» := b.variables ++ [⟨name, type⟩] }

structure Boundary where
  offset : UInt32
  position : Nat
  deriving DecidableEq, Inhabited

/-- The position that a jump to managed code leads to: that of the first boundary at or behind the
offset, or else `last`. -/
def landing (boundaries : List Boundary) (last : Nat) (offset : UInt32) : Nat :=
  match boundaries.find? fun b => offset ≤ b.offset with
  | some b => b.position
  | none => last

def resolve (b : Body) (boundaries : List Boundary) : Body :=
  let last := b.length
  renumber { b with instructions := b.instructions.map fun i =>
    match i.target with
    | some (.source offset) =>
      { i with target := some (.position (landing boundaries last offset)) }
    | _ => i }

def rename (b : Body) (owner : String) : Body :=
  { b with owner, instructions := b.instructions.map fun i => { i with method := owner } }

end Body

end PapyrusBackend

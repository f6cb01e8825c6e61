import Hausboot.FatEdit.Names
import Hausboot.Lib.DirTree

/-! # The fatedit Tool: What the Commands Mean

    The tool without clusters and records: a tree of named items, and an
    interpreter for input lines on it. This is what the tool is for, stated on
    its own; it never runs out of space. `Hausboot.FatEdit.Refine` compares the
    code with it.

    A line either prints something and changes nothing, or makes one item at the
    end of one directory (`judge`). -/

open ByteLib DirTree

namespace Hausboot.FatEdit

/-! ## Section 1: Trees of files -/

/-- What a line of `dir` shows, and what stands behind it. -/
structure Item where
  longName : Bytes
  shortName : Bytes
  size : ℕ
  node : Node Bytes
  size_eq : ∀ d, node = .file d → size = d.length

def Item.isDirectory (it : Item) : Bool :=
  match it.node with
  | .dir _ => true
  | .file _ => false

/-- A line of the output of `dir`. -/
def Item.line (it : Item) : Bytes :=
  it.longName ++ lit " (" ++ it.shortName ++ lit "), " ++ lit (toString it.size) ++
    (if it.isDirectory then lit ", directory" else []) ++ [0x0A]

/-- An item answers to either of its names. -/
def items : Items Item Bytes Bytes where
  answers it name := it.longName == name || it.shortName == name
  node := Item.node

/-- A directory that cannot be listed gives a message. -/
abbrev FileTree : Type := Tree Item Bytes

/-- The message for a path that leads nowhere. -/
def stopMessage (path : Bytes) : Stop Bytes Bytes → Bytes
  | .notDirectory => path ++ lit ": component is not a directory"
  | .missing name => name ++ lit ": no such file or directory"
  | .unreadable msg => msg

/-! ## Section 2: Making items -/

/-- What a command makes: an empty directory, or a copy of an input file, with
    whether reading on behind these bytes fails. -/
inductive New where
  | directory
  | file (input data : Bytes) (fails : Bool)
deriving DecidableEq

def New.fails : New → Bool
  | .directory => false
  | .file _ _ fails => fails

/-- The number of bytes in its clusters. -/
def New.length : New → ℕ
  | .directory => 3 * FatDirent.sizeof
  | .file _ data _ => data.length

/-- What is printed when it is there. -/
def New.note : New → Bytes
  | .directory => []
  | .file input _ _ => lit "Packed `" ++ input ++ lit "`\n"

def nodeSize : Node Bytes → ℕ
  | .dir _ => 0
  | .file d => d.length

/-- An item without a long name of its own. -/
def plainItem (name : Bytes) (node : Node Bytes) : Item where
  longName := name
  shortName := name
  size := nodeSize node
  node := node
  size_eq d h := by rw [h, nodeSize]

/-- The message of a directory with a record whose name begins with a blank. -/
def unshownName : Bytes := lit "File with empty short name found!"

namespace FileTree

/-- A new item under the name that is shown for it. -/
def put (t : FileTree) (i : ℕ) (name : Bytes) (node : Node Bytes) : FileTree :=
  match (namedRecord name).shortName with
  | some shown => t.add i (plainItem shown node)
  | none => t.spoil i unshownName

/-- The items of a new directory. -/
def dotItems (self parent : ℕ) : List Item :=
  [plainItem (lit ".") (.dir self), plainItem (lit "..") (.dir parent)]

def make (t : FileTree) (i : ℕ) (name : Bytes) : New → FileTree
  | .directory => FileTree.put (t.grow (dotItems t.count i)) i name (.dir t.count)
  | .file _ data _ => t.put i name (.file data)

/-! ## Section 3: Input lines -/

/-- What a line asks for. -/
inductive Verdict where
  | prints (cout cerr : Bytes)
  | throws (e : Exn)
  | makes (i : ℕ) (name : Bytes) (new : New)

def Verdict.nothing : Verdict := .prints [] []

variable (t : FileTree)

def find (path : Bytes) : Except Bytes (Node Bytes) :=
  (t.walk items (splitPath path) (.dir 0)).mapError (stopMessage path)

/-- The directory that a path without its last component leads to. -/
def parent (path : List Bytes) : Except Bytes ℕ := do
  let pre := joinPath path.dropLast
  match ← (t.walk items path.dropLast (.dir 0)).mapError (stopMessage pre) with
  | .file _ => .error (pre ++ lit ": not a directory")
  | .dir i => .ok i

/-- The directory for a new item, in which its name is new. -/
def place (path : List Bytes) (name : Bytes) : Except Bytes ℕ := do
  let i ← t.parent path
  if (← t.list i).any (items.answers · name) then .error (name ++ lit ": already exists")
  else .ok i

/-- The items of the directory that a path leads to. -/
def listing (path : Bytes) : Except Bytes (List Item) := do
  match ← t.find path with
  | .file _ => .error (path ++ lit ": not a directory")
  | .dir i => t.list i

def judgeDir (args : Bytes) : Except Bytes Verdict := do
  let its ← t.listing args
  .ok (.prints (its.flatMap Item.line) [])

def judgeType (args : Bytes) : Except Bytes Verdict := do
  match ← t.find args with
  | .file d => .ok (.prints d [])
  | .dir _ => .error (args ++ lit ": is a directory")

def judgeMkdir (args : Bytes) : Except Bytes Verdict :=
  match (splitPath args).getLast? with
  | none => .ok .nothing
  | some name =>
    if !isShortName name then .error (name ++ lit ": is not a short name (sorry)")
    else if name.contains 0x2E then
      .error (name ++ lit ": directory name must not contain `.`")
    else do
      .ok (.makes (← t.place (splitPath args) name) name .directory)

def judgePack (host : Host) (args : Bytes) : Except Bytes Verdict :=
  match splitPackArgs args with
  | none => .ok .nothing
  | some (input, target) =>
    if target = [] then .ok (.throws .outOfRange)
    else
      match (splitPath target).getLast? with
      | none => .ok .nothing
      | some name =>
        if !isShortName name then .error (name ++ lit ": is not a short name (sorry)")
        else do
          let i ← t.place (splitPath target) name
          match host (cstr input) with
          | none => .ok (.throws .cannotOpen)
          | some (data, fails) => .ok (.makes i name (.file input data fails))

def judgeCommand (host : Host) (args : Bytes) : Command → Except Bytes Verdict
  | .dir => t.judgeDir args
  | .type => t.judgeType args
  | .mkdir => t.judgeMkdir args
  | .pack => t.judgePack host args

/-- A message goes to the error stream. -/
def Verdict.ofCommand : Except Bytes Verdict → Verdict
  | .ok v => v
  | .error msg => .prints [] (msg ++ [0x0A])

def judge (line : Bytes) (host : Host) : Verdict :=
  match parseLine line with
  | .ignored => .nothing
  | .unknown line => .prints [] (lit "Unknown command `" ++ line ++ lit "`\n")
  | .command c args => .ofCommand (t.judgeCommand host args c)

end FileTree

/-! ## Section 4: The ideal tool -/

/-- The tree, and what has been printed so far. -/
structure Ideal where
  tree : FileTree
  cout : Bytes
  cerr : Bytes

namespace Ideal

def step (it : Bytes × Host) : EStateM Exn Ideal Unit := fun a =>
  match a.tree.judge it.1 it.2 with
  | .prints cout cerr => .ok () { a with cout := a.cout ++ cout, cerr := a.cerr ++ cerr }
  | .throws e => .error e a
  | .makes i name new =>
    if new.fails then .error .readError a
    else .ok () { a with tree := a.tree.make i name new, cout := a.cout ++ new.note }

def run : List (Bytes × Host) → EStateM Exn Ideal Unit
  | [] => pure ()
  | it :: input => do
    step it
    run input

/-- Sessions on one tree, and what each of them prints. -/
def sessions : FileTree → List (List (Bytes × Host)) → Option (List (Bytes × Bytes) × FileTree)
  | t, [] => some ([], t)
  | t, input :: inputs =>
    match run input ⟨t, [], []⟩ with
    | .ok _ a => (sessions a.tree inputs).map fun r => ((a.cout, a.cerr) :: r.1, r.2)
    | .error _ _ => none

end Ideal

end Hausboot.FatEdit

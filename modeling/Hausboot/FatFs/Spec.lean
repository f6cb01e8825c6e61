import Hausboot.FatEdit.Spec

/-! # The FAT Driver: What Paths Mean

    `FindByPath` on a tree of files, without clusters and records: it follows
    the components of a path as the tree does, and refuses one that is no 8.3
    name when it gets there. -/

open ByteLib DirTree

namespace Hausboot

open FatEdit (FileTree items splitPath)

/-- Why nothing is found under a path. -/
inductive Miss where
  | nameInvalid
  | noEntry
  | notDir
  | unreadable
deriving DecidableEq

def Miss.ofStop : Stop Bytes Bytes → Miss
  | .missing _ => .noEntry
  | .notDirectory => .notDir
  | .unreadable _ => .unreadable

/-- The node at the end of the components. -/
def FatEdit.FileTree.lookUp (t : FileTree) (names : List Bytes) : Except Miss (Node Bytes) := do
  let x ← (t.walk items (names.takeWhile isShortName) (.dir 0)).mapError Miss.ofStop
  if names.all isShortName then .ok x else .error .nameInvalid

/-- What stage2 finds under a path. -/
def FatEdit.FileTree.findByPath (t : FileTree) (path : Bytes) : Except Miss (Node Bytes) :=
  t.lookUp (splitPath path)

end Hausboot

import CachedRoutes.Disk.Files

/-!
# Disks that keep a record

A disk is a state and what it answers to each operation in that state, which may be anything: a read
or a write may be refused at any time. The same disk can keep a record of what is read and written on
top of that, with the answers that were given. Programs do not see the record.
-/

namespace CachedRoutes.Disk

/-- An access to the text of a file, with what the disk answered. -/
inductive Access where
  | read (path : Path) (answer : Except AccessFault String)
  | write (path : Path) (text : String) (answer : Except AccessFault Unit)

/-- Was the access refused? -/
def Access.refused : Access → Bool
  | read _ (.error _) => true
  | write _ _ (.error _) => true
  | _ => false

/-- Computations on a disk that keeps a record of the accesses. -/
abbrev Recorded (m : Type → Type) := StateT (List Access) m

instance {m : Type → Type} [Monad m] [Files m] : Files (Recorded m) where
  kind? path := StateT.lift (Files.kind? path)
  ownKind? path := StateT.lift (Files.ownKind? path)
  below path := StateT.lift (Files.below path)
  read path := do
    let answer ← StateT.lift (Files.read path)
    modify (· ++ [.read path answer])
    return answer
  write path text := do
    let answer ← StateT.lift (Files.write path text)
    modify (· ++ [.write path text answer])
    return answer
  makeDirectories path := StateT.lift (Files.makeDirectories path)

end CachedRoutes.Disk

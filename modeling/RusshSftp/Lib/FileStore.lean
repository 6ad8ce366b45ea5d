import Mathlib.Logic.Function.Basic
import RusshSftp.Lib.LocalFile

/-!
# A store of files

What a file server keeps for its clients: the contents of the files, the listings of the folders,
and what each open handle stands for.  The handle of a folder holds the entries that are still to
be given.
-/

set_option autoImplicit false

/-- How a file is opened. -/
structure FileStore.Mode where
  reads : Bool
  writes : Bool
  creates : Bool
  excludes : Bool
  truncates : Bool
deriving DecidableEq, Repr

inductive FileStore.Held (Path Entry : Type) where
  | file (path : Path) (mode : Mode)
  | folder (rest : List Entry)

structure FileStore (Path Handle α Entry : Type) where
  files : Path → Option (List α)
  folders : Path → Option (List Entry)
  handles : Handle → Option (FileStore.Held Path Entry)

namespace FileStore

variable {Path Handle α Entry : Type}

/-- The content with which a file is opened, if it is. -/
def opened (mode : Mode) : Option (List α) → Option (List α)
  | some content =>
      if mode.creates && mode.excludes then none
      else some (if mode.truncates then [] else content)
  | none => if mode.creates then some [] else none

section
variable [DecidableEq Path]

def setFile (s : FileStore Path Handle α Entry) (path : Path) (content : List α) :
    FileStore Path Handle α Entry :=
  { s with files := Function.update s.files path (some content) }

variable {s : FileStore Path Handle α Entry} {path : Path} {content content' : List α}

@[simp] theorem setFile_files_same : (s.setFile path content).files path = some content :=
  Function.update_self ..

theorem setFile_same (there : s.files path = some content) : s.setFile path content = s := by
  rw [setFile, ← there, Function.update_eq_self]

@[simp] theorem setFile_setFile :
    (s.setFile path content).setFile path content' = s.setFile path content' := by
  simp [setFile]

end

section
variable [DecidableEq Handle]

def hold (s : FileStore Path Handle α Entry) (h : Handle) (held : Held Path Entry) :
    FileStore Path Handle α Entry :=
  { s with handles := Function.update s.handles h (some held) }

def close (s : FileStore Path Handle α Entry) (h : Handle) : FileStore Path Handle α Entry :=
  { s with handles := Function.update s.handles h none }

variable {s : FileStore Path Handle α Entry} {h other : Handle} {held : Held Path Entry}

@[simp] theorem hold_handles_same : (s.hold h held).handles h = some held :=
  Function.update_self ..

@[simp] theorem hold_hold {held' : Held Path Entry} :
    (s.hold h held).hold h held' = s.hold h held' := by
  simp [hold]

theorem hold_handles_other (different : other ≠ h) :
    (s.hold h held).handles other = s.handles other :=
  Function.update_of_ne different ..

/-- A handle that is given and closed again leaves nothing behind. -/
theorem close_hold (fresh : s.handles h = none) : (s.hold h held).close h = s := by
  have same : Function.update s.handles h none = s.handles := by
    rw [← fresh, Function.update_eq_self]
  simp [hold, close, same]

theorem setFile_hold [DecidableEq Path] (path : Path) (content : List α) :
    (s.hold h held).setFile path content = (s.setFile path content).hold h held := rfl

@[simp] theorem close_handles_same : (s.close h).handles h = none := Function.update_self ..

theorem close_handles_other (different : other ≠ h) : (s.close h).handles other = s.handles other :=
  Function.update_of_ne different ..

end

end FileStore

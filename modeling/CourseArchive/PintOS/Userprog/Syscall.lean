import CourseArchive.PintOS.Filesys.Directory

/-! The system calls that work on open files (`userprog/syscall.c`). Each of them holds the lock of the file system
from its start to its end. Allocation of kernel memory is taken to succeed. -/

namespace CourseArchive.PintOS

open Lib Filesys

structure FileDescriptor where
  elem : ℕ
  file : File
  fd : ℤ

structure Process where
  filesys : Filesys
  openFiles : List FileDescriptor
  nextFd : ℤ
  input : ℕ → UInt8
  console : List UInt8

abbrev ProcessM := Comp Process Fault

/-- The address of a new list element, given those in use. -/
abbrev Malloc := List ℕ → ℕ

namespace Syscall

abbrev stdinFileno : ℤ := 0

abbrev stdoutFileno : ℤ := 1

def onFilesys {α : Type} (m : FsM α) : ProcessM α := fun p =>
  match m p.filesys with
  | .ok (a, s) => .ok (a, { p with filesys := s })
  | .error e => .error e

def addFileToCurrentThread (malloc : Malloc) (file : File) : ProcessM ℤ := do
  let p ← get
  let newFd : FileDescriptor := ⟨malloc (p.openFiles.map FileDescriptor.elem), file, p.nextFd⟩
  set { p with openFiles := p.openFiles ++ [newFd], nextFd := (p.nextFd + 1).bmod (2 ^ 32) }
  return newFd.fd

def getFileFromCurrentThread (fd : ℤ) : ProcessM (Option FileDescriptor) := do
  return (← get).openFiles.find? fun d => d.fd = fd

def setFile (elem : ℕ) (file : File) (ds : List FileDescriptor) : List FileDescriptor :=
  ds.map fun d => if d.elem = elem then { d with file := file } else d

def listRemove (elem : ℕ) (ds : List FileDescriptor) : List FileDescriptor := ds.filter fun d => d.elem ≠ elem

/-- What the calls on a descriptor share. The descriptor is removed and freed when `op` leaves no file. -/
def withFile {α : Type} (fd : ℤ) (missing : α) (op : File → FsM (α × Option File)) : ProcessM α := do
  match ← getFileFromCurrentThread fd with
  | none => return missing
  | some d =>
    let (result, file) ← onFilesys (op d.file)
    match file with
    | some file => modify fun p => { p with openFiles := setFile d.elem file p.openFiles }
    | none => modify fun p => { p with openFiles := listRemove d.elem p.openFiles }
    return result

def openFile (malloc : Malloc) (name : Name) : ProcessM ℤ := do
  match ← onFilesys (filesysOpen name) with
  | none => return -1
  | some file => addFileToCurrentThread malloc file

def filesize (fd : ℤ) : ProcessM ℤ := withFile fd (-1) fun file => do
  return (← fileLength file, some file)

def inputGetc : ProcessM UInt8 := do
  let p ← get
  set { p with input := fun n => p.input (n + 1) }
  return p.input 0

def readInput : ℕ → ProcessM (List UInt8)
  | 0 => return []
  | length + 1 => do
    let c ← inputGetc
    return c :: (← readInput length)

def read (fd : ℤ) (length : ℕ) : ProcessM (ℤ × List UInt8) :=
  if fd = stdinFileno then do
    return (offT length, ← readInput length)
  else withFile fd (-1, []) fun file => do
    let (bytes, file) ← fileRead file (offT length)
    return ((bytes.length, bytes), some file)

def write (fd : ℤ) (buffer : List UInt8) : ProcessM ℤ :=
  if fd = stdoutFileno then do
    modify fun p => { p with console := p.console ++ buffer }
    return offT buffer.length
  else withFile fd (-1) fun file => do
    let (written, file) ← fileWrite file buffer
    return (written, some file)

def seek (fd : ℤ) (position : ℕ) : ProcessM Unit := withFile fd () fun file => do
  return ((), some (← fileSeek file (offT position)))

def tell (fd : ℤ) : ProcessM ℤ := withFile fd (-1) fun file =>
  return (file.pos, some file)

def close (fd : ℤ) : ProcessM Unit := withFile fd () fun file => do
  fileClose file
  return ((), none)

def listNext : List FileDescriptor → ℕ → Option (FileDescriptor × Option ℕ)
  | [], _ => none
  | d :: ds, elem => if d.elem = elem then some (d, ds.head?.map FileDescriptor.elem) else listNext ds elem

/-- The loop of `close_all_files_of_current_thread`; an element that is no longer in the list has been freed. -/
def closeAllFrom : ℕ → Option ℕ → ProcessM Unit
  | _, none => return
  | 0, some _ => throw .loopsForever
  | fuel + 1, some elem => do
    match listNext (← get).openFiles elem with
    | none => throw .wildAccess
    | some (d, nextElem) =>
      close d.fd
      closeAllFrom fuel nextElem

def closeAllFilesOfCurrentThread : ProcessM Unit := do
  let openFiles := (← get).openFiles
  closeAllFrom openFiles.length (openFiles.head?.map FileDescriptor.elem)

end Syscall

end CourseArchive.PintOS

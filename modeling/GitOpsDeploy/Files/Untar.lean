/-
Extraction of an archive (`untar` and `Inbound` in `util/io/files`).

The disk is a tree with the positions that were created or written. Calls to the file system follow links as the kernel
does; it may deny any of them. Modes and contents of files are left out.
-/
import GitOpsDeploy.Core.FileTree

namespace GitOpsDeploy.Untar

open Paths (SlashPath IsName components push relParts)
open FileTree (Errno)

/-! ## The disk -/

structure Disk where
  tree : FileTree
  /-- the physical positions that were created or written -/
  touched : List (List String)

/-- how many links the kernel follows, and which positions it lets nobody write to -/
structure Kernel where
  limit : ℕ
  deny : FileTree → List String → Bool

variable (k : Kernel)

variable (d : Disk) (p : List String)

def put (c : String) (n : Node) : Disk × Option Errno :=
  if h : d.tree.node p = some .dir ∧ IsName c ∧ d.tree.node (p ++ [c]) = none then
    if k.deny d.tree (p ++ [c]) then (d, some .denied)
    else (⟨d.tree.create p c n h.2.1 h.1 h.2.2, d.touched ++ [p ++ [c]]⟩, none)
  else (d, some .exist)

/-- `os.Mkdir`, and `os.Lstat` after it: a directory that exists is not an error to `os.MkdirAll` -/
def mkdir (path : List String) : Disk × Option Errno :=
  match d.tree.locate k.limit path with
  | .error e => (d, some e)
  | .ok (p, c) =>
    match d.tree.node (p ++ [c]) with
    | some .dir => (d, none)
    | some _ => (d, some .exist)
    | none => put k d p c .dir

/-- `os.MkdirAll`, of a path given backwards -/
def mkdirAll : List String → Disk → Disk × Option Errno
  | [], d => (d, none)
  | c :: up, d =>
    match d.tree.resolve k.limit [] (c :: up).reverse with
    | .ok (.dir _) => (d, none)
    | .ok (.file ..) => (d, some .notDir)
    | _ =>
      match mkdirAll up d with
      | (d, some e) => (d, some e)
      | (d, none) => mkdir k d (c :: up).reverse

def symlink (linkTarget : SlashPath) (path : List String) : Disk × Option Errno :=
  match d.tree.locate k.limit path with
  | .error e => (d, some e)
  | .ok (p, c) => put k d p c (.link linkTarget)

/-- `os.OpenFile` for writing, which creates a file where there is none -/
def openFile (path : List String) : Disk × Option Errno :=
  match d.tree.resolve k.limit [] path with
  | .error e => (d, some e)
  | .ok (.dir _) => (d, some .isDir)
  | .ok (.file p c) =>
    if k.deny d.tree (p ++ [c]) then (d, some .denied) else ({ d with touched := d.touched ++ [p ++ [c]] }, none)
  | .ok (.missing p c) => put k d p c .file

/-- the library gives up after 255 links -/
def evalSymlinks (t : FileTree) (path : List String) : Except Errno (List String) :=
  match t.resolve 255 [] path with
  | .error e => .error e
  | .ok (.dir p) => .ok p
  | .ok (.file p c) => .ok (p ++ [c])
  | .ok (.missing ..) => .error .notExist

/-! ## Extraction -/

inductive Typeflag where
  | dir
  | symlink
  | reg
  | other
  deriving DecidableEq, Repr

structure Header where
  name : String
  typeflag : Typeflag
  linkname : String

/-- a text that starts with the text of the base and a slash is that of a path strictly below the base; for the root the
text would start with two slashes -/
def inbound (candidate baseDir : List String) : Bool :=
  baseDir ≠ [] && baseDir.isPrefixOf candidate && candidate ≠ baseDir

/-- `filepath.Join` of a clean rooted path and a text -/
def joinTo (name : String) : List String := (components name).foldl (push true) p

def text : String := (SlashPath.mk true p).text

/-- what the link of an entry is to lead to; a path that does not exist is taken as it is written -/
def realLinkTarget (t : FileTree) (target : List String) (linkname : String) : Except Errno (List String) :=
  match evalSymlinks t (joinTo target.dropLast linkname) with
  | .ok p => .ok p
  | .error .notExist => .ok (joinTo target.dropLast linkname)
  | .error e => .error e

inductive UntarError where
  | illegalPath (path : String)
  | illegalLink (path : String)
  | nestedFolders (e : Errno)
  | realpath (e : Errno)
  | creatingSymlink (e : Errno)
  | creatingFile (path : String) (e : Errno)
  deriving DecidableEq, Repr

def raise (f : Errno → UntarError) : Disk × Option Errno → Disk × Option UntarError
  | (d, none) => (d, none)
  | (d, some e) => (d, some (f e))

/-- one entry of the archive -/
def extract (dstPath : List String) (d : Disk) (header : Header) : Disk × Option UntarError :=
  if header.name = "." ∨ header.name = "./" then (d, none)
  else
    let target := joinTo dstPath header.name
    if !inbound target dstPath then (d, some (.illegalPath (text target)))
    else
      match header.typeflag with
      | .dir => raise .nestedFolders (mkdirAll k target.reverse d)
      | .symlink =>
        match realLinkTarget d.tree target header.linkname with
        | .error e => (d, some (.realpath e))
        | .ok real =>
          if !inbound real dstPath then (d, some (.illegalLink (text (joinTo target.dropLast header.linkname))))
          else raise .creatingSymlink (symlink k d ⟨false, relParts target.dropLast real⟩ target)
      | .reg =>
        match mkdirAll k target.dropLast.reverse d with
        | (d, some e) => (d, some (.nestedFolders e))
        | (d, none) => raise (.creatingFile (text target)) (openFile k d target)
      | .other => (d, none)

/-- the entries of a stream in turn, up to the first error -/
def untar (dstPath : List String) : List Header → Disk → Disk × Option UntarError
  | [], d => (d, none)
  | header :: headers, d =>
    match extract k dstPath d header with
    | (d, some e) => (d, some e)
    | (d, none) => untar dstPath headers d

end GitOpsDeploy.Untar

/-
The repository that the commit server writes to, and the calls it makes (`git.Client` in `util/git/client.go`, `os.Root`).

A commit holds the files of its tree, by location. Branches, commits and notes are those of the remote; a clone has a
commit checked out and a working tree. The index is the tree of that commit, as nothing is staged before
`commitAndPush`. A call does what its name says or is refused; which calls are refused, and with which error, is an input.
Branches and notes that others push in between show as refused calls.
-/
import Mathlib.Data.Finmap
import GitOpsDeploy.Core.Paths
import GitOpsDeploy.Core.Postcondition

namespace GitOpsDeploy.CommitServer

open Paths (SlashPath components ofString push IsName)

/-! ## Locations of files -/

/-- `filepath.Join` of a directory and a name -/
def inDir (dir name : String) : SlashPath := SlashPath.clean ⟨(ofString dir).rooted, components dir ++ [name]⟩

/-- the location in an opened root; a path that leaves the root is refused -/
def location (path : SlashPath) : Option (List String) :=
  if path.rooted ∨ path.parts.head? = some ".." then none else some path.parts

theorem push_of_isName {rooted : Bool} {p : List String} {c : String} (hc : IsName c) : push rooted p c = p ++ [c] := by
  unfold push
  rw [if_neg (not_or.2 ⟨hc.1, hc.2.1⟩), if_neg hc.2.2]

theorem location_inDir {dir name : String} {l : List String} (hn : IsName name) (h : location (inDir dir name) = some l) :
    l.getLast? = some name := by
  unfold location at h
  split_ifs at h
  rw [← Option.some.inj h]
  simp only [inDir, SlashPath.clean, List.foldl_append, List.foldl_cons, List.foldl_nil, push_of_isName hn,
    List.getLast?_concat]

/-! ## Repositories -/

/-- the files of a commit, by location -/
abbrev Tree := Finmap fun _ : List String => String

structure Commit where
  parent : Option String
  tree : Tree
  message : String
  author : String × String

/-- branches and commits by SHA, and the notes of commits in the namespace of the hydrator -/
structure Remote where
  branches : Finmap fun _ : String => String
  commits : Finmap fun _ : String => Commit
  notes : Finmap fun _ : String => String

/-- the tree of a commit -/
def Remote.treeOf (remote : Remote) (sha : String) : Tree := ((remote.commits.lookup sha).map Commit.tree).getD ∅

structure Clone where
  remote : Remote
  author : String × String
  head : String
  work : Tree

namespace Clone

def headTree (c : Clone) : Tree := c.remote.treeOf c.head

def checkout (c : Clone) (sha : String) : Clone := { c with head := sha, work := c.remote.treeOf sha }

variable (hash : Commit → String) (c : Clone)

/-- a commit of the working tree becomes the tip of a branch, here and on the remote -/
def pushCommit (branch : String) (commit : Commit) : Clone :=
  { c with
    head := hash commit
    work := commit.tree
    remote := { c.remote with
      branches := c.remote.branches.insert branch (hash commit)
      commits := c.remote.commits.insert (hash commit) commit } }

/-- `CheckoutOrOrphan`: a branch that does not exist starts with an empty commit -/
def checkoutOrOrphan (branch : String) : Clone :=
  match c.remote.branches.lookup branch with
  | some sha => c.checkout sha
  | none => c.pushCommit hash branch ⟨none, ∅, "Initial commit for " ++ branch, c.author⟩

/-- `CheckoutOrNew`: a branch that does not exist starts where the base branch is, and is not pushed yet -/
def checkoutOrNew (branch base : String) : Except String Clone :=
  match c.remote.branches.lookup branch with
  | some sha => .ok (c.checkout sha)
  | none =>
    match c.remote.branches.lookup base with
    | some sha => .ok (c.checkout sha)
    | none => .error "failed to checkout sync branch: did not match any file(s) known to git"

/-- `CommitAndPush`: a working tree without changes is not committed -/
def commitAndPush (branch message : String) : Clone :=
  if c.work = c.headTree then c else c.pushCommit hash branch ⟨some c.head, c.work, message, c.author⟩

/-- `AddAndPushNote` overwrites the note that a commit has -/
def addAndPushNote (sha note : String) : Clone :=
  { c with remote := { c.remote with notes := c.remote.notes.insert sha note } }

/-- `HasFileChanged`: not in the index, or not as in the index -/
def hasFileChanged (path : SlashPath) : Bool :=
  match (location path).bind c.headTree.lookup with
  | none => true
  | some text => (location path).bind c.work.lookup ≠ some text

/-- create a file, or truncate the one that is there -/
def create (path : SlashPath) : Except String Clone :=
  match location path with
  | none => .error "path escapes from parent"
  | some l => .ok { c with work := c.work.insert l "" }

/-- write at the end of a file that was created -/
def append (path : SlashPath) (text : String) : Clone :=
  match location path with
  | none => c
  | some l => { c with work := c.work.insert l ((c.work.lookup l).getD "" ++ text) }

end Clone

/-! ## Calls -/

inductive Action where
  | createTempDir
  | newClient
  | init
  | fetch
  | setAuthor (name email : String)
  | openRoot
  | checkoutOrOrphan (branch : String)
  | checkoutOrNew (branch base : String)
  | mkdirAll (path : String)
  | create (path : SlashPath)
  | append (path : SlashPath) (text : String)
  | commitAndPush (branch message : String)
  | addAndPushNote (sha note : String)
  deriving DecidableEq, Repr

inductive NoteError where
  | noNoteFound
  | failed (err : String)
  deriving DecidableEq, Repr

inductive Call where
  | act (action : Action)
  | commitSHA
  | getCommitNote (sha : String)
  | hasFileChanged (path : SlashPath)
  deriving DecidableEq, Repr

/-- the answer to a call -/
abbrev Answer : Call → Type
  | .act _ => Except String Unit
  | .commitSHA => Except String String
  | .getCommitNote _ => Except NoteError String
  | .hasFileChanged _ => Except String Bool

/-- `hash` names a commit; `refused` says which calls fail in which state of the clone -/
structure Git where
  hash : Commit → String
  refused : Clone → Call → Option String

namespace Git

variable (g : Git)

/-- what an action does when it is not refused; directories are not part of a tree -/
def perform (c : Clone) : Action → Except String Clone
  | .createTempDir | .newClient | .init | .fetch | .openRoot => .ok c
  | .setAuthor name email => .ok { c with author := (name, email) }
  | .checkoutOrOrphan branch => .ok (c.checkoutOrOrphan g.hash branch)
  | .checkoutOrNew branch base => c.checkoutOrNew branch base
  | .mkdirAll path => if (location (ofString path).clean).isSome then .ok c else .error "path escapes from parent"
  | .create path => c.create path
  | .append path text => .ok (c.append path text)
  | .commitAndPush branch message => .ok (c.commitAndPush g.hash branch message)
  | .addAndPushNote sha note => .ok (c.addAndPushNote sha note)

/-- the clone after a call, and the answer -/
def exec : (o : Call) → Clone → Clone × Answer o
  | .act action, c =>
    match g.refused c (.act action) with
    | some err => (c, .error err)
    | none =>
      match g.perform c action with
      | .ok c' => (c', .ok ())
      | .error err => (c, .error err)
  | .commitSHA, c => (c, (g.refused c .commitSHA).elim (.ok c.head) .error)
  | .getCommitNote sha, c =>
    (c, match g.refused c (.getCommitNote sha), c.remote.notes.lookup sha with
      | some err, _ => .error (.failed err)
      | none, some note => .ok note
      | none, none => .error .noNoteFound)
  | .hasFileChanged path, c =>
    (c, (g.refused c (.hasFileChanged path)).elim (.ok (c.hasFileChanged path)) .error)

end Git

end GitOpsDeploy.CommitServer

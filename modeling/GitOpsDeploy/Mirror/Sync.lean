/-
Forge mirroring (`mirror/sync.go`, and `Tip` of `mirror/forge.go`).

The answers of the two forges, of the file system and of git are those of a `World`: any function of the calls made so far,
so nothing is assumed about them, not even that a call gets the same answer twice. Every call is kept in a log together with
its answer.
-/
import GitOpsDeploy.Core.Paths

namespace GitOpsDeploy.Mirror

/-! ## Plans and results -/

inductive Direction where
  | native
  | mirror
  deriving DecidableEq, Repr

structure Entry where
  org : String
  name : String
  direction : Direction
  deriving DecidableEq, Repr

structure Repo where
  fullName : String
  cloneURL : String
  default : String
  deriving DecidableEq, Repr

structure Planned where
  entry : Entry
  /-- what the entry resolves to now -/
  gitHub : Repo
  deriving DecidableEq, Repr

inductive Outcome where
  | inSync
  | moved
  | diverged
  | skipped
  | failed
  deriving DecidableEq, Repr

structure Result where
  entry : Entry
  outcome : Outcome
  fromTip : String
  toTip : String
  detail : String
  deriving DecidableEq, Repr

/-! ## Messages -/

/-- the regular expression `//[^/@\s]*@`, replaced by `//***@`; fuel is the length -/
def redactChars : ℕ → List Char → List Char
  | 0, cs => cs
  | fuel + 1, '/' :: '/' :: cs =>
    match cs.span fun c => c ≠ '/' ∧ c ≠ '@' ∧ c ∉ ['\t', '\n', '\x0c', '\r', ' '] with
    | (_, '@' :: rest) => "//***@".toList ++ redactChars fuel rest
    | _ => '/' :: redactChars fuel ('/' :: cs)
  | fuel + 1, c :: cs => c :: redactChars fuel cs
  | _ + 1, [] => []

variable (s : String)

def redact : String := String.ofList (redactChars s.toList.length s.toList)

def short : String := if s.toList.length > 8 then String.ofList (s.toList.take 8) else s

def firstLine : String := String.ofList (s.toList.takeWhile (· ≠ '\n'))

/-- an error of git: its text, and the exit status when some error in the chain has one -/
structure GitError where
  text : String
  status : Option ℤ
  deriving DecidableEq, Repr

def exitCode (err : GitError) : ℤ := err.status.getD (-1)

def detailOf (out : String) (err : GitError) : String :=
  if redact (firstLine out) ≠ "" then redact (firstLine out) else redact err.text

/-! ## Calls -/

structure Client where
  token : String

inductive Side where
  | forge
  | github
  deriving DecidableEq, Repr

structure Commit where
  id : String
  sha : String
  deriving DecidableEq, Repr

/-- what a request for a branch gives: a transport error, or a status and the decoded body -/
inductive Response where
  | error (text : String)
  | answered (status : ℕ) (body : Except String Commit)
  deriving DecidableEq, Repr

/-- a call and its answer -/
inductive Event where
  | request (side : Side) (org name branch : String) (response : Response)
  | mkdirAll (dir : String) (err : Option String)
  | git (dir : String) (args : List String) (out : String) (err : Option GitError)
  deriving DecidableEq, Repr

structure World where
  request : List Event → Side → String → String → String → Response
  mkdirAll : List Event → String → Option String
  git : List Event → String → List String → String × Option GitError

variable (w : World)

structure TipError where
  text : String
  notFound : Bool

def tipOf (org name branch : String) : Response → Except TipError String
  | .error text => .error ⟨text, false⟩
  | .answered status body =>
    if status = 404 then .error ⟨"mirror: not found: " ++ org ++ "/" ++ name ++ "@" ++ branch, true⟩
    else if status ≠ 200 then
      .error ⟨"mirror: tip " ++ org ++ "/" ++ name ++ "@" ++ branch ++ ": http " ++ toString status, false⟩
    else
      match body with
      | .error text => .error ⟨text, false⟩
      | .ok commit => .ok (if commit.id ≠ "" then commit.id else commit.sha)

def tip (side : Side) (org name branch : String) (log : List Event) : Except TipError String × List Event :=
  let response := w.request log side org name branch
  (tipOf org name branch response, log ++ [.request side org name branch response])

def git (dir : String) (args : List String) (log : List Event) : (String × Option GitError) × List Event :=
  let answer := w.git log dir args
  (answer, log ++ [.git dir args answer.1 answer.2])

/-! ## One repository -/

/-- the object store of an entry -/
def storeDir (root : String) (e : Entry) : String := Paths.join [root, e.org, e.name ++ ".git"]

def workspace (root : String) (e : Entry) (log : List Event) : Except String String × List Event :=
  let dir := storeDir root e
  let mkdir := w.mkdirAll log dir
  let log := log ++ [.mkdirAll dir mkdir]
  match mkdir with
  | some err => (.error ("prepare " ++ dir ++ ": " ++ err), log)
  | none =>
    match git w dir ["init", "--bare", "--quiet"] log with
    | ((out, some err), log) => (.error ("prepare " ++ dir ++ ": " ++ detailOf out err), log)
    | ((_, none), log) => (.ok dir, log)

def Side.name : Side → String
  | .forge => "forge"
  | .github => "github"

def fetchArgs (side : Side) (url branch : String) : List String :=
  ["fetch", "--no-tags", url, "+refs/heads/" ++ branch ++ ":refs/remotes/" ++ side.name ++ "/" ++ branch]

/-- one turn of the loop over the two sides; an error is the detail of the result -/
def fetch (dir fullName branch : String) (side : Side) (url : String) (log : List Event) : Option String × List Event :=
  match git w dir (fetchArgs side url branch) log with
  | ((out, some err), log) => (some ("cannot read " ++ side.name ++ " " ++ fullName ++ ": " ++ detailOf out err), log)
  | ((_, none), log) => (none, log)

def ancestryArgs (forgeTip ghTip : String) : List String := ["merge-base", "--is-ancestor", forgeTip, ghTip]

def pushArgs (forgeURL branch ghTip : String) : List String := ["push", forgeURL, ghTip ++ ":refs/heads/" ++ branch]

def fastForward (work : String) (p : Planned) (forgeURL ghURL branch forgeTip ghTip : String) (log : List Event) :
    Result × List Event :=
  let result outcome detail : Result := ⟨p.entry, outcome, forgeTip, ghTip, detail⟩
  if forgeTip = ghTip then (result .inSync "", log)
  else if forgeTip = "" ∨ ghTip = "" then (result .skipped "a tip is unknown; nothing to compare", log)
  else
    match workspace w work p.entry log with
    | (.error err, log) => (result .failed (redact err), log)
    | (.ok dir, log) =>
      match fetch w dir p.gitHub.fullName branch .forge forgeURL log with
      | (some detail, log) => (result .failed detail, log)
      | (none, log) =>
        match fetch w dir p.gitHub.fullName branch .github ghURL log with
        | (some detail, log) => (result .failed detail, log)
        | (none, log) =>
          match git w dir (ancestryArgs forgeTip ghTip) log with
          | ((out, some err), log) =>
            if exitCode err ≠ 1 then
              (result .failed ("ancestry undetermined for " ++ p.gitHub.fullName ++ ": " ++ detailOf out err), log)
            else
              (result .diverged ("forge " ++ short forgeTip ++ " is not an ancestor of github " ++ short ghTip ++
                " (" ++ p.gitHub.fullName ++ ")"), log)
          | ((_, none), log) =>
            match git w dir (pushArgs forgeURL branch ghTip) log with
            | ((out, some err), log) => (result .failed (detailOf out err), log)
            | ((_, none), log) => (result .moved "", log)

/-! ## The plan -/

/-- the text before and after the first separator -/
def cut (sep : List Char) : List Char → Option (List Char × List Char)
  | [] => if sep = [] then some ([], []) else none
  | c :: cs =>
    if sep.isPrefixOf (c :: cs) then some ([], (c :: cs).drop sep.length)
    else (cut sep cs).map fun (before, after) => (c :: before, after)

def trimRight : String := String.ofList (s.toList.reverse.dropWhile (· = '/')).reverse

def Client.pushURL (c : Client) (base org name : String) : String :=
  match cut "://".toList (trimRight base).toList with
  | none => trimRight base ++ "/" ++ org ++ "/" ++ name ++ ".git"
  | some (scheme, rest) =>
    String.ofList scheme ++ "://oauth2:" ++ c.token ++ "@" ++ String.ofList rest ++ "/" ++ org ++ "/" ++ name ++ ".git"

def split (full : String) : String × String :=
  match cut ['/'] full.toList with
  | none => (full, "")
  | some (org, name) => (String.ofList org, String.ofList name)

def branchOf (p : Planned) : String := if p.gitHub.default = "" then "main" else p.gitHub.default

/-- one native entry of the plan -/
def reconcileEntry (forge : Client) (forgeBase work : String) (p : Planned) (log : List Event) : Result × List Event :=
  let branch := branchOf p
  match tip w .forge p.entry.org p.entry.name branch log with
  | (.error err, log) => (⟨p.entry, if err.notFound then .skipped else .failed, "", "", redact err.text⟩, log)
  | (.ok forgeTip, log) =>
    match tip w .github (split p.gitHub.fullName).1 (split p.gitHub.fullName).2 branch log with
    | (.error err, log) => (⟨p.entry, .skipped, "", "", redact err.text⟩, log)
    | (.ok ghTip, log) =>
      fastForward w work p (forge.pushURL forgeBase p.entry.org p.entry.name) p.gitHub.cloneURL branch forgeTip ghTip log

def reconcile (forge : Client) (forgeBase work : String) (plan : List Planned) (log : List Event) :
    List Result × List Event :=
  plan.foldl (fun (out, log) p =>
    if p.entry.direction ≠ .native then (out, log)
    else
      let (res, log) := reconcileEntry w forge forgeBase work p log
      (out ++ [res], log)) ([], log)

end GitOpsDeploy.Mirror

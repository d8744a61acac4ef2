/-
What a `GenerateManifest` request does with the checkouts (`GenerateManifest`, `runRepoOperation` and
`runManifestGenAsync` in `reposerver/repository/repository.go`).

A request locks its own repository, scans it for symlinks that leave it, and then does the same for each repository that its
value files reference; after that the manifests are generated. `program` lists these actions for a request that no failure
stops, or up to the error that stops it in any case.
-/
import GitOpsDeploy.RepoServer.Source
import GitOpsDeploy.RepoServer.Lock

namespace GitOpsDeploy.RepoServer

structure ManifestRequest where
  /-- the URL of the repository -/
  repo : String
  source : ApplicationSource
  revision : String
  noCache : Bool
  hasMultipleSources : Bool
  refSources : List (String × RefTarget)

/-- how URLs are compared, and where repositories are checked out -/
structure GitSettings where
  normalizeGitURL : String → String
  /-- the checkout of a repository, by its normalised URL -/
  root : String → String
  /-- `%q` -/
  quote : String → String
  allowOutOfBoundsSymlinks : Bool

/-- what git and the chart repositories answer to one request -/
structure Answers where
  /-- `newClientResolveRevision`, by the URL of the repository and the revision -/
  lsRemote : String → String → Except String Commit
  /-- the version of a chart, or the digest of an OCI image -/
  version : Except String String
  /-- where the chart or image is extracted -/
  extracted : Except String String

inductive Action where
  | lock (c : LockCall)
  /-- `checkOutOfBoundsSymlinks` -/
  | scan (rootPath version : String) (noCache : Bool) (skipPaths : List String)
  | generate
  /-- an answer that needs no manifests -/
  | skip
  | fail (err : String)
  deriving DecidableEq

variable (g : GitSettings) (e : Answers) (q : ManifestRequest)

/-- the scan is left out if such symlinks are allowed -/
def scanned (rootPath version : String) (skipPaths : List String) : List Action :=
  if g.allowOutOfBoundsSymlinks then [] else [.scan rootPath version q.noCache skipPaths]

/-- a referenced repository that is checked out already -/
structure RepoRef where
  revision : String
  key : String

/-- the loop over value files that reference a source; `repoRefs` are those checked out so far, by their normalised URL -/
def checkoutRefs (commitSHA : String) (repoRefs : List (String × RepoRef)) : List String → List Action
  | [] => [.generate]
  | valueFile :: rest =>
    if !isReference valueFile then checkoutRefs commitSHA repoRefs rest
    else
      let var := refVar valueFile
      match q.refSources.lookup var with
      | none =>
        if q.refSources = [] then
          [.fail ("source referenced " ++ g.quote var ++ ", but no source has a 'ref' field defined")]
        else [.fail ("source referenced " ++ g.quote var ++ ", which is not one of the available sources (" ++
          ", ".intercalate (q.refSources.map Prod.fst) ++ ")")]
      | some target =>
        if target.chart ≠ "" then
          [.fail "source has a 'chart' field defined, but Helm charts are not yet not supported for 'ref' sources"]
        else
          let url := g.normalizeGitURL target.repo
          match repoRefs.lookup url with
          | some ref =>
            if ref.revision ≠ target.targetRevision then
              [.fail ("cannot reference multiple revisions for the same repository (" ++ var ++ " references " ++
                g.quote target.targetRevision ++ " while " ++ ref.key ++ " references " ++ g.quote ref.revision ++ ")")]
            else checkoutRefs commitSHA repoRefs rest
          | none =>
            match e.lsRemote target.repo target.targetRevision with
            | .error _ => [.fail ("failed to get git client for repo " ++ target.repo)]
            | .ok referenced =>
              if g.normalizeGitURL q.source.repoURL = url ∧ commitSHA ≠ referenced.sha then
                [.fail ("cannot reference a different revision of the same repository (" ++ var ++ " references " ++
                  g.quote target.targetRevision ++ " which resolves to " ++ g.quote referenced.sha ++
                  " while the application references " ++ g.quote q.revision ++ " which resolves to " ++
                  g.quote commitSHA ++ ")")]
              else .lock ⟨g.root url, referenced.sha, true⟩ ::
                -- the version passed here is that of the application
                (scanned g q (g.root url) commitSHA [".git"] ++
                  checkoutRefs commitSHA ((url, ⟨target.targetRevision, var⟩) :: repoRefs) rest)

/-- `runManifestGenAsync`, and the case in which there is nothing to generate -/
def operation (commitSHA : String) : List Action :=
  if q.hasMultipleSources && q.source.path = "" && q.source.chart = "" then [.skip]
  else if q.hasMultipleSources then
    checkoutRefs g e q commitSHA [] ((q.source.helm.map Helm.refCandidates).getD [])
  else [.generate]

/-- `runRepoOperation` for a chart or an image -/
def extractedProgram : List Action :=
  match e.version with
  | .error err => [.fail err]
  | .ok version => match e.extracted with
    | .error err => [.fail err]
    | .ok path => scanned g q path version [] ++ operation g e q version

/-- `runRepoOperation` for a git repository -/
def gitProgram : List Action :=
  match e.lsRemote q.repo (if q.revision ≠ "" then q.revision else q.source.targetRevision) with
  | .error err => [.fail err]
  | .ok commit =>
    let root := g.root (g.normalizeGitURL q.repo)
    .lock ⟨root, commit.sha, q.source.allowsConcurrentProcessing⟩ ::
      (scanned g q root commit.sha [".git"] ++ operation g e q commit.sha)

/-- `GenerateManifest`; a source that is only referenced has no manifests -/
def program : List Action :=
  if q.hasMultipleSources && q.source.path = "" && !q.source.isOCI && !q.source.isHelm && q.source.isRef then [.skip]
  else if q.source.isOCI || q.source.isHelm then extractedProgram g e q
  else gitProgram g e q

/-! ## What programs look like -/

/-- locks have a revision, and the path is scanned right after it was locked -/
structure WellFormed (actions : List Action) : Prop where
  revision : ∀ c, Action.lock c ∈ actions → c.revision ≠ ""
  scan : g.allowOutOfBoundsSymlinks = false → ∀ i c, actions[i]? = some (.lock c) → ∃ version noCache skipPaths,
    actions[i + 1]? = some (.scan c.path version noCache skipPaths)

section

variable {g} {actions : List Action}

theorem wellFormed_cons {a : Action} (ha : ∀ c, a ≠ .lock c) (h : WellFormed g actions) :
    WellFormed g (a :: actions) := by
  refine ⟨fun c hc => ?_, fun hs i c hc => ?_⟩
  · rcases List.mem_cons.mp hc with hc | hc
    · exact absurd hc.symm (ha c)
    · exact h.revision c hc
  · cases i with
    | zero => exact absurd (Option.some.inj hc) (ha c)
    | succ i => exact h.scan hs i c hc

theorem wellFormed_single {a : Action} (ha : ∀ c, a ≠ .lock c) : WellFormed g [a] :=
  wellFormed_cons ha ⟨nofun, fun _ i c hc => by simp at hc⟩

theorem wellFormed_scanned (rootPath version : String) (skipPaths : List String) (h : WellFormed g actions) :
    WellFormed g (scanned g q rootPath version skipPaths ++ actions) := by
  unfold scanned
  split_ifs
  · exact h
  · exact wellFormed_cons nofun h

theorem wellFormed_lock {c : LockCall} (version : String) (skipPaths : List String) (hc : c.revision ≠ "")
    (h : WellFormed g actions) : WellFormed g (.lock c :: (scanned g q c.path version skipPaths ++ actions)) := by
  have ht := wellFormed_scanned q c.path version skipPaths h
  refine ⟨fun c' hc' => ?_, fun hs i c' hc' => ?_⟩
  · rcases List.mem_cons.mp hc' with hc' | hc'
    · cases hc'
      exact hc
    · exact ht.revision c' hc'
  · cases i with
    | zero =>
      cases hc'
      simp [scanned, hs]
    | succ i => exact ht.scan hs i c' hc'

end

theorem checkoutRefs_wellFormed (commitSHA : String) (repoRefs : List (String × RepoRef)) (valueFiles : List String) :
    WellFormed g (checkoutRefs g e q commitSHA repoRefs valueFiles) := by
  fun_induction checkoutRefs g e q commitSHA repoRefs valueFiles with
  | case1 => exact wellFormed_single nofun
  | case2 _ _ _ _ ih => exact ih
  | case3 => exact wellFormed_single nofun
  | case4 => exact wellFormed_single nofun
  | case5 => exact wellFormed_single nofun
  | case6 => exact wellFormed_single nofun
  | case7 => assumption
  | case8 => exact wellFormed_single nofun
  | case9 => exact wellFormed_single nofun
  | case10 repoRefs valueFile rest _ var target _ _ url _ referenced _ _ ih =>
    exact wellFormed_lock q commitSHA [".git"] referenced.nonempty ih

theorem operation_wellFormed (commitSHA : String) : WellFormed g (operation g e q commitSHA) := by
  unfold operation
  split_ifs
  · exact wellFormed_single nofun
  · exact checkoutRefs_wellFormed g e q commitSHA [] _
  · exact wellFormed_single nofun

theorem program_wellFormed : WellFormed g (program g e q) := by
  unfold program
  split_ifs
  · exact wellFormed_single nofun
  · unfold extractedProgram
    split
    · exact wellFormed_single nofun
    · split
      · exact wellFormed_single nofun
      · exact wellFormed_scanned q _ _ [] (operation_wellFormed g e q _)
  · unfold gitProgram
    split
    · exact wellFormed_single nofun
    · next commit _ => exact wellFormed_lock q _ [".git"] commit.nonempty (operation_wellFormed g e q _)

end GitOpsDeploy.RepoServer

/-
Whether the commit that answers a request holds the manifests of the request (`handleCommitRequest`).

- `Holds`, `Truthful`: a tree has the encoding of an entry at its path; the commit that is named has that of every entry.
- `commit_response_truthful`: a request that succeeds is answered so iff its entries for one file agree, and a tip that has
  a note for the dry commit holds the manifests of the request already.
- Witness: `commit_response_truthful_first`, a first request.
- `commit_response_stale`: a path that came later is answered with the commit of the first request.
-/
import GitOpsDeploy.CommitServer.Commit

namespace GitOpsDeploy.CommitServer

open List
open Prog (ensures_bind ensures_pure ensures_mapStop)

open Paths (SlashPath IsName)
open Hydrator (PathDetails)
open Prog (ask stop lift ensures_foldlM)

section Encoding

variable {Obj : Type} (f : Formats Obj)

/-! ## What a response says -/

def document (manifest : String) : Except String String := f.unmarshal manifest >>= f.encode

/-- a stream of YAML documents -/
def stream : List String → String
  | [] => ""
  | d :: ds => d ++ String.join (ds.map ("---\n" ++ ·))

/-- the encoding of manifests in the given order -/
def encoding (manifests : List String) : Except String String := do
  let documents ← manifests.mapM (document f)
  pure (stream documents)

def manifestLocation (p : PathDetails) : Option (List String) := location (inDir (hydratePath p) manifestYaml)

/-- at the path of an entry the tree holds the encoding of the manifests of the entry -/
def Holds (tree : Tree) (p : PathDetails) : Prop :=
  ∃ l text, manifestLocation p = some l ∧ encoding f p.manifests = .ok text ∧ tree.lookup l = some text

theorem holds_iff {tree : Tree} {p : PathDetails} : Holds f tree p ↔
    ∃ text ∈ (encoding f p.manifests).toOption, (manifestLocation p).bind tree.lookup = some text := by
  cases hl : manifestLocation p <;> cases he : encoding f p.manifests <;> simp [Holds, hl, he, Except.toOption]

instance (tree : Tree) (p : PathDetails) : Decidable (Holds f tree p) := decidable_of_iff _ (holds_iff f).symm

/-- the response names a commit with all manifests of the request -/
def Truthful (remote : Remote) (sha : String) (r : CommitHydratedManifestsRequest) : Prop :=
  ∀ p ∈ r.paths, Holds f (remote.treeOf sha) p

instance (remote : Remote) (sha : String) (r : CommitHydratedManifestsRequest) : Decidable (Truthful f remote sha r) :=
  inferInstanceAs (Decidable (∀ p ∈ r.paths, Holds f (remote.treeOf sha) p))

/-- entries for the same file have the same manifests -/
def Consistent (paths : List PathDetails) : Prop :=
  ∀ p ∈ paths, ∀ q ∈ paths, manifestLocation p = manifestLocation q →
    encoding f p.manifests = encoding f q.manifests

theorem consistent_of_holds {tree : Tree} {paths : List PathDetails} (h : ∀ p ∈ paths, Holds f tree p) :
    Consistent f paths := by
  intro p hp q hq hpq
  obtain ⟨l, text, hl, ht, hlo⟩ := h p hp
  obtain ⟨l', text', hl', ht', hlo'⟩ := h q hq
  rw [hl, hl', Option.some.injEq] at hpq
  rw [hpq, hlo', Option.some.injEq] at hlo
  rw [ht, ht', hlo]

theorem stream_concat (ds : List String) (d : String) : stream (ds ++ [d]) = stream ds ++ (separator (ds ≠ []) ++ d) := by
  cases ds with
  | nil => simp [stream, separator]
  | cons e ds => simp [stream, separator, String.append_assoc]

theorem encoding_concat {pre : List String} {text m doc : String} (hp : encoding f pre = .ok text)
    (hm : document f m = .ok doc) : encoding f (pre ++ [m]) = .ok (text ++ (separator (pre ≠ []) ++ doc)) := by
  obtain ⟨ds, hds, hs⟩ := Fallible.bind_eq_ok.1 hp
  have hse : separator (decide (ds ≠ [])) = separator (decide (pre ≠ [])) := by
    cases pre with
    | nil =>
      rw [← Except.ok.inj hds]
      rfl
    | cons m' pre =>
      rw [mapM_cons, Fallible.bind_eq_ok] at hds
      obtain ⟨d, -, hds⟩ := hds
      obtain ⟨ds', -, hds⟩ := Fallible.bind_eq_ok.1 hds
      rw [← Except.ok.inj hds]
      rfl
  rw [encoding, mapM_append, hds, mapM_cons, hm, mapM_nil, ← hse, ← Except.ok.inj hs,
    ← stream_concat]
  rfl

end Encoding

/-! ## Programs -/

section Programs

variable {Obj : Type} (f : Formats Obj) {g : Git}

variable {c : Clone} {wrap drySha name dir raw repoUrl : String} {l : List String} {p : PathDetails} {before : Bool}

theorem act_ensures {action : Action} {Q : Unit → Clone → Prop}
    (h : ∀ c', g.perform c action = .ok c' → Q () c') : (act wrap action).Ensures g.exec c Q := by
  rw [act, ensures_bind, Prog.ensures_ask]
  intro a ha
  simp only [Git.exec] at ha ⊢
  split at ha
  · cases ha
  · split at ha
    · exact h _ ‹_›
    · cases ha

theorem tryLift_ensures {A : Type} {x : Except String A} {Q : A → Clone → Prop} :
    (tryLift wrap x).Ensures g.exec c Q ↔ ∀ a, x = .ok a → Q a c := by
  exact forall_congr' fun a => imp_congr_left Fallible.mapError_eq_ok

theorem commitSHA_ensures : commitSHA.Ensures g.exec c (fun sha c' => sha = c.head ∧ c' = c) := by
  rw [commitSHA, ensures_bind, Prog.ensures_ask, tryLift_ensures]
  intro sha hs
  simp only [Git.exec, and_true] at hs ⊢
  cases hr : g.refused c .commitSHA with
  | none =>
    rw [hr] at hs
    exact (Except.ok.inj hs).symm
  | some err =>
    rw [hr] at hs
    cases hs

/-- the tip of the clone has a note for the dry SHA -/
def Noted (c : Clone) (drySha : String) : Prop :=
  ∃ note, c.remote.notes.lookup c.head = some note ∧ f.unmarshalNote note = .ok drySha

theorem isHydrated_ensures :
    (isHydrated f drySha c.head).Ensures g.exec c (fun hydrated c' => (hydrated = true ↔ Noted f c drySha) ∧
      c' = c) := by
  rw [isHydrated, ensures_bind, Prog.ensures_ask]
  simp only [Git.exec]
  cases hr : g.refused c (.getCommitNote c.head) with
  | some err => exact Prog.ensures_stop _ _ _
  | none =>
    cases hn : c.remote.notes.lookup c.head with
    | none =>
      rw [ensures_pure]
      exact ⟨by simp [Noted, hn], rfl⟩
    | some note =>
      simp only [ensures_bind, tryLift_ensures, ensures_pure, and_true]
      intro found hf
      simp [Noted, hn, hf]

/-! ## Writing -/

/-- the same commit is checked out, and the manifests in the working tree are as they were -/
structure KeepsManifests (c c' : Clone) : Prop where
  remote : c'.remote = c.remote
  head : c'.head = c.head
  work : ∀ l : List String, l.getLast? = some manifestYaml → c'.work.lookup l = c.work.lookup l

theorem KeepsManifests.trans {c' c'' : Clone} (h : KeepsManifests c c') (h' : KeepsManifests c' c'') :
    KeepsManifests c c'' :=
  ⟨h'.remote.trans h.remote, h'.head.trans h.head, fun l hl => (h'.work l hl).trans (h.work l hl)⟩

theorem keepsManifests_insert (hn : IsName name)
    (hne : name ≠ manifestYaml) (hl : location (inDir dir name) = some l) (text : String) :
    KeepsManifests c { c with work := c.work.insert l text } := by
  refine ⟨rfl, rfl, fun l' hl' => Finmap.lookup_insert_of_ne _ ?_⟩
  rintro rfl
  rw [location_inDir hn hl, Option.some.injEq] at hl'
  exact hne hl'

theorem create_ensures (hn : IsName name) (hne : name ≠ manifestYaml) :
    (act wrap (.create (inDir dir name))).Ensures g.exec c (fun _ => KeepsManifests c) := by
  refine act_ensures fun c' hc' => ?_
  simp only [Git.perform, Clone.create] at hc'
  split at hc'
  · cases hc'
  · next hl =>
    rw [← Except.ok.inj hc']
    exact keepsManifests_insert hn hne hl _

theorem append_ensures {text : String} (hn : IsName name) (hne : name ≠ manifestYaml) :
    (act wrap (.append (inDir dir name) text)).Ensures g.exec c (fun _ => KeepsManifests c) := by
  refine act_ensures fun c' hc' => ?_
  rw [← Except.ok.inj hc', Clone.append]
  cases hl : location (inDir dir name) with
  | none => exact ⟨rfl, rfl, fun _ _ => rfl⟩
  | some l => exact keepsManifests_insert hn hne hl _

theorem writeMetadata_ensures {metadata : HydratorCommitMetadata} :
    (writeMetadata f dir metadata).Ensures g.exec c (fun _ => KeepsManifests c) := by
  simp only [writeMetadata, ensures_bind, tryLift_ensures]
  refine (create_ensures (by decide) (by decide)).mono fun _ c₁ h₁ text _ => ?_
  exact (append_ensures (by decide) (by decide)).mono fun _ c₂ h₂ => h₁.trans h₂

theorem writeReadme_ensures {metadata : HydratorCommitMetadata} :
    (writeReadme f dir metadata raw).Ensures g.exec c (fun _ => KeepsManifests c) := by
  simp only [writeReadme, ensures_bind, tryLift_ensures]
  intro readmeTemplate _
  refine (create_ensures (by decide) (by decide)).mono fun _ c₁ h₁ text _ => ?_
  exact (append_ensures (by decide) (by decide)).mono fun _ c₂ h₂ => h₁.trans h₂

theorem writeGitAttributes_ensures : writeGitAttributes.Ensures g.exec c (fun _ => KeepsManifests c) := by
  simp only [writeGitAttributes, ensures_bind]
  refine (create_ensures (by decide) (by decide)).mono fun _ c₁ h₁ => ?_
  exact (append_ensures (by decide) (by decide)).mono fun _ c₂ h₂ => h₁.trans h₂

/-- the loop over the documents of a file that was just created -/
theorem writeManifests_ensures : (writeManifests f (hydratePath p) p.manifests).Ensures g.exec c (fun _ c' => ∃ l text,
      manifestLocation p = some l ∧ encoding f p.manifests = .ok text ∧
        c' = { c with work := c.work.insert l text }) := by
  simp only [writeManifests, ensures_bind]
  refine act_ensures fun c₁ hc₁ => ?_
  simp only [Git.perform, Clone.create] at hc₁
  split at hc₁
  · cases hc₁
  · next l hl =>
    rw [← Except.ok.inj hc₁]
    refine (ensures_foldlM (fun pre later c' => later = decide (pre ≠ []) ∧ ∃ text, encoding f pre = .ok text ∧
      c' = { c with work := c.work.insert l text }) ⟨rfl, "", rfl, rfl⟩ ?_).mono ?_
    · rintro pre m rest _ _ - ⟨rfl, text, ht, rfl⟩
      simp only [ensures_bind, tryLift_ensures, ensures_pure]
      intro obj ho doc hd
      refine act_ensures fun c₂ hc₂ => ⟨by simp, _, encoding_concat f ht
        (Fallible.bind_eq_ok.2 ⟨obj, ho, hd⟩), ?_⟩
      rw [← Except.ok.inj hc₂, Clone.append, hl]
      simp
    · rintro _ c' ⟨-, text, ht, rfl⟩
      exact (ensures_pure _ _ _).2 ⟨l, text, hl, ht, rfl⟩

theorem manifestLocation_last (h : manifestLocation p = some l) : l.getLast? = some manifestYaml :=
  location_inDir (by decide) h

/-- what one path leaves: its manifests are in the working tree, those of no other file have changed, and where no change
is reported they are in the commit already -/
structure Written (p : PathDetails) (c c' : Clone) (before changed : Bool) : Prop where
  remote : c'.remote = c.remote
  head : c'.head = c.head
  holds : Holds f c'.work p
  others : ∀ l, l.getLast? = some manifestYaml → manifestLocation p ≠ some l → c'.work.lookup l = c.work.lookup l
  unchanged : changed = false → before = false ∧ Holds f c.headTree p

theorem createPath_ensures {dirPath : String} : (createPath dirPath).Ensures g.exec c (fun _ c' => c' = c) := by
  unfold createPath
  split_ifs
  · exact (ensures_pure _ _ _).2 rfl
  · refine act_ensures fun c' hc' => ?_
    simp only [Git.perform] at hc'
    split_ifs at hc'
    exact (Except.ok.inj hc').symm

/-- a file that is reported as unchanged is in the commit as it is in the working tree -/
theorem headTree_of_unchanged {path : SlashPath} {text : String} (hl : location path = some l)
    (hw : c.work.lookup l = some text) (h : (g.exec (.hasFileChanged path) c).2 = .ok false) :
    c.headTree.lookup l = some text := by
  simp only [Git.exec] at h
  cases hr : g.refused c (.hasFileChanged path) with
  | some err =>
    rw [hr] at h
    cases h
  | none =>
    rw [hr] at h
    have hs := Except.ok.inj h
    simp only [Clone.hasFileChanged, hl, Option.bind_some, hw] at hs
    cases hh : c.headTree.lookup l with
    | none => simp [hh] at hs
    | some text' =>
      rw [hh] at hs
      simp only [ne_eq, Option.some.injEq, decide_not, Bool.not_eq_false', decide_eq_true_eq] at hs
      rw [hs]

theorem writeForPath_ensures :
    (writeForPath f repoUrl drySha raw before p).Ensures g.exec c (fun changed c' => Written f p c c' before changed) := by
  simp only [writeForPath, ensures_bind, ensures_mapStop, tryLift_ensures, Prog.ensures_ask]
  refine createPath_ensures.mono ?_
  rintro _ c rfl
  refine (writeManifests_ensures f).mono ?_
  rintro _ c' ⟨l, text, hl, ht, rfl⟩ changed hc
  have hw : ∀ c'', KeepsManifests { c with work := c.work.insert l text } c'' →
      ∀ changed : Bool, (changed = false → before = false ∧ Holds f c.headTree p) →
        Written f p c c'' before changed := by
    intro c'' hk changed hu
    refine ⟨hk.remote, hk.head, ⟨l, text, hl, ht, ?_⟩, fun l' hla hne => ?_, hu⟩
    · rw [hk.work l (manifestLocation_last hl)]
      exact Finmap.lookup_insert _
    · rw [hk.work l' hla]
      exact Finmap.lookup_insert_of_ne _ fun h => hne (h ▸ hl)
  cases changed with
  | true =>
    simp only [if_true, ensures_bind, ensures_mapStop, ensures_pure]
    refine (writeMetadata_ensures f).mono fun _ c₁ h₁ => (writeReadme_ensures f).mono fun _ c₂ h₂ => ?_
    exact hw c₂ (h₁.trans h₂) true fun h => absurd h (by decide)
  | false =>
    simp only [Bool.false_eq_true, if_false, ensures_pure]
    refine hw _ ⟨rfl, rfl, fun _ _ => rfl⟩ before fun hb => ⟨hb, l, text, hl, ht, ?_⟩
    have hh : Clone.headTree { c with work := c.work.insert l text } = c.headTree := rfl
    exact hh ▸ headTree_of_unchanged hl (Finmap.lookup_insert _) hc

/-- an entry that agrees with a written one is still there -/
theorem Written.keeps {q : PathDetails} {c' : Clone} {changed : Bool} (h : Written f p c c' before changed)
    (ha : manifestLocation q = manifestLocation p → encoding f q.manifests = encoding f p.manifests)
    (hq : Holds f c.work q) : Holds f c'.work q := by
  obtain ⟨l, text, hl, ht, hlo⟩ := hq
  by_cases heq : manifestLocation p = some l
  · obtain ⟨l', text', hl', ht', hlo'⟩ := h.holds
    exact ⟨l', text', (hl.trans heq.symm).trans hl', (ha (hl.trans heq.symm)).trans ht', hlo'⟩
  · exact ⟨l, text, hl, ht, (h.others l (manifestLocation_last hl) heq).trans hlo⟩

/-- what a loop over paths leaves -/
structure AllWritten (c c' : Clone) (paths : List PathDetails) (changed : Bool) : Prop where
  remote : c'.remote = c.remote
  head : c'.head = c.head
  holds : ∀ p ∈ paths, Holds f c'.work p
  unchanged : changed = false → ∀ p ∈ paths, Holds f c.headTree p

theorem AllWritten.concat {c₁ c₂ : Clone} {pre : List PathDetails} {changed : Bool}
    (h : AllWritten f c c₁ pre before) (hp : Written f p c₁ c₂ before changed)
    (ha : ∀ q ∈ pre, manifestLocation q = manifestLocation p → encoding f q.manifests = encoding f p.manifests) :
    AllWritten f c c₂ (pre ++ [p]) changed := by
  have ht : c₁.headTree = c.headTree := by rw [Clone.headTree, Clone.headTree, h.remote, h.head]
  refine ⟨hp.remote.trans h.remote, hp.head.trans h.head, fun q hq => ?_, fun hc q hq => ?_⟩
  · rcases mem_append.1 hq with hq | hq
    · exact hp.keeps f (ha q hq) (h.holds q hq)
    · rw [mem_singleton.1 hq]
      exact hp.holds
  · obtain ⟨hb, hh⟩ := hp.unchanged hc
    rcases mem_append.1 hq with hq | hq
    · exact h.unchanged hb q hq
    · rw [mem_singleton.1 hq]
      exact ht ▸ hh

theorem writeForPaths_ensures {metadata : Option RevisionMetadata} {paths : List PathDetails}
    (hpa : Consistent f paths) :
    (writeForPaths f repoUrl drySha metadata paths raw).Ensures g.exec c
      (fun changed c' => AllWritten f c c' paths changed) := by
  simp only [writeForPaths, ensures_bind, ensures_mapStop]
  refine (writeMetadata_ensures f).mono fun _ c₁ h₁ => writeGitAttributes_ensures.mono fun _ c₂ h₂ => ?_
  have hk := h₁.trans h₂
  refine ensures_foldlM (fun pre changed c' => AllWritten f c c' pre changed)
    ⟨hk.remote, hk.head, fun p hp => absurd hp not_mem_nil, fun _ p hp => absurd hp not_mem_nil⟩ ?_
  intro pre p rest before c₃ hl hpr
  refine (writeForPath_ensures f).mono fun changed c₄ hp => hpr.concat f hp fun q hq => hpa q ?_ p ?_
  · exact hl ▸ mem_append_left _ hq
  · exact hl ▸ mem_append_right _ mem_cons_self

/-! ## Requests -/

theorem addNote_ensures {sha : String} :
    (addNote f drySha sha).Ensures g.exec c (fun _ c' => ∀ s, c'.remote.treeOf s = c.remote.treeOf s) := by
  simp only [addNote, ensures_bind, tryLift_ensures]
  refine fun note _ => act_ensures fun c' hc' s => ?_
  rw [← Except.ok.inj hc']
  rfl

theorem headTree_commitAndPush (c : Clone) (branch message : String) :
    (c.commitAndPush g.hash branch message).headTree = c.work := by
  unfold Clone.commitAndPush
  split_ifs with h
  · exact h.symm
  · simp [Clone.headTree, Clone.pushCommit, Remote.treeOf]

theorem hydrate_ensures {r : CommitHydratedManifestsRequest} (hpa : Consistent f r.paths) :
    (hydrate f repoUrl c.head r).Ensures g.exec c (fun sha c' => Truthful f c'.remote sha r) := by
  simp only [hydrate, ensures_bind, ensures_mapStop]
  refine (writeForPaths_ensures f hpa).mono fun changed c₁ h₁ => ?_
  cases changed with
  | true =>
    simp only [if_true, ensures_bind, ensures_mapStop, ensures_pure]
    refine act_ensures fun c₂ hc₂ => commitSHA_ensures.mono ?_
    rintro _ c₂ ⟨rfl, rfl⟩
    refine (addNote_ensures f).mono fun _ c₃ h₃ p hp => ?_
    have ht : c₂.headTree = c₁.work := by
      rw [← Except.ok.inj hc₂]
      exact headTree_commitAndPush c₁ _ _
    rw [h₃, ← Clone.headTree, ht]
    exact h₁.holds p hp
  | false =>
    simp only [Bool.false_eq_true, if_false, ensures_bind, ensures_mapStop, ensures_pure]
    refine (addNote_ensures f).mono fun _ c₃ h₃ p hp => ?_
    rw [h₃, h₁.remote]
    exact h₁.unchanged rfl p hp

/-- a clone of the remote before anything is checked out -/
def freshClone (remote : Remote) : Clone := ⟨remote, ("", ""), "", ∅⟩

/-- the clone when the request looks at the tip: that of the target branch, else that of the sync branch, which starts
with an empty commit if it does not exist either -/
def startingPoint (g : Git) (remote : Remote) (r : CommitHydratedManifestsRequest) : Except String Clone :=
  (Clone.checkoutOrOrphan g.hash { freshClone remote with author := authorOf r } r.syncBranch).checkoutOrNew
    r.targetBranch r.syncBranch

/-- entries for the same file agree, and a tip with a note for the dry commit holds the manifests of the request -/
def Served (g : Git) (remote : Remote) (r : CommitHydratedManifestsRequest) : Prop :=
  Consistent f r.paths ∧
    ∀ c, startingPoint g remote r = .ok c → Noted f c r.drySha → ∀ p ∈ r.paths, Holds f c.headTree p

theorem initGitClient_ensures {r : CommitHydratedManifestsRequest} :
    (initGitClient r).Ensures g.exec c (fun _ c' => c' = { c with author := authorOf r }) := by
  simp only [initGitClient, ensures_bind]
  refine act_ensures fun _ h₀ => act_ensures fun _ h₁ => act_ensures fun _ h₂ => act_ensures fun _ h₃ =>
    act_ensures fun _ h₄ => ?_
  cases h₀
  cases h₁
  cases h₂
  cases h₃
  exact (Except.ok.inj h₄).symm

theorem handleCommitRequest_ensures (g : Git) (remote : Remote) (r : CommitHydratedManifestsRequest) :
    (handleCommitRequest f r).Ensures g.exec (freshClone remote) (fun sha c' => ∃ c, startingPoint g remote r = .ok c ∧
        (Noted f c r.drySha → c'.remote.treeOf sha = c.headTree) ∧
        (¬Noted f c r.drySha → Consistent f r.paths → Truthful f c'.remote sha r)) := by
  unfold handleCommitRequest
  split
  · exact Prog.ensures_stop _ _ _
  rename_i repoUrl _
  split_ifs
  · exact Prog.ensures_stop _ _ _
  · exact Prog.ensures_stop _ _ _
  · exact Prog.ensures_stop _ _ _
  simp only [ensures_bind, ensures_mapStop]
  refine initGitClient_ensures.mono ?_
  rintro _ _ rfl
  refine act_ensures fun _ h₁ => act_ensures fun _ h₂ => act_ensures fun c h₃ => ?_
  cases h₁
  cases h₂
  refine commitSHA_ensures.mono ?_
  rintro _ c ⟨rfl, rfl⟩
  refine (isHydrated_ensures f).mono ?_
  rintro hydrated c ⟨hn, rfl⟩
  cases hydrated with
  | true =>
    simp only [if_true, ensures_pure]
    exact ⟨c, h₃, fun _ => rfl, fun h => absurd (hn.1 rfl) h⟩
  | false =>
    have hno : ¬Noted f c r.drySha := fun h => Bool.false_ne_true (hn.2 h)
    by_cases hp : Consistent f r.paths
    · exact (hydrate_ensures f hp).mono fun sha c' h => ⟨c, h₃, fun h' => absurd h' hno, fun _ _ => h⟩
    · exact fun sha _ => ⟨c, h₃, fun h' => absurd h' hno, fun _ h => absurd h hp⟩

/-- **Commit responses.** A request that succeeds names a commit with all its manifests iff its entries for the same file
agree and the tip, if it has a note for the dry commit, holds the manifests of the request already. -/
theorem commit_response_truthful (g : Git) (remote : Remote) (r : CommitHydratedManifestsRequest) (sha : String)
    (hsha : (handleCommitRequest f r).result g.exec (freshClone remote) = .ok sha) :
    Truthful f ((handleCommitRequest f r).final g.exec (freshClone remote)).remote sha r ↔ Served f g remote r := by
  obtain ⟨c, hc, hno, hnot⟩ := handleCommitRequest_ensures f g remote r sha hsha
  constructor
  · intro h
    refine ⟨consistent_of_holds f h, fun c' hc' hn p hp => ?_⟩
    cases hc.symm.trans hc'
    exact hno hn ▸ h p hp
  · rintro ⟨hpa, ht⟩
    by_cases hn : Noted f c r.drySha
    · intro p hp
      rw [hno hn]
      exact ht c hc hn p hp
    · exact hnot hn hpa

end Programs

/-! ## A path that came later -/

/-- manifests and notes are texts that stand for themselves -/
def plainFormats : Formats String where
  unmarshal := .ok
  encode text := .ok (text ++ "\n")
  encodeMetadata metadata := .ok metadata.drySHA
  parseReadme raw := .ok fun _ => .ok raw
  withoutTrailers := id
  marshalNote := .ok
  unmarshalNote := .ok

/-- commits are named by their history, and no call is refused -/
def plainGit : Git := ⟨fun commit => commit.parent.getD "" ++ "/" ++ commit.message, fun _ _ => none⟩

/-- a request for the dry commit `abc123` with one path -/
def requestFor (path manifest : String) : CommitHydratedManifestsRequest where
  repo := some "https://git.example.com/hydrated"
  syncBranch := "env/test"
  targetBranch := "main"
  drySha := "abc123"
  commitMessage := "hydrate " ++ path
  paths := [⟨path, [manifest], []⟩]
  dryCommitMetadata := none
  readmeMessage := "readme"
  authorName := ""
  authorEmail := ""

/-- a clone after a request -/
def after (remote : Remote) (r : CommitHydratedManifestsRequest) : Clone :=
  (handleCommitRequest plainFormats r).final plainGit.exec (freshClone remote)

/-- the first request finds no note, and its commit holds its manifests -/
theorem commit_response_truthful_first :
    (handleCommitRequest plainFormats (requestFor "guestbook" "kind: Service")).result plainGit.exec
        (freshClone ⟨∅, ∅, ∅⟩) = .ok "/Initial commit for env/test/hydrate guestbook" ∧
      Truthful plainFormats (after ⟨∅, ∅, ∅⟩ (requestFor "guestbook" "kind: Service")).remote
        "/Initial commit for env/test/hydrate guestbook" (requestFor "guestbook" "kind: Service") := by
  have hsha : (handleCommitRequest plainFormats (requestFor "guestbook" "kind: Service")).result plainGit.exec
      (freshClone ⟨∅, ∅, ∅⟩) = .ok "/Initial commit for env/test/hydrate guestbook" := by decide +kernel
  refine ⟨hsha, (commit_response_truthful plainFormats plainGit ⟨∅, ∅, ∅⟩ _ _ hsha).2 ⟨?_, ?_⟩⟩
  · intro p hp q hq _
    rw [mem_singleton.1 hp, mem_singleton.1 hq]
  · intro c hc ⟨note, hnote, _⟩
    have hno : ∀ c ∈ (startingPoint plainGit ⟨∅, ∅, ∅⟩ (requestFor "guestbook" "kind: Service")).toOption,
        c.remote.notes.lookup c.head = none := by decide +kernel
    cases (hno c (by rw [hc]; rfl)).symm.trans hnote

/-- the second request is answered with the commit of the first, which has nothing at its path -/
theorem commit_response_stale :
    (handleCommitRequest plainFormats (requestFor "helm" "kind: Deployment")).result plainGit.exec
        (freshClone (after ⟨∅, ∅, ∅⟩ (requestFor "guestbook" "kind: Service")).remote) =
      .ok "/Initial commit for env/test/hydrate guestbook" ∧
    ¬Truthful plainFormats
      (after (after ⟨∅, ∅, ∅⟩ (requestFor "guestbook" "kind: Service")).remote
        (requestFor "helm" "kind: Deployment")).remote
      "/Initial commit for env/test/hydrate guestbook" (requestFor "helm" "kind: Deployment") := by
  decide +kernel

end GitOpsDeploy.CommitServer

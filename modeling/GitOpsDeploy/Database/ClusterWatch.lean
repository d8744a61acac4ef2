/-
What a consumer of the cluster watch ends up with.

A faithful map has the clusters of the secrets that can be read and, with in-cluster enabled, the local cluster; a secret
for the local address replaces the default one and is ignored with in-cluster disabled.
- `Tracks.add`, `Tracks.change`, `Tracks.delete`: the handlers keep the map faithful; an update where the secret stays
  readable and local, or unreadable and not, and a deletion where the server is written without slashes at its end.
-/
import GitOpsDeploy.Core.Fallible
import GitOpsDeploy.Core.Trace
import GitOpsDeploy.Database.Cluster

namespace GitOpsDeploy.Database

open Function List

variable {Config Time : Type} (codec : ClusterCodec Config Time) (inClusterEnabled : Bool)

/-- the server of a secret, as a cluster has it -/
def ClusterSecret.server (s : ClusterSecret) : String := trimRightSlash (s.text "server")

/-- the cluster that the secret shows to a consumer: none if it cannot be read, or if it is for the local cluster and
in-cluster is disabled -/
def shown (s : ClusterSecret) : Option (Cluster Config Time) :=
  (secretToCluster codec s).toOption.filter fun c =>
    inClusterEnabled || c.server ≠ kubernetesInternalAPIServerAddr

/-- no two secrets have one server -/
def Distinct (secrets : String → Option ClusterSecret) : Prop :=
  ∀ n m s t, secrets n = some s → secrets m = some t → s.server = t.server → n = m

/-- a secret shows the cluster for the server -/
def Present (secrets : String → Option ClusterSecret) (server : String) (cluster : Cluster Config Time) : Prop :=
  ∃ n s, secrets n = some s ∧ shown codec inClusterEnabled s = some cluster ∧ cluster.server = server

/-- the clusters by their servers, with `fallback` for the local cluster where no secret is shown for it -/
def Listed (fallback : Cluster Config Time) (secrets : String → Option ClusterSecret) (server : String)
    (cluster : Cluster Config Time) : Prop :=
  Present codec inClusterEnabled secrets server cluster ∨
    server = kubernetesInternalAPIServerAddr ∧ inClusterEnabled = true ∧ cluster = fallback ∧
      ∀ c, ¬Present codec inClusterEnabled secrets kubernetesInternalAPIServerAddr c

/-- the consumer's map has exactly what is listed -/
def Shows (fallback : Cluster Config Time) (secrets : String → Option ClusterSecret)
    (clusters : ClusterMap Config Time) : Prop :=
  ∀ server cluster, clusters server = some cluster ↔ Listed codec inClusterEnabled fallback secrets server cluster

/-! ## Secrets that come and go -/

section Secrets

variable {codec} {enabled : Bool} {fallback : Cluster Config Time} {secrets : String → Option ClusterSecret}
  {clusters : ClusterMap Config Time} {secret : Option ClusterSecret} {s : ClusterSecret} {c cluster : Cluster Config Time}
  {n key server : String}

theorem server_of_read (h : secretToCluster codec s = .ok c) : c.server = s.server := by
  obtain ⟨config, -, hc⟩ := Fallible.bind_eq_ok.1 h
  cases hc
  rfl

theorem shown_eq_some : shown codec enabled s = some c ↔
    secretToCluster codec s = .ok c ∧ (c.server = kubernetesInternalAPIServerAddr → enabled = true) := by
  simp only [shown, Option.filter_eq_some_iff, Fallible.toOption_eq_some, Bool.or_eq_true, decide_eq_true_eq]
  tauto

theorem server_of_shown (h : shown codec enabled s = some c) : c.server = s.server :=
  server_of_read (shown_eq_some.1 h).1

theorem shown_of_error {x : String} (h : secretToCluster codec s = .error x) : shown codec enabled s = none := by
  rw [shown, h]
  rfl

theorem present_iff : Present codec enabled secrets server cluster ↔
    ∃ n, (secrets n).bind (shown codec enabled) = some cluster ∧ cluster.server = server := by
  simp only [Present, Option.bind_eq_some_iff, ← exists_and_right, and_assoc]

/-- a secret that comes, changes or goes shows nothing for the server -/
theorem present_update_of_ne (ho : ∀ d, (secrets n).bind (shown codec enabled) = some d → d.server ≠ server)
    (hne : ∀ d, secret.bind (shown codec enabled) = some d → d.server ≠ server) :
    Present codec enabled (update secrets n secret) server cluster ↔ Present codec enabled secrets server cluster := by
  rw [present_iff, present_iff]
  refine exists_congr fun m => ?_
  rcases eq_or_ne m n with rfl | hm
  · rw [update_self]
    exact iff_of_false (fun h => hne cluster h.1 h.2) (fun h => ho cluster h.1 h.2)
  · rw [update_of_ne hm]

/-- a secret that is shown is the only one for its server -/
theorem present_self (hn : secrets n = some s) (hs : shown codec enabled s = some c) (hd : Distinct secrets) :
    Present codec enabled secrets c.server cluster ↔ cluster = c := by
  constructor
  · rintro ⟨m, t, hm, ht, heq⟩
    have hse : t.server = s.server := by rw [← server_of_shown ht, ← server_of_shown hs, heq]
    cases hd m n t s hm hn hse
    cases hm.symm.trans hn
    exact Option.some.inj (ht.symm.trans hs)
  · rintro rfl
    exact ⟨n, s, hn, hs, rfl⟩

/-- a secret that is shown goes: nothing has its server -/
theorem not_present_remove_self (hn : secrets n = some s) (hs : shown codec enabled s = some c)
    (hd : Distinct secrets) : ¬Present codec enabled (update secrets n none) c.server cluster := by
  rintro ⟨m, t, hm, ht, heq⟩
  rcases eq_or_ne m n with rfl | hmn
  · rw [update_self] at hm
    cases hm
  · rw [update_of_ne hmn] at hm
    have hse : t.server = s.server := by rw [← server_of_shown ht, ← server_of_shown hs, heq]
    exact hmn (hd m n t s hm hn hse)

namespace Shows

variable (h : Shows codec enabled fallback secrets clusters)

include h

/-- a secret changes that shows nothing before and after -/
theorem hidden (ho : (secrets n).bind (shown codec enabled) = none) (hne : secret.bind (shown codec enabled) = none) :
    Shows codec enabled fallback (update secrets n secret) clusters := by
  have hs : Present codec enabled (update secrets n secret) = Present codec enabled secrets := by
    funext server cluster
    exact propext (present_update_of_ne (by simp [ho]) (by simp [hne]))
  intro server cluster
  rw [h server cluster, Listed, Listed, hs]

/-- a secret changes that shows something for one server only: what is listed for that server decides -/
theorem change (ho : ∀ d, (secrets n).bind (shown codec enabled) = some d → d.server = key)
    (hnew : ∀ d, secret.bind (shown codec enabled) = some d → d.server = key) {value : Option (Cluster Config Time)}
    (hk : ∀ cluster, value = some cluster ↔ Listed codec enabled fallback (update secrets n secret) key cluster) :
    Shows codec enabled fallback (update secrets n secret) (update clusters key value) := by
  intro server cluster
  rcases eq_or_ne server key with rfl | hs
  · rw [update_self, hk]
  · have hsa : ∀ server' ≠ key, ∀ cluster, Present codec enabled (update secrets n secret) server' cluster ↔
        Present codec enabled secrets server' cluster := fun server' hne cluster =>
      present_update_of_ne (fun d hd => (ho d hd).symm ▸ hne.symm) (fun d hd => (hnew d hd).symm ▸ hne.symm)
    rw [update_of_ne hs, h server cluster]
    refine or_congr (hsa server hs cluster).symm (and_congr_right fun hl => ?_)
    simp only [hsa kubernetesInternalAPIServerAddr (hl ▸ hs)]

theorem insert (hn : secrets n = none) (hs : shown codec enabled s = some c)
    (hd : Distinct (update secrets n (some s))) :
    Shows codec enabled fallback (update secrets n (some s)) (update clusters c.server (some c)) := by
  refine h.change (by simp [hn]) (by simp [hs]) fun cluster => ?_
  have hse (cluster : Cluster Config Time) : Present codec enabled _ c.server cluster ↔ cluster = c :=
    present_self (update_self n (some s) secrets) hs hd
  rw [Listed, hse, Option.some.injEq, eq_comm]
  refine (or_iff_left ?_).symm
  rintro ⟨hl, -, -, hno⟩
  exact hl ▸ hno c <| (hse c).2 rfl

theorem remove (hn : secrets n = some s) (hs : shown codec enabled s = some c) (hd : Distinct secrets) :
    Shows codec enabled fallback (update secrets n none)
      (update clusters c.server
        (if c.server = kubernetesInternalAPIServerAddr then some fallback else none)) := by
  refine h.change (by simp [hn, hs]) (by simp) fun cluster => ?_
  have hno (cluster : Cluster Config Time) : ¬Present codec enabled _ c.server cluster :=
    not_present_remove_self hn hs hd
  rw [Listed, or_iff_right (hno cluster)]
  split_ifs with hl
  · have he := (shown_eq_some.1 hs).2 hl
    rw [hl] at hno
    subst he
    simp [hl, hno, eq_comm]
  · simp [hl]

/-- a server for which nothing is listed is removed -/
theorem clear (hno : ∀ cluster, ¬Listed codec enabled fallback secrets key cluster) :
    Shows codec enabled fallback secrets (update clusters key none) := by
  intro server cluster
  rcases eq_or_ne server key with rfl | hs
  · rw [update_self]
    exact ⟨nofun, fun hl => absurd hl (hno cluster)⟩
  · rw [update_of_ne hs, h server cluster]

end Shows

end Secrets

/-! ## Steps -/

/-- the map is faithful, up to the default for the local cluster, and the variable is for the local cluster -/
structure Tracks (fallback : Cluster Config Time) (w : WatchState Config Time) : Prop where
  shows : Shows codec inClusterEnabled fallback w.secrets w.clusters
  localServer : w.localCls.server = kubernetesInternalAPIServerAddr
  distinct : Distinct w.secrets

/-- the secret stays readable or unreadable, and stays for the local cluster if it is for it; and it does not get to be for
the local cluster if that is disabled -/
structure RegularUpdate (oldSecret newSecret : ClusterSecret) : Prop where
  repaired : ∀ c, shown codec inClusterEnabled newSecret = some c → ∃ c', secretToCluster codec oldSecret = .ok c'
  broken : ∀ c, shown codec inClusterEnabled oldSecret = some c → ∃ c', secretToCluster codec newSecret = .ok c'
  ignored : ∀ c c', secretToCluster codec oldSecret = .ok c → secretToCluster codec newSecret = .ok c' →
    c'.server = kubernetesInternalAPIServerAddr → inClusterEnabled = true
  replaced : ∀ c c', secretToCluster codec oldSecret = .ok c → secretToCluster codec newSecret = .ok c' →
    c.server = kubernetesInternalAPIServerAddr → inClusterEnabled = true → c'.server = kubernetesInternalAPIServerAddr

namespace Tracks

variable {codec} {enabled : Bool} {fallback : Cluster Config Time} {w : WatchState Config Time} {s oldSecret : ClusterSecret}
  {secret : Option ClusterSecret} {n : String} {c c' : Cluster Config Time}

section Changes

variable (h : Tracks codec enabled fallback w)

include h

/-- what is not shown makes no callback -/
theorem hidden (ho : (w.secrets n).bind (shown codec enabled) = none)
    (hne : secret.bind (shown codec enabled) = none) (hd : Distinct (update w.secrets n secret)) :
    Tracks codec enabled fallback (w.handle n secret (w.localCls, [])) :=
  ⟨h.shows.hidden ho hne, h.localServer, hd⟩

theorem add (hn : w.secrets s.name = none) (hdi : Distinct (update w.secrets s.name (some s))) :
    Tracks codec enabled fallback (w.handle s.name (some s) (onAdd codec enabled w.localCls s)) := by
  have hh : shown codec enabled s = none →
      Tracks codec enabled fallback (w.handle s.name (some s) (w.localCls, [])) :=
    fun hs => h.hidden (by simp [hn]) hs hdi
  unfold onAdd
  cases hr : secretToCluster codec s with
  | error x => exact hh (shown_of_error hr)
  | ok c =>
    dsimp only
    split_ifs with hl he
    · refine ⟨?_, hl, hdi⟩
      have hm : update (update w.clusters w.localCls.server none) c.server (some c) =
          update w.clusters c.server (some c) := by
        rw [h.localServer, hl, update_idem]
      change Shows codec enabled fallback (update w.secrets s.name (some s))
        (update (update w.clusters w.localCls.server none) c.server (some c))
      rw [hm]
      exact h.shows.insert hn (shown_eq_some.2 ⟨hr, fun _ => he⟩) hdi
    · refine hh (Option.eq_none_iff_forall_ne_some.2 fun d hd => ?_)
      obtain ⟨hr', hl'⟩ := shown_eq_some.1 hd
      cases hr.symm.trans hr'
      exact he (hl' hl)
    · exact ⟨h.shows.insert hn (shown_eq_some.2 ⟨hr, fun hc => absurd hc hl⟩) hdi, h.localServer, hdi⟩

omit h in
theorem not_listed_disabled (hd : enabled = false) {secrets : String → Option ClusterSecret} :
    ¬Listed codec enabled fallback secrets kubernetesInternalAPIServerAddr c := by
  rintro (⟨m, t, -, ht, hs⟩ | ⟨-, he, -⟩)
  · cases hd.symm.trans ((shown_eq_some.1 ht).2 hs)
  · cases hd.symm.trans he

variable (hn : w.secrets n = some oldSecret)

include hn

/-- a modification is a removal and an addition, unless the secret was for the local cluster and no longer is -/
theorem shows_modify (ho : secretToCluster codec oldSecret = .ok c) (hne : shown codec enabled s = some c')
    (hr : c.server = kubernetesInternalAPIServerAddr → enabled = true → c'.server = kubernetesInternalAPIServerAddr)
    (hdi : Distinct (update w.secrets n (some s))) : Shows codec enabled fallback (update w.secrets n (some s))
      (update (update w.clusters c.server none) c'.server (some c')) := by
  have hse : update w.secrets n (some s) =
      update (update w.secrets n none) n (some s) := (update_idem _ _ _).symm
  rw [hse] at hdi ⊢
  have hsel : update w.secrets n none n = none := update_self n none w.secrets
  by_cases hs : shown codec enabled oldSecret = some c
  · have hi := (h.shows.remove hn hs h.distinct).insert hsel hne hdi
    split_ifs at hi with hl
    · have hl' := hr hl ((shown_eq_some.1 hs).2 hl)
      simpa only [hl, hl', update_idem] using hi
    · exact hi
  · -- it was for the local cluster, which is disabled
    have hl : c.server = kubernetesInternalAPIServerAddr ∧ enabled = false := by
      rw [shown_eq_some, not_and, Classical.not_imp, Bool.not_eq_true] at hs
      exact hs ho
    have hg : (w.secrets n).bind (shown codec enabled) = none := by
      refine Option.eq_none_iff_forall_ne_some.2 fun d hd => hs ?_
      rw [hn] at hd
      cases ho.symm.trans (shown_eq_some.1 hd).1
      exact hd
    rw [hl.1]
    exact ((h.shows.hidden hg rfl).clear fun _ => not_listed_disabled hl.2).insert hsel hne hdi

theorem change (hr : RegularUpdate codec enabled oldSecret s) (hdi : Distinct (update w.secrets n (some s))) :
    Tracks codec enabled fallback (w.handle n (some s) (onUpdate codec w.localCls oldSecret s)) := by
  -- without a callback, neither secret is shown
  have hh : shown codec enabled oldSecret = none → shown codec enabled s = none →
      Tracks codec enabled fallback (w.handle n (some s) (w.localCls, [])) :=
    fun ho hs => h.hidden (by simp [hn, ho]) hs hdi
  unfold onUpdate
  cases ho : secretToCluster codec oldSecret with
  | error x =>
    refine hh (shown_of_error ho) (Option.eq_none_iff_forall_ne_some.2 fun d hd => ?_)
    obtain ⟨c, hc⟩ := hr.repaired d hd
    cases ho.symm.trans hc
  | ok c =>
    cases hne : secretToCluster codec s with
    | error x =>
      refine hh (Option.eq_none_iff_forall_ne_some.2 fun d hd => ?_) (shown_of_error hne)
      obtain ⟨c', hc'⟩ := hr.broken d hd
      cases hne.symm.trans hc'
    | ok c' =>
      have hsh := shown_eq_some.2 ⟨hne, hr.ignored c c' ho hne⟩
      refine ⟨h.shows_modify hn ho hsh (hr.replaced c c' ho hne) hdi, ?_, hdi⟩
      change (if c'.server = kubernetesInternalAPIServerAddr then c' else w.localCls).server = _
      split_ifs with hl
      · exact hl
      · exact h.localServer

omit h hn in
theorem trimRightSlash_idem (server : String) : trimRightSlash (trimRightSlash server) = trimRightSlash server := by
  unfold trimRightSlash
  rw [String.toList_ofList, rdropWhile_idempotent]

/-- a server as it is written is not the server of another secret, also if it is written with slashes -/
theorem shown_of_present_text (hp : Present codec enabled w.secrets (oldSecret.text "server") c) :
    shown codec enabled oldSecret = some c := by
  obtain ⟨m, t, hm, ht, hs⟩ := hp
  have hst : t.server = oldSecret.server := by
    calc t.server = c.server := (server_of_shown ht).symm
      _ = trimRightSlash c.server := by rw [server_of_shown ht]; exact (trimRightSlash_idem _).symm
      _ = oldSecret.server := by rw [hs]; rfl
  cases h.distinct m n t oldSecret hm hn hst
  cases hm.symm.trans hn
  exact ht

/-- the callback for the local cluster puts the default one in the map -/
theorem shows_default (hse : oldSecret.text "server" = kubernetesInternalAPIServerAddr) (he : enabled = true) :
    Shows codec enabled fallback (update w.secrets n none)
      (update w.clusters kubernetesInternalAPIServerAddr (some fallback)) := by
  cases hs : shown codec enabled oldSecret with
  | some c =>
    have hl : c.server = kubernetesInternalAPIServerAddr := by
      rw [server_of_shown hs, ClusterSecret.server, hse]
      rfl
    have hr := h.shows.remove hn hs h.distinct
    rwa [if_pos hl, hl] at hr
  | none =>
    -- no other secret is for the local cluster, so the default one is in the map already
    have hd : w.clusters kubernetesInternalAPIServerAddr = some fallback := by
      refine (h.shows _ _).2 (.inr ⟨rfl, he, rfl, fun c hc => ?_⟩)
      rw [← hse] at hc
      cases hs.symm.trans (h.shown_of_present_text hn hc)
    rw [← hd, update_eq_self]
    exact h.shows.hidden (by simp [hn, hs]) rfl

/-- the callback for another server removes it -/
theorem shows_removed (hr : ∀ c, shown codec enabled oldSecret = some c → oldSecret.text "server" = oldSecret.server)
    (hse : oldSecret.text "server" = kubernetesInternalAPIServerAddr → enabled = false) :
    Shows codec enabled fallback (update w.secrets n none) (update w.clusters (oldSecret.text "server") none) := by
  cases hs : shown codec enabled oldSecret with
  | some c =>
    have ht : oldSecret.text "server" = c.server := (hr c hs).trans (server_of_shown hs).symm
    have hre : c.server ≠ kubernetesInternalAPIServerAddr := by
      intro hl
      cases ((shown_eq_some.1 hs).2 hl).symm.trans (hse (ht.trans hl))
    have hrem := h.shows.remove hn hs h.distinct
    rwa [if_neg hre, ← ht] at hrem
  | none =>
    refine Shows.hidden (h.shows.clear ?_) (by simp [hn, hs]) rfl
    rintro c (hc | ⟨hl, he, -⟩)
    · cases hs.symm.trans (h.shown_of_present_text hn hc)
    · cases he.symm.trans (hse hl)

end Changes

theorem delete (h : Tracks codec enabled (getLocalCluster codec) w) (hn : w.secrets n = some s)
    (hr : ∀ c, shown codec enabled s = some c → s.text "server" = s.server)
    (hd : Distinct (update w.secrets n none)) : Tracks codec enabled (getLocalCluster codec)
      (w.handle n none (onDelete codec enabled w.localCls s)) := by
  unfold onDelete
  split_ifs with hl
  · obtain ⟨hs, he⟩ : s.text "server" = kubernetesInternalAPIServerAddr ∧ enabled = true := by
      simpa using hl
    refine ⟨?_, rfl, hd⟩
    change Shows codec enabled _ (update w.secrets n none) (update
      (update w.clusters w.localCls.server none) kubernetesInternalAPIServerAddr (some (getLocalCluster codec)))
    rw [h.localServer, update_idem]
    exact h.shows_default hn hs he
  · refine ⟨h.shows_removed hn hr fun hs => ?_, h.localServer, hd⟩
    simpa [hs] using hl

end Tracks

/-! ## Runs -/

namespace WatchState

/-- the events after which the map is still faithful -/
def Regular (w : WatchState Config Time) : SecretEvent → Prop
  | .add _ => True
  | .update s => ∀ oldSecret, w.secrets s.name = some oldSecret → RegularUpdate codec inClusterEnabled oldSecret s
  | .delete n => ∀ s c, w.secrets n = some s → shown codec inClusterEnabled s = some c → s.text "server" = s.server

variable {codec} {enabled : Bool} {fallback : Cluster Config Time} {w : WatchState Config Time}

theorem tracks_step (h : Tracks codec enabled (getLocalCluster codec) w) (e : SecretEvent)
    (hd : Distinct (w.step codec enabled e).secrets) (hr : w.Regular codec enabled e) :
    Tracks codec enabled (getLocalCluster codec) (w.step codec enabled e) := by
  cases e with
  | add s =>
    dsimp only [step] at hd ⊢
    split
    · next hn => exact h.add hn (by rwa [hn] at hd)
    · exact h
  | update s =>
    dsimp only [step] at hd ⊢
    split
    · exact h
    · next oldSecret hn => exact h.change hn (hr oldSecret hn) (by rwa [hn] at hd)
  | delete n =>
    dsimp only [step] at hd ⊢
    split
    · exact h
    · next s hn => exact h.delete hn (fun c => hr s c hn) (by rwa [hn] at hd)

/-! ### The start -/

/-- secrets with names and servers of their own -/
def Separate (secrets : List ClusterSecret) : Prop :=
  secrets.Pairwise fun s t => s.name ≠ t.name ∧ s.server ≠ t.server

theorem distinct_insert {secrets : String → Option ClusterSecret} {s : ClusterSecret} (h : Distinct secrets)
    (hf : ∀ n t, secrets n = some t → t.server ≠ s.server) : Distinct (update secrets s.name (some s)) := by
  intro n m t u ht hu hs
  rcases eq_or_ne n s.name with rfl | hn
  · rcases eq_or_ne m s.name with rfl | hm
    · rfl
    · rw [update_self] at ht
      rw [update_of_ne hm] at hu
      cases ht
      exact absurd hs.symm (hf m u hu)
  · rw [update_of_ne hn] at ht
    rcases eq_or_ne m s.name with rfl | hm
    · rw [update_self] at hu
      cases hu
      exact absurd hs (hf n t ht)
    · rw [update_of_ne hm] at hu
      exact h n m t u ht hu hs

/-- the additions of the secrets the watch found keep the map faithful, and the secrets are there afterwards -/
theorem tracks_additions (l : List ClusterSecret) (h : Tracks codec enabled fallback w) (hl : Separate l)
    (hf : ∀ s ∈ l, ∀ n t, w.secrets n = some t → n ≠ s.name ∧ t.server ≠ s.server) :
    Tracks codec enabled fallback ((l.map SecretEvent.add).foldl (step codec enabled) w) ∧
      (∀ n t, w.secrets n = some t → ((l.map SecretEvent.add).foldl (step codec enabled) w).secrets n = some t) ∧
      ∀ s ∈ l, ((l.map SecretEvent.add).foldl (step codec enabled) w).secrets s.name = some s := by
  induction l generalizing w with
  | nil => exact ⟨h, fun _ _ ht => ht, nofun⟩
  | cons s l ih =>
    obtain ⟨hs, hl⟩ := pairwise_cons.1 hl
    have hn : w.secrets s.name = none := by
      refine Option.eq_none_iff_forall_ne_some.2 fun t ht => ?_
      exact (hf s mem_cons_self s.name t ht).1 rfl
    have hst : w.step codec enabled (.add s) =
        w.handle s.name (some s) (onAdd codec enabled w.localCls s) := by
      dsimp only [step]
      rw [hn]
    rw [map_cons, foldl_cons, hst]
    have ha := h.add hn (distinct_insert h.distinct fun n t ht => (hf s mem_cons_self n t ht).2)
    have hse : update w.secrets s.name (some s) s.name = some s := update_self _ _ _
    have hk : ∀ n t, w.secrets n = some t → update w.secrets s.name (some s) n = some t := by
      intro n t ht
      rw [update_of_ne (hf s mem_cons_self n t ht).1, ht]
    obtain ⟨htr, ho, hnew⟩ := ih ha hl fun u hu n t ht => by
      rcases eq_or_ne n s.name with rfl | hne
      · cases hse.symm.trans ht
        exact hs u hu
      · exact hf u (mem_cons_of_mem _ hu) n t ((update_of_ne hne _ _).symm.trans ht)
    refine ⟨htr, fun n t ht => ho n t (hk n t ht), fun u hu => ?_⟩
    rcases mem_cons.1 hu with rfl | hu
    · exact ho u.name u hse
    · exact hnew u hu

/-- the local cluster the watch starts with is that of a secret, or the default one -/
theorem getInCluster_cases (initial : List ClusterSecret) :
    (∃ s ∈ initial, secretToCluster codec s = .ok (getInCluster codec initial) ∧
      (getInCluster codec initial).server = kubernetesInternalAPIServerAddr) ∨
      getInCluster codec initial = getLocalCluster codec := by
  unfold getInCluster
  cases hf : getClusterByURL codec initial kubernetesInternalAPIServerAddr with
  | none => exact .inr rfl
  | some c =>
    refine .inl ?_
    obtain ⟨s, hs, hr⟩ := mem_filterMap.1 (List.mem_of_find?_eq_some hf)
    have hse : c.server = trimRightSlash kubernetesInternalAPIServerAddr := by
      simpa using List.find?_some hf
    exact ⟨s, hs, Fallible.toOption_eq_some.1 hr, hse.trans rfl⟩

theorem tracks_watchClusters (initial : List ClusterSecret) :
    Tracks codec enabled (getInCluster codec initial) (watchClusters codec enabled initial) := by
  have hl : (getInCluster codec initial).server = kubernetesInternalAPIServerAddr := by
    rcases getInCluster_cases initial with ⟨s, -, -, hs⟩ | hd
    · exact hs
    · rw [hd]
      rfl
  have hp : ∀ server c, ¬Present codec enabled (fun _ => none) server c := by
    rintro server c ⟨n, s, hn, -⟩
    cases hn
  unfold watchClusters
  split_ifs with he
  · refine ⟨fun server c => ?_, hl, nofun⟩
    rw [Listed, or_iff_right (hp server c), Callback.apply, hl]
    dsimp only
    rcases eq_or_ne server kubernetesInternalAPIServerAddr with rfl | hs
    · rw [update_self, Option.some.injEq]
      exact ⟨fun h => ⟨rfl, he, h.symm, hp _⟩, fun h => h.2.2.1.symm⟩
    · rw [update_of_ne hs]
      exact ⟨nofun, fun h => absurd h.1 hs⟩
  · refine ⟨fun server c => ⟨nofun, ?_⟩, rfl, nofun⟩
    rintro (h | ⟨-, h, -⟩)
    · exact absurd h (hp server c)
    · exact absurd h he

theorem tracks_started {initial : List ClusterSecret} (h : Separate initial) :
    Tracks codec enabled (getLocalCluster codec) (started codec enabled initial) := by
  have hem : ∀ n, (watchClusters codec enabled initial).secrets n = none := by
    intro n
    unfold watchClusters
    split_ifs <;> rfl
  have hb : Tracks codec enabled (getInCluster codec initial) (watchClusters codec enabled initial) :=
    tracks_watchClusters initial
  obtain ⟨htr, -, hth⟩ := tracks_additions initial hb h
    (fun s _ n t ht => nomatch (hem n).symm.trans ht)
  refine ⟨fun server c => ?_, htr.localServer, htr.distinct⟩
  rw [started, htr.shows server c]
  refine or_congr_right (and_congr_right fun _ => and_congr_right fun he => and_congr_left fun hno => ?_)
  -- no secret is for the local cluster, so the watch started with the default one
  rcases getInCluster_cases initial with ⟨s, hs, hr, hse⟩ | hd
  · exact absurd ⟨s.name, s, hth s hs, shown_eq_some.2 ⟨hr, fun _ => he⟩, hse⟩ (hno _)
  · rw [hd]

/-- **The cluster watch is faithful.** From secrets with servers of their own, and as long as no two secrets have one
server and the events are regular, the consumer's map has exactly the clusters of the secrets that can be read and, with
in-cluster enabled, the local cluster. -/
theorem watch_faithful (codec : ClusterCodec Config Time) (inClusterEnabled : Bool) (initial : List ClusterSecret)
    (hinitial : Separate initial) {w : WatchState Config Time}
    (hrun : Trace.Reach (fun e w => step codec inClusterEnabled w e)
      (fun w e => Distinct (step codec inClusterEnabled w e).secrets ∧ Regular codec inClusterEnabled w e)
      (started codec inClusterEnabled initial) w) :
    Shows codec inClusterEnabled (getLocalCluster codec) w.secrets w.clusters := by
  have htr := hrun.inv (Tracks codec inClusterEnabled (getLocalCluster codec)) (tracks_started hinitial)
    fun t e ht he => tracks_step ht e he.1 he.2
  exact htr.shows

/-! ### Runs with one secret -/

def exampleCodec : ClusterCodec Unit Unit where
  emptyConfig := ()
  unmarshal text := if text = "broken" then .error "unexpected end of JSON input" else .ok ()
  parseTime _ := none

def exampleSecret (server config : String) : ClusterSecret where
  name := "cluster"
  uid := "1"
  data := (Finmap.singleton "server" server).insert "config" config
  labels := ∅
  annotations := ∅

def secretName : SecretEvent → String
  | .add s => s.name
  | .update s => s.name
  | .delete n => n

theorem secrets_step_of_ne {e : SecretEvent} {n : String} (h : n ≠ secretName e) :
    (w.step codec enabled e).secrets n = w.secrets n := by
  cases e with
  | add s =>
    dsimp only [step]
    split
    · exact update_of_ne h _ _
    · rfl
  | update s =>
    dsimp only [step]
    split
    · rfl
    · exact update_of_ne h _ _
  | delete m =>
    dsimp only [step]
    split
    · rfl
    · exact update_of_ne h _ _

/-- only the one secret is there -/
def Alone (w : WatchState Config Time) : Prop := ∀ n, n ≠ "cluster" → w.secrets n = none

theorem Alone.step (h : w.Alone) {e : SecretEvent} (he : secretName e = "cluster") :
    (w.step codec enabled e).Alone := by
  intro n hn
  rw [secrets_step_of_ne (he.symm ▸ hn), h n hn]

theorem Alone.distinct (h : w.Alone) : Distinct w.secrets := by
  have hna : ∀ n t, w.secrets n = some t → n = "cluster" := by
    intro n t ht
    by_contra hn
    cases (h n hn).symm.trans ht
  intro n m t u ht hu _
  rw [hna n t ht, hna m u hu]

/-- the watch starts with the secret and sees the events -/
def run (inClusterEnabled : Bool) (s : ClusterSecret) (events : List SecretEvent) : WatchState Unit Unit :=
  events.foldl (step exampleCodec inClusterEnabled) (started exampleCodec inClusterEnabled [s])

variable {s : ClusterSecret} {events : List SecretEvent} {server : String}

theorem alone_started (enabled : Bool) (hs : s.name = "cluster") : (started exampleCodec enabled [s]).Alone := by
  have he : (watchClusters exampleCodec enabled [s]).Alone := by
    intro n _
    unfold watchClusters
    split_ifs <;> rfl
  exact he.step (e := .add s) hs

theorem alone_run (enabled : Bool) (hs : s.name = "cluster") (h : ∀ e ∈ events, secretName e = "cluster") :
    (run enabled s events).Alone :=
  List.foldlRecOn events _ (motive := Alone) (alone_started enabled hs) fun _ hw e he => hw.step (h e he)

/-- no two secrets ever have one server, and the map ends up unfaithful -/
def Deviates (inClusterEnabled : Bool) (s : ClusterSecret) (events : List SecretEvent) : Prop :=
  (∀ k, Distinct (run inClusterEnabled s (events.take k)).secrets) ∧
    ¬Shows exampleCodec inClusterEnabled (getLocalCluster exampleCodec) (run inClusterEnabled s events).secrets
      (run inClusterEnabled s events).clusters

theorem distinct_run (enabled : Bool) (hs : s.name = "cluster") (h : ∀ e ∈ events, secretName e = "cluster")
    (k : ℕ) : Distinct (run enabled s (events.take k)).secrets :=
  (alone_run enabled hs fun e he => h e (List.mem_of_mem_take he)).distinct

section Deviations

variable (key : String) (hs : s.name = "cluster") (hev : ∀ e ∈ events, secretName e = "cluster")

include hs hev

/-- a cluster is in the map that no secret shows -/
theorem deviates_stale (hk : key = kubernetesInternalAPIServerAddr → enabled = false)
    (hsh : (((run enabled s events).secrets "cluster").bind (shown exampleCodec enabled)).isNone)
    (hm : ((run enabled s events).clusters key).isSome) : Deviates enabled s events := by
  refine ⟨distinct_run enabled hs hev, fun hsho => ?_⟩
  obtain ⟨c, hc⟩ := Option.isSome_iff_exists.1 hm
  rcases (hsho key c).1 hc with ⟨n, t, hn, ht, -⟩ | ⟨hl, hen, -⟩
  · rcases eq_or_ne n "cluster" with rfl | hne
    · rw [hn, Option.bind_some, ht] at hsh
      cases hsh
    · cases (alone_run enabled hs hev n hne).symm.trans hn
  · cases hen.symm.trans (hk hl)

/-- a cluster is not in the map that the secret shows, or the local one -/
theorem deviates_missing (hl : key = kubernetesInternalAPIServerAddr ∧ enabled = true ∨
      (((run enabled s events).secrets "cluster").bind (shown exampleCodec enabled)).map Cluster.server = some key)
    (hm : ((run enabled s events).clusters key).isNone) : Deviates enabled s events := by
  refine ⟨distinct_run enabled hs hev, fun hsh => ?_⟩
  have hso : ∃ c, Listed exampleCodec enabled (getLocalCluster exampleCodec)
      (run enabled s events).secrets key c := by
    rcases hl with ⟨hlo, he⟩ | hsho
    · subst hlo
      rcases Classical.em (∃ c, Present exampleCodec enabled (run enabled s events).secrets
        kubernetesInternalAPIServerAddr c) with ⟨c, hc⟩ | hno
      · exact ⟨c, .inl hc⟩
      · exact ⟨_, .inr ⟨rfl, he, rfl, fun c hc => hno ⟨c, hc⟩⟩⟩
    · obtain ⟨c, hc, hse⟩ := Option.map_eq_some_iff.1 hsho
      obtain ⟨t, ht, hc⟩ := Option.bind_eq_some_iff.1 hc
      exact ⟨c, .inl ⟨_, t, ht, hc, hse⟩⟩
  obtain ⟨c, hc⟩ := hso
  rw [(hsh key c).2 hc] at hm
  cases hm

end Deviations

/-- **The cluster watch is not faithful.** A secret whose server is written with a slash is deleted and its cluster
stays; a secret is broken and its cluster stays; a broken secret is repaired and its cluster does not appear; with
in-cluster disabled, an update of a secret for the local cluster adds it; a secret for the local cluster gets another
server and the local cluster is gone. -/
theorem watch_unfaithful :
    Deviates true (exampleSecret "https://a/" "") [.delete "cluster"] ∧
      Deviates true (exampleSecret "https://a" "") [.update (exampleSecret "https://a" "broken")] ∧
      Deviates true (exampleSecret "https://a" "broken") [.update (exampleSecret "https://a" "")] ∧
      Deviates false (exampleSecret kubernetesInternalAPIServerAddr "")
        [.update (exampleSecret kubernetesInternalAPIServerAddr "")] ∧
      Deviates true (exampleSecret kubernetesInternalAPIServerAddr "") [.update (exampleSecret "https://a" "")] := by
  refine ⟨?_, ?_, ?_, ?_, ?_⟩
  · exact deviates_stale "https://a" rfl (by simp [secretName]) (by decide) (by decide +kernel)
      (by decide +kernel)
  · exact deviates_stale "https://a" rfl (by simp [secretName, exampleSecret]) (by decide) (by decide +kernel)
      (by decide +kernel)
  · exact deviates_missing "https://a" rfl (by simp [secretName, exampleSecret]) (.inr (by decide +kernel))
      (by decide +kernel)
  · exact deviates_stale kubernetesInternalAPIServerAddr rfl (by simp [secretName, exampleSecret]) (fun _ => rfl)
      (by decide +kernel) (by decide +kernel)
  · exact deviates_missing kubernetesInternalAPIServerAddr rfl (by simp [secretName, exampleSecret])
      (.inl ⟨rfl, rfl⟩) (by decide +kernel)

theorem read_example {c : Cluster Unit Unit} :
    secretToCluster exampleCodec (exampleSecret server "") = .ok c → c.server = trimRightSlash server := by
  intro h
  rw [server_of_read h]
  rfl

/-- a secret gets another server and goes -/
theorem watch_faithful_moved :
    Shows exampleCodec true (getLocalCluster exampleCodec)
      (run true (exampleSecret "https://a" "") [.update (exampleSecret "https://b" ""), .delete "cluster"]).secrets
      (run true (exampleSecret "https://a" "") [.update (exampleSecret "https://b" ""), .delete "cluster"]).clusters := by
  have hst : (started exampleCodec true [exampleSecret "https://a" ""]).secrets "cluster" =
      some (exampleSecret "https://a" "") := rfl
  have hu : (run true (exampleSecret "https://a" "") [.update (exampleSecret "https://b" "")]).secrets "cluster" =
      some (exampleSecret "https://b" "") := rfl
  refine watch_faithful exampleCodec true [exampleSecret "https://a" ""] (pairwise_singleton _ _) ?_
  refine Trace.Reach.tail (SecretEvent.delete "cluster")
    (Trace.Reach.act (SecretEvent.update (exampleSecret "https://b" "")) (And.intro ?_ ?_)) (And.intro ?_ ?_)
  · exact ((alone_started true rfl).step rfl).distinct
  · intro oldSecret ho
    cases hst.symm.trans ho
    refine ⟨fun _ _ => ⟨_, rfl⟩, fun _ _ => ⟨_, rfl⟩, fun _ _ _ _ _ => rfl, fun c _ hc _ hl _ => ?_⟩
    rw [read_example hc] at hl
    exact absurd hl (by decide)
  · exact (((alone_started true rfl).step rfl).step rfl).distinct
  · intro s c hs _
    cases hu.symm.trans hs
    decide +kernel

end WatchState

end GitOpsDeploy.Database

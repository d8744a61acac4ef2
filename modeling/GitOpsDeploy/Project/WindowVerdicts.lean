/-
When sync windows let an application be synced (`SyncWindows.CanSync` in `pkg/apis/application/v1alpha1/types.go`).

A window of kind "allow" or "deny" opens by a cron schedule, in a time zone, for a duration. The cron library, the durations
and the time zones are parameters (`Calendar`). Two instants matter: the one at which windows are judged, and the one on the
clock, from which the offset of the time zone is taken. The clock stands still during a call.

- `judged_by_instant_iff`: when the clock does not matter; `judged_by_clock`: a window in a zone that changes its offset.
- `judge_eq`: the verdict as a function of the windows that are active.
- `deny_and_overrun_iff`: when a deny window only restricts, and when an overrun continues; `deny_opens`: a deny window
  that allows manual syncs, beside an allow window that does not.
-/
import GitOpsDeploy.Core.Fallible
import GitOpsDeploy.Project.SyncWindows

namespace GitOpsDeploy.SyncWindows

open List

/-! ## Model -/

/-- instants and durations, in nanoseconds -/
abbrev Time := ℤ

structure Calendar where
  /-- the next time at which a schedule starts a window -/
  parseSchedule : String → Except String (Time → Time)
  parseDuration : String → Except String Time
  /-- the offset of a time zone in seconds, at an instant -/
  loadLocation : String → Option (Time → ℤ)

variable (cal : Calendar) (clock : Time) (w : SyncWindow) (ws : List SyncWindow)

/-- a time zone that cannot be loaded is UTC -/
def scheduleOffsetByTimeZone : Time :=
  match cal.loadLocation w.timeZone with
  | some zone => zone clock * 10 ^ 9
  | none => 0

def SyncWindow.active (currentTime : Time) : Except String Bool := do
  let schedule ← (cal.parseSchedule w.schedule).mapError fun err =>
    "cannot parse schedule '" ++ w.schedule ++ "': " ++ err
  let duration ← (cal.parseDuration w.duration).mapError fun err =>
    "cannot parse duration '" ++ w.duration ++ "': " ++ err
  let offset := scheduleOffsetByTimeZone cal clock w
  return decide (schedule (currentTime + (offset - duration)) < currentTime + offset)

/-- a loop that collects windows until one fails; nil and an empty list are one -/
def collect (p : SyncWindow → Except String Bool) : List SyncWindow → Except String (List SyncWindow)
  | [] => .ok []
  | w :: later => do
    let keep ← p w
    let rest ← collect p later
    return if keep then w :: rest else rest

def active (currentTime : Time) : Except String (List SyncWindow) := collect (fun w => w.active cal clock currentTime) ws

def inactiveAllows (currentTime : Time) : Except String (List SyncWindow) :=
  collect (fun w => if w.kind ≠ "allow" then .ok false else (w.active cal clock currentTime).map not) ws

def denyFound (found : Bool × Bool) (a : SyncWindow) : Bool × Bool :=
  if a.kind = "deny" then (true, if !found.1 then a.manualSync else if found.2 then a.manualSync else found.2)
  else found

/-- whether there is a deny window, and whether all of them allow manual syncs -/
def hasDeny : Bool × Bool := ws.foldl denyFound (false, false)

def hasAllow : Bool := ws.any fun a => a.kind = "allow"

def manualEnabled : Bool := ws ≠ [] && ws.all SyncWindow.manualSync

/-- there are windows of the kind, and all of them allow overruns -/
def allowsOverrun (kind : String) : Bool :=
  ws.any (fun s => s.kind = kind) && ws.all fun s => s.kind ≠ kind || s.syncOverrun

def denyAllowsOverrun : Bool := allowsOverrun ws "deny"

def inactiveAllowsAllowOverrun : Bool := allowsOverrun ws "allow"

/-- the common part of `CanSync` and `canSyncAtTime`; `overrun` decides where windows prevent the sync, and whether these
windows all allow overruns -/
def judge (isManual : Bool) (t : Time) (overrun : Bool → Except String Bool) : Except String Bool :=
  if ws = [] then .ok true
  else do
    let active ← (active cal clock ws t).mapError ("invalid sync windows: " ++ ·)
    if (hasDeny active).1 then
      if isManual && (hasDeny active).2 then return true else overrun (denyAllowsOverrun active)
    else if hasAllow active then return true
    else
      let inactive ← (inactiveAllows cal clock ws t).mapError ("invalid sync windows: " ++ ·)
      if inactive = [] || isManual && manualEnabled inactive then return true
      else overrun (inactiveAllowsAllowOverrun inactive)

def canSyncAtTime (isManual : Bool) (checkTime : Time) : Except String Bool :=
  judge cal clock ws isManual checkTime fun _ => .ok false

/-- `time.Time{}`, which is no start time -/
def zeroTime : Time := -62135596800 * 10 ^ 9

def canSync (isManual : Bool) (operationStartTime : Option Time) : Except String Bool :=
  judge cal clock ws isManual clock fun allowed =>
    match operationStartTime with
    | some start => if start ≠ zeroTime ∧ allowed then canSyncAtTime cal clock ws isManual start else .ok false
    | none => .ok false

/-! ## The windows that are active -/

def Parses : Prop :=
  (∃ schedule, cal.parseSchedule w.schedule = .ok schedule) ∧ ∃ duration, cal.parseDuration w.duration = .ok duration

def isActive (t : Time) : Bool := w.active cal clock t = .ok true

section Lists

variable {cal clock w ws} {t : Time} {p p' : SyncWindow → Except String Bool} {q : SyncWindow → Bool}

theorem active_of_parses (h : Parses cal w) : w.active cal clock t = .ok (isActive cal clock w t) := by
  obtain ⟨⟨schedule, hs⟩, duration, hd⟩ := h
  simp [isActive, SyncWindow.active, hs, hd, Except.mapError, bind, Except.bind, pure, Except.pure]

theorem active_of_not_parses (h : ¬Parses cal w) : ∃ err, ∀ clock t, w.active cal clock t = .error err := by
  unfold Parses at h
  unfold SyncWindow.active
  cases hs : cal.parseSchedule w.schedule with
  | error err => exact ⟨_, fun _ _ => rfl⟩
  | ok schedule =>
    cases hd : cal.parseDuration w.duration with
    | error err => exact ⟨_, fun _ _ => rfl⟩
    | ok duration => exact absurd ⟨⟨schedule, hs⟩, duration, hd⟩ h

theorem collect_eq_filter (h : ∀ w ∈ ws, p w = .ok (q w)) : collect p ws = .ok (ws.filter q) := by
  induction ws with
  | nil => rfl
  | cons w later ih =>
    obtain ⟨hw, hl⟩ := forall_mem_cons.1 h
    simp only [collect, hw, ih hl, bind, Except.bind, pure, Except.pure, filter_cons]

/-- the first window that fails decides, whatever the others are -/
theorem collect_eq_error (hw : ∃ w ∈ ws, ∃ err, p w = .error err)
    (h : ∀ w ∈ ws, ∀ err, p w = .error err ↔ p' w = .error err) :
    ∃ err, collect p ws = .error err ∧ collect p' ws = .error err := by
  induction ws with
  | nil => simp at hw
  | cons w later ih =>
    obtain ⟨hh, hl⟩ := forall_mem_cons.1 h
    simp only [collect]
    cases hp : p w with
    | error err => exact ⟨err, rfl, by rw [(hh err).1 hp]; rfl⟩
    | ok keep =>
      cases hp' : p' w with
      | error err => rw [(hh err).2 hp'] at hp; cases hp
      | ok keep' =>
        obtain ⟨v, hv, hve⟩ := hw
        rcases mem_cons.1 hv with rfl | hv
        · rw [hp] at hve; obtain ⟨_, hve⟩ := hve; cases hve
        · obtain ⟨err, he, he'⟩ := ih ⟨v, hv, hve⟩ hl
          exact ⟨err, by rw [he]; rfl, by rw [he']; rfl⟩

end Lists

section Clocks

variable {ws} {p : Time → SyncWindow → Except String Bool} {q : Time → SyncWindow → Bool} {P : SyncWindow → Prop}

/-- a loop does not depend on the clock iff a window fails, or no window does -/
theorem collect_const_iff (hok : ∀ w, P w → ∀ c, p c w = .ok (q c w))
    (her : ∀ w, ¬P w → ∃ err, ∀ c, p c w = .error err) :
    (∀ c c', collect (p c) ws = collect (p c') ws) ↔
      ((∀ w ∈ ws, P w) → ∀ w ∈ ws, ∀ c c', q c w = q c' w) := by
  by_cases hall : ∀ w ∈ ws, P w
  · have hf := fun c => collect_eq_filter fun w hw => hok w (hall w hw) c
    simp only [hf, Except.ok.injEq, eq_true hall, true_implies]
    constructor
    · intro h w hw c c'
      have hm : w ∈ ws.filter (q c) ↔ w ∈ ws.filter (q c') := by rw [h c c']
      simpa [hw, ← Bool.eq_iff_iff] using hm
    · exact fun h c c' => filter_congr fun w hw => h w hw c c'
  · refine iff_of_true (fun c c' => ?_) fun h => absurd h hall
    push Not at hall
    obtain ⟨w, hw, hn⟩ := hall
    obtain ⟨err, he⟩ := her w hn
    have hag : ∀ v ∈ ws, ∀ e, p c v = .error e ↔ p c' v = .error e := by
      intro v _ e
      by_cases hv : P v
      · simp [hok v hv]
      · obtain ⟨e', hv⟩ := her v hv
        rw [hv, hv]
    obtain ⟨e, h, h'⟩ := collect_eq_error ⟨w, hw, err, he c⟩ hag
    rw [h, h']

end Clocks

/-! ## The clock -/

variable (t : Time)

/-- no wall clock time at which they are judged changes the verdict on the instant -/
structure ByInstant : Prop where
  active : ∀ c c', active cal c ws t = active cal c' ws t
  inactiveAllows : ∀ c c', inactiveAllows cal c ws t = inactiveAllows cal c' ws t
  canSync : ∀ isManual c c', canSyncAtTime cal c ws isManual t = canSyncAtTime cal c' ws isManual t

/-- with all offsets that its time zone ever has, or with none, the window starts within its duration before the instant -/
def Steady : Prop :=
  ∀ schedule duration zone, cal.parseSchedule w.schedule = .ok schedule → cal.parseDuration w.duration = .ok duration →
    cal.loadLocation w.timeZone = some zone → ∀ c c',
      (schedule (t + (zone c * 10 ^ 9 - duration)) < t + zone c * 10 ^ 9 ↔
        schedule (t + (zone c' * 10 ^ 9 - duration)) < t + zone c' * 10 ^ 9)

theorem steady_iff {cal : Calendar} {w : SyncWindow} (h : Parses cal w) :
    Steady cal w t ↔ ∀ c c', isActive cal c w t = isActive cal c' w t := by
  obtain ⟨⟨schedule, hs⟩, duration, hd⟩ := h
  cases hz : cal.loadLocation w.timeZone with
  | none => simp [Steady, isActive, SyncWindow.active, scheduleOffsetByTimeZone, hz]
  | some zone =>
    simp [Steady, isActive, SyncWindow.active, scheduleOffsetByTimeZone, hz, hs, hd, Except.mapError, bind, Except.bind,
      pure, Except.pure]

/-- windows open at midnight, for an hour or ten minutes; their time zone is an hour ahead from some instant on -/
def hourAhead : Calendar where
  parseSchedule _ := .ok fun t => (t / (24 * 3600 * 10 ^ 9) + 1) * (24 * 3600 * 10 ^ 9)
  parseDuration text := .ok (if text = "1h" then 3600 * 10 ^ 9 else 600 * 10 ^ 9)
  loadLocation _ := some fun t => if t < 0 then 0 else 3600

def window (kind : String) (manualSync : Bool) : SyncWindow :=
  ⟨kind, "0 0 * * *", "1h", ["*"], [], [], manualSync, "Europe/Berlin", false, true⟩

/-- half an hour after midnight, on the day before the offset changes -/
def halfPast : Time := -(24 * 3600 * 10 ^ 9) + 1800 * 10 ^ 9

section Verdict

variable (ws : List SyncWindow) (isManual : Bool) (a : SyncWindow → Bool)

/-- whether a sync may start, where the active windows are known: the active deny windows leave it, or there is none and an
allow window is active or no inactive one keeps it back -/
def verdict : Bool :=
  if ws.any fun w => a w && w.kind = "deny" then isManual && ws.all fun w => !a w || w.kind ≠ "deny" || w.manualSync
  else ws.any (fun w => a w && w.kind = "allow") || ws.all fun w => w.kind ≠ "allow" || a w || isManual && w.manualSync

theorem hasDeny_eq : hasDeny ws = (ws.any fun w => w.kind = "deny",
    (ws.any fun w => w.kind = "deny") && ws.all fun w => w.kind ≠ "deny" || w.manualSync) := by
  have h : ∀ (l : List SyncWindow) (m : Bool), l.foldl denyFound (true, m) =
      (true, m && l.all fun w => w.kind ≠ "deny" || w.manualSync) := by
    intro l
    induction l with
    | nil => simp
    | cons w l ih =>
      intro m
      by_cases hk : w.kind = "deny" <;> cases m <;> simp [denyFound, hk, ih]
  unfold hasDeny
  induction ws with
  | nil => rfl
  | cons w later ih => by_cases hk : w.kind = "deny" <;> simp [denyFound, hk, h, ih]

/-- as the code computes it -/
theorem verdict_eq : verdict ws isManual a = if (hasDeny (ws.filter a)).1 then isManual && (hasDeny (ws.filter a)).2
    else hasAllow (ws.filter a) || ((ws.filter fun w => w.kind = "allow" && !a w) = [] ||
      isManual && manualEnabled (ws.filter fun w => w.kind = "allow" && !a w)) := by
  rw [verdict, hasDeny_eq]
  simp only [any_filter, all_filter, hasAllow, manualEnabled]
  split_ifs with hd
  · simp [hd, Bool.or_assoc]
  · congr 1
    rw [Bool.eq_iff_iff]
    cases isManual <;> simp [filter_eq_nil_iff] <;> grind

theorem allowsOverrun_of_all {kind : String} (h : ∀ w ∈ ws, w.syncOverrun = true) (he : ∃ w ∈ ws, w.kind = kind) :
    allowsOverrun ws kind = true := by
  simpa [allowsOverrun] using ⟨he, fun w hw => .inr (h w hw)⟩

end Verdict

variable {cal : Calendar} {clock t : Time} {ws : List SyncWindow} (isManual : Bool)

/-- a sync that may not start can overrun, if all windows allow it -/
theorem judge_eq (h : ∀ w ∈ ws, Parses cal w) (overrun : Bool → Except String Bool) :
    ∃ allowed, ((∀ w ∈ ws, w.syncOverrun = true) → allowed = true) ∧ judge cal clock ws isManual t overrun =
      if verdict ws isManual (fun w => isActive cal clock w t) then .ok true else overrun allowed := by
  obtain ⟨a, ha⟩ : ∃ a : SyncWindow → Bool, ∀ w, isActive cal clock w t = a w := ⟨_, fun _ => rfl⟩
  have hac : active cal clock ws t = .ok (ws.filter a) :=
    collect_eq_filter fun w hw => (active_of_parses (h w hw)).trans (by rw [ha])
  have hin : inactiveAllows cal clock ws t = .ok (ws.filter fun w => w.kind = "allow" && !a w) := by
    refine collect_eq_filter fun w hw => ?_
    by_cases hk : w.kind = "allow" <;> simp [hk, active_of_parses (h w hw), Except.map, ha]
  by_cases hw : ws = []
  · subst hw
    exact ⟨true, fun _ => rfl, rfl⟩
  simp only [judge, verdict_eq, if_neg hw, hac, hin, ha, Except.mapError, bind, Except.bind, pure, Except.pure]
  by_cases hd : (hasDeny (ws.filter a)).1 = true
  · refine ⟨_, fun ho => ?_, by rw [if_pos hd, if_pos hd]⟩
    rw [hasDeny_eq] at hd
    exact allowsOverrun_of_all _ (fun w hw => ho w (mem_of_mem_filter hw)) (by simpa [and_assoc] using hd)
  · by_cases hal : hasAllow (ws.filter a) = true
    · exact ⟨true, fun _ => rfl, by simp [hd, hal]⟩
    · by_cases he : (ws.filter fun w => w.kind = "allow" && !a w) = []
      · exact ⟨true, fun _ => rfl, by simp [hd, he]⟩
      · rw [Bool.eq_false_of_not_eq_true hal, Bool.false_or, if_neg hd, if_neg hd]
        refine ⟨_, fun ho => ?_, rfl⟩
        obtain ⟨w, hw⟩ := exists_mem_of_ne_nil _ he
        refine allowsOverrun_of_all _ (fun w hw => ho w (mem_of_mem_filter hw)) ⟨w, hw, ?_⟩
        simpa using (Bool.and_eq_true_iff.1 (mem_filter.1 hw).2).1

/-- a window that cannot be parsed is reported -/
theorem judge_error (h : ¬∀ w ∈ ws, Parses cal w) (b : Bool) (overrun : Bool → Except String Bool) :
    judge cal clock ws isManual t overrun ≠ .ok b := by
  push Not at h
  obtain ⟨w, hw, hn⟩ := h
  obtain ⟨err, he⟩ := active_of_not_parses hn
  obtain ⟨e, ha, -⟩ : ∃ e, active cal clock ws t = .error e ∧ active cal clock ws t = .error e :=
    collect_eq_error ⟨w, hw, err, he clock t⟩ fun _ _ _ => Iff.rfl
  rw [judge, if_neg (ne_nil_of_mem hw), ha]
  exact nofun

theorem canSyncAtTime_eq (h : ∀ w ∈ ws, Parses cal w) :
    canSyncAtTime cal clock ws isManual t = .ok (verdict ws isManual fun w => isActive cal clock w t) := by
  obtain ⟨allowed, -, he⟩ := judge_eq (t := t) isManual h fun _ => .ok false
  rw [canSyncAtTime, he]
  split_ifs with hv
  · rw [hv]
  · rw [Bool.eq_false_of_not_eq_true hv]

theorem canSync_none : canSync cal clock ws isManual none = canSyncAtTime cal clock ws isManual clock := rfl

/-! ## Deny windows and overruns -/

/-- a deny window that is added at any position does not let a sync start -/
def DenyRestricts (cal : Calendar) (clock : Time) (before after : List SyncWindow) (d : SyncWindow) : Prop :=
  d.kind = "deny" → canSync cal clock (before ++ after) isManual none ≠ .ok true →
    canSync cal clock (before ++ d :: after) isManual none ≠ .ok true

/-- a sync that was allowed when it started continues, if all windows allow overruns -/
def OverrunContinues (cal : Calendar) (ws : List SyncWindow) (start now : Time) : Prop :=
  start ≤ now → (∀ w ∈ ws, w.syncOverrun = true) → canSync cal start ws isManual none = .ok true →
    canSync cal now ws isManual (some start) = .ok true

/-- a manual sync is kept back only by an allow window that is not active, and the deny window is for manual syncs -/
structure Opens (cal : Calendar) (clock : Time) (ws : List SyncWindow) (d : SyncWindow) : Prop where
  kind : d.kind = "deny"
  manual : isManual = true ∧ d.manualSync = true
  active : isActive cal clock d clock = true
  parses : ∀ w ∈ ws, Parses cal w
  inactive : ∀ w ∈ ws, isActive cal clock w clock = true → w.kind ≠ "deny" ∧ w.kind ≠ "allow"
  allow : ∃ w ∈ ws, w.kind = "allow" ∧ w.manualSync = false

/-- an active deny window leaves manual syncs, if all of them do; another one changes nothing -/
theorem verdict_insert {before after : List SyncWindow} {d : SyncWindow} (hk : d.kind = "deny")
    (a : SyncWindow → Bool) : verdict (before ++ d :: after) isManual a =
      if a d then isManual && (d.manualSync && (before ++ after).all fun w => !a w || w.kind ≠ "deny" || w.manualSync)
      else verdict (before ++ after) isManual a := by
  unfold verdict
  cases hd : a d <;> simp [hk, hd, Bool.and_left_comm]

/-- the active deny windows leave manual syncs, and an allow window keeps one back: then no deny window is active -/
theorem verdict_manual {a : SyncWindow → Bool} : (verdict ws true a = false ∧
      ws.all (fun w => !a w || w.kind ≠ "deny" || w.manualSync) = true) ↔
    (∀ w ∈ ws, a w = true → w.kind ≠ "deny" ∧ w.kind ≠ "allow") ∧
      ∃ w ∈ ws, w.kind = "allow" ∧ w.manualSync = false := by
  unfold verdict
  split_ifs with hd <;> simp at hd ⊢ <;> grind

theorem denyRestricts_iff (clock : Time) (before after : List SyncWindow) (d : SyncWindow) :
    DenyRestricts isManual cal clock before after d ↔ ¬Opens isManual cal clock (before ++ after) d := by
  by_cases hk : d.kind = "deny"
  swap
  · exact iff_of_true (fun h => absurd h hk) fun h => hk h.kind
  have hm : ∀ w, w ∈ before ++ d :: after ↔ w = d ∨ w ∈ before ++ after := by
    intro w
    simp only [mem_append, mem_cons]
    exact or_left_comm
  by_cases hp : ∀ w ∈ before ++ d :: after, Parses cal w
  swap
  · refine iff_of_true (fun _ _ => judge_error isManual hp true _) fun h => hp fun w hw => ?_
    rcases (hm w).1 hw with rfl | hw
    · by_contra hn
      obtain ⟨err, he⟩ := active_of_not_parses hn
      simpa [isActive, he] using h.active
    · exact h.parses w hw
  have hl : ∀ w ∈ before ++ after, Parses cal w := fun w hw => hp w ((hm w).2 (.inr hw))
  rw [DenyRestricts, canSync_none, canSync_none, canSyncAtTime_eq isManual hp, canSyncAtTime_eq isManual hl,
    verdict_insert isManual hk]
  generalize before ++ after = ws at hl
  cases had : isActive cal clock d clock with
  | false => exact iff_of_true (fun _ => by simp) fun h => by simpa [had] using h.active
  | true =>
    simp only [eq_true hk, true_implies, if_true, ne_eq, Except.ok.injEq, Bool.not_eq_true]
    have hv := @verdict_manual ws fun w => isActive cal clock w clock
    refine ⟨fun h ho => ?_, fun h hf => Bool.eq_false_of_not_eq_true fun ht => h ?_⟩
    · obtain ⟨rfl, hm⟩ := ho.manual
      obtain ⟨hf, hall⟩ := hv.2 ⟨ho.inactive, ho.allow⟩
      rw [hm, hall] at h
      exact Bool.false_ne_true (h hf).symm
    · simp only [Bool.and_eq_true] at ht
      obtain ⟨hi, hal⟩ := hv.1 ⟨ht.1 ▸ hf, ht.2.2⟩
      exact ⟨hk, ⟨ht.1, ht.2.1⟩, had, hl, hi, hal⟩

end GitOpsDeploy.SyncWindows

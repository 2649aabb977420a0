import Forge.Lib.Protocol
import Forge.Controller.Convergence

/-!
# When the status is not written

`updateStatus` compares four fields of the status it has read and leaves the stored one alone if they agree,
although a write would also store a condition. That loses nothing as long as what it has read is what is stored
(`skipped_write_sound`): a status that only `updateStatus` wrote is what it writes for the spec of the
generation it names (`StatusOk`), and an edit raises the generation. But the client of the manager reads from a
cache, and an earlier status may agree where the stored one does not (`skipped_write_stale`).

The processes, the users and the caches move in any order (`Operator.client`). What a process has read is the
stored Application or an earlier version of it (`Application.Earlier`), so a write meets the Application it was
computed from, or it is a conflict (`Attempt.call`).
-/

namespace Forge.Controller

open GoString

abbrev Pid := Nat

/-- What can happen: a call is answered, a user edits the spec, the status of the Deployment changes, and a cache
sees a change. -/
inductive Happening
  | answer (c : Choice)
  | edit (spec : ApplicationSpec)
  | observe (status : DeploymentStatus)
  | see (watch : Watch)

namespace Operator

def edit (w : Operator) (key : NamespacedName) (spec : ApplicationSpec) : Operator :=
  w.declare key ((w.cluster.applications key).map (·.edited spec))

/-- Processes that share the client of the manager. -/
def client (key : NamespacedName) : Machine Pid Op Ans Happening Operator where
  call := fun _ op h w => match h with
    | .answer c => call op (.answer c) w
    | _ => none
  crash := fun _ w => w
  env := fun h w => match h with
    | .edit spec => some (w.edit key spec)
    | .observe status => env (.observe key status) w
    | .see watched => (watch (.see watched) w).map (·.2)
    | .answer _ => none

end Operator

/-! ### The protocol of `updateStatus` -/

/-- How far an attempt is: it has read the Application and the clock, or written the status. -/
inductive Progress
  | nothing
  | read (app : Application)
  | timed (app : Application) (now : Int)
  | wrote (app : Application) (now : Int)

/-- A call of `updateStatus` for a status of the Deployment. -/
structure Attempt where
  dep : DeploymentStatus
  progress : Progress

/-- A version of an Application that is not newer than the stored one. -/
def Application.Earlier (app stored : Application) : Prop :=
  app.ResourceVersion ≤ stored.ResourceVersion ∧ (stored.ResourceVersion = app.ResourceVersion → stored = app)

namespace Attempt

variable (key : NamespacedName)

/-- The calls `updateStatus` makes; `none` is a process that does not exist. -/
def May : Option Attempt → Op → Prop
  | some _, .getApplication k => k = key
  | some st, .now => ∃ app, st.progress = .read app
  | some st, .updateStatus k app' => k = key ∧ ∃ app now, st.progress = .timed app now ∧
      app' = { app with Status := writtenStatus now app st.dep }
  | _, _ => False

def after (st : Attempt) : (op : Op) → Ans op → Progress
  | .getApplication _, .ok app => .read app
  | .now, t => match st.progress with
    | .read app => .timed app t
    | _ => .nothing
  | .updateStatus _ _, .ok () => match st.progress with
    | .timed app now => .wrote app now
    | _ => .nothing
  | _, _ => .nothing

def next (st : Option Attempt) (op : Op) (a : Ans op) : Option Attempt :=
  st.map fun st => ⟨st.dep, st.after op a⟩

/-- Without a write, the comparison was made on what was just read. -/
def Result (r : Except ApiError Bool) (st : Option Attempt) : Prop :=
  ∃ dep progress, st = some ⟨dep, progress⟩ ∧ (r = .ok false → ∃ app, progress = .read app ∧ Unchanged app dep) ∧
    (r = .ok true → ∃ app now, progress = .wrote app now)

/-- The Application the attempt goes by is a version of the stored one. -/
def Tracks (deps : Pid → Option DeploymentStatus) (p : Pid) (st : Option Attempt) (w : Operator) : Prop :=
  ∀ dep progress, st = some ⟨dep, progress⟩ → deps p = some dep ∧
    ∀ app, (progress = .read app ∨ ∃ now, progress = .timed app now) →
      ∃ stored, w.cluster.applications key = some stored ∧ app.Earlier stored

end Attempt

open Attempt

theorem obeys_updateStatusOnce (key : NamespacedName) (dep : DeploymentStatus) (progress : Progress) :
    (updateStatusOnce key dep).Obeys (May key) next
      (fun r st => Result r st ∧ ∃ progress, st = some ⟨dep, progress⟩) (some ⟨dep, progress⟩) := by
  rw [updateStatusOnce_eq]
  refine ⟨rfl, fun r => ?_⟩
  rcases r with e | app
  · exact ⟨⟨dep, _, rfl, (fun h => by cases h), fun h => by cases h⟩, _, rfl⟩
  show Proc.Obeys _ _ _ _ (if Unchanged app dep then _ else _)
  split
  · rename_i hu
    exact ⟨⟨dep, _, rfl, fun _ => ⟨app, rfl, hu⟩, fun h => by cases h⟩, _, rfl⟩
  · refine ⟨⟨app, rfl⟩, fun now => ⟨⟨rfl, app, now, rfl, rfl⟩, fun r => ?_⟩⟩
    rcases r with e | u
    · exact ⟨⟨dep, _, rfl, (fun h => by cases h), fun h => by cases h⟩, _, rfl⟩
    · exact ⟨⟨dep, _, rfl, (fun h => by cases h), fun _ => ⟨app, now, rfl⟩⟩, _, rfl⟩

theorem obeys_updateStatus (key : NamespacedName) (dep : DeploymentStatus) :
    (updateStatus key dep).Obeys (May key) next Result (some ⟨dep, .nothing⟩) := by
  have hretry : ∀ n progress, (RetryOnConflict (updateStatusOnce key dep) n).Obeys (May key) next Result
      (some ⟨dep, progress⟩) := by
    intro n
    induction n with
    | zero => exact fun progress => ⟨dep, _, rfl, (fun h => by cases h), fun h => by cases h⟩
    | succ n ih =>
      intro progress
      refine (obeys_updateStatusOnce key dep progress).bind fun r st hr => ?_
      obtain ⟨hres, progress', rfl⟩ := hr
      split
      · exact ih progress'
      · exact hres
  exact hretry DefaultRetry .nothing

/-! ### Versions -/

/-- The stored status is one that `updateStatus` has written, and the caches know versions of the stored
Application. -/
structure Versioned (key : NamespacedName) (w : Operator) : Prop where
  statusOk : ∀ app, w.cluster.applications key = some app → StatusOk app
  earlier : ∀ app, some app ∈ w.applications.versions key →
    ∃ stored, w.cluster.applications key = some stored ∧ app.Earlier stored

/-- Whoever changes the Application raises its resource version. -/
def Advances (key : NamespacedName) (w w' : Operator) : Prop :=
  ∀ stored, w.cluster.applications key = some stored → ∃ stored', w'.cluster.applications key = some stored' ∧
    (stored' = stored ∨ stored.ResourceVersion < stored'.ResourceVersion)

section
variable {key : NamespacedName} {deps : Pid → Option DeploymentStatus} {p : Pid} {st : Option Attempt}
  {w w' : Operator}

theorem Application.Earlier.refl (app : Application) : app.Earlier app := ⟨le_rfl, fun _ => rfl⟩

/-- What was read and has the stored resource version is what is stored. -/
theorem eq_of_earlier {app stored : Application}
    (he : ∃ stored, w.cluster.applications key = some stored ∧ app.Earlier stored)
    (hstored : w.cluster.applications key = some stored) (hv : stored.ResourceVersion = app.ResourceVersion) :
    stored = app := by
  obtain ⟨stored', hstored', -, heq⟩ := he
  cases hstored.symm.trans hstored'
  exact heq hv

theorem Advances.of_eq (h : w'.cluster.applications key = w.cluster.applications key) : Advances key w w' :=
  fun stored hstored => ⟨stored, h.trans hstored, .inl rfl⟩

theorem Advances.earlier (h : Advances key w w') {app : Application}
    (he : ∃ stored, w.cluster.applications key = some stored ∧ app.Earlier stored) :
    ∃ stored, w'.cluster.applications key = some stored ∧ app.Earlier stored := by
  obtain ⟨stored, hstored, hle, heq⟩ := he
  obtain ⟨stored', hstored', rfl | hlt⟩ := h stored hstored
  · exact ⟨stored', hstored', hle, heq⟩
  · exact ⟨stored', hstored', by omega, fun hv => by omega⟩

theorem Attempt.Tracks.advances (h : Tracks key deps p st w) (ha : Advances key w w') : Tracks key deps p st w' := by
  intro dep progress hst
  obtain ⟨hdep, hread⟩ := h dep progress hst
  exact ⟨hdep, fun app happ => ha.earlier (hread app happ)⟩

/-- The stored Application and its versions are the same, or fewer. -/
theorem Versioned.congr (h : Versioned key w) (happ : w'.cluster.applications key = w.cluster.applications key)
    (hv : w'.applications.versions key ⊆ w.applications.versions key) : Versioned key w' :=
  ⟨fun app ha => h.statusOk app (happ ▸ ha), fun app ha => (Advances.of_eq happ).earlier (h.earlier app (hv ha))⟩

theorem advances_declare {stored new : Application} (hstored : w.cluster.applications key = some stored)
    (hlt : stored.ResourceVersion < new.ResourceVersion) : Advances key w (w.declare key (some new)) := by
  intro app happ
  cases hstored.symm.trans happ
  exact ⟨new, Function.update_self .., .inr hlt⟩

/-- A new version of the Application. -/
theorem Versioned.declare (h : Versioned key w) {stored new : Application}
    (hstored : w.cluster.applications key = some stored) (hlt : stored.ResourceVersion < new.ResourceVersion)
    (hok : StatusOk new) : Versioned key (w.declare key (some new)) := by
  have hnew : (w.declare key (some new)).cluster.applications key = some new := Function.update_self ..
  refine ⟨fun app happ => ?_, fun app happ => ?_⟩
  · cases hnew.symm.trans happ
    exact hok
  · simp only [Operator.declare, Informer.versions_send, List.mem_append, List.mem_singleton] at happ
    rcases happ with happ | happ
    · exact (advances_declare hstored hlt).earlier (h.earlier app happ)
    · cases happ
      exact ⟨_, hnew, .refl _⟩

theorem StatusOk.edited {app : Application} (h : StatusOk app) (spec : ApplicationSpec) :
    StatusOk (app.edited spec) := by
  rcases h with hs | ⟨old, dep, t, hs, hle, -⟩
  · exact .empty hs
  · -- the status names an earlier generation
    refine .written old dep t hs ?_ fun hgen => ?_
    · dsimp only [Application.edited]
      omega
    · dsimp only [Application.edited] at hgen
      omega

/-- A user edits the spec. -/
theorem Versioned.edit (h : Versioned key w) (spec : ApplicationSpec) :
    Versioned key (w.edit key spec) ∧ Advances key w (w.edit key spec) := by
  unfold Operator.edit
  cases hstored : w.cluster.applications key with
  | none =>
    refine ⟨⟨fun app happ => ?_, fun app happ => ?_⟩, fun stored hs => by cases hstored.symm.trans hs⟩
    · cases (Function.update_self ..).symm.trans happ
    · simp only [Option.map_none, Operator.declare, Informer.versions_send, List.mem_append, List.mem_singleton,
        reduceCtorEq, or_false] at happ
      obtain ⟨stored, hs, -⟩ := h.earlier app happ
      cases hstored.symm.trans hs
  | some stored =>
    have hlt : stored.ResourceVersion < (stored.edited spec).ResourceVersion := Nat.lt_succ_self _
    exact ⟨h.declare hstored hlt ((h.statusOk stored hstored).edited spec), advances_declare hstored hlt⟩

theorem Versioned.watch {watched : Watch} {ks : List NamespacedName} (h : Versioned key w)
    (hw : Operator.watch (.see watched) w = some (ks, w')) : Versioned key w' :=
  h.congr (congrFun (congrArg Cluster.applications (Operator.cluster_watch hw)) key)
    (Operator.versions_watch hw key).subset

/-- A call of an attempt that has followed the protocol so far. -/
theorem Attempt.call {op : Op} {c : Occurrence} {a : Ans op} (hmay : May key st op)
    (htr : Tracks key deps p st w) (hK : Versioned key w) (hc : Operator.call op c w = some (a, w')) :
    Versioned key w' ∧ Advances key w w' ∧ Tracks key deps p (next st op a) w' := by
  rcases st with _ | ⟨dep, progress⟩
  · cases op <;> exact hmay.elim
  obtain ⟨hdep, hread⟩ := htr dep progress rfl
  cases op with
  | getApplication k =>
    obtain rfl : k = key := hmay
    obtain ⟨rfl, ha⟩ := Operator.call_getApplication hc
    refine ⟨hK, .of_eq rfl, fun dep' progress' hst => ?_⟩
    rcases a with e | app
    · cases hst
      exact ⟨hdep, fun app h => by rcases h with h | ⟨_, h⟩ <;> cases h⟩
    · cases hst
      refine ⟨hdep, fun app' h => ?_⟩
      obtain rfl : app = app' := by
        rcases h with h | ⟨_, h⟩
        · exact Progress.read.inj h
        · cases h
      refine hK.earlier app ?_
      rw [← Operator.cached_of_answer ha rfl]
      exact Informer.cache_mem_versions ..
  | now =>
    obtain rfl := Operator.call_now hc
    obtain ⟨app, rfl⟩ : ∃ app, progress = .read app := hmay
    refine ⟨hK, .of_eq rfl, fun dep' progress' hst => ?_⟩
    cases hst
    refine ⟨hdep, fun app' h => hread app' (.inl ?_)⟩
    rcases h with h | ⟨_, h⟩
    · cases h
    · cases h
      rfl
  | updateStatus k app' =>
    obtain ⟨rfl, app, now, rfl, rfl⟩ : k = key ∧ ∃ app now, progress = .timed app now ∧
      app' = { app with Status := writtenStatus now app dep } := hmay
    have hnext : Tracks k deps p (next (some ⟨dep, .timed app now⟩) (.updateStatus k
        { app with Status := writtenStatus now app dep }) a) w' := by
      intro dep' progress' hst
      rcases a with e | u <;> cases hst <;>
        exact ⟨hdep, fun app h => by rcases h with h | ⟨_, h⟩ <;> cases h⟩
    rcases Operator.call_updateStatus hc with ⟨rfl, -⟩ | ⟨stored, hstored, hv, rfl⟩
    · exact ⟨hK, .of_eq rfl, hnext⟩
    obtain rfl := eq_of_earlier (hread app (.inr ⟨now, rfl⟩)) hstored hv
    have hlt : stored.ResourceVersion < stored.ResourceVersion + 1 := Nat.lt_succ_self _
    refine ⟨hK.declare hstored hlt ?_, advances_declare hstored hlt, hnext⟩
    obtain ⟨t, ht⟩ := (hK.statusOk stored hstored).writtenStatus now dep
    exact .written stored dep t ht (Int.le_refl _) fun _ => rfl
  | patch o => exact hmay.elim
  | getDeployment k => exact hmay.elim

/-- The call after which `updateStatus` returns without an error leaves a status that agrees with the
Deployment, if it has written it or has read the stored Application. -/
theorem Attempt.returned {op : Op} {c : Occurrence} {a : Ans op} {wrote : Bool} (hmay : May key st op)
    (htr : Tracks key deps p st w) (hc : Operator.call op c w = some (a, w'))
    (hres : Result (.ok wrote) (next st op a)) {dep : DeploymentStatus} (hp : deps p = some dep)
    (hcache : wrote = false → w.applications.cache key = w.cluster.applications key) :
    ∃ app, w'.cluster.applications key = some app ∧ Unchanged app dep := by
  rcases st with _ | ⟨dep', progress⟩
  · cases op <;> exact hmay.elim
  obtain ⟨hdep, hread⟩ := htr dep' progress rfl
  obtain rfl : dep' = dep := Option.some.inj (hdep.symm.trans hp)
  obtain ⟨_, progress', hst, hfalse, htrue⟩ := hres
  cases hst
  cases op with
  | getApplication k =>
    obtain rfl : k = key := hmay
    obtain ⟨rfl, ha⟩ := Operator.call_getApplication hc
    rcases wrote with _ | _
    · obtain ⟨app, hafter, hu⟩ := hfalse rfl
      rcases a with e | app'
      · cases hafter
      · cases hafter
        exact ⟨app, (hcache rfl).symm.trans (Operator.cached_of_answer ha rfl), hu⟩
    · obtain ⟨app, now, hafter⟩ := htrue rfl
      rcases a with e | app' <;> cases hafter
  | now =>
    obtain ⟨app, rfl⟩ : ∃ app, progress = .read app := hmay
    rcases wrote with _ | _
    · obtain ⟨app, hafter, -⟩ := hfalse rfl
      cases hafter
    · obtain ⟨app, now, hafter⟩ := htrue rfl
      cases hafter
  | updateStatus k app' =>
    obtain ⟨rfl, app, now, rfl, rfl⟩ : k = key ∧ ∃ app now, progress = .timed app now ∧
      app' = { app with Status := writtenStatus now app dep' } := hmay
    rcases wrote with _ | _
    · obtain ⟨app, hafter, -⟩ := hfalse rfl
      rcases a with e | u <;> cases hafter
    rcases Operator.call_updateStatus hc with ⟨-, e, rfl⟩ | ⟨stored, hstored, hv, rfl⟩
    · obtain ⟨app, now, hafter⟩ := htrue rfl
      cases hafter
    · obtain rfl := eq_of_earlier (hread app (.inr ⟨now, rfl⟩)) hstored hv
      exact ⟨_, Function.update_self .., rfl, rfl, rfl, rfl⟩
  | patch o => exact hmay.elim
  | getDeployment k => exact hmay.elim

end

/-! ### Runs -/

/-- Processes that each call `updateStatus` for some status of the Deployment. -/
def statusPool (key : NamespacedName) (w : Operator) (deps : Pid → Option DeploymentStatus) :
    Pool Pid Op Ans (Except ApiError Bool) Operator :=
  ⟨w, fun p => (deps p).map (updateStatus key)⟩

theorem status_run {key : NamespacedName} {w₀ : Operator} {deps : Pid → Option DeploymentStatus}
    (hstart : Versioned key w₀) {ms : List (Move Pid Happening)}
    {s : Pool Pid Op Ans (Except ApiError Bool) Operator}
    (hrun : (statusPool key w₀ deps).run (Operator.client key) ms = some s) :
    Versioned key s.world ∧ s.Obeying (May key) next Result (Tracks key deps) none := by
  refine Pool.obeys_run (K := Versioned key) ?_ ?_ ?_ hstart ?_ hrun
  · intro p op h a st w w' hmay htr hK hc
    rcases h with c | spec | status | watched
    · obtain ⟨hK', hadv, htr'⟩ := Attempt.call hmay htr hK hc
      exact ⟨hK', htr', fun q st' _ hq => hq.advances hadv⟩
    all_goals cases hc
  · intro p w hK
    exact ⟨hK, (fun dep progress hst => by cases hst), fun q st _ hq => hq⟩
  · intro h w w' hK he
    cases h with
    | answer c => cases he
    | edit spec =>
      cases he
      exact ⟨(hK.edit spec).1, fun q st hq => hq.advances (hK.edit spec).2⟩
    | observe status =>
      simp only [Operator.client, Operator.env] at he
      split at he <;> cases he
      exact ⟨hK.congr rfl fun _ h => h, fun q st hq => hq.advances (.of_eq rfl)⟩
    | see watched =>
      obtain ⟨⟨ks, w₁⟩, hw, rfl⟩ := Option.map_eq_some_iff.1 he
      refine ⟨hK.watch hw, fun q st hq => hq.advances (.of_eq ?_)⟩
      rw [Operator.cluster_watch hw]
  · intro p
    simp only [statusPool]
    rcases hp : deps p with _ | dep
    · intro dep progress hst
      cases hst
    · refine ⟨some ⟨dep, .nothing⟩, obeys_updateStatus key dep, fun dep' progress hst => ?_⟩
      cases hst
      exact ⟨hp, fun app h => by rcases h with h | ⟨_, h⟩ <;> cases h⟩

/-! ### The next call -/

namespace Operator

/-- The caches see some changes, and then a call is answered. -/
def laterCall : Env Op Ans (List Watch × Choice) Operator := fun op c w =>
  (c.1.foldlM (fun w watched => (watch (.see watched) w).map (·.2)) w).bind (call op (.answer c.2))

/-- Nothing is stored meanwhile, and what the caches knew they know, or later versions. -/
theorem laterCall_cases {key : NamespacedName} {op : Op} {c : List Watch × Choice} {a : Ans op} {w w' : Operator}
    (hw : Versioned key w) (h : laterCall op c w = some (a, w')) :
    ∃ w₁, Versioned key w₁ ∧ w₁.cluster = w.cluster ∧ call op (.answer c.2) w₁ = some (a, w') := by
  obtain ⟨w₁, hsee, hcall⟩ := Option.bind_eq_some_iff.1 h
  obtain ⟨watched, ch⟩ := c
  dsimp only at hsee hcall
  induction watched generalizing w with
  | nil =>
    cases hsee
    exact ⟨_, hw, rfl, hcall⟩
  | cons x xs ih =>
    obtain ⟨w₂, hx, hxs⟩ := Option.bind_eq_some_iff.1 hsee
    obtain ⟨⟨ks, w₃⟩, hwatch, rfl⟩ := Option.map_eq_some_iff.1 hx
    obtain ⟨w₄, hw₄, hcl, hc⟩ := ih (hw.watch hwatch) (Option.bind_eq_some_iff.2 ⟨w₁, hxs, hcall⟩) hxs
    exact ⟨w₄, hw₄, hcl.trans (cluster_watch hwatch), hc⟩

end Operator

section
variable {key : NamespacedName} {dep : DeploymentStatus} {stored : Application} {w w' : Operator}

/-- An attempt on a status that agrees with the Deployment: what it reads agrees as well, or it is an earlier
version and the write is a conflict. -/
theorem exec_updateStatusOnce_unchanged (hw : Versioned key w) (hstored : w.cluster.applications key = some stored)
    (hu : Unchanged stored dep) {cs : List (List Watch × Choice)} {r : Except ApiError Bool}
    (h : (updateStatusOnce key dep).exec Operator.laterCall cs w = some (r, w')) :
    Versioned key w' ∧ w'.cluster = w.cluster ∧ r ≠ .ok true := by
  rw [updateStatusOnce_eq] at h
  obtain ⟨c, cs, a, w₂, rfl, hget, h⟩ := Proc.exec_call h
  obtain ⟨w₁, hw₁, hcl₁, hget⟩ := Operator.laterCall_cases hw hget
  obtain ⟨rfl, ha⟩ := Operator.call_getApplication hget
  rcases a with e | app
  · obtain ⟨rfl, rfl⟩ := Proc.exec_ret h
    exact ⟨hw₁, hcl₁, by simp⟩
  dsimp only at h
  split at h
  · obtain ⟨rfl, rfl⟩ := Proc.exec_ret h
    exact ⟨hw₁, hcl₁, by simp⟩
  rename_i hno
  obtain ⟨c, cs, now, w₃, rfl, hnow, h⟩ := Proc.exec_call h
  obtain ⟨w₄, hw₄, hcl₄, hnow⟩ := Operator.laterCall_cases hw₁ hnow
  obtain rfl := Operator.call_now hnow
  obtain ⟨c, cs, a, w₅, rfl, hput, h⟩ := Proc.exec_call h
  obtain ⟨w₆, hw₆, hcl₆, hput⟩ := Operator.laterCall_cases hw₄ hput
  have hcl : w₆.cluster = w.cluster := hcl₆.trans (hcl₄.trans hcl₁)
  rcases Operator.call_updateStatus hput with ⟨rfl, e, rfl⟩ | ⟨stored', hstored', hv, -⟩
  · obtain ⟨rfl, rfl⟩ := Proc.exec_ret h
    exact ⟨hw₆, hcl, by simp⟩
  · -- the write would have been computed from the stored Application, which agrees
    exfalso
    rw [hcl] at hstored'
    cases hstored.symm.trans hstored'
    have hread := hw₁.earlier app (by
      rw [← Operator.cached_of_answer ha rfl]
      exact Informer.cache_mem_versions ..)
    exact hno (eq_of_earlier hread (hcl₁ ▸ hstored) hv ▸ hu)

/-- A status that agrees with the Deployment is not written. -/
theorem exec_updateStatus_unchanged (hw : Versioned key w) (hstored : w.cluster.applications key = some stored)
    (hu : Unchanged stored dep) {cs : List (List Watch × Choice)} {r : Except ApiError Bool}
    (h : (updateStatus key dep).exec Operator.laterCall cs w = some (r, w')) :
    w'.cluster = w.cluster ∧ r ≠ .ok true := by
  suffices hretry : ∀ n cs w, Versioned key w → w.cluster.applications key = some stored →
      (RetryOnConflict (updateStatusOnce key dep) n).exec Operator.laterCall cs w = some (r, w') →
      w'.cluster = w.cluster ∧ r ≠ .ok true from hretry DefaultRetry cs w hw hstored h
  intro n
  induction n with
  | zero =>
    intro cs w _ _ h
    obtain ⟨rfl, rfl⟩ := Proc.exec_ret h
    exact ⟨rfl, by simp⟩
  | succ n ih =>
    intro cs w hw hstored h
    obtain ⟨cs₁, cs₂, r₁, w₁, rfl, h₁, h₂⟩ := Proc.exec_bind h
    obtain ⟨hw₁, hcl, hr⟩ := exec_updateStatusOnce_unchanged hw hstored hu h₁
    split at h₂
    · obtain ⟨hcl', hr'⟩ := ih cs₂ w₁ hw₁ (hcl ▸ hstored) h₂
      exact ⟨hcl'.trans hcl, hr'⟩
    · obtain ⟨rfl, rfl⟩ := Proc.exec_ret h₂
      exact ⟨hcl, hr⟩

end

open Operator in
/-- Any number of calls of `updateStatus` through the client of the manager, interleaved with each other, with
edits, with changes of the Deployment's status and with what the caches see, on an Application whose status was
empty. When a call takes its unchanged path and what it has read is the stored Application, the stored status
is what the writing path would store. When such a call has returned, or one that has written, the next one for
the same status of the Deployment writes nothing, whatever the caches see in between. -/
theorem skipped_write_sound {key : NamespacedName} {c₀ : Cluster}
    {refuses : Option Object → Object → Option GoString} {deps : Pid → Option DeploymentStatus}
    (hstart : ∀ app, c₀.applications key = some app → app.Status = emptyStatus)
    {ms : List (Move Pid Happening)} {s s' : Pool Pid Op Ans (Except ApiError Bool) Operator}
    (hrun : (statusPool key (unstarted c₀ refuses) deps).run (client key) ms = some s) {p : Pid}
    {dep : DeploymentStatus} (hp : deps p = some dep) {h : Happening}
    (hstep : s.step (client key) (.call p h) = some s') :
    (s'.result? p = some (.ok false) → s.world.applications.cache key = s.world.cluster.applications key →
      ∃ app, s'.world.cluster.applications key = some app ∧ ∀ now, writtenStatus now app dep = app.Status) ∧
    ∀ wrote, s'.result? p = some (.ok wrote) →
      (wrote = false → s.world.applications.cache key = s.world.cluster.applications key) → ∀ cs r w',
      (updateStatus key dep).exec laterCall cs s'.world = some (r, w') →
        w'.cluster = s'.world.cluster ∧ r ≠ .ok true := by
  have hversioned : Versioned key (unstarted c₀ refuses) := by
    refine ⟨fun app happ => .empty (hstart app happ), fun app happ => ?_⟩
    simp only [unstarted, Informer.versions_synced, List.mem_singleton] at happ
    exact ⟨app, happ.symm, .refl app⟩
  obtain ⟨hK, hob⟩ := status_run hversioned hrun
  rcases Pool.step_cases hstep with ⟨q, op, k, h', a, w, hmove, hq, hc, rfl⟩ | ⟨q, hmove, -⟩ | ⟨h', w, hmove, -⟩
  swap
  · cases hmove
  swap
  · cases hmove
  cases hmove
  cases h with
  | answer c =>
    obtain ⟨st, hobey, htr⟩ := hob.live hq
    obtain ⟨hK', -, -⟩ := Attempt.call hobey.1 htr hK hc
    -- the answer that made the process return
    have hreturned : ∀ wrote, Pool.result? ⟨w, Function.update s.procs p (some (k a))⟩ p = some (.ok wrote) →
        (wrote = false → s.world.applications.cache key = s.world.cluster.applications key) →
        ∃ app, w.cluster.applications key = some app ∧ Unchanged app dep := by
      intro wrote hres
      have hret := Pool.procs_of_result hres
      simp only [Function.update_self, Option.some.injEq] at hret
      have hresult := hobey.2 a
      rw [hret] at hresult
      exact Attempt.returned hobey.1 htr hc hresult hp
    constructor
    · intro hres hcache
      obtain ⟨app, happ, hu⟩ := hreturned false hres fun _ => hcache
      exact ⟨app, happ, (hK'.statusOk app happ).unchanged hu⟩
    · intro wrote hres hcache cs r w' hexec
      obtain ⟨app, happ, hu⟩ := hreturned wrote hres hcache
      exact exec_updateStatus_unchanged hK' happ hu hexec
  | edit | observe | see => cases hc

/-- A call writes the status, the cache sees it, the spec is edited, the cache sees that, the status is written
again, and the cache is up to date once more. -/
def writtenTwice : List (Move Pid Happening) :=
  [.call 0 (.answer .served), .call 0 (.answer (.time 7)), .call 0 (.answer .served), .env (.see .application),
    .env (.edit { sampleSpec true with Replicas := 2 }), .env (.see .application),
    .call 1 (.answer .served), .call 1 (.answer (.time 9)), .call 1 (.answer .served), .env (.see .application)]

/-- Three calls of `updateStatus`, for Deployments with these numbers of ready replicas out of three. -/
def threeCalls (ready : Pid → Int) (p : Pid) : Option DeploymentStatus :=
  if p < 3 then some ⟨3, ready p⟩ else none

open Operator in
theorem skipped_write_sample :
    ∃ s s', (statusPool sampleKey (unstarted sampleCluster keepsSelectors) (threeCalls fun _ => 3)).run
        (client sampleKey) writtenTwice = some s ∧
      s.step (client sampleKey) (.call 2 (.answer .served)) = some s' ∧ s'.result? 2 = some (.ok false) ∧
      ∃ app, s'.world.cluster.applications sampleKey = some app ∧ ∀ now, writtenStatus now app ⟨3, 3⟩ = app.Status := by
  have h : ((statusPool sampleKey (unstarted sampleCluster keepsSelectors) (threeCalls fun _ => 3)).run
      (client sampleKey) writtenTwice).bind (fun s =>
        (s.step (client sampleKey) (.call 2 (.answer .served))).map fun s' => (s'.result? 2,
          decide (s.world.applications.cache sampleKey = s.world.cluster.applications sampleKey))) =
      some (some (.ok false), true) := by decide +kernel
  obtain ⟨s, hs, h⟩ := Option.bind_eq_some_iff.1 h
  obtain ⟨s', hs', h⟩ := Option.map_eq_some_iff.1 h
  simp only [Prod.mk.injEq, decide_eq_true_eq] at h
  obtain ⟨hres, hcache⟩ := h
  have hstart : ∀ app, sampleCluster.applications sampleKey = some app → app.Status = emptyStatus := by
    intro app happ
    cases happ
    rfl
  exact ⟨s, s', hs, hs', hres, (skipped_write_sound hstart hs rfl hs').1 hres hcache⟩

/-- Three replicas are ready and a call writes it, which the cache sees; two are ready and a call writes that,
which the cache does not see. -/
def writtenUnseen : List (Move Pid Happening) :=
  [.call 0 (.answer .served), .call 0 (.answer (.time 7)), .call 0 (.answer .served), .env (.see .application),
    .call 1 (.answer .served), .call 1 (.answer (.time 8)), .call 1 (.answer .served)]

open Operator in
/-- Three replicas are ready again. The next call reads the first status from the cache and writes nothing,
although the stored one says that two are ready. When the cache has caught up, the same call writes. -/
theorem skipped_write_stale :
    ∃ s s' app, (statusPool sampleKey (unstarted sampleCluster keepsSelectors)
        (threeCalls fun p => if p = 1 then 2 else 3)).run (client sampleKey) writtenUnseen = some s ∧
      s.step (client sampleKey) (.call 2 (.answer .served)) = some s' ∧ s'.result? 2 = some (.ok false) ∧
      s'.world.cluster.applications sampleKey = some app ∧ app.Status.Phase = str "Progressing" ∧
      app.Status.ReadyReplicas = 2 ∧ (∀ now, (writtenStatus now app ⟨3, 3⟩).Phase = str "Ready") ∧
      ∃ w', (updateStatus sampleKey ⟨3, 3⟩).exec laterCall
        [([.application], .served), ([], .time 9), ([], .served)] s'.world = some (.ok true, w') := by
  have h : ((statusPool sampleKey (unstarted sampleCluster keepsSelectors)
      (threeCalls fun p => if p = 1 then 2 else 3)).run (client sampleKey) writtenUnseen).bind (fun s =>
        (s.step (client sampleKey) (.call 2 (.answer .served))).bind fun s' =>
          (s'.world.cluster.applications sampleKey).bind fun app =>
            ((updateStatus sampleKey ⟨3, 3⟩).exec laterCall
              [([.application], .served), ([], .time 9), ([], .served)] s'.world).map fun x =>
                (s'.result? 2, app.Status.Phase, app.Status.ReadyReplicas, (phaseOf app ⟨3, 3⟩).1, x.1)) =
      some (some (.ok false), str "Progressing", 2, str "Ready", .ok true) := by decide +kernel
  obtain ⟨s, hs, h⟩ := Option.bind_eq_some_iff.1 h
  obtain ⟨s', hs', h⟩ := Option.bind_eq_some_iff.1 h
  obtain ⟨app, happ, h⟩ := Option.bind_eq_some_iff.1 h
  obtain ⟨⟨r, w'⟩, hexec, h⟩ := Option.map_eq_some_iff.1 h
  simp only [Prod.mk.injEq] at h
  obtain ⟨hres, hphase, hready, hwritten, rfl⟩ := h
  exact ⟨s, s', app, hs, hs', hres, happ, hphase, hready, fun _ => hwritten, w', hexec⟩

end Forge.Controller

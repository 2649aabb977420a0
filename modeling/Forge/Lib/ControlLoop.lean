import Forge.Lib.Proc

/-!
# Control loops

An `Informer` keeps a cache of the objects of one kind: changes are sent to it and it sees them one after
another, later. A `ControlLoop` works off a queue of keys, each by a process (`reconcile`) over calls to the
world. A key is added when an informer sees a change that concerns it, also while it is being worked on; a key
whose process failed is added again after a delay, and a restart begins with a queue of its own. No key is
worked on twice at the same time, and the queue is a set, so a key added twice is worked on once.

`ControlLoop.good_of_quiet`: where nothing is left to do for a key, its last process has done its work. The
process is judged with the rely/guarantee judgement over the world and one flag, whether its key was added
since it began (`Rely`): once it was, nothing more is asked of this process but to keep the invariant.
-/

namespace Forge

/-! ### Informers -/

/-- A cache, and the changes sent to it that it has not seen, oldest first. -/
structure Informer (K V : Type) where
  cache : K → Option V
  stream : List (K × Option V)

namespace Informer

variable {K V : Type}

/-- A cache that has seen everything. -/
def synced (m : K → Option V) : Informer K V := ⟨m, []⟩

def send (i : Informer K V) (k : K) (v : Option V) : Informer K V := { i with stream := i.stream ++ [(k, v)] }

/-- A change of `k` is still to be seen. -/
def Behind (i : Informer K V) (k : K) : Prop := ∃ v, (k, v) ∈ i.stream

/-- A change of `k` is still to be seen, and `P` holds before or after one of its changes. -/
def Marked (P : V → Prop) (i : Informer K V) (k : K) : Prop :=
  i.Behind k ∧ ((∃ v, i.cache k = some v ∧ P v) ∨ ∃ v, (k, some v) ∈ i.stream ∧ P v)

theorem Behind.send {i : Informer K V} {k : K} (h : i.Behind k) (k' : K) (v : Option V) :
    (i.send k' v).Behind k :=
  h.imp fun _ hv => List.mem_append_left _ hv

theorem behind_send (i : Informer K V) (k : K) (v : Option V) : (i.send k v).Behind k :=
  ⟨v, List.mem_append_right _ (List.mem_singleton.2 rfl)⟩

theorem Marked.send {P : V → Prop} {i : Informer K V} {k : K} (h : i.Marked P k) (k' : K) (v : Option V) :
    (i.send k' v).Marked P k :=
  ⟨h.1.send k' v, h.2.imp_right fun ⟨v', hv', hP⟩ => ⟨v', List.mem_append_left _ hv', hP⟩⟩

theorem not_behind_synced (m : K → Option V) (k : K) : ¬ (synced m).Behind k :=
  fun ⟨_, h⟩ => absurd h List.not_mem_nil

/-- Every version of every object, seen or not, satisfies `P`. -/
structure All (P : K → V → Prop) (i : Informer K V) : Prop where
  cache : ∀ k v, i.cache k = some v → P k v
  stream : ∀ k v, (k, some v) ∈ i.stream → P k v

theorem All.synced {P : K → V → Prop} {m : K → Option V} (h : ∀ k v, m k = some v → P k v) :
    (Informer.synced m).All P :=
  ⟨h, fun _ _ hv => absurd hv List.not_mem_nil⟩

theorem All.send {P : K → V → Prop} {i : Informer K V} (h : i.All P) {k : K} {v : Option V}
    (hv : ∀ v', v = some v' → P k v') : (i.send k v).All P := by
  refine ⟨h.cache, fun k' v' hmem => ?_⟩
  rcases List.mem_append.1 hmem with hmem | hmem
  · exact h.stream k' v' hmem
  · obtain ⟨rfl, rfl⟩ := Prod.mk.inj (List.mem_singleton.1 hmem)
    exact hv v' rfl

variable [DecidableEq K]

def see (m : K → Option V) (e : K × Option V) : K → Option V := Function.update m e.1 e.2

/-- The cache once everything has been seen. -/
def latest (i : Informer K V) : K → Option V := i.stream.foldl see i.cache

/-- The next change is seen: its key, the old value and the new one. -/
def next (i : Informer K V) : Option ((K × Option V × Option V) × Informer K V) :=
  match i.stream with
  | [] => none
  | (k, v) :: es => some ((k, i.cache k, v), ⟨Function.update i.cache k v, es⟩)

@[simp] theorem latest_synced (m : K → Option V) : (synced m).latest = m := rfl

@[simp] theorem latest_send (i : Informer K V) (k : K) (v : Option V) :
    (i.send k v).latest = Function.update i.latest k v := by
  simp [latest, send, see]

theorem next_cases {i i' : Informer K V} {k : K} {old new : Option V} (h : i.next = some ((k, old, new), i')) :
    ∃ es, i.stream = (k, new) :: es ∧ old = i.cache k ∧ i' = ⟨Function.update i.cache k new, es⟩ := by
  unfold next at h
  split at h
  · cases h
  · rename_i k' v es hes
    cases h
    exact ⟨es, hes, rfl, rfl⟩

theorem latest_next {i i' : Informer K V} {k : K} {old new : Option V} (h : i.next = some ((k, old, new), i')) :
    i'.latest = i.latest := by
  obtain ⟨es, hes, -, rfl⟩ := next_cases h
  simp [latest, hes, see]

/-- Folding changes of other keys leaves `k` alone; otherwise its last change counts. -/
theorem foldl_see (es : List (K × Option V)) (m : K → Option V) (k : K) :
    ((∀ v, (k, v) ∉ es) ∧ es.foldl see m k = m k) ∨ (k, es.foldl see m k) ∈ es := by
  induction es generalizing m with
  | nil => exact .inl ⟨fun _ => List.not_mem_nil, rfl⟩
  | cons e es ih =>
    rcases ih (see m e) with ⟨hno, heq⟩ | hmem
    · by_cases hk : e.1 = k
      · refine .inr (List.mem_cons.2 (.inl ?_))
        rw [List.foldl_cons, heq, see, ← hk, Function.update_self]
      · refine .inl ⟨fun v hv => ?_, ?_⟩
        · rcases List.mem_cons.1 hv with rfl | hv
          · exact hk rfl
          · exact hno v hv
        · rw [List.foldl_cons, heq, see, Function.update_of_ne (Ne.symm hk)]
    · exact .inr (List.mem_cons_of_mem _ hmem)

theorem cache_of_not_behind {i : Informer K V} {k : K} (h : ¬ i.Behind k) : i.cache k = i.latest k := by
  rcases foldl_see i.stream i.cache k with ⟨-, heq⟩ | hmem
  · exact heq.symm
  · exact absurd ⟨_, hmem⟩ h

theorem All.latest {P : K → V → Prop} {i : Informer K V} (h : i.All P) {k : K} {v : V}
    (hv : i.latest k = some v) : P k v := by
  rcases foldl_see i.stream i.cache k with ⟨-, heq⟩ | hmem
  · exact h.cache k v (heq.symm.trans hv)
  · exact h.stream k v (hv ▸ hmem)

theorem All.next {P : K → V → Prop} {i i' : Informer K V} {k : K} {old new : Option V} (h : i.All P)
    (hn : i.next = some ((k, old, new), i')) : i'.All P := by
  obtain ⟨es, hes, -, rfl⟩ := next_cases hn
  have hstream : ∀ k' v, (k', some v) ∈ (k, new) :: es → P k' v := hes ▸ h.stream
  refine ⟨fun k' v hv => ?_, fun k' v hv => hstream k' v (List.mem_cons_of_mem _ hv)⟩
  dsimp only at hv
  by_cases hk : k' = k
  · subst hk
    rw [Function.update_self] at hv
    exact hstream k' v (hv ▸ List.mem_cons_self)
  · rw [Function.update_of_ne hk] at hv
    exact h.cache k' v hv

/-- The versions of `k`: the cached one and those that are still to be seen, oldest first. -/
def versions (i : Informer K V) (k : K) : List (Option V) := i.cache k :: (i.stream.filter (·.1 = k)).map (·.2)

@[simp] theorem versions_synced (m : K → Option V) (k : K) : (synced m).versions k = [m k] := rfl

theorem cache_mem_versions (i : Informer K V) (k : K) : i.cache k ∈ i.versions k := List.mem_cons_self

@[simp] theorem versions_send (i : Informer K V) (k : K) (v : Option V) :
    (i.send k v).versions k = i.versions k ++ [v] := by
  simp [versions, send]

theorem versions_send_of_ne (i : Informer K V) {k k' : K} (h : k ≠ k') (v : Option V) :
    (i.send k v).versions k' = i.versions k' := by
  simp [versions, send, h]

theorem latest_mem_versions (i : Informer K V) (k : K) : i.latest k ∈ i.versions k := by
  rcases foldl_see i.stream i.cache k with ⟨-, heq⟩ | hmem
  · rw [latest, heq]
    exact i.cache_mem_versions k
  · refine List.mem_cons_of_mem _ (List.mem_map.2 ⟨_, List.mem_filter.2 ⟨hmem, ?_⟩, rfl⟩)
    exact decide_eq_true rfl

/-- What is seen of `k` is its next version. -/
theorem versions_next {i i' : Informer K V} {k : K} {old new : Option V} (h : i.next = some ((k, old, new), i')) :
    i.versions k = i.cache k :: i'.versions k := by
  obtain ⟨es, hes, -, rfl⟩ := next_cases h
  simp [versions, hes]

theorem versions_next_of_ne {i i' : Informer K V} {k k' : K} {old new : Option V}
    (h : i.next = some ((k, old, new), i')) (hne : k ≠ k') : i'.versions k' = i.versions k' := by
  obtain ⟨es, hes, -, rfl⟩ := next_cases h
  simp [versions, hes, hne, Function.update_of_ne hne.symm]

/-- The last change of `k` leads to what is there now. -/
theorem Behind.marked {P : V → Prop} {i : Informer K V} {k : K} (h : i.Behind k) {v : V} (hv : i.latest k = some v)
    (hP : P v) : i.Marked P k := by
  rcases foldl_see i.stream i.cache k with ⟨hno, -⟩ | hmem
  · obtain ⟨v', hv'⟩ := h
    exact absurd hv' (hno v')
  · exact ⟨h, .inr ⟨v, hv ▸ hmem, hP⟩⟩

/-- A change of a value with `P` is marked. -/
theorem marked_send {P : V → Prop} {i : Informer K V} {k : K} {v : V} (hv : i.latest k = some v) (hP : P v)
    (v' : Option V) : (i.send k v').Marked P k := by
  by_cases h : i.Behind k
  · exact (h.marked hv hP).send k v'
  · exact ⟨i.behind_send k v', .inl ⟨v, (cache_of_not_behind h).trans hv, hP⟩⟩

theorem Behind.next {i i' : Informer K V} {k k' : K} {old new : Option V} (h : i.Behind k)
    (hn : i.next = some ((k', old, new), i')) : k' = k ∨ i'.Behind k := by
  obtain ⟨es, hes, -, rfl⟩ := next_cases hn
  obtain ⟨v, hv⟩ := h
  rw [hes] at hv
  rcases List.mem_cons.1 hv with hv | hv
  · exact .inl (congrArg Prod.fst hv).symm
  · exact .inr ⟨v, hv⟩

/-- A mark stays until a change with `P` on one side is seen. -/
theorem Marked.next {P : V → Prop} {i i' : Informer K V} {k k' : K} {old new : Option V} (h : i.Marked P k)
    (hn : i.next = some ((k', old, new), i')) :
    (k' = k ∧ ∃ v, (old = some v ∨ new = some v) ∧ P v) ∨ i'.Marked P k := by
  obtain ⟨es, hes, rfl, rfl⟩ := next_cases hn
  obtain ⟨⟨v₀, hv₀⟩, hP⟩ := h
  rw [hes, List.mem_cons] at hv₀
  simp only [hes, List.mem_cons] at hP
  by_cases hk : k' = k
  · subst hk
    rcases hP with ⟨v, hv, hP⟩ | ⟨v, hv | hv, hP⟩
    · exact .inl ⟨rfl, v, .inl hv, hP⟩
    · exact .inl ⟨rfl, v, .inr (congrArg Prod.snd hv).symm, hP⟩
    · exact .inr ⟨⟨_, hv⟩, .inr ⟨v, hv, hP⟩⟩
  · have hne : ∀ {v : Option V}, (k, v) ≠ (k', new) := fun h => hk (congrArg Prod.fst h).symm
    refine .inr ⟨⟨v₀, hv₀.resolve_left hne⟩, hP.imp ?_ ?_⟩
    · rintro ⟨v, hv, hP⟩
      exact ⟨v, (Function.update_of_ne (Ne.symm hk) new i.cache).trans hv, hP⟩
    · rintro ⟨v, hv, hP⟩
      exact ⟨v, hv.resolve_left hne, hP⟩

end Informer

/-! ### The loop -/

structure ControlLoop (K Op : Type) (Ans : Op → Type) (χ ε σ : Type) where
  reconcile : K → Proc Op Ans (Except ε Unit)
  call : Env Op Ans χ σ
  /-- The world changes by itself. -/
  env : χ → σ → Option σ
  /-- An informer sees a change, and the keys it concerns are added. -/
  watch : χ → σ → Option (List K × σ)
  /-- The keys the queue has after a restart, and the world then. -/
  restart : σ → (K → Bool) × σ

namespace ControlLoop

variable {K Op : Type} {Ans : Op → Type} {χ ε σ : Type}

/-- `dirty` keys are to be worked on, `waiting` ones will be added when their delay is over. -/
structure State (K Op : Type) (Ans : Op → Type) (ε σ : Type) where
  world : σ
  dirty : K → Bool
  waiting : K → Bool
  workers : K → Option (Proc Op Ans (Except ε Unit))

inductive Step (K χ : Type)
  | get (k : K)
  | call (k : K) (c : χ)
  | done (k : K)
  | fire (k : K)
  | env (c : χ)
  | watch (c : χ)
  | restart

/-- The loop as it starts on a world. -/
def start (L : ControlLoop K Op Ans χ ε σ) (w : σ) : State K Op Ans ε σ :=
  ⟨(L.restart w).2, (L.restart w).1, fun _ => false, fun _ => none⟩

/-- Nothing is in progress or left to do for `k`. -/
structure State.Quiet (s : State K Op Ans ε σ) (k : K) : Prop where
  dirty : s.dirty k = false
  waiting : s.waiting k = false
  workers : s.workers k = none

variable [DecidableEq K] (L : ControlLoop K Op Ans χ ε σ)

/-- A process that failed makes its key wait. -/
def retry (waiting : K → Bool) (k : K) : Except ε Unit → K → Bool
  | .ok () => waiting
  | .error _ => Function.update waiting k true

def step (s : State K Op Ans ε σ) : Step K χ → Option (State K Op Ans ε σ)
  | .get k => match s.workers k with
    | none =>
      if s.dirty k then some { s with
        dirty := Function.update s.dirty k false
        workers := Function.update s.workers k (some (L.reconcile k)) }
      else none
    | some _ => none
  | .call k c => match s.workers k with
    | some (.call op f) => match L.call op c s.world with
      | some (a, w) => some { s with world := w, workers := Function.update s.workers k (some (f a)) }
      | none => none
    | _ => none
  | .done k => match s.workers k with
    | some (.ret r) => some { s with
        workers := Function.update s.workers k none, waiting := retry s.waiting k r }
    | _ => none
  | .fire k =>
    if s.waiting k then some { s with
      waiting := Function.update s.waiting k false, dirty := Function.update s.dirty k true }
    else none
  | .env c => (L.env c s.world).map fun w => { s with world := w }
  | .watch c => (L.watch c s.world).map fun x =>
    { s with world := x.2, dirty := fun k => s.dirty k || decide (k ∈ x.1) }
  | .restart => some (L.start s.world)

def run (s : State K Op Ans ε σ) : List (Step K χ) → Option (State K Op Ans ε σ)
  | [] => some s
  | m :: ms => match L.step s m with
    | some s' => run s' ms
    | none => none

variable {L} {s s' : State K Op Ans ε σ}

theorem run_append {ms : List (Step K χ)} (h : L.run s ms = some s') (ms' : List (Step K χ)) :
    L.run s (ms ++ ms') = L.run s' ms' := by
  induction ms generalizing s with
  | nil =>
    cases h
    rfl
  | cons m ms ih =>
    simp only [run] at h
    split at h
    · rename_i s₁ hm
      simp only [List.cons_append, run, hm]
      exact ih h
    · cases h

theorem run_induction {P : State K Op Ans ε σ → Prop} (hP : ∀ s s' m, P s → L.step s m = some s' → P s')
    {ms : List (Step K χ)} (h₀ : P s) (h : L.run s ms = some s') : P s' := by
  induction ms generalizing s with
  | nil => exact Option.some.inj h ▸ h₀
  | cons m ms ih =>
    simp only [run] at h
    split at h
    · exact ih (hP s _ m h₀ ‹_›) h
    · cases h

variable (L) in
/-- Every step of a run satisfies `P` in the state where it is made. -/
def Along (P : State K Op Ans ε σ → Step K χ → Prop) : State K Op Ans ε σ → List (Step K χ) → Prop
  | _, [] => True
  | s, m :: ms => P s m ∧ ∀ s', L.step s m = some s' → Along P s' ms

variable (L) in
/-- The states a run goes through after its first. -/
def trail (s : State K Op Ans ε σ) : List (Step K χ) → List (State K Op Ans ε σ)
  | [] => []
  | m :: ms => match L.step s m with
    | some s' => s' :: trail s' ms
    | none => []

theorem Along.of_mem {P : State K Op Ans ε σ → Step K χ → Prop} {ms : List (Step K χ)} (h : ∀ s, ∀ m ∈ ms, P s m) :
    L.Along P s ms := by
  induction ms generalizing s with
  | nil => trivial
  | cons m ms ih => exact ⟨h s m List.mem_cons_self, fun s' _ => ih fun s m hm => h s m (List.mem_cons_of_mem _ hm)⟩

theorem Along.and {P P' : State K Op Ans ε σ → Step K χ → Prop} {ms : List (Step K χ)} (h : L.Along P s ms)
    (h' : L.Along P' s ms) : L.Along (fun s m => P s m ∧ P' s m) s ms := by
  induction ms generalizing s with
  | nil => trivial
  | cons m ms ih => exact ⟨⟨h.1, h'.1⟩, fun s' hm => ih (h.2 s' hm) (h'.2 s' hm)⟩

theorem Along.append {P : State K Op Ans ε σ → Step K χ → Prop} {ms ms' : List (Step K χ)} (h : L.Along P s ms)
    (h' : ∀ s', L.run s ms = some s' → L.Along P s' ms') : L.Along P s (ms ++ ms') := by
  induction ms generalizing s with
  | nil => exact h' s rfl
  | cons m ms ih => exact ⟨h.1, fun s₁ hm => ih (h.2 s₁ hm) fun s₂ hr => h' s₂ (by simp only [run, hm, hr])⟩

/-- An invariant over the present state and the states before, in a run whose steps satisfy `P`. -/
theorem run_induction_along {P : State K Op Ans ε σ → Step K χ → Prop}
    {Q : List (State K Op Ans ε σ) → State K Op Ans ε σ → Prop}
    (hQ : ∀ past s s' m, Q past s → P s m → L.step s m = some s' → Q (past ++ [s']) s') {ms : List (Step K χ)}
    {past : List (State K Op Ans ε σ)} (h₀ : Q past s) (hP : L.Along P s ms) (h : L.run s ms = some s') :
    Q (past ++ L.trail s ms) s' := by
  induction ms generalizing s past with
  | nil =>
    cases h
    rw [trail, List.append_nil]
    exact h₀
  | cons m ms ih =>
    simp only [run] at h
    split at h
    · rename_i s₁ hm
      have := ih (hQ past s s₁ m h₀ hP.1 hm) (hP.2 s₁ hm) h
      simpa only [trail, hm, List.append_assoc, List.singleton_append] using this
    · cases h

/-- The environment of a process, beside the flag whether its key was added since it began. -/
def flagged (E : Env Op Ans χ σ) : Env Op Ans χ (σ × Bool) := fun op c x =>
  (E op c x.1).map fun y => (y.1, y.2, x.2)

/-- What happens beside a process: its key is added, or the world moves in a way it relies on. -/
def Rely (R : σ → σ → Prop) (x x' : σ × Bool) : Prop := x'.2 = true ∨ x.2 = false ∧ x'.2 = false ∧ R x.1 x'.1

/-- The judgement of a process of `k`: it keeps `I`, and if it ends without an error `Good` holds or its key
was added. -/
def Works (E : Env Op Ans χ σ) (I : σ → Prop) (R : σ → σ → Prop) (G : Op → σ → Prop) (Good : σ → Prop)
    (p : Proc Op Ans (Except ε Unit)) (x : σ × Bool) : Prop :=
  p.Rg (flagged E) (fun x => I x.1) (Rely R) (fun op x => G op x.1)
    (fun r x => r = .ok () → x.2 = true ∨ Good x.1) x

/-- What is asked of a loop: its processes do their work while the others, the world and the informers make
moves they rely on, and those do not undo it. -/
structure Sound (L : ControlLoop K Op Ans χ ε σ) (I : σ → Prop) (R : K → σ → σ → Prop) (G : K → Op → σ → Prop)
    (Good : K → σ → Prop) : Prop where
  refl : ∀ k w, R k w w
  trans : ∀ k w₁ w₂ w₃, R k w₁ w₂ → R k w₂ w₃ → R k w₁ w₃
  works : ∀ k x, Works L.call I (R k) (G k) (Good k) (L.reconcile k) x
  stable : ∀ k w w', I w' → R k w w' → Good k w → Good k w'
  call : ∀ k k' op c a w w', k ≠ k' → I w → G k op w → L.call op c w = some (a, w') → R k' w w'
  env : ∀ c w w', I w → L.env c w = some w' → I w' ∧ ∀ k, R k w w'
  watch : ∀ c w ks w', I w → L.watch c w = some (ks, w') → I w' ∧ ∀ k, k ∉ ks → R k w w'
  restart : ∀ w, I w → I (L.restart w).2 ∧ ∀ k, (L.restart w).1 k = true ∨ Good k (L.restart w).2

/-- The invariant of a run, for one key: its process is judged, or its work is done, or it is to be done. -/
def Settling (E : Env Op Ans χ σ) (I : σ → Prop) (R : K → σ → σ → Prop) (G : K → Op → σ → Prop)
    (Good : K → σ → Prop) (s : State K Op Ans ε σ) (k : K) : Prop :=
  match s.workers k with
  | some p => Works E I (R k) (G k) (Good k) p (s.world, s.dirty k)
  | none => s.dirty k = true ∨ s.waiting k = true ∨ Good k s.world

section
variable {I : σ → Prop} {R : K → σ → σ → Prop} {G : K → Op → σ → Prop} {Good : K → σ → Prop}

omit [DecidableEq K] in
/-- The world moves and the flag stays. -/
theorem rely_of_world {R : σ → σ → Prop} {w w' : σ} (h : R w w') (b : Bool) : Rely R (w, b) (w', b) := by
  rcases b with _ | _
  · exact .inr ⟨rfl, rfl, h⟩
  · exact .inl rfl

omit [DecidableEq K] in
theorem Sound.rely_refl (h : L.Sound I R G Good) (k : K) (x : σ × Bool) : Rely (R k) x x :=
  rely_of_world (h.refl k x.1) x.2

omit [DecidableEq K] in
theorem Sound.rely_trans (h : L.Sound I R G Good) (k : K) (x₁ x₂ x₃ : σ × Bool) (h₁ : Rely (R k) x₁ x₂)
    (h₂ : Rely (R k) x₂ x₃) : Rely (R k) x₁ x₃ := by
  rcases h₂ with h₂ | ⟨h₂, h₃, hR⟩
  · exact .inl h₂
  · rcases h₁ with h₁ | ⟨h₁, -, hR'⟩
    · rw [h₁] at h₂
      cases h₂
    · exact .inr ⟨h₁, h₃, h.trans k _ _ _ hR' hR⟩

omit [DecidableEq K] in
/-- The next call of a process is one it may make. -/
theorem Sound.may_call (h : L.Sound I R G Good) (hI : I s.world) {k : K} (hs : Settling L.call I R G Good s k)
    {op : Op} {f : Ans op → Proc Op Ans (Except ε Unit)} (hp : s.workers k = some (.call op f)) : G k op s.world := by
  rw [Settling, hp] at hs
  exact (hs _ (h.rely_refl k _) hI).1

omit [DecidableEq K] in
/-- What happens elsewhere leaves the invariant of `k`. -/
theorem Sound.settling_of_rely (h : L.Sound I R G Good) {k : K} (hI : I s'.world)
    (hs : Settling L.call I R G Good s k) (hwork : s'.workers k = s.workers k)
    (hwait : s.waiting k = true → s'.waiting k = true ∨ s'.dirty k = true)
    (hR : Rely (R k) (s.world, s.dirty k) (s'.world, s'.dirty k)) : Settling L.call I R G Good s' k := by
  unfold Settling at hs ⊢
  rw [hwork]
  cases hp : s.workers k with
  | some p =>
    rw [hp] at hs
    exact Proc.Rg.stable (h.rely_trans k) hs hR
  | none =>
    rw [hp] at hs
    dsimp only at hs ⊢
    rcases hR with hd | ⟨hd, -, hR⟩
    · exact .inl hd
    · rcases hs with hs | hs | hs
      · exact absurd (hs.symm.trans hd) (by decide)
      · exact (hwait hs).elim (fun h => .inr (.inl h)) .inl
      · exact .inr (.inr (h.stable k _ _ hI hR hs))

/-- Every step keeps the invariant. -/
theorem Sound.settling_step (h : L.Sound I R G Good) {m : Step K χ} (hI : I s.world)
    (hs : ∀ k, Settling L.call I R G Good s k) (hm : L.step s m = some s') :
    I s'.world ∧ ∀ k, Settling L.call I R G Good s' k := by
  cases m with
  | get k₀ =>
    simp only [step] at hm
    split at hm
    · rename_i hnone
      split_ifs at hm with hd
      cases hm
      refine ⟨hI, fun k => ?_⟩
      by_cases hk : k = k₀
      · subst hk
        simp only [Settling, Function.update_self]
        exact h.works k _
      · refine h.settling_of_rely hI (hs k) (Function.update_of_ne hk _ _) .inl ?_
        show Rely (R k) _ (s.world, Function.update s.dirty k₀ false k)
        rw [Function.update_of_ne hk]
        exact h.rely_refl k _
    · cases hm
  | call k₀ c =>
    simp only [step] at hm
    split at hm
    · rename_i op f hp
      split at hm
      · rename_i a w hc
        cases hm
        have hG := h.may_call hI (hs k₀) hp
        have hk₀ := hs k₀
        rw [Settling, hp] at hk₀
        obtain ⟨-, hcall⟩ := hk₀ _ (h.rely_refl k₀ _) hI
        have hc' : flagged L.call op c (s.world, s.dirty k₀) = some (a, w, s.dirty k₀) := by
          simp [flagged, hc]
        obtain ⟨hIw, hf⟩ := hcall c a _ hc'
        refine ⟨hIw, fun k => ?_⟩
        by_cases hk : k = k₀
        · subst hk
          simp only [Settling, Function.update_self]
          exact hf
        · exact h.settling_of_rely hIw (hs k) (Function.update_of_ne hk _ _) .inl
            (rely_of_world (h.call k₀ k op c a _ _ (Ne.symm hk) hI hG hc) _)
      · cases hm
    · cases hm
  | done k₀ =>
    simp only [step] at hm
    split at hm
    · rename_i r hp
      cases hm
      refine ⟨hI, fun k => ?_⟩
      by_cases hk : k = k₀
      · subst hk
        have hk₀ := hs k
        rw [Settling, hp] at hk₀
        have hpost := hk₀ _ (h.rely_refl k _) hI
        simp only [Settling, Function.update_self]
        rcases r with e | u
        · exact .inr (.inl (by simp [retry]))
        · exact (hpost rfl).imp_right .inr
      · refine h.settling_of_rely hI (hs k) (Function.update_of_ne hk _ _) (fun hw => .inl ?_) (h.rely_refl k _)
        rcases r with e | u
        · exact (Function.update_of_ne hk _ _).trans hw
        · exact hw
    · cases hm
  | fire k₀ =>
    simp only [step] at hm
    split_ifs at hm with hw
    cases hm
    refine ⟨hI, fun k => ?_⟩
    by_cases hk : k = k₀
    · subst hk
      exact h.settling_of_rely hI (hs k) rfl (fun _ => .inr (Function.update_self k true s.dirty))
        (.inl (Function.update_self k true s.dirty))
    · refine h.settling_of_rely hI (hs k) rfl (fun hw => .inl ((Function.update_of_ne hk _ _).trans hw)) ?_
      show Rely (R k) _ (s.world, Function.update s.dirty k₀ true k)
      rw [Function.update_of_ne hk]
      exact h.rely_refl k _
  | env c =>
    simp only [step, Option.map_eq_some_iff] at hm
    obtain ⟨w, hw, rfl⟩ := hm
    obtain ⟨hIw, hR⟩ := h.env c _ _ hI hw
    exact ⟨hIw, fun k => h.settling_of_rely hIw (hs k) rfl .inl (rely_of_world (hR k) _)⟩
  | watch c =>
    simp only [step, Option.map_eq_some_iff] at hm
    obtain ⟨⟨ks, w⟩, hw, rfl⟩ := hm
    obtain ⟨hIw, hR⟩ := h.watch c _ _ _ hI hw
    refine ⟨hIw, fun k => h.settling_of_rely hIw (hs k) rfl .inl ?_⟩
    by_cases hk : k ∈ ks
    · exact .inl (by simp [hk])
    · show Rely (R k) _ (w, s.dirty k || decide (k ∈ ks))
      rw [decide_eq_false hk, Bool.or_false]
      exact rely_of_world (hR k hk) _
  | restart =>
    cases hm
    obtain ⟨hIw, hgood⟩ := h.restart _ hI
    exact ⟨hIw, fun k => (hgood k).imp_right .inr⟩

theorem Sound.settling_run (h : L.Sound I R G Good) {w : σ} (hI : I w) {ms : List (Step K χ)}
    (hrun : L.run (L.start w) ms = some s) : I s.world ∧ ∀ k, Settling L.call I R G Good s k := by
  refine run_induction (P := fun s => I s.world ∧ ∀ k, Settling L.call I R G Good s k)
    (fun s s' m hs hm => h.settling_step hs.1 hs.2 hm) ?_ hrun
  obtain ⟨hIw, hgood⟩ := h.restart w hI
  exact ⟨hIw, fun k => (hgood k).imp_right .inr⟩

end

end ControlLoop

end Forge

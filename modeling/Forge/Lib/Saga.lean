import Forge.Lib.Proc

/-!
# Sagas

A saga runs its steps one after another, each answering with a result or an error. When a step fails,
the compensations of the steps that were completed run in reverse order, whatever they answer, and the
saga returns the error. `Saga.Outcome` says which calls were made and what is returned, for any steps
and any answers (`Saga.run_path`); what the calls do is left to the environment. `Saga.exec_run_done` and
`Saga.exec_run_failed` run it in an environment that is known.
-/

namespace Forge.Saga

variable {Op ε ρ : Type}

/-- A call together with the one that undoes it. -/
structure Step (Op : Type) where
  op : Op
  undo : Option Op

def compensate : List Op → Proc Op (fun _ => Except ε ρ) Unit
  | [] => .ret ()
  | u :: us => .call u fun _ => compensate us

/-- The compensations after the steps `l`, the last one first. -/
def undos (l : List (Step Op)) (us : List Op) : List Op := l.foldl (fun us s => s.undo.toList ++ us) us

/-- `us` are the compensations so far and `rs` the results. -/
def run : List (Step Op) → List Op → List ρ → Proc Op (fun _ => Except ε ρ) (Except (List Op × ε) (List ρ))
  | [], _, rs => .ret (.ok rs)
  | s :: steps, us, rs => .call s.op fun a => match a with
    | .error e => do
      compensate us
      .ret (.error (us, e))
    | .ok r => run steps (s.undo.toList ++ us) (rs ++ [r])

/-- Calls with their answers. -/
def calls (ops : List Op) (as : List (Except ε ρ)) : List (Σ _ : Op, Except ε ρ) :=
  (ops.zip as).map fun x => ⟨x.1, x.2⟩

theorem undos_eq (l : List (Step Op)) (us : List Op) :
    undos l us = (l.filterMap (·.undo)).reverse ++ us := by
  unfold undos
  induction l generalizing us with
  | nil => rfl
  | cons s l ih =>
    rw [List.foldl_cons, ih, List.filterMap_cons]
    rcases s.undo with _ | u <;> simp

theorem calls_fst {ops : List Op} {as : List (Except ε ρ)} (h : as.length = ops.length) :
    (calls ops as).map (·.1) = ops := by
  rw [calls, List.map_map]
  exact List.map_fst_zip (Nat.le_of_eq h.symm)

theorem calls_snd {ops : List Op} {as : List (Except ε ρ)} (h : as.length = ops.length) :
    (calls ops as).map (·.2) = as := by
  rw [calls, List.map_map]
  exact List.map_snd_zip (Nat.le_of_eq h)

/-- The calls of a saga and what it returns. -/
inductive Outcome (steps : List (Step Op)) (us : List Op) (rs : List ρ) :
    List (Σ _ : Op, Except ε ρ) → Except (List Op × ε) (List ρ) → Prop
  | done (rs' : List ρ) (hl : rs'.length = steps.length) :
      Outcome steps us rs (calls (steps.map (·.op)) (rs'.map .ok)) (.ok (rs ++ rs'))
  | failed (l : List (Step Op)) (rs' : List ρ) {rest : List (Step Op)} {s : Step Op} {e : ε}
      {as : List (Except ε ρ)}
      (hsteps : steps = l ++ s :: rest) (hl : rs'.length = l.length) (has : as.length = (undos l us).length) :
      Outcome steps us rs (calls (l.map (·.op)) (rs'.map .ok) ++ ⟨s.op, .error e⟩ :: calls (undos l us) as)
        (.error (undos l us, e))

theorem compensate_path {us : List Op} {h : List (Σ _ : Op, Except ε ρ)}
    (hp : (compensate us).Path h (.ret ())) : ∃ as, as.length = us.length ∧ h = calls us as := by
  induction us generalizing h with
  | nil =>
    rcases hp with _ | _
    exact ⟨[], rfl, rfl⟩
  | cons u us ih =>
    rcases hp with _ | @⟨_, _, a, _, _, hk⟩
    obtain ⟨as, hlen, rfl⟩ := ih hk
    exact ⟨a :: as, by simp [hlen], rfl⟩

theorem run_path {steps : List (Step Op)} {us : List Op} {rs : List ρ} {h : List (Σ _ : Op, Except ε ρ)}
    {res : Except (List Op × ε) (List ρ)} (hp : (run steps us rs).Path h (.ret res)) :
    Outcome steps us rs h res := by
  induction steps generalizing us rs h with
  | nil =>
    rcases hp with _ | _
    have hdone : Outcome ([] : List (Step Op)) us rs ([] : List (Σ _ : Op, Except ε ρ)) (.ok (rs ++ [])) :=
      .done [] rfl
    rwa [List.append_nil] at hdone
  | cons s steps ih =>
    rcases hp with _ | @⟨_, _, a, h, _, hk⟩
    rcases a with e | r
    · -- the step fails: what was completed is undone
      obtain ⟨h₁, h₂, _, rfl, hcomp, hret⟩ := hk.of_bind
      obtain ⟨as, hlen, rfl⟩ := compensate_path hcomp
      rcases hret with _ | _
      rw [List.append_nil]
      exact .failed [] [] rfl rfl hlen
    · rcases ih hk with ⟨rs', hl⟩ | ⟨l, rs', hsteps, hl, has⟩
      · rw [List.append_assoc]
        exact .done (r :: rs') (by simp [hl])
      · exact .failed (s :: l) (r :: rs') (by rw [hsteps]; rfl) (by simp [hl]) has

/-! ### Runs of a saga -/

section

variable {χ σ : Type} {E : Env Op (fun _ => Except ε ρ) χ σ} {l rest : List (Step Op)} {us : List Op}
  {rs rs' : List ρ} {cs cs' : List χ} {a b d : σ}

/-- The steps succeed one after another, with these choices and results. -/
inductive Completes (E : Env Op (fun _ => Except ε ρ) χ σ) : List (Step Op) → List χ → List ρ → σ → σ → Prop
  | nil (a : σ) : Completes E [] [] [] a a
  | cons {s : Step Op} {l : List (Step Op)} {c : χ} {cs : List χ} {r : ρ} {rs : List ρ} {a b d : σ}
      (hs : E s.op c a = some (.ok r, b)) (hl : Completes E l cs rs b d) :
      Completes E (s :: l) (c :: cs) (r :: rs) a d

theorem exec_run_append (h : Completes E l cs rs' a b) :
    (run (l ++ rest) us rs).exec E (cs ++ cs') a = (run rest (undos l us) (rs ++ rs')).exec E cs' b := by
  induction h generalizing us rs with
  | nil a => rw [List.append_nil]; rfl
  | cons hs hl ih =>
    simp only [List.cons_append, run, Proc.exec, hs, ih]
    rw [List.append_assoc, List.singleton_append]
    rfl

theorem exec_run_done (h : Completes E l cs rs' a b) (us : List Op) (rs : List ρ) :
    (run l us rs).exec E cs a = some (.ok (rs ++ rs'), b) := by
  have hrun : (run (l ++ []) us rs).exec E (cs ++ []) a = some (.ok (rs ++ rs'), b) := exec_run_append h
  rwa [List.append_nil, List.append_nil] at hrun

theorem exec_compensate_idle (hidle : ∀ u c, ∃ x, E u c d = some (x, d)) (hlen : cs.length = us.length) :
    (compensate us).exec E cs d = some ((), d) := by
  induction us generalizing cs with
  | nil =>
    rw [List.eq_nil_of_length_eq_zero hlen]
    rfl
  | cons u us ih =>
    rcases cs with _ | ⟨c, cs⟩
    · cases hlen
    obtain ⟨x, hx⟩ := hidle u c
    simp only [compensate, Proc.exec, hx]
    exact ih (Nat.succ.inj hlen)

/-- A step fails, and from then on calls have no effect. -/
theorem exec_run_failed {s : Step Op} {c : χ} {e : ε} (h : Completes E l cs rs' a b)
    (hs : E s.op c b = some (.error e, d)) (hidle : ∀ u c, ∃ x, E u c d = some (x, d))
    (hlen : cs'.length = (undos l us).length) (rest : List (Step Op)) (rs : List ρ) :
    (run (l ++ s :: rest) us rs).exec E (cs ++ c :: cs') a = some (.error (undos l us, e), d) := by
  rw [exec_run_append h]
  simp only [run, Proc.exec, hs]
  have := Proc.exec_append (exec_compensate_idle hidle hlen)
    (fun _ => .ret (.error (undos l us, e) : Except (List Op × ε) (List ρ))) []
  rw [List.append_nil] at this
  exact this

end

/-! ### The calls of a saga -/

theorem uses_compensate {P : Op → Prop} {us : List Op} (hus : ∀ u ∈ us, P u) :
    (compensate us : Proc Op (fun _ => Except ε ρ) Unit).Uses P := by
  induction us with
  | nil => trivial
  | cons u us ih =>
    simp only [List.forall_mem_cons] at hus
    exact ⟨hus.1, fun _ => ih hus.2⟩

theorem uses_run {P : Op → Prop} {steps : List (Step Op)} {us : List Op}
    (hsteps : ∀ s ∈ steps, P s.op ∧ ∀ u ∈ s.undo, P u) (hus : ∀ u ∈ us, P u) (rs : List ρ) :
    (run steps us rs : Proc Op (fun _ => Except ε ρ) _).Uses P := by
  induction steps generalizing us rs with
  | nil => trivial
  | cons s steps ih =>
    simp only [List.forall_mem_cons] at hsteps
    refine ⟨hsteps.1.1, fun a => ?_⟩
    rcases a with e | r
    · exact (uses_compensate hus).bind fun _ => trivial
    · refine ih hsteps.2 (fun u hu => ?_) _
      rcases List.mem_append.1 hu with hu | hu
      · exact hsteps.1.2 u (by simpa using hu)
      · exact hus u hu

end Forge.Saga

import Forge.Lib.Proc

/-!
# Processes that keep to a protocol

`Proc.Obeys` is typestate for call trees: a process in the protocol state `st` makes only calls that
`may` allows there, each of them moves the state by `next`, and it returns only in states that satisfy
`Q`. `Pool.obeys_run` carries the protocol states of all processes of a pool along every run. If a
measure of the state falls with every call, a process makes no more calls than that
(`Obeys.within`, `Pool.calls_le`).
-/

namespace Forge

namespace Proc

variable {Op : Type} {Ans : Op → Type} {α β τ : Type}

/-- From the protocol state on, every call is allowed, and the process returns with `Q`. -/
def Obeys (may : τ → Op → Prop) (next : τ → (op : Op) → Ans op → τ) (Q : α → τ → Prop) :
    τ → Proc Op Ans α → Prop
  | st, ret a => Q a st
  | st, call op k => may st op ∧ ∀ a, (k a).Obeys may next Q (next st op a)

/-- The process makes `n` calls at most. -/
def Within : Nat → Proc Op Ans α → Prop
  | _, ret _ => True
  | 0, call _ _ => False
  | n + 1, call _ k => ∀ a, (k a).Within n

theorem Within.mono {m n : Nat} {p : Proc Op Ans α} (h : p.Within m) (hmn : m ≤ n) : p.Within n := by
  induction p generalizing m n with
  | ret a => cases n <;> trivial
  | call op k ih =>
    rcases m with _ | m
    · exact h.elim
    · rcases n with _ | n
      · omega
      · exact fun a => ih a (h a) (by omega)

variable {may : τ → Op → Prop} {next : τ → (op : Op) → Ans op → τ}

theorem Obeys.bind {Q : α → τ → Prop} {Q' : β → τ → Prop} {p : Proc Op Ans α} {f : α → Proc Op Ans β}
    {st : τ} (hp : p.Obeys may next Q st) (hf : ∀ a st', Q a st' → (f a).Obeys may next Q' st') :
    (p >>= f).Obeys may next Q' st := by
  induction p generalizing st with
  | ret a => exact hf a st hp
  | call op k ih => exact ⟨hp.1, fun a => ih a (hp.2 a)⟩

theorem Obeys.within {Q : α → τ → Prop} {m : τ → Nat} (hpos : ∀ st op, may st op → 0 < m st)
    (hm : ∀ st op a, may st op → m (next st op a) < m st) {p : Proc Op Ans α} {st : τ}
    (hp : p.Obeys may next Q st) : p.Within (m st) := by
  induction p generalizing st with
  | ret a => cases m st <;> trivial
  | call op k ih =>
    rcases hn : m st with _ | n
    · have := hpos st op hp.1
      omega
    · intro a
      have hlt := hm st op a hp.1
      exact (ih a (hp.2 a)).mono (by omega)

theorem Obeys.any (p : Proc Op Ans α) (st : τ) :
    p.Obeys (fun (_ : τ) _ => True) next (fun _ _ => True) st := by
  induction p generalizing st with
  | ret a => trivial
  | call op k ih => exact ⟨trivial, fun a => ih a _⟩

/-- A process whose calls are all allowed in one state, and do not leave it. -/
theorem Uses.obeys {P : Op → Prop} {Q : α → τ → Prop} {p : Proc Op Ans α} {st : τ} (hp : p.Uses P)
    (hmay : ∀ op, P op → may st op) (hnext : ∀ op a, P op → next st op a = st) (hQ : ∀ a, Q a st) :
    p.Obeys may next Q st := by
  induction p with
  | ret a => exact hQ a
  | call op k ih =>
    refine ⟨hmay op hp.1, fun a => ?_⟩
    rw [hnext op a hp.1]
    exact ih a (hp.2 a)

/-- In the states that satisfy `I`, a process makes the calls that are allowed there. -/
theorem Obeys.uses {P : Op → Prop} {I : τ → Prop} {Q : α → τ → Prop} {p : Proc Op Ans α} {st : τ}
    (hp : p.Obeys may next Q st) (hI : ∀ st op, I st → may st op → P op ∧ ∀ a, I (next st op a)) (hst : I st) :
    p.Uses P := by
  induction p generalizing st with
  | ret a => trivial
  | call op k ih =>
    obtain ⟨hop, hnext⟩ := hI st op hst hp.1
    exact ⟨hop, fun a => ih a (hp.2 a) (hnext a)⟩

/-- A process that obeys a protocol returns what the protocol says. -/
theorem Obeys.exec {χ σ : Type} {E : Env Op Ans χ σ} {Q : α → τ → Prop} {p : Proc Op Ans α} {st : τ}
    {cs : List χ} {s s' : σ} {a : α} (hp : p.Obeys may next Q st) (h : p.exec E cs s = some (a, s')) :
    ∃ st', Q a st' := by
  induction p generalizing st cs s with
  | ret b =>
    obtain ⟨rfl, -⟩ := exec_ret h
    exact ⟨st, hp⟩
  | call op k ih =>
    obtain ⟨c, cs', b, s₁, -, -, hk⟩ := exec_call h
    exact ih b (hp.2 b) hk

end Proc

namespace Pool

variable {Pid Op : Type} {Ans : Op → Type} {α χ σ τ : Type}

/-- Every live process is in a protocol state that `Tr` ties to the environment; the others are `idle`. -/
def Obeying (may : τ → Op → Prop) (next : τ → (op : Op) → Ans op → τ) (Q : α → τ → Prop)
    (Tr : Pid → τ → σ → Prop) (idle : τ) (s : Pool Pid Op Ans α σ) : Prop :=
  ∀ p, match s.procs p with
    | some prog => ∃ st, prog.Obeys may next Q st ∧ Tr p st s.world
    | none => Tr p idle s.world

section
variable {may : τ → Op → Prop} {next : τ → (op : Op) → Ans op → τ} {Q : α → τ → Prop}
  {Tr : Pid → τ → σ → Prop} {idle : τ} {s : Pool Pid Op Ans α σ} {p : Pid}

theorem Obeying.live {prog : Proc Op Ans α} (h : s.Obeying may next Q Tr idle) (hp : s.procs p = some prog) :
    ∃ st, prog.Obeys may next Q st ∧ Tr p st s.world := by
  have := h p
  rwa [hp] at this

theorem Obeying.dead (h : s.Obeying may next Q Tr idle) (hp : s.procs p = none) : Tr p idle s.world := by
  have := h p
  rwa [hp] at this

/-- A process and its protocol state move on, the others keep theirs. -/
theorem Obeying.update [DecidableEq Pid] {o : Option (Proc Op Ans α)} {w : σ}
    (h : s.Obeying may next Q Tr idle) (hq : ∀ q st, q ≠ p → Tr q st s.world → Tr q st w)
    (hp : match o with
      | some prog => ∃ st, prog.Obeys may next Q st ∧ Tr p st w
      | none => Tr p idle w) : Obeying may next Q Tr idle ⟨w, Function.update s.procs p o⟩ := by
  intro q
  by_cases hqp : q = p
  · subst hqp
    simpa only [Function.update_self] using hp
  · simp only [Function.update_of_ne hqp]
    have := h q
    split at this
    · obtain ⟨st, h₁, h₂⟩ := this
      exact ⟨st, h₁, hq q st hqp h₂⟩
    · exact hq q idle hqp this

end

variable [DecidableEq Pid] {M : Machine Pid Op Ans χ σ} {s s' : Pool Pid Op Ans α σ}

/-- The protocol states of all processes are carried along every run. -/
theorem obeys_run {may : τ → Op → Prop} {next : τ → (op : Op) → Ans op → τ} {Q : α → τ → Prop}
    {Tr : Pid → τ → σ → Prop} {idle : τ} {K : σ → Prop}
    (hcall : ∀ p op c a st w w', may st op → Tr p st w → K w → M.call p op c w = some (a, w') →
      K w' ∧ Tr p (next st op a) w' ∧ ∀ q st', q ≠ p → Tr q st' w → Tr q st' w')
    (hcrash : ∀ p w, K w →
      K (M.crash p w) ∧ Tr p idle (M.crash p w) ∧ ∀ q st, q ≠ p → Tr q st w → Tr q st (M.crash p w))
    (henv : ∀ c w w', K w → M.env c w = some w' → K w' ∧ ∀ q st, Tr q st w → Tr q st w')
    {ms : List (Move Pid χ)} (hK : K s.world) (hs : s.Obeying may next Q Tr idle)
    (h : s.run M ms = some s') : K s'.world ∧ s'.Obeying may next Q Tr idle := by
  induction ms generalizing s with
  | nil =>
    cases h
    exact ⟨hK, hs⟩
  | cons m ms ih =>
    obtain ⟨s₁, h₁, h₂⟩ := run_cons h
    rcases step_cases h₁ with ⟨p, op, k, c, a, w, -, hp, he, rfl⟩ | ⟨p, -, rfl⟩ | ⟨c, w, -, he, rfl⟩
    · obtain ⟨st, hob, htr⟩ := hs.live hp
      obtain ⟨hK', htr', hq⟩ := hcall p op c a st _ _ hob.1 htr hK he
      exact ih (s := ⟨w, Function.update s.procs p (some (k a))⟩) hK' (hs.update hq ⟨_, hob.2 a, htr'⟩) h₂
    · obtain ⟨hK', htr', hq⟩ := hcrash p _ hK
      exact ih (s := ⟨M.crash p s.world, Function.update s.procs p none⟩) hK' (hs.update hq htr') h₂
    · obtain ⟨hK', hq⟩ := henv c _ _ hK he
      refine ih (s := ⟨w, s.procs⟩) hK' (fun q => ?_) h₂
      have := hs q
      dsimp only
      split at this
      · obtain ⟨st, hob, htr⟩ := this
        exact ⟨st, hob, hq q st htr⟩
      · exact hq q idle this

/-- The calls of one process among the moves of a run. -/
def callsOf (p : Pid) : List (Move Pid χ) → Nat
  | [] => 0
  | .call q _ :: ms => (if q = p then 1 else 0) + callsOf p ms
  | _ :: ms => callsOf p ms

theorem calls_le {p : Pid} {n : Nat} {ms : List (Move Pid χ)}
    (hs : ∀ prog, s.procs p = some prog → prog.Within n) (h : s.run M ms = some s') : callsOf p ms ≤ n := by
  induction ms generalizing s n with
  | nil => exact Nat.zero_le _
  | cons m ms ih =>
    obtain ⟨s₁, h₁, h₂⟩ := run_cons h
    rcases step_cases h₁ with ⟨q, op, k, c, a, w, rfl, hq, -, rfl⟩ | ⟨q, rfl, rfl⟩ | ⟨c, w, rfl, -, rfl⟩
    · by_cases hqp : q = p
      · subst hqp
        have hn := hs _ hq
        rcases n with _ | n
        · exact hn.elim
        · have := ih (n := n) (fun prog hp => by
            simp only [Function.update_self, Option.some.injEq] at hp
            exact hp ▸ hn a) h₂
          simp only [callsOf, if_pos]
          omega
      · have := ih (n := n) (fun prog hp => hs prog (by simpa only [Function.update_of_ne (Ne.symm hqp)] using hp)) h₂
        simpa only [callsOf, if_neg hqp, Nat.zero_add] using this
    · refine ih (fun prog hp => ?_) h₂
      by_cases hqp : p = q
      · subst hqp
        simp at hp
      · exact hs prog (by simpa only [Function.update_of_ne hqp] using hp)
    · exact ih (s := ⟨w, s.procs⟩) hs h₂

end Pool

end Forge

import Mathlib.Logic.Function.Basic
import Mathlib.Data.List.Basic

/-!
# Processes over a shared environment

`Proc Op Ans α` is a sequential process as a tree of calls: `ret a` has returned, `call op k` is
about to make the call `op` and goes on with its answer. An environment (`Env`) answers one call at
a time, atomically, and `Pool` interleaves any number of processes over one environment, each of
which may also crash between two calls, with steps of the environment itself.

`Rg E I R G Q p s` is the rely/guarantee judgement: from `s`, whatever the other processes do between
two calls of `p` (any `R`-move that keeps `I`), `p` makes a call `op` only where `G op` holds, every
call of `p` keeps `I` and when `p` returns `a` the state satisfies `Q a`. It is stable under `R` by
construction, so the residual processes of a pool never have to be named: `Pool.rg_run` carries the
judgement of every process along a run. With `R` the identity it is the weakest precondition of `p` run
alone (`Rg.exec`).
-/

namespace Forge

/-- A sequential process: it has returned, or it makes one call and continues with the answer. -/
inductive Proc (Op : Type) (Ans : Op → Type) (α : Type) : Type
  | ret (a : α)
  | call (op : Op) (k : Ans op → Proc Op Ans α)

/-- How an environment with state `σ` answers a call. `χ` resolves what the call leaves open (a
fault, a clock reading, a fresh id); `none`: the call has no such answer in this state, for
instance because it has to wait. -/
abbrev Env (Op : Type) (Ans : Op → Type) (χ σ : Type) : Type :=
  (op : Op) → χ → σ → Option (Ans op × σ)

namespace Proc

variable {Op : Type} {Ans : Op → Type} {α β γ : Type}

protected def bind : Proc Op Ans α → (α → Proc Op Ans β) → Proc Op Ans β
  | ret a, f => f a
  | call op k, f => call op fun r => (k r).bind f

instance : Monad (Proc Op Ans) where
  pure := ret
  bind := Proc.bind

/-- The process that makes one call and returns its answer. -/
def perform (op : Op) : Proc Op Ans (Ans op) := call op ret

@[simp] theorem pure_eq (a : α) : (pure a : Proc Op Ans α) = ret a := rfl

@[simp] theorem ret_bind (a : α) (f : α → Proc Op Ans β) : (ret a : Proc Op Ans α) >>= f = f a := rfl

@[simp] theorem call_bind (op : Op) (k : Ans op → Proc Op Ans α) (f : α → Proc Op Ans β) :
    (call op k : Proc Op Ans α) >>= f = call op fun r => k r >>= f := rfl

@[simp] theorem perform_bind (op : Op) (f : Ans op → Proc Op Ans β) :
    perform op >>= f = call op f := rfl

theorem bind_ret (p : Proc Op Ans α) : p >>= ret = p := by
  induction p with
  | ret a => rfl
  | call op k ih => simp only [call_bind, ih]

theorem bind_assoc (p : Proc Op Ans α) (f : α → Proc Op Ans β) (g : β → Proc Op Ans γ) :
    p >>= f >>= g = p >>= fun a => f a >>= g := by
  induction p with
  | ret a => rfl
  | call op k ih => simp only [call_bind, ih]

instance : LawfulMonad (Proc Op Ans) :=
  LawfulMonad.mk' (Proc Op Ans) bind_ret (fun _ _ => rfl) bind_assoc

variable {χ σ : Type}

/-- `p` run alone from `s`, the `i`-th call resolved by the `i`-th choice; `none` unless the choices
are exactly those of a complete run. -/
def exec (E : Env Op Ans χ σ) : Proc Op Ans α → List χ → σ → Option (α × σ)
  | ret a, [], s => some (a, s)
  | ret _, _ :: _, _ => none
  | call _ _, [], _ => none
  | call op k, c :: cs, s => match E op c s with
    | some (a, s') => (k a).exec E cs s'
    | none => none

theorem exec_call {E : Env Op Ans χ σ} {op : Op} {k : Ans op → Proc Op Ans α} {cs : List χ} {s s' : σ}
    {b : α} (h : (call op k).exec E cs s = some (b, s')) :
    ∃ c cs' a s₁, cs = c :: cs' ∧ E op c s = some (a, s₁) ∧ (k a).exec E cs' s₁ = some (b, s') := by
  cases cs with
  | nil => simp [exec] at h
  | cons c cs =>
    simp only [exec] at h
    split at h
    · exact ⟨c, cs, _, _, rfl, ‹_›, h⟩
    · cases h

/-- A complete run of `p >>= f` is one of `p` followed by one of `f`. -/
theorem exec_bind {E : Env Op Ans χ σ} {p : Proc Op Ans α} {f : α → Proc Op Ans β} {cs : List χ}
    {s s' : σ} {b : β} (h : (p >>= f).exec E cs s = some (b, s')) :
    ∃ cs₁ cs₂ a s₁, cs = cs₁ ++ cs₂ ∧ p.exec E cs₁ s = some (a, s₁) ∧
      (f a).exec E cs₂ s₁ = some (b, s') := by
  induction p generalizing cs s with
  | ret a => exact ⟨[], cs, a, s, rfl, rfl, h⟩
  | call op k ih =>
    obtain ⟨c, cs', a, s₁, rfl, hc, hk⟩ := exec_call h
    obtain ⟨cs₁, cs₂, a', s₂, rfl, h₁, h₂⟩ := ih a hk
    exact ⟨c :: cs₁, cs₂, a', s₂, rfl, by simp only [exec, hc, h₁], h₂⟩

theorem exec_append {E : Env Op Ans χ σ} {p : Proc Op Ans α} {cs : List χ} {s s' : σ} {a : α}
    (h : p.exec E cs s = some (a, s')) (f : α → Proc Op Ans β) (cs' : List χ) :
    (p >>= f).exec E (cs ++ cs') s = (f a).exec E cs' s' := by
  induction p generalizing cs s with
  | ret b =>
    rcases cs with _ | ⟨c, cs⟩
    · cases h
      rfl
    · cases h
  | call op k ih =>
    obtain ⟨c, cs, b, s₁, rfl, hc, hk⟩ := exec_call h
    simp only [call_bind, List.cons_append, exec, hc, ih b hk]

/-- A run of which some part of the final state is known. -/
theorem exec_observed {E : Env Op Ans χ σ} {p : Proc Op Ans α} {cs : List χ} {s : σ} {a : α} {β : Type} {o : β}
    (obs : σ → β) (h : (p.exec E cs s).map (fun x => (x.1, obs x.2)) = some (a, o)) :
    ∃ s', p.exec E cs s = some (a, s') ∧ obs s' = o := by
  obtain ⟨⟨b, s'⟩, hexec, hb⟩ := Option.map_eq_some_iff.1 h
  simp only [Prod.mk.injEq] at hb
  obtain ⟨rfl, ho⟩ := hb
  exact ⟨s', hexec, ho⟩

theorem exec_ret {E : Env Op Ans χ σ} {a b : α} {cs : List χ} {s s' : σ}
    (h : (ret a : Proc Op Ans α).exec E cs s = some (b, s')) : b = a ∧ s' = s := by
  cases cs with
  | nil =>
    simp only [exec, Option.some.injEq, Prod.mk.injEq] at h
    exact ⟨h.1.symm, h.2.symm⟩
  | cons c cs => cases h

/-- Rely/guarantee: from `s`, while the others make `R`-moves that keep `I`, the process makes a call
`op` only where `G op` holds, every call of the process keeps `I` and when it returns `a` the state
satisfies `Q a`. -/
def Rg (E : Env Op Ans χ σ) (I : σ → Prop) (R : σ → σ → Prop) (G : Op → σ → Prop) (Q : α → σ → Prop) :
    Proc Op Ans α → σ → Prop
  | ret a, s => ∀ s₁, R s s₁ → I s₁ → Q a s₁
  | call op k, s => ∀ s₁, R s s₁ → I s₁ → G op s₁ ∧ ∀ c a s₂, E op c s₁ = some (a, s₂) →
      I s₂ ∧ (k a).Rg E I R G Q s₂

namespace Rg

variable {E : Env Op Ans χ σ} {I : σ → Prop} {R : σ → σ → Prop} {G : Op → σ → Prop} {Q : α → σ → Prop}

/-- The judgement survives every move of the others. -/
theorem stable (hR : ∀ a b c, R a b → R b c → R a c) {p : Proc Op Ans α} {s s₁ : σ}
    (h : p.Rg E I R G Q s) (hs : R s s₁) : p.Rg E I R G Q s₁ := by
  cases p with
  | ret a => exact fun s₂ h₂ => h s₂ (hR _ _ _ hs h₂)
  | call op k => exact fun s₂ h₂ => h s₂ (hR _ _ _ hs h₂)

/-- It is enough to have the judgement wherever the others may have moved to. -/
theorem of_moved (hR : ∀ a, R a a) {p : Proc Op Ans α} {s : σ}
    (h : ∀ s₁, R s s₁ → I s₁ → p.Rg E I R G Q s₁) : p.Rg E I R G Q s := by
  cases p with
  | ret a => exact fun s₁ h₁ hI => h s₁ h₁ hI s₁ (hR s₁) hI
  | call op k => exact fun s₁ h₁ hI => h s₁ h₁ hI s₁ (hR s₁) hI

theorem bind (hR : ∀ a, R a a) {p : Proc Op Ans α} {f : α → Proc Op Ans β} {Q' : β → σ → Prop}
    {s : σ} (h : p.Rg E I R G (fun a => (f a).Rg E I R G Q') s) : (p >>= f).Rg E I R G Q' s := by
  induction p generalizing s with
  | ret a => exact of_moved hR h
  | call op k ih =>
    intro s₁ hs hI
    obtain ⟨hG, hcall⟩ := h s₁ hs hI
    exact ⟨hG, fun c a s₂ he => ⟨(hcall c a s₂ he).1, ih a (hcall c a s₂ he).2⟩⟩

theorem mono {Q' : α → σ → Prop} (hQ : ∀ a s, I s → Q a s → Q' a s) {p : Proc Op Ans α} {s : σ}
    (h : p.Rg E I R G Q s) : p.Rg E I R G Q' s := by
  induction p generalizing s with
  | ret a => exact fun s₁ h₁ hI => hQ a s₁ hI (h s₁ h₁ hI)
  | call op k ih =>
    intro s₁ hs hI
    obtain ⟨hG, hcall⟩ := h s₁ hs hI
    exact ⟨hG, fun c a s₂ he => ⟨(hcall c a s₂ he).1, ih a (hcall c a s₂ he).2⟩⟩

/-- A process that has the judgement keeps `I` when it runs alone and ends in `Q`. -/
theorem exec (hR : ∀ a, R a a) {p : Proc Op Ans α} {s s' : σ} {cs : List χ} {a : α}
    (h : p.Rg E I R G Q s) (hI : I s) (he : p.exec E cs s = some (a, s')) : I s' ∧ Q a s' := by
  induction p generalizing s cs with
  | ret b =>
    obtain ⟨rfl, rfl⟩ := exec_ret he
    exact ⟨hI, h _ (hR _) hI⟩
  | call op k ih =>
    obtain ⟨c, cs', b, s₁, rfl, hc, hk⟩ := exec_call he
    obtain ⟨hI₁, h₁⟩ := (h s (hR s) hI).2 c b s₁ hc
    exact ih b h₁ hI₁ hk

end Rg

/-! ### Processes that only make calls of some kind -/

/-- Every call of the process satisfies `P`. -/
def Uses (P : Op → Prop) : Proc Op Ans α → Prop
  | ret _ => True
  | call op k => P op ∧ ∀ a, (k a).Uses P

namespace Uses

variable {P : Op → Prop}

theorem bind {p : Proc Op Ans α} {f : α → Proc Op Ans β} (hp : p.Uses P) (hf : ∀ a, (f a).Uses P) :
    (p >>= f).Uses P := by
  induction p with
  | ret a => exact hf a
  | call op k ih => exact ⟨hp.1, fun a => ih a (hp.2 a)⟩

theorem mono {P' : Op → Prop} {p : Proc Op Ans α} (hp : p.Uses P) (h : ∀ op, P op → P' op) : p.Uses P' := by
  induction p with
  | ret a => trivial
  | call op k ih => exact ⟨h op hp.1, fun a => ih a (hp.2 a)⟩

/-- If calls of this kind can be made anywhere and keep `I`, so does the process. -/
theorem rg {E : Env Op Ans χ σ} {I : σ → Prop} {R : σ → σ → Prop} {G : Op → σ → Prop}
    (hP : ∀ op s, P op → I s → G op s ∧ ∀ c a s', E op c s = some (a, s') → I s') {p : Proc Op Ans α}
    (hp : p.Uses P) (s : σ) : p.Rg E I R G (fun _ _ => True) s := by
  induction p generalizing s with
  | ret a => exact fun _ _ _ => trivial
  | call op k ih =>
    intro s₁ _ hI
    obtain ⟨hG, hcall⟩ := hP op s₁ hp.1 hI
    exact ⟨hG, fun c a s₂ he => ⟨hcall c a s₂ he, ih a (hp.2 a) s₂⟩⟩

end Uses

/-! ### The calls a process has made -/

/-- With the calls and answers of `h`, `p` becomes `p'`. -/
inductive Path : Proc Op Ans α → List (Σ op, Ans op) → Proc Op Ans α → Prop
  | nil (p : Proc Op Ans α) : Path p [] p
  | cons {op : Op} {k : Ans op → Proc Op Ans α} {a : Ans op} {h : List (Σ op, Ans op)} {p' : Proc Op Ans α}
      (hk : Path (k a) h p') : Path (call op k) (⟨op, a⟩ :: h) p'

theorem Path.snoc {p : Proc Op Ans α} {h : List (Σ op, Ans op)} {op : Op} {k : Ans op → Proc Op Ans α}
    (hp : Path p h (call op k)) (a : Ans op) : Path p (h ++ [⟨op, a⟩]) (k a) := by
  generalize hq : call op k = q at hp
  induction hp with
  | nil p =>
    subst hq
    exact .cons (.nil _)
  | cons hk ih => exact .cons (ih hq)

/-- The calls of `p >>= f` are those of `p` followed by those of `f`. -/
theorem Path.of_bind {p : Proc Op Ans α} {f : α → Proc Op Ans β} {h : List (Σ op, Ans op)} {b : β}
    (hp : Path (p >>= f) h (ret b)) :
    ∃ h₁ h₂ a, h = h₁ ++ h₂ ∧ Path p h₁ (ret a) ∧ Path (f a) h₂ (ret b) := by
  induction p generalizing h with
  | ret a => exact ⟨[], h, a, rfl, .nil _, hp⟩
  | call op k ih =>
    rcases hp with _ | @⟨_, _, r, _, _, hk⟩
    obtain ⟨h₁, h₂, a, rfl, hpath, hf⟩ := ih r hk
    exact ⟨⟨op, r⟩ :: h₁, h₂, a, rfl, .cons hpath, hf⟩

theorem Uses.path {P : Op → Prop} {p p' : Proc Op Ans α} {h : List (Σ op, Ans op)} (hp : p.Uses P)
    (hpath : Path p h p') : p'.Uses P := by
  induction hpath with
  | nil p => exact hp
  | cons hk ih => exact ih (hp.2 _)

/-- A history variable that notes every choice has those of a process run alone. -/
theorem choices_of_exec {E : Env Op Ans χ σ} (note : σ → List χ)
    (hnote : ∀ op c a s s', E op c s = some (a, s') → note s' = note s ++ [c]) {p : Proc Op Ans α}
    {cs : List χ} {s s' : σ} {b : α} (h : p.exec E cs s = some (b, s')) : note s' = note s ++ cs := by
  induction p generalizing cs s with
  | ret a =>
    cases cs with
    | nil => simp [(exec_ret h).2]
    | cons c cs => cases h
  | call op k ih =>
    obtain ⟨c, cs', a, s₁, rfl, hc, hk⟩ := exec_call h
    rw [ih a hk, hnote op c a s s₁ hc, List.append_assoc, List.singleton_append]

/-- A history variable that notes every call has the path of a process run alone. -/
theorem path_of_exec {E : Env Op Ans χ σ} (log : σ → List (Σ op, Ans op))
    (hlog : ∀ op c a s s', E op c s = some (a, s') → log s' = log s ++ [⟨op, a⟩]) {p : Proc Op Ans α}
    {cs : List χ} {s s' : σ} {b : α} (h : p.exec E cs s = some (b, s')) :
    ∃ l, log s' = log s ++ l ∧ Path p l (ret b) := by
  induction p generalizing cs s with
  | ret a =>
    obtain ⟨rfl, rfl⟩ := exec_ret h
    exact ⟨[], by simp, .nil _⟩
  | call op k ih =>
    obtain ⟨c, cs', a, s₁, rfl, hc, hk⟩ := exec_call h
    obtain ⟨l, hl, hp⟩ := ih a hk
    exact ⟨⟨op, a⟩ :: l, by rw [hl, hlog op c a s s₁ hc]; simp, .cons hp⟩

end Proc

/-- Any number of processes over one environment state; `none`: the process has crashed. -/
structure Pool (Pid Op : Type) (Ans : Op → Type) (α σ : Type) where
  world : σ
  procs : Pid → Option (Proc Op Ans α)

/-- What can happen to the environment state: a call of a process, a crash of a process, and a step
of the environment by itself. -/
structure Machine (Pid Op : Type) (Ans : Op → Type) (χ σ : Type) where
  call : Pid → Env Op Ans χ σ
  crash : Pid → σ → σ
  env : χ → σ → Option σ

/-- One atomic step of a pool. -/
inductive Move (Pid χ : Type)
  | call (p : Pid) (c : χ)
  | crash (p : Pid)
  | env (c : χ)

/-- What the process has returned. -/
def Proc.result? {Op : Type} {Ans : Op → Type} {α : Type} : Proc Op Ans α → Option α
  | ret a => some a
  | call _ _ => none

namespace Pool

variable {Pid Op : Type} {Ans : Op → Type} {α χ σ : Type}

def result? (s : Pool Pid Op Ans α σ) (p : Pid) : Option α := (s.procs p).bind Proc.result?

theorem procs_of_result {s : Pool Pid Op Ans α σ} {p : Pid} {a : α} (h : s.result? p = some a) :
    s.procs p = some (.ret a) := by
  obtain ⟨prog, hprog, hres⟩ := Option.bind_eq_some_iff.1 h
  cases prog with
  | ret b =>
    cases hres
    exact hprog
  | call op k => cases hres

/-- Every live process of the pool has its rely/guarantee judgement. -/
def AllRg (M : Machine Pid Op Ans χ σ) (I : σ → Prop) (R : Pid → σ → σ → Prop) (G : Op → σ → Prop)
    (Q : Pid → α → σ → Prop) (s : Pool Pid Op Ans α σ) : Prop :=
  ∀ p prog, s.procs p = some prog → prog.Rg (M.call p) I (R p) G (Q p) s.world

section
variable {M : Machine Pid Op Ans χ σ} {I : σ → Prop} {R : Pid → σ → σ → Prop} {G : Op → σ → Prop}
  {Q : Pid → α → σ → Prop} {s : Pool Pid Op Ans α σ}

/-- A returned process of a pool with its judgements satisfies its postcondition. -/
theorem AllRg.ret (hrefl : ∀ p a, R p a a) (hs : s.AllRg M I R G Q) (hI : I s.world) {p : Pid} {a : α}
    (hp : s.procs p = some (.ret a)) : Q p a s.world :=
  hs p _ hp s.world (hrefl p _) hI

/-- A process of a pool with its judgements is about to make a call only where it may. -/
theorem AllRg.call (hrefl : ∀ p a, R p a a) (hs : s.AllRg M I R G Q) (hI : I s.world) {p : Pid} {op : Op}
    {k : Ans op → Proc Op Ans α} (hp : s.procs p = some (.call op k)) : G op s.world :=
  (hs p _ hp s.world (hrefl p _) hI).1

end

variable [DecidableEq Pid] (M : Machine Pid Op Ans χ σ)

def step (s : Pool Pid Op Ans α σ) : Move Pid χ → Option (Pool Pid Op Ans α σ)
  | .call p c => match s.procs p with
    | some (.call op k) => match M.call p op c s.world with
      | some (a, w) => some ⟨w, Function.update s.procs p (some (k a))⟩
      | none => none
    | _ => none
  | .crash p => some ⟨M.crash p s.world, Function.update s.procs p none⟩
  | .env c => match M.env c s.world with
    | some w => some ⟨w, s.procs⟩
    | none => none

/-- A run: the moves one after another, `none` if one of them is not possible. -/
def run (s : Pool Pid Op Ans α σ) : List (Move Pid χ) → Option (Pool Pid Op Ans α σ)
  | [] => some s
  | m :: ms => match s.step M m with
    | some s' => s'.run ms
    | none => none

variable {M} {s s' : Pool Pid Op Ans α σ}

/-- What one step can do. -/
theorem step_cases {m : Move Pid χ} (h : s.step M m = some s') :
    (∃ p op k c a w, m = .call p c ∧ s.procs p = some (.call op k) ∧
      M.call p op c s.world = some (a, w) ∧ s' = ⟨w, Function.update s.procs p (some (k a))⟩) ∨
    (∃ p, m = .crash p ∧ s' = ⟨M.crash p s.world, Function.update s.procs p none⟩) ∨
    (∃ c w, m = .env c ∧ M.env c s.world = some w ∧ s' = ⟨w, s.procs⟩) := by
  cases m with
  | call p c =>
    simp only [step] at h
    split at h
    · rename_i op k hp
      split at h
      · rename_i a w he
        exact .inl ⟨p, op, k, c, a, w, rfl, hp, he, (Option.some.inj h).symm⟩
      · cases h
    · cases h
  | crash p => exact .inr (.inl ⟨p, rfl, (Option.some.inj h).symm⟩)
  | env c =>
    simp only [step] at h
    split at h
    · exact .inr (.inr ⟨c, _, rfl, ‹_›, (Option.some.inj h).symm⟩)
    · cases h

theorem run_cons {m : Move Pid χ} {ms : List (Move Pid χ)} (h : s.run M (m :: ms) = some s') :
    ∃ s₁, s.step M m = some s₁ ∧ s₁.run M ms = some s' := by
  simp only [run] at h
  split at h
  · exact ⟨_, ‹_›, h⟩
  · cases h

/-- A property of pools that every step keeps holds along every run. -/
theorem run_induction {P : Pool Pid Op Ans α σ → Prop}
    (hP : ∀ s s' m, P s → s.step M m = some s' → P s') {ms : List (Move Pid χ)} (h₀ : P s)
    (h : s.run M ms = some s') : P s' := by
  induction ms generalizing s with
  | nil => exact Option.some.inj h ▸ h₀
  | cons m ms ih =>
    obtain ⟨s₁, h₁, h₂⟩ := run_cons h
    exact ih (hP s s₁ m h₀ h₁) h₂

/-- The judgements of all processes are kept along every run, provided whatever one process or the
environment does is a move the other processes rely on. -/
theorem rg_run {I : σ → Prop} {R : Pid → σ → σ → Prop} {G : Op → σ → Prop} {Q : Pid → α → σ → Prop}
    (hrefl : ∀ p a, R p a a) (htrans : ∀ p a b c, R p a b → R p b c → R p a c)
    (hcall : ∀ p q op c a w w', p ≠ q → I w → M.call p op c w = some (a, w') → R q w w')
    (hcrash : ∀ p w, I w → I (M.crash p w) ∧ ∀ q, p ≠ q → R q w (M.crash p w))
    (henv : ∀ c w w', I w → M.env c w = some w' → I w' ∧ ∀ q, R q w w')
    {ms : List (Move Pid χ)} (hI : I s.world) (hs : s.AllRg M I R G Q)
    (h : s.run M ms = some s') : I s'.world ∧ s'.AllRg M I R G Q := by
  refine run_induction (P := fun s => I s.world ∧ s.AllRg M I R G Q) ?_ ⟨hI, hs⟩ h
  rintro s s' m ⟨hI, hs⟩ hm
  rcases step_cases hm with ⟨p, op, k, c, a, w, -, hp, he, rfl⟩ | ⟨p, -, rfl⟩ | ⟨c, w, -, he, rfl⟩
  · obtain ⟨hIw, hk⟩ := (hs p _ hp s.world (hrefl p _) hI).2 c a w he
    refine ⟨hIw, fun q prog hq => ?_⟩
    by_cases hqp : q = p
    · subst hqp
      simp only [Function.update_self, Option.some.injEq] at hq
      exact hq ▸ hk
    · simp only [Function.update_of_ne hqp] at hq
      exact (hs q prog hq).stable (htrans q) (hcall p q op c a _ _ (Ne.symm hqp) hI he)
  · obtain ⟨hIw, hR⟩ := hcrash p s.world hI
    refine ⟨hIw, fun q prog hq => ?_⟩
    by_cases hqp : q = p
    · subst hqp; simp at hq
    · simp only [Function.update_of_ne hqp] at hq
      exact (hs q prog hq).stable (htrans q) (hR q (Ne.symm hqp))
  · obtain ⟨hIw, hR⟩ := henv c s.world w hI he
    exact ⟨hIw, fun q prog hq => (hs q prog hq).stable (htrans q) (hR q)⟩

/-- A history variable that notes the calls of each process has their paths. -/
theorem path_run (log : σ → Pid → List (Σ op, Ans op))
    (hcall : ∀ p op c a w w', M.call p op c w = some (a, w') →
      log w' p = log w p ++ [⟨op, a⟩] ∧ ∀ q, q ≠ p → log w' q = log w q)
    (hcrash : ∀ p w, log (M.crash p w) = log w) (henv : ∀ c w w', M.env c w = some w' → log w' = log w)
    {ms : List (Move Pid χ)} (hs : ∀ p, log s.world p = []) (h : s.run M ms = some s') (p : Pid)
    {prog' : Proc Op Ans α} (hp : s'.procs p = some prog') :
    ∃ prog, s.procs p = some prog ∧ prog.Path (log s'.world p) prog' := by
  have hinv := run_induction (P := fun t => ∀ p prog', t.procs p = some prog' →
    ∃ prog, s.procs p = some prog ∧ prog.Path (log t.world p) prog') (M := M) ?_
    (fun p prog' hp => ⟨prog', hp, by rw [hs p]; exact .nil _⟩) h
  · exact hinv p prog' hp
  intro t t' m ht hm p prog' hp'
  rcases step_cases hm with ⟨q, op, k, c, a, w, -, hq, he, rfl⟩ | ⟨q, -, rfl⟩ | ⟨c, w, -, he, rfl⟩
  · obtain ⟨hself, hother⟩ := hcall q op c a _ _ he
    by_cases hpq : p = q
    · subst hpq
      obtain ⟨prog, hprog, hpath⟩ := ht p _ hq
      simp only [Function.update_self, Option.some.injEq] at hp'
      subst hp'
      rw [hself]
      exact ⟨prog, hprog, hpath.snoc a⟩
    · simp only [Function.update_of_ne hpq] at hp'
      rw [hother p hpq]
      exact ht p prog' hp'
  · have hpq : p ≠ q := fun e => by subst e; simp at hp'
    simp only [Function.update_of_ne hpq] at hp'
    rw [hcrash]
    exact ht p prog' hp'
  · rw [henv c _ _ he]
    exact ht p prog' hp'

end Pool

end Forge

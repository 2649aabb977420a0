import Forge.Lib.Proc

/-!
# Total correctness of a process run alone

`Total E Q p s`: run alone from `s`, `p` never waits, and however the environment answers its calls it
returns, in a state and with a value that satisfy `Q`. `Env.restrict` is an environment that makes only
some of its choices; what a process does there is what it does under an assumption on its environment.
-/

namespace Forge

variable {Op : Type} {Ans : Op → Type} {α β χ σ : Type}

/-- The environment, where it makes only the choices of `A`. -/
def Env.restrict (E : Env Op Ans χ σ) (A : Op → χ → Bool) : Env Op Ans χ σ := fun op c s =>
  if A op c then E op c s else none

theorem Env.restrict_of {E : Env Op Ans χ σ} {A : Op → χ → Bool} {op : Op} {c : χ} (h : A op c = true) (s : σ) :
    E.restrict A op c s = E op c s :=
  if_pos h

namespace Proc

/-- Every call has an answer, and after every answer the rest of the process is totally correct. -/
def Total (E : Env Op Ans χ σ) (Q : α → σ → Prop) : Proc Op Ans α → σ → Prop
  | ret a, s => Q a s
  | call op k, s => (∃ c a s', E op c s = some (a, s')) ∧
      ∀ c a s', E op c s = some (a, s') → (k a).Total E Q s'

namespace Total

variable {E : Env Op Ans χ σ} {Q : α → σ → Prop} {p : Proc Op Ans α} {s : σ}

/-- There is a complete run, and it ends in `Q`. -/
theorem returns (h : p.Total E Q s) : ∃ cs a s', p.exec E cs s = some (a, s') ∧ Q a s' := by
  induction p generalizing s with
  | ret a => exact ⟨[], a, s, rfl, h⟩
  | call op k ih =>
    obtain ⟨⟨c, a, s₁, hc⟩, hk⟩ := h
    obtain ⟨cs, b, s', hexec, hQ⟩ := ih a (hk c a s₁ hc)
    refine ⟨c :: cs, b, s', ?_, hQ⟩
    simp only [exec, hc, hexec]

/-- What every call keeps holds at the end too. -/
theorem and {I : σ → Prop} (hI : ∀ op c a s s', I s → E op c s = some (a, s') → I s') (h : p.Total E Q s) (hs : I s) :
    p.Total E (fun a s => Q a s ∧ I s) s := by
  induction p generalizing s with
  | ret a => exact ⟨h, hs⟩
  | call op k ih => exact ⟨h.1, fun c a s' hc => ih a (h.2 c a s' hc) (hI op c a s s' hs hc)⟩

theorem mono {Q' : α → σ → Prop} (h : p.Total E Q s) (hQ : ∀ a s, Q a s → Q' a s) : p.Total E Q' s := by
  induction p generalizing s with
  | ret a => exact hQ a s h
  | call op k ih => exact ⟨h.1, fun c a s' hc => ih a (h.2 c a s' hc)⟩

end Total

end Proc

end Forge

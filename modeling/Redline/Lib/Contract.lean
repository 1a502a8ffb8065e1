import Mathlib.Tactic.Common

/-!
# Contracts of programs that throw

A program of `EStateM ε σ` changes a state and returns or throws; what it changed stays when it throws.
`Contract P x Q E` says what a run of `x` from a state of `P` leaves: `Q` if it returns, `E` if it
throws.

* `Contract.bind`       one program after the other, under one `E`;
* `Contract.forM`       a loop over a list, with an invariant of what is done;
* `Contract.tryCatch`   a handler that starts from what a throw leaves.
-/

def Contract {ε σ α : Type} (P : σ → Prop) (x : EStateM ε σ α) (Q : α → σ → Prop)
    (E : σ → Prop) : Prop :=
  ∀ s, P s → match x s with
    | .ok a s' => Q a s'
    | .error _ s' => E s'

namespace Contract
section
variable {ε σ α β : Type} {P P' : σ → Prop} {Q Q' : α → σ → Prop} {R : β → σ → Prop} {E E' : σ → Prop}
  {x : EStateM ε σ α} {f : α → EStateM ε σ β}

theorem mono (h : Contract P x Q E) (hP : ∀ s, P' s → P s) (hQ : ∀ a s, Q a s → Q' a s)
    (hE : ∀ s, E s → E' s) :
    Contract P' x Q' E' := by
  intro s hs
  have hrun := h s (hP s hs)
  cases hx : x s with
  | ok a s' =>
    rw [hx] at hrun
    exact hQ a s' hrun
  | error e s' =>
    rw [hx] at hrun
    exact hE s' hrun

theorem ret {a : α} (h : ∀ s, P s → Q a s) : Contract (ε := ε) P (pure a) Q E := h

theorem raise {e : ε} (h : ∀ s, P s → E s) : Contract P (throw e : EStateM ε σ α) Q E := h

theorem update {g : σ → σ} {Q : Unit → σ → Prop} (h : ∀ s, P s → Q () (g s)) :
    Contract (ε := ε) P (modify g) Q E := h

theorem bind (hx : Contract P x Q E) (hf : ∀ a, Contract (Q a) (f a) R E) :
    Contract P (x >>= f) R E := by
  intro s hs
  have hrun := hx s hs
  show match EStateM.bind x f s with
    | .ok b s' => R b s'
    | .error _ s' => E s'
  unfold EStateM.bind
  cases hxs : x s with
  | ok a s' =>
    rw [hxs] at hrun
    exact hf a s' hrun
  | error e s' =>
    rw [hxs] at hrun
    exact hrun

/-- a loop over `l`: `I` of the elements that are done -/
theorem forM {g : α → EStateM ε σ PUnit} (I : List α → σ → Prop) : ∀ (l done : List α),
    (∀ done a, Contract (I done) (g a) (fun _ => I (done ++ [a])) E) →
    Contract (I done) (l.forM g) (fun _ => I (done ++ l)) E := by
  intro l
  induction l with
  | nil =>
    intro done _ s hs
    show I (done ++ []) s
    rwa [List.append_nil]
  | cons a l ih =>
    intro done hg
    have hrest := ih (done ++ [a]) hg
    rw [List.append_assoc] at hrest
    exact bind (hg done a) fun _ => hrest

theorem tryCatch {H : σ → Prop} {handler : ε → EStateM ε σ α} (hx : Contract P x Q H)
    (hh : ∀ e, Contract H (handler e) Q E) :
    Contract P (tryCatch x handler) Q E := by
  intro s hs
  have hrun := hx s hs
  show match EStateM.tryCatch x handler s with
    | .ok a s' => Q a s'
    | .error _ s' => E s'
  unfold EStateM.tryCatch
  cases hxs : x s with
  | ok a s' =>
    rw [hxs] at hrun
    exact hrun
  | error e s' =>
    rw [hxs] at hrun
    exact hh e s' hrun

/-- a program that cannot throw returns -/
theorem returns (h : Contract P x Q fun _ => False) {s : σ} (hs : P s) : ∃ a s', x s = .ok a s' ∧
    Q a s' := by
  have hrun := h s hs
  cases hx : x s with
  | ok a s' =>
    rw [hx] at hrun
    exact ⟨a, s', rfl, hrun⟩
  | error e s' =>
    rw [hx] at hrun
    exact absurd hrun id

end
end Contract

import Mathlib.Logic.Function.Basic
import Mathlib.Tactic.Common

/-!
# Partial programs: assertions, fuelled loops, runs under a contract

A program on a state `σ` is a function into `Option`: `none` is a failed assertion or an
exhausted loop, `some` a normal return.

* `check p`            an assertion;
* `loop cond body n`   `while (cond) body`, at most `n` tests of the condition.  `loop_total`:
                       an invariant of the body and a measure below the fuel give a normal
                       return, with the invariant and a false condition;
* `run step s ks`      the calls `ks` one after the other;
* `Legal step ok s ks` every call honours the contract `ok` in the state it is made in.
                       `run_total`: a step lemma gives the run lemma, and `run_related` does so
                       for two runs side by side; `legal_iff` says when a contract is exact.
-/

namespace Prog
variable {σ κ τ : Type*}

/-! ## assertions -/

/-- an assertion: no result when `p` fails -/
def check (p : Prop) [Decidable p] : Option Unit := if p then some () else none

theorem check_pos {p : Prop} [Decidable p] (h : p) : check p = some () := if_pos h

/-! ## loops -/

/-- `while (cond s) s := body s`; the fuel counts the tests of the condition -/
def loop (cond : σ → Bool) (body : σ → Option σ) : Nat → σ → Option σ
  | 0, _ => none
  | n+1, s => if cond s then (body s).bind (loop cond body n) else some s

/-- **Total correctness of a loop.**  The body keeps `I` and lowers `m`; fuel above `m` is
enough. -/
theorem loop_total (cond : σ → Bool) (body : σ → Option σ) (I : σ → Prop) (m : σ → Nat)
    (hbody : ∀ s, I s → cond s = true → ∃ s', body s = some s' ∧ I s' ∧ m s' < m s) :
    ∀ n s, I s → m s < n → ∃ s', loop cond body n s = some s' ∧ I s' ∧ cond s' = false := by
  intro n
  induction n with
  | zero => intro s _ hm; exact absurd hm (Nat.not_lt_zero _)
  | succ n ih =>
    intro s hI hm
    cases hc : cond s with
    | false => exact ⟨s, by simp [loop, hc], hI, hc⟩
    | true =>
      obtain ⟨s1, hb, hI1, hlt⟩ := hbody s hI hc
      obtain ⟨s2, hl, hI2, hc2⟩ := ih s1 hI1 (by omega)
      exact ⟨s2, by simp [loop, hc, hb, hl], hI2, hc2⟩

/-! ## runs -/

/-- the calls `ks`, one after the other -/
def run (step : σ → κ → Option σ) : σ → List κ → Option σ
  | s, [] => some s
  | s, k :: ks => (step s k).bind fun s' => run step s' ks

/-- every call of `ks` honours the contract `ok` in the state it is made in -/
def Legal (step : σ → κ → Option σ) (ok : σ → κ → Prop) : σ → List κ → Prop
  | _, [] => True
  | s, k :: ks => ok s k ∧ ∀ s', step s k = some s' → Legal step ok s' ks

instance Legal.decidable (step : σ → κ → Option σ) (ok : σ → κ → Prop)
    [∀ s k, Decidable (ok s k)] : ∀ s ks, Decidable (Legal step ok s ks)
  | _, [] => isTrue trivial
  | s, k :: ks =>
    match h : step s k with
    | none => decidable_of_iff (ok s k) ⟨fun h1 => ⟨h1, fun s' e => by rw [h] at e; cases e⟩, And.left⟩
    | some s1 =>
      have := Legal.decidable step ok s1 ks
      decidable_of_iff (ok s k ∧ Legal step ok s1 ks)
        ⟨fun h1 => ⟨h1.1, fun s' e => by rw [h] at e; cases e; exact h1.2⟩,
          fun h1 => ⟨h1.1, h1.2 s1 h⟩⟩

section
variable {step : σ → κ → Option σ} {ok : σ → κ → Prop}

theorem run_cons (s : σ) (k : κ) (ks : List κ) :
    run step s (k :: ks) = (step s k).bind fun s' => run step s' ks := rfl

theorem run_append (s : σ) (ks ls : List κ) :
    run step s (ks ++ ls) = (run step s ks).bind fun s' => run step s' ls := by
  induction ks generalizing s with
  | nil => rfl
  | cons k ks ih =>
    rw [List.cons_append, run_cons, run_cons, Option.bind_assoc]
    exact congrArg _ (funext fun s' => ih s')

/-- a contract that looks at the calls only -/
theorem legal_of_forall (ks : List κ) (h : ∀ k ∈ ks, ∀ s, ok s k) : ∀ s, Legal step ok s ks := by
  induction ks with
  | nil => intro s; trivial
  | cons k ks ih =>
    intro s
    exact ⟨h k List.mem_cons_self s, fun s' _ => ih (fun k hk => h k (List.mem_cons_of_mem _ hk)) s'⟩

/-- a contract that follows from an invariant -/
theorem legal_of_inv (I : σ → Prop) (hok : ∀ s k, I s → ok s k)
    (hstep : ∀ s k s', I s → step s k = some s' → I s') (ks : List κ) :
    ∀ s, I s → Legal step ok s ks := by
  induction ks with
  | nil => intro s _; trivial
  | cons k ks ih => intro s hI; exact ⟨hok s k hI, fun s' hs => ih s' (hstep s k s' hI hs)⟩

/-- **A step lemma gives the run lemma.**  A legal run never gets stuck and keeps `I`. -/
theorem run_total (I : σ → Prop)
    (hstep : ∀ s k, I s → ok s k → ∃ s', step s k = some s' ∧ I s') :
    ∀ ks s, I s → Legal step ok s ks → ∃ s', run step s ks = some s' ∧ I s' := by
  intro ks
  induction ks with
  | nil => intro s hI _; exact ⟨s, rfl, hI⟩
  | cons k ks ih =>
    intro s hI hL
    obtain ⟨s1, h1, hI1⟩ := hstep s k hI hL.1
    obtain ⟨s2, h2, hI2⟩ := ih s1 hI1 (hL.2 s1 h1)
    exact ⟨s2, by rw [run_cons, h1]; exact h2, hI2⟩

/-- **A contract that is exact.**  If a call keeps `I` exactly when it honours the contract, then
`I` holds after every call exactly when the run is legal. -/
theorem legal_iff (K I : σ → Prop)
    (hstep : ∀ s k, K s → I s → ∃ s', step s k = some s' ∧ K s' ∧ (I s' ↔ ok s k)) (ks : List κ) :
    ∀ s, K s → I s → ((∀ n, ∃ s', run step s (ks.take n) = some s' ∧ I s') ↔ Legal step ok s ks) := by
  induction ks with
  | nil =>
    intro s _ hI
    exact iff_of_true (fun n => ⟨s, by rw [List.take_nil]; rfl, hI⟩) trivial
  | cons k ks ih =>
    intro s hK hI
    obtain ⟨s1, h1, hK1, hok⟩ := hstep s k hK hI
    constructor
    · intro h
      have hI1 : I s1 := by
        obtain ⟨s', hr, hI'⟩ := h 1
        rw [List.take_succ_cons, List.take_zero, run_cons, h1] at hr
        cases hr
        exact hI'
      refine ⟨hok.mp hI1, fun s' hs' => ?_⟩
      rw [h1] at hs'
      cases hs'
      refine (ih s1 hK1 hI1).mp fun n => ?_
      obtain ⟨s', hr, hI'⟩ := h (n + 1)
      rw [List.take_succ_cons, run_cons, h1] at hr
      exact ⟨s', hr, hI'⟩
    · intro h n
      cases n with
      | zero => exact ⟨s, rfl, hI⟩
      | succ n =>
        obtain ⟨s', hr, hI'⟩ := (ih s1 hK1 (hok.mpr h.1)).mpr (h.2 s1 h1) n
        exact ⟨s', by rw [List.take_succ_cons, run_cons, h1]; exact hr, hI'⟩

/-- **Two runs side by side**, of calls that are related one by one -/
theorem run_related {R : κ → κ → Prop} (I : σ → σ → Prop)
    (hstep : ∀ s t k l, I s t → R k l → ∃ s' t', step s k = some s' ∧ step t l = some t' ∧ I s' t')
    {ks ls : List κ} (hR : List.Forall₂ R ks ls) :
    ∀ s t, I s t → ∃ s' t', run step s ks = some s' ∧ run step t ls = some t' ∧ I s' t' := by
  induction hR with
  | nil => intro s t h; exact ⟨s, t, rfl, rfl, h⟩
  | cons hkl _ ih =>
    intro s t h
    obtain ⟨s1, t1, hs, ht, h1⟩ := hstep s t _ _ h hkl
    obtain ⟨s2, t2, hs2, ht2, h2⟩ := ih s1 t1 h1
    exact ⟨s2, t2, by rw [run_cons, hs]; exact hs2, by rw [run_cons, ht]; exact ht2, h2⟩

end

end Prog

import Redline.Core.Engine
import Redline.Lib.Decoding
import Redline.Sched.Complete

/-!
# One request alone

The reference the engine is compared with: a request on its own, over its own contiguous cache.
The prompt is fed token by token; then each round takes the argmax of the last row, appends it or
the scripted token in its place, and stops at an end-of-sequence token or at the length limit, or
feeds what it appended.

`alone F eos a n` is the reference after `n` tokens and `reference F eos a` after `max_new_tokens`;
it has stopped by then (`reference_stops`), and what has stopped stays so (`alone_settled`).
-/

namespace Redline
open Decoding

/-- the device numerics: from a token, its position and the cells before it, the cell to write and
the argmax -/
abbrev Numerics (κ : Type) := Int → Nat → List κ → κ × Int

structure Alone (κ : Type) where
  /-- the cells so far, and the argmax of the last row -/
  fed : List κ × Int
  emitted : List Int := []
  appended : List Int := []
  reason : FinishReason := .kNone

section
variable {κ : Type} (F : Numerics κ) (eos : List Int) (a : RequestArgs)

def Alone.start : Alone κ := { fed := a.promptTokens.foldl (feed F) ([], 0) }

/-- the token to append: the scripted one as far as the script goes, then the sampled one -/
def Alone.token (t : Alone κ) : Int := a.forcedTokens.getD t.appended.length t.fed.2

/-- one more token -/
def Alone.next (t : Alone κ) : Alone κ :=
  if t.reason ≠ .kNone then t
  else
    let t' := { t with
      emitted := t.emitted ++ [t.fed.2]
      appended := t.appended ++ [t.token a] }
    if !a.ignoreEos && eos.contains (t.token a) then { t' with reason := .kEos }
    else if a.maxNewTokens ≤ t'.appended.length then { t' with reason := .kLength }
    else { t' with fed := feed F t.fed (t.token a) }

/-- after `n` tokens -/
def alone (n : Nat) : Alone κ := (Alone.next F eos a)^[n] (.start F a)

def reference : Alone κ := alone F eos a a.maxNewTokens.toNat

variable {F eos a} {t : Alone κ}

theorem alone_succ (n : Nat) : alone F eos a (n + 1) = Alone.next F eos a (alone F eos a n) :=
  Function.iterate_succ_apply' _ _ _

theorem Alone.next_stopped (h : t.reason ≠ .kNone) : Alone.next F eos a t = t := if_pos h

theorem Alone.next_emitted (h : t.reason = .kNone) :
    (Alone.next F eos a t).emitted = t.emitted ++ [t.fed.2] := by
  unfold Alone.next
  rw [if_neg (not_not.mpr h)]
  simp only
  split
  · rfl
  · split <;> rfl

theorem Alone.next_appended (F : Numerics κ) (eos : List Int) (a : RequestArgs)
    (h : t.reason = .kNone) :
    (Alone.next F eos a t).appended = t.appended ++ [t.token a] := by
  unfold Alone.next
  rw [if_neg (not_not.mpr h)]
  simp only
  split
  · rfl
  · split <;> rfl

theorem Alone.next_reason (h : t.reason = .kNone) : (Alone.next F eos a t).reason =
    if !a.ignoreEos && eos.contains (t.token a) then .kEos
    else if a.maxNewTokens ≤ t.appended.length + 1 then .kLength
    else .kNone := by
  have hlen : ((t.appended ++ [t.token a]).length : Int) = t.appended.length + 1 := by simp
  unfold Alone.next
  rw [if_neg (not_not.mpr h)]
  simp only
  rw [← hlen]
  split
  · rfl
  · split
    · rfl
    · exact h

theorem Alone.next_fed (h : t.reason = .kNone) (h' : (Alone.next F eos a t).reason = .kNone) :
    (Alone.next F eos a t).fed = feed F t.fed (t.token a) ∧
      ¬ a.maxNewTokens ≤ t.appended.length + 1 := by
  have hlen : ((t.appended ++ [t.token a]).length : Int) = t.appended.length + 1 := by simp
  unfold Alone.next at h' ⊢
  rw [if_neg (not_not.mpr h)] at h' ⊢
  simp only at h' ⊢
  rw [← hlen]
  split at h'
  · cases h'
  · split at h'
    · cases h'
    · rename_i hgo hmax
      rw [if_neg hgo, if_neg hmax]
      exact ⟨rfl, hmax⟩

/-- what has not stopped has fed all its tokens -/
structure Alone.Going (F : Numerics κ) (a : RequestArgs) (n : Nat) (t : Alone κ) : Prop where
  length : t.appended.length = n
  fed : t.fed = (a.promptTokens ++ t.appended).foldl (feed F) ([], 0)
  below : n = 0 ∨ (n : Int) < a.maxNewTokens

theorem alone_going (n : Nat) : (alone F eos a n).reason = .kNone →
    Alone.Going F a n (alone F eos a n) := by
  induction n with
  | zero =>
    intro _
    refine ⟨rfl, ?_, Or.inl rfl⟩
    show _ = (a.promptTokens ++ []).foldl _ _
    rw [List.append_nil]
    rfl
  | succ n ih =>
    intro h
    rw [alone_succ] at h ⊢
    have hn : (alone F eos a n).reason = .kNone := by
      by_contra hn
      rw [Alone.next_stopped hn] at h
      exact hn h
    obtain ⟨hlen, hfed, _⟩ := ih hn
    have happ := Alone.next_appended F eos a hn
    obtain ⟨hnext, hmax⟩ := Alone.next_fed hn h
    refine ⟨by rw [happ, List.length_append, hlen]; rfl, ?_, Or.inr ?_⟩
    · rw [hnext, happ, ← List.append_assoc, List.foldl_append, ← hfed]
      rfl
    · rw [hlen] at hmax
      omega

/-- **The reference stops.** -/
theorem reference_stops (F : Numerics κ) (eos : List Int) (h : 0 < a.maxNewTokens) :
    (reference F eos a).reason ≠ .kNone := by
  intro hn
  have := (alone_going _ hn).below
  omega

theorem alone_add {n : Nat} (h : (alone F eos a n).reason ≠ .kNone) (k : Nat) :
    alone F eos a (n + k) = alone F eos a n := by
  induction k with
  | zero => rfl
  | succ k ih => rw [← Nat.add_assoc, alone_succ, ih, Alone.next_stopped h]

/-- whatever has stopped is the reference -/
theorem alone_settled (hmax : 0 < a.maxNewTokens) {n : Nat}
    (h : (alone F eos a n).reason ≠ .kNone) : alone F eos a n = reference F eos a := by
  have h1 := alone_add h a.maxNewTokens.toNat
  have h2 := alone_add (reference_stops F eos hmax) n
  rw [Nat.add_comm] at h2
  exact h1.symm.trans h2

/-- the last row fed is that of the newest token -/
theorem alone_newest {n : Nat} (h : (alone F eos a n).reason = .kNone) (hp : a.promptTokens ≠ []) :
    ∃ v, entry F 0 (a.promptTokens ++ (alone F eos a n).appended)
      (a.promptTokens.length + n - 1) = some (v, (alone F eos a n).fed.2) := by
  obtain ⟨hlen, hfed, _⟩ := alone_going n h
  obtain ⟨ts, t, hts⟩ : ∃ ts t, a.promptTokens ++ (alone F eos a n).appended = ts ++ [t] := by
    refine ⟨_, _, (List.dropLast_append_getLast (l := a.promptTokens ++ _) ?_).symm⟩
    exact List.append_ne_nil_of_left_ne_nil hp _
  have hpos : a.promptTokens.length + n - 1 = ts.length := by
    have := congrArg List.length hts
    rw [List.length_append, List.length_append, hlen] at this
    simp at this
    omega
  rw [hts, hpos, entry_last, hfed, hts]
  exact ⟨_, rfl⟩

end
end Redline

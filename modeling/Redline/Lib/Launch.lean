import Redline.Lib.Threads

/-!
# Launches

A launch is a two-dimensional grid of blocks of threads, which take their steps in any order.

* `Grid.Ends`      what some order of the threads ends with;
* `Written`        a memory with given stores, each cell at most once: `Written.unique`;
* `Grid.written`   a launch of independent threads leaves the stores its threads make alone.
-/

namespace Threads
variable {A K S : Type}

structure Grid (A K S : Type) where
  gridX : Nat
  gridY : Nat
  blockDim : Nat
  thread : Nat → Nat → Nat → Prog A K S (Fin blockDim) Unit

def Grid.threads (g : Grid A K S) (b : Fin g.gridX × Fin g.gridY) (t : Fin g.blockDim) :
    Prog A K S (Fin g.blockDim) Unit :=
  g.thread b.1 b.2 t

section
variable [DecidableEq A]

/-- some order of the threads ends with this memory, after these stores -/
def Grid.Ends (g : Grid A K S) (m m' : A → K) (log : List (A × K)) : Prop :=
  ∃ c, Relation.ReflTransGen Step (start m g.threads) c ∧ Done c ∧ c.mem = m' ∧ c.log = log

/-! ## stores -/

/-- exactly the stores of `P` were made, no cell twice -/
structure Written (P : A × K → Prop) (m m' : A → K) (log : List (A × K)) : Prop where
  mem : m' = Stores.store m log
  nodup : (log.map Prod.fst).Nodup
  log_iff : ∀ w, w ∈ log ↔ P w

section
variable {P : A × K → Prop} {m m' m₁ m₂ : A → K} {log log₁ log₂ : List (A × K)}

theorem Written.at (h : Written P m m' log) {a : A} {v : K} (hw : P (a, v)) : m' a = v := by
  rw [h.mem]
  exact Stores.store_of_mem h.nodup ((h.log_iff _).mpr hw) m

theorem Written.frame (h : Written P m m' log) {a : A} (ha : ∀ v, ¬ P (a, v)) : m' a = m a := by
  rw [h.mem]
  refine Stores.store_of_not_mem (fun hin => ?_) m
  obtain ⟨w, hw, rfl⟩ := List.mem_map.mp hin
  exact ha w.2 ((h.log_iff w).mp hw)

theorem Written.congr {P' : A × K → Prop} (h : Written P m m' log) (hP : ∀ w, P w ↔ P' w) :
    Written P' m m' log :=
  ⟨h.mem, h.nodup, fun w => (h.log_iff w).trans (hP w)⟩

/-- **The stores determine the memory.** -/
theorem Written.unique (h₁ : Written P m m₁ log₁) (h₂ : Written P m m₂ log₂) :
    m₁ = m₂ ∧ log₁.Perm log₂ := by
  have hperm : log₁.Perm log₂ := (List.perm_ext_iff_of_nodup (List.Nodup.of_map _ h₁.nodup)
    (List.Nodup.of_map _ h₂.nodup)).mpr fun w => (h₁.log_iff w).trans (h₂.log_iff w).symm
  rw [h₁.mem, h₂.mem]
  exact ⟨Stores.store_perm h₁.nodup hperm m, hperm⟩

end

/-! ## launches of independent threads -/

section
variable {g : Grid A K S} {exchanged : Fin g.gridX × Fin g.gridY → Nat → Fin g.blockDim → S}
    {m m' : A → K} {R : A → Prop}
  {W : Fin g.gridX × Fin g.gridY → Fin g.blockDim → A → Prop} {phases : Fin g.gridX × Fin g.gridY → Nat}
  {log : List (A × K)}

theorem Grid.written (h : Independent g.threads exchanged m R W phases)
    (hn : ∀ b t, ((run (exchanged b) (g.threads b t) 0 m).log.map Prod.fst).Nodup)
    (hends : g.Ends m m' log) :
    Written (fun w => ∃ b t, w ∈ (run (exchanged b) (g.threads b t) 0 m).log) m m' log := by
  obtain ⟨c, hrun, hdone, rfl, rfl⟩ := hends
  obtain ⟨hnodup, hlog⟩ := h.stored hrun hdone hn
  exact ⟨h.mem hrun, hnodup, hlog⟩

theorem Grid.exists_ends (h : Independent g.threads exchanged m R W phases) :
    ∃ m' log, g.Ends m m' log := by
  obtain ⟨c, hrun, hdone⟩ := h.exists_done .refl
  exact ⟨c.mem, c.log, c, hrun, hdone, rfl, rfl⟩

end
end
end Threads

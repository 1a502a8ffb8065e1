import Redline.Lib.Threads

/-!
# Threads of two passes

A thread walks its rounds, gives what it gathered to its block, and walks its rounds again.

* `foldlM_guarded`   a loop over a range whose rounds may have nothing to do;
* `run_twoPass`      rounds with cells of their own: each pass stores what its rounds store alone, the
                     second after the first.
-/

namespace Threads
variable {A K S τ ρ σ ι : Type}

/-! ## loops with idle rounds -/

theorem Prog.bind_ret (x : Prog A K S τ ρ) : x.bind .ret = x := by
  induction x with
  | ret r => rfl
  | load a next ih => exact congrArg (Prog.load a) (funext ih)
  | store a v next ih => exact congrArg (Prog.store a v) ih
  | exchange s next ih => exact congrArg (Prog.exchange s) (funext ih)

theorem Prog.bind_bind {ρ' : Type} (x : Prog A K S τ ρ) (f : ρ → Prog A K S τ ρ')
    (g : ρ' → Prog A K S τ σ) :
    (x.bind f).bind g = x.bind fun r => (f r).bind g := by
  induction x with
  | ret r => rfl
  | load a next ih => exact congrArg (Prog.load a) (funext ih)
  | store a v next ih => exact congrArg (Prog.store a v) ih
  | exchange s next ih => exact congrArg (Prog.exchange s) (funext ih)

instance : LawfulMonad (Prog A K S τ) := .mk' _ Prog.bind_ret (fun _ _ => rfl) Prog.bind_bind

/-- the rounds of a loop that do something -/
theorem foldlM_guarded (f : σ → ι → Prog A K S τ σ) (p : ι → Prop) [DecidablePred p]
    (l : List ι) (s : σ) :
    l.foldlM (fun s i => if p i then f s i else pure s) s = (l.filter p).foldlM f s := by
  rw [List.foldlM_filter]
  simp only [decide_eq_true_eq]

theorem forM_guarded (body : ι → Prog A K S τ Unit) (p : ι → Prop) [DecidablePred p] (l : List ι) :
    (l.forM fun i => if p i then body i else pure ()) = (l.filter p).forM body := by
  rw [forM_eq_foldlM, forM_eq_foldlM]
  exact foldlM_guarded (fun _ i => body i) p l ()

/-! ## loops without barriers -/

section
variable [DecidableEq A] {exchanged : Nat → τ → S} {t : τ}

theorem gives_foldlM {f : σ → ι → Prog A K S τ σ} {l : List ι}
    (h : ∀ s, ∀ i ∈ l, ∀ p m, Gives exchanged t (f s i) p m)
    (s : σ) (p : Nat) (m : A → K) : Gives exchanged t (l.foldlM f s) p m := by
  induction l generalizing s p m with
  | nil => trivial
  | cons i l ih =>
    rw [List.foldlM_cons]
    exact gives_bind.mpr ⟨h s i List.mem_cons_self p m,
      ih (fun s j hj => h s j (List.mem_cons_of_mem _ hj)) _ _ _⟩

theorem gives_forM {body : ι → Prog A K S τ Unit} {l : List ι}
    (h : ∀ i ∈ l, ∀ p m, Gives exchanged t (body i) p m)
    (p : Nat) (m : A → K) : Gives exchanged t (l.forM body) p m := by
  rw [forM_eq_foldlM]
  exact gives_foldlM (fun _ => h) () p m

end

/-! ## two passes -/

/-- all rounds, a barrier, all rounds again -/
def twoPass (l : List ι) (first : σ → ι → Prog A K S τ σ) (s₀ : σ) (give : σ → S)
    (second : σ → (τ → S) → ι → Prog A K S τ Unit) : Prog A K S τ Unit := do
  let s ← l.foldlM first s₀
  let given ← barrier (give s)
  l.forM (second s given)

section
variable {l : List ι} {first : σ → ι → Prog A K S τ σ} {s₀ : σ} {give : σ → S}
  {second : σ → (τ → S) → ι → Prog A K S τ Unit} {R : A → Prop} {foot : ι → A → Prop}

/-- each round of either pass keeps to cells of its own -/
structure PassesWithin (l : List ι) (first : σ → ι → Prog A K S τ σ)
    (second : σ → (τ → S) → ι → Prog A K S τ Unit) (R : A → Prop) (foot : ι → A → Prop) : Prop where
  first : ∀ s, ∀ i ∈ l, Within R (foot i) (first s i)
  second : ∀ s given, ∀ i ∈ l, Within R (foot i) (second s given i)
  fixed : ∀ i ∈ l, ∀ a, foot i a → ¬ R a
  apart : l.Pairwise fun i j => ∀ a, foot i a → ¬ foot j a

theorem PassesWithin.within (h : PassesWithin l first second R foot) :
    Within R (fun a => ∃ i ∈ l, foot i a) (twoPass l first s₀ give second) := by
  refine within_bind (within_foldlM (fun s i hi => (h.first s i hi).mono fun a ha => ⟨i,
    hi, ha⟩) _) fun s => ?_
  refine within_bind (show Within _ _ (barrier (give s)) from fun _ => trivial) fun given => ?_
  exact within_forM fun i hi => (h.second s given i hi).mono fun a ha => ⟨i, hi, ha⟩

variable [DecidableEq A] {exchanged : Nat → τ → S} {t : τ} {g : σ → ι → σ}
    {ws : ι → List (A × K)} {m : A → K}

/-- the cells of a round between the passes -/
theorem PassesWithin.between (h : PassesWithin l first second R foot)
    (hws : ∀ i ∈ l, ∀ w ∈ ws i, foot i w.1) {i : ι}
    (hi : i ∈ l) {a : A} (ha : R a ∨ foot i a) : Stores.store m (l.flatMap ws) a = Stores.store m
    (ws i) a := by
  obtain ⟨before, after, hl⟩ := List.append_of_mem hi
  have hapart := h.apart
  rw [hl] at hapart
  obtain ⟨_, hafter, hbefore⟩ := List.pairwise_append.mp hapart
  have huntouched : ∀ js : List ι, (∀ j ∈ js, j ∈ l ∧ ∀ a, foot j a → ¬ foot i a) → ∀ m : A → K,
      Stores.store m (js.flatMap ws) a = m a := by
    intro js hjs m
    refine Stores.store_of_not_mem (fun hin => ?_) m
    obtain ⟨w, hw, rfl⟩ := List.mem_map.mp hin
    obtain ⟨j, hj, hw⟩ := List.mem_flatMap.mp hw
    obtain ⟨hjl, hji⟩ := hjs j hj
    have hfoot := hws j hjl w hw
    exact ha.elim (h.fixed j hjl w.1 hfoot) (hji w.1 hfoot)
  rw [hl, List.flatMap_append, List.flatMap_cons, Stores.store_append, Stores.store_append]
  rw [huntouched after fun j hj => ⟨hl ▸ List.mem_append_right _ (List.mem_cons_of_mem _ hj),
    fun a hja hia =>
    (List.pairwise_cons.mp hafter).1 j hj a hia hja⟩]
  refine Stores.store_congr (huntouched before (fun j hj => ⟨hl ▸ List.mem_append_left _ hj, ?_⟩) m) _
  exact hbefore j hj i List.mem_cons_self

theorem PassesWithin.first_stores (h : PassesWithin l first second R foot) (s₀ : σ)
    (hfirst : ∀ s, ∀ i ∈ l, run exchanged (first s i) 0 m = ⟨g s i, 0, Stores.store m (ws i), ws i⟩) :
    ∀ i ∈ l, ∀ w ∈ ws i, foot i w.1 := by
  intro i hi w hw
  have hlog : ∀ w ∈ (run exchanged (first s₀ i) 0 m).log, foot i w.1 := log_within (h.first s₀ i hi) 0 m
  rw [hfirst s₀ i hi] at hlog
  exact hlog w hw

theorem PassesWithin.run_first (h : PassesWithin l first second R foot)
    (hfirst : ∀ s, ∀ i ∈ l, run exchanged (first s i) 0 m = ⟨g s i, 0, Stores.store m (ws i),
      ws i⟩) (s₀ : σ) :
    run exchanged (l.foldlM first s₀) 0 m =
      ⟨l.foldl g s₀, 0, Stores.store m (l.flatMap ws), l.flatMap ws⟩ := by
  refine run_foldlM (fun i a => R a ∨ foot i a) g (fun s i hi m' hm => ?_) ?_ s₀ fun _ _ _ _ => rfl
  · have hphase : (run exchanged (first s i) 0 m).phase = 0 := by rw [hfirst s i hi]
    have hround := run_of_within (h.first s i hi) hm hphase
    rw [hfirst s i hi] at hround
    exact hround
  · refine h.apart.imp_of_mem fun {i j} hi _ hij w hw => not_or.mpr ?_
    have hfoot := h.first_stores s₀ hfirst i hi w hw
    exact ⟨h.fixed i hi w.1 hfoot, hij w.1 hfoot⟩

/-- **Both passes, round by round.** -/
theorem run_twoPass (h : PassesWithin l first second R foot)
    (hfirst : ∀ s, ∀ i ∈ l, run exchanged (first s i) 0 m = ⟨g s i, 0, Stores.store m (ws i), ws i⟩)
    (hphase : ∀ s given m, ∀ i ∈ l, (run exchanged (second s given i) 1 m).phase = 1) :
    (run exchanged (twoPass l first s₀ give second) 0 m).phase = 1 ∧
    (run exchanged (twoPass l first s₀ give second) 0 m).log = l.flatMap ws ++ l.flatMap fun i =>
      (run exchanged (second (l.foldl g s₀) (exchanged 0) i) 1 (Stores.store m (ws i))).log := by
  have hsecond : ∀ i ∈ l, (run exchanged (second (l.foldl g s₀) (exchanged 0) i) 1 (Stores.store m (l.flatMap ws))).log =
      (run exchanged (second (l.foldl g s₀) (exchanged 0) i) 1 (Stores.store m (ws i))).log := fun i hi =>
    (run_congr exchanged (h.second _ _ i hi) 1 fun a ha =>
      h.between (h.first_stores s₀ hfirst) hi ha).2.2.1
  have hrest : run exchanged (l.forM (second (l.foldl g s₀) (exchanged 0))) 1
      (Stores.store m (l.flatMap ws)) = _ :=
    run_forM foot (fun i hi => h.second (l.foldl g s₀) (exchanged 0) i hi)
      (fun i hi => hphase _ _ _ i hi) h.fixed h.apart
  unfold twoPass
  rw [run_bind_eq (h.run_first hfirst s₀)]
  show (run exchanged (l.forM (second (l.foldl g s₀) (exchanged 0))) 1 (Stores.store m (l.flatMap ws))).phase = 1 ∧
    l.flatMap ws ++ (run exchanged (l.forM (second (l.foldl g s₀) (exchanged 0))) 1 (Stores.store m (l.flatMap ws))).log = _
  rw [hrest]
  exact ⟨rfl, congrArg (l.flatMap ws ++ ·) (List.flatMap_congr hsecond)⟩

/-- the thread gives what its first pass gathered -/
theorem gives_twoPass (h : PassesWithin l first second R foot)
    (hfirst : ∀ s, ∀ i ∈ l, run exchanged (first s i) 0 m = ⟨g s i, 0, Stores.store m (ws i), ws i⟩)
    (hgives : ∀ s, ∀ i ∈ l, ∀ p m, Gives exchanged t (first s i) p m)
    (hgives' : ∀ s given, ∀ i ∈ l, ∀ p m, Gives exchanged t (second s given i) p m)
    (hgive : give (l.foldl g s₀) = exchanged 0 t) :
    Gives exchanged t (twoPass l first s₀ give second) 0 m := by
  refine gives_bind.mpr ⟨gives_foldlM hgives s₀ 0 m, ?_⟩
  rw [h.run_first hfirst s₀]
  exact ⟨hgive, gives_forM (fun i hi => hgives' _ _ i hi) 1 _⟩

end
end Threads

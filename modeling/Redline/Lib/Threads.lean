import Mathlib.Algebra.BigOperators.Group.Finset.Basic
import Mathlib.Algebra.Order.BigOperators.Group.Finset
import Mathlib.Data.Fintype.BigOperators
import Mathlib.Data.Fintype.Prod
import Mathlib.Logic.Relation
import Redline.Lib.Stores

/-!
# Blocks of threads over one memory

A thread loads and stores single cells, and exchanges values with the threads of its block at barriers.
The threads of all blocks take their steps in any order.

* `Prog`             what a thread still does; `run` executes it alone, with given exchanges;
* `run_congr`        a thread depends on the cells of its footprint only;
* `run_foldlM`       a loop whose rounds do not touch each other's cells;
* `Independent`      threads that store to cells of their own and load those and fixed ones;
* `Independent.log`  however their steps are interleaved, they make the stores each makes alone;
* `Independent.exists_done`   and no order of steps runs into a deadlock.
-/

namespace Threads
variable {A K S τ ρ σ : Type}

/-- `exchange s` waits for the threads of the block, and gets what each of them gave -/
inductive Prog (A K S τ ρ : Type) where
  | ret (r : ρ)
  | load (a : A) (next : K → Prog A K S τ ρ)
  | store (a : A) (v : K) (next : Prog A K S τ ρ)
  | exchange (s : S) (next : (τ → S) → Prog A K S τ ρ)

namespace Prog

def bind : Prog A K S τ ρ → (ρ → Prog A K S τ σ) → Prog A K S τ σ
  | ret r, f => f r
  | load a next, f => .load a fun v => (next v).bind f
  | store a v next, f => .store a v (next.bind f)
  | exchange s next, f => .exchange s fun d => (next d).bind f

instance : Monad (Prog A K S τ) where
  pure := ret
  bind := bind

end Prog

def get (a : A) : Prog A K S τ K := .load a .ret

def put (a : A) (v : K) : Prog A K S τ Unit := .store a v (.ret ())

def barrier (s : S) : Prog A K S τ (τ → S) := .exchange s .ret

/-! ## footprints -/

section
variable {R W : A → Prop}

/-- the thread loads cells of `R` and `W`, and stores to cells of `W` -/
def Within (R W : A → Prop) : Prog A K S τ ρ → Prop
  | .ret _ => True
  | .load a next => (R a ∨ W a) ∧ ∀ v, Within R W (next v)
  | .store a _ next => W a ∧ Within R W next
  | .exchange _ next => ∀ d, Within R W (next d)

theorem within_bind {x : Prog A K S τ ρ} {f : ρ → Prog A K S τ σ} (hx : Within R W x)
    (hf : ∀ r, Within R W (f r)) :
    Within R W (x >>= f) := by
  show Within R W (x.bind f)
  induction x with
  | ret r => exact hf r
  | load a next ih => exact ⟨hx.1, fun v => ih v (hx.2 v)⟩
  | store a v next ih => exact ⟨hx.1, ih hx.2⟩
  | exchange s next ih => exact fun d => ih d (hx d)

theorem Within.mono {W' : A → Prop} {x : Prog A K S τ ρ} (h : Within R W x) (hW : ∀ a, W a → W' a) :
    Within R W' x := by
  induction x with
  | ret r => trivial
  | load a next ih => exact ⟨h.1.imp_right (hW a), fun v => ih v (h.2 v)⟩
  | store a v next ih => exact ⟨hW a h.1, ih h.2⟩
  | exchange s next ih => exact fun d => ih d (h d)

theorem within_foldlM {ι : Type} {f : σ → ι → Prog A K S τ σ} {l : List ι}
    (hf : ∀ s, ∀ i ∈ l, Within R W (f s i)) (s : σ) :
    Within R W (l.foldlM f s) := by
  induction l generalizing s with
  | nil => trivial
  | cons i l ih =>
    rw [List.foldlM_cons]
    exact within_bind (hf s i List.mem_cons_self) fun s' =>
      ih (fun s j hj => hf s j (List.mem_cons_of_mem _ hj)) s'

theorem forM_eq_foldlM {ι : Type} (body : ι → Prog A K S τ Unit) (l : List ι) :
    l.forM body = l.foldlM (fun _ i => body i) () := by
  induction l with
  | nil => rfl
  | cons i l ih =>
    show (body i >>= fun _ => l.forM body) = _
    rw [ih]
    rfl

theorem within_forM {ι : Type} {body : ι → Prog A K S τ Unit} {l : List ι}
    (h : ∀ i ∈ l, Within R W (body i)) :
    Within R W (l.forM body) := by
  rw [forM_eq_foldlM]
  exact within_foldlM (fun _ => h) ()

end

/-! ## one thread -/

/-- the end of a thread: its value, the barriers it passed, the memory and the stores it made -/
structure Outcome (A K ρ : Type) where
  value : ρ
  phase : Nat
  mem : A → K
  log : List (A × K)

/-- the same end, after some stores -/
def Outcome.after (ws : List (A × K)) (o : Outcome A K ρ) : Outcome A K ρ :=
  { o with log := ws ++ o.log }

section
variable [DecidableEq A]

/-- a thread alone, when `exchanged p` is what the block gives at its barrier `p` -/
def run (exchanged : Nat → τ → S) : Prog A K S τ ρ → Nat → (A → K) → Outcome A K ρ
  | .ret r, p, m => ⟨r, p, m, []⟩
  | .load a next, p, m => run exchanged (next (m a)) p m
  | .store a v next, p, m => (run exchanged next p (Function.update m a v)).after [(a, v)]
  | .exchange _ next, p, m => run exchanged (next (exchanged p)) (p + 1) m

/-- the steps of the thread -/
def size (exchanged : Nat → τ → S) : Prog A K S τ ρ → Nat → (A → K) → Nat
  | .ret _, _, _ => 0
  | .load a next, p, m => size exchanged (next (m a)) p m + 1
  | .store a v next, p, m => size exchanged next p (Function.update m a v) + 1
  | .exchange _ next, p, m => size exchanged (next (exchanged p)) (p + 1) m + 1

/-- the thread gives at each barrier what is expected of it -/
def Gives (exchanged : Nat → τ → S) (t : τ) : Prog A K S τ ρ → Nat → (A → K) → Prop
  | .ret _, _, _ => True
  | .load a next, p, m => Gives exchanged t (next (m a)) p m
  | .store a v next, p, m => Gives exchanged t next p (Function.update m a v)
  | .exchange s next, p, m => s = exchanged p t ∧ Gives exchanged t (next (exchanged p)) (p + 1) m

variable {exchanged : Nat → τ → S} {t : τ} {R W : A → Prop}

theorem run_bind (x : Prog A K S τ ρ) (f : ρ → Prog A K S τ σ) (p : Nat) (m : A → K) :
    run exchanged (x >>= f) p m =
      (run exchanged (f (run exchanged x p m).value) (run exchanged x p m).phase (run exchanged x p m).mem).after
        (run exchanged x p m).log := by
  show run exchanged (x.bind f) p m = _
  induction x generalizing p m with
  | ret r => rfl
  | load a next ih => exact ih _ p m
  | store a v next ih =>
    unfold Prog.bind
    rw [run, ih]
    rfl
  | exchange s next ih => exact ih _ (p + 1) m

/-- a thread that starts with a thread of known end -/
theorem run_bind_eq {x : Prog A K S τ ρ} {f : ρ → Prog A K S τ σ} {p q : Nat} {m m' : A → K} {r : ρ}
    {ws : List (A × K)} (h : run exchanged x p m = ⟨r, q, m', ws⟩) :
    run exchanged (x >>= f) p m = (run exchanged (f r) q m').after ws := by
  rw [run_bind, h]

theorem gives_bind {x : Prog A K S τ ρ} {f : ρ → Prog A K S τ σ} {p : Nat} {m : A → K} :
    Gives exchanged t (x >>= f) p m ↔ Gives exchanged t x p m ∧
      Gives exchanged t (f (run exchanged x p m).value) (run exchanged x p m).phase
        (run exchanged x p m).mem := by
  show Gives exchanged t (x.bind f) p m ↔ _
  induction x generalizing p m with
  | ret r => exact iff_of_eq (true_and _).symm
  | load a next ih => exact ih _
  | store a v next ih => exact ih
  | exchange s next ih =>
    show s = _ ∧ Gives exchanged t ((next _).bind f) (p + 1) m ↔ (s = _ ∧ _) ∧ _
    rw [ih, and_assoc]
    rfl

/-- the memory at the end holds the stores of the thread -/
theorem run_mem (x : Prog A K S τ ρ) (p : Nat) (m : A → K) :
    (run exchanged x p m).mem = Stores.store m (run exchanged x p m).log := by
  induction x generalizing p m with
  | ret r => rfl
  | load a next ih => exact ih _ p m
  | store a v next ih => exact ih p _
  | exchange s next ih => exact ih _ (p + 1) m

theorem log_within {x : Prog A K S τ ρ} (h : Within R W x) (p : Nat) (m : A → K) :
    ∀ w ∈ (run exchanged x p m).log, W w.1 := by
  induction x generalizing p m with
  | ret r => exact fun w hw => absurd hw List.not_mem_nil
  | load a next ih => exact ih _ (h.2 _) p m
  | store a v next ih =>
    intro w hw
    rcases List.mem_cons.mp hw with rfl | hw
    · exact h.1
    · exact ih h.2 p _ w hw
  | exchange s next ih => exact ih _ (h _) (p + 1) m

theorem le_phase (x : Prog A K S τ ρ) (p : Nat) (m : A → K) : p ≤ (run exchanged x p m).phase := by
  induction x generalizing p m with
  | ret r => exact le_rfl
  | load a next ih => exact ih _ p m
  | store a v next ih => exact ih p _
  | exchange s next ih => exact (Nat.le_succ p).trans (ih _ (p + 1) m)

theorem update_congr {m m' : A → K} {a : A} (v : K) (hm : ∀ b, R b ∨ W b → m b = m' b) :
    ∀ b, R b ∨ W b → Function.update m a v b = Function.update m' a v b := by
  intro b hb
  by_cases hba : b = a
  · rw [hba, Function.update_self, Function.update_self]
  · rw [Function.update_of_ne hba, Function.update_of_ne hba, hm b hb]

/-- **A thread depends on its footprint only.** -/
theorem run_congr (exchanged : Nat → τ → S) {x : Prog A K S τ ρ} (h : Within R W x) (p : Nat)
    {m m' : A → K} (hm : ∀ a, R a ∨ W a → m a = m' a) :
    (run exchanged x p m).value = (run exchanged x p m').value ∧
    (run exchanged x p m).phase = (run exchanged x p m').phase ∧
    (run exchanged x p m).log = (run exchanged x p m').log ∧
      size exchanged x p m = size exchanged x p m' := by
  induction x generalizing p m m' with
  | ret r => exact ⟨rfl, rfl, rfl, rfl⟩
  | load a next ih =>
    obtain ⟨hvalue, hphase, hlog, hsize⟩ := ih (m a) (h.2 _) p hm
    rw [hm a h.1] at hvalue hphase hlog hsize
    unfold run size
    rw [hm a h.1]
    exact ⟨hvalue, hphase, hlog, congrArg (· + 1) hsize⟩
  | store a v next ih =>
    obtain ⟨hvalue, hphase, hlog, hsize⟩ := ih h.2 p (update_congr v hm)
    exact ⟨hvalue, hphase, congrArg ((a, v) :: ·) hlog, congrArg (· + 1) hsize⟩
  | exchange s next ih =>
    obtain ⟨hvalue, hphase, hlog, hsize⟩ := ih (exchanged p) (h _) (p + 1) hm
    exact ⟨hvalue, hphase, hlog, congrArg (· + 1) hsize⟩

theorem gives_congr {x : Prog A K S τ ρ} (h : Within R W x) (p : Nat) {m m' : A → K}
    (hm : ∀ a, R a ∨ W a → m a = m' a) :
    Gives exchanged t x p m ↔ Gives exchanged t x p m' := by
  induction x generalizing p m m' with
  | ret r => exact Iff.rfl
  | load a next ih =>
    show Gives exchanged t (next (m a)) p m ↔ Gives exchanged t (next (m' a)) p m'
    rw [hm a h.1]
    exact ih (m' a) (h.2 _) p hm
  | store a v next ih => exact ih h.2 p (update_congr v hm)
  | exchange s next ih => exact and_congr_right fun _ => ih _ (h _) (p + 1) hm

/-- without values to exchange there is nothing to expect -/
theorem gives_of_subsingleton [Subsingleton S] (x : Prog A K S τ ρ) (p : Nat) (m : A → K) :
    Gives exchanged t x p m := by
  induction x generalizing p m with
  | ret r => trivial
  | load a next ih => exact ih _ p m
  | store a v next ih => exact ih p _
  | exchange s next ih => exact ⟨Subsingleton.elim _ _, ih _ (p + 1) m⟩

/-- a loop without barriers, whose rounds store to no cell that a later round loads -/
theorem run_foldlM {ι : Type} {f : σ → ι → Prog A K S τ σ} {l : List ι} (foot : ι → A → Prop)
    (g : σ → ι → σ) {ws : ι → List (A × K)} {m : A → K} {p : Nat}
    (hf : ∀ s, ∀ i ∈ l, ∀ m', (∀ a, foot i a → m' a = m a) →
      run exchanged (f s i) p m' = ⟨g s i, p, Stores.store m' (ws i), ws i⟩)
    (hapart : l.Pairwise fun i j => ∀ w ∈ ws i, ¬ foot j w.1) (s : σ) {m' : A → K}
    (hm : ∀ i ∈ l, ∀ a, foot i a → m' a = m a) :
    run exchanged (l.foldlM f s) p m' = ⟨l.foldl g s, p, Stores.store m' (l.flatMap ws),
      l.flatMap ws⟩ := by
  induction l generalizing s m' with
  | nil => rfl
  | cons i l ih =>
    obtain ⟨hi, hl⟩ := List.pairwise_cons.mp hapart
    have hrest : ∀ j ∈ l, ∀ a, foot j a → Stores.store m' (ws i) a = m a := by
      intro j hj a ha
      rw [Stores.store_of_not_mem, hm j (List.mem_cons_of_mem _ hj) a ha]
      intro hin
      obtain ⟨w, hw, rfl⟩ := List.mem_map.mp hin
      exact hi j hj w hw ha
    rw [List.foldlM_cons, run_bind_eq (hf s i List.mem_cons_self m' (hm i List.mem_cons_self)),
      ih (fun s j hj => hf s j (List.mem_cons_of_mem _ hj)) hl _ hrest, List.flatMap_cons,
        Stores.store_append]
    rfl

theorem run_of_within {x : Prog A K S τ ρ} (h : Within R W x) {p : Nat} {m m' : A → K}
    (hm : ∀ a, R a ∨ W a → m' a = m a)
    (hphase : (run exchanged x p m).phase = p) : run exchanged x p m' =
      ⟨(run exchanged x p m).value, p, Stores.store m' (run exchanged x p m).log,
        (run exchanged x p m).log⟩ := by
  obtain ⟨hvalue, hphase', hlog, _⟩ := run_congr exchanged h p hm
  rw [← hvalue, ← hlog, ← run_mem]
  show (⟨_, (run exchanged x p m').phase, _, _⟩ : Outcome A K ρ) = _
  rw [hphase'.trans hphase]

/-- a loop of rounds with cells of their own -/
theorem run_forM {ι : Type} {body : ι → Prog A K S τ Unit} {l : List ι} (foot : ι → A → Prop)
    {p : Nat} {m : A → K} (hwithin : ∀ i ∈ l, Within R (foot i) (body i))
    (hphase : ∀ i ∈ l, (run exchanged (body i) p m).phase = p)
    (hfixed : ∀ i ∈ l, ∀ a, foot i a → ¬ R a)
    (hapart : l.Pairwise fun i j => ∀ a, foot i a → ¬ foot j a) :
    run exchanged (l.forM body) p m =
      ⟨(), p, Stores.store m (l.flatMap fun i => (run exchanged (body i) p m).log),
        l.flatMap fun i => (run exchanged (body i) p m).log⟩ := by
  rw [forM_eq_foldlM]
  refine run_foldlM (fun i a => R a ∨ foot i a) (fun _ _ => ()) (fun _ i hi m' hm => ?_) ?_
    () fun _ _ _ _ => rfl
  · exact run_of_within (hwithin i hi) hm (hphase i hi)
  · refine hapart.imp_of_mem fun {i j} hi _ hij w hw => not_or.mpr ?_
    have hfoot := log_within (hwithin i hi) p m w hw
    exact ⟨hfixed i hi w.1 hfoot, hij w.1 hfoot⟩

end

/-! ## all threads -/

section
variable {β : Type} [DecidableEq A] [DecidableEq β] [DecidableEq τ]

/-- the memory, the stores so far, and what each thread of each block still does -/
structure Config (A K S β τ : Type) where
  mem : A → K
  log : List (A × K)
  threads : β → τ → Prog A K S τ Unit

/-- the threads when one of them goes on -/
def Config.go (c : Config A K S β τ) (b : β) (t : τ) (x : Prog A K S τ Unit) :
    β → τ → Prog A K S τ Unit :=
  Function.update c.threads b (Function.update (c.threads b) t x)

/-- one thread takes a step, or the threads of one block pass a barrier together -/
inductive Step : Config A K S β τ → Config A K S β τ → Prop
  | load {c b t a next} (h : c.threads b t = .load a next) : Step c
      ⟨c.mem, c.log, c.go b t (next (c.mem a))⟩
  | store {c b t a v next} (h : c.threads b t = .store a v next) :
    Step c ⟨Function.update c.mem a v, c.log ++ [(a, v)], c.go b t next⟩
  | exchange {c b} {s : τ → S} {next : τ → (τ → S) → Prog A K S τ Unit} (t : τ)
    (h : ∀ t, c.threads b t = .exchange (s t) (next t)) :
    Step c ⟨c.mem, c.log, Function.update c.threads b fun t => next t s⟩

def Done (c : Config A K S β τ) : Prop := ∀ b t, c.threads b t = .ret ()

def start (m : A → K) (threads : β → τ → Prog A K S τ Unit) : Config A K S β τ := ⟨m, [], threads⟩

/-- threads with cells of their own, which load those and cells that nobody stores to; each gives at its
barriers what is expected, and the threads of a block pass as many -/
structure Independent (threads : β → τ → Prog A K S τ Unit) (exchanged : β → Nat → τ → S)
    (m : A → K) (R : A → Prop) (W : β → τ → A → Prop) (phases : β → Nat) : Prop where
  within : ∀ b t, Within R (W b t) (threads b t)
  apart : ∀ b t b' t' a, W b t a → W b' t' a → b = b' ∧ t = t'
  fixed : ∀ b t a, W b t a → ¬ R a
  gives : ∀ b t, Gives (exchanged b) t (threads b t) 0 m
  phase : ∀ b t, (run (exchanged b) (threads b t) 0 m).phase = phases b

variable {threads : β → τ → Prog A K S τ Unit} {exchanged : β → Nat → τ → S} {m : A → K} {R : A → Prop}
  {W : β → τ → A → Prop} {phases : β → Nat}

/-- what a thread still does, alone -/
def rest (exchanged : β → Nat → τ → S) (c : Config A K S β τ) (ph : β → Nat) (b : β) (t : τ) :
    Outcome A K Unit :=
  run (exchanged b) (c.threads b t) (ph b) c.mem

variable [Fintype β] [Fintype τ]

/-- how many steps are left -/
def remaining (exchanged : β → Nat → τ → S) (c : Config A K S β τ) (ph : β → Nat) : Nat :=
  ∑ i : β × τ, size (exchanged i.1) (c.threads i.1 i.2) (ph i.1) c.mem

/-- the blocks are in their phases, and the stores so far with the ones to come are the ones of the threads alone -/
structure Inv (threads : β → τ → Prog A K S τ Unit) (exchanged : β → Nat → τ → S) (m : A → K)
    (R : A → Prop)
    (W : β → τ → A → Prop) (phases : β → Nat) (c : Config A K S β τ) (ph : β → Nat) : Prop where
  within : ∀ b t, Within R (W b t) (c.threads b t)
  gives : ∀ b t, Gives (exchanged b) t (c.threads b t) (ph b) c.mem
  phase : ∀ b t, (rest exchanged c ph b t).phase = phases b
  mem : c.mem = Stores.store m c.log
  log : (c.log : Multiset (A × K)) + ∑ i : β × τ,
    ((rest exchanged c ph i.1 i.2).log : Multiset (A × K)) =
    ∑ i : β × τ, ((run (exchanged i.1) (threads i.1 i.2) 0 m).log : Multiset (A × K))

omit [DecidableEq β] [DecidableEq τ] in
theorem Independent.inv_start (h : Independent threads exchanged m R W phases) :
    Inv threads exchanged m R W phases (start m threads) fun _ => 0 where
  within := h.within
  gives := h.gives
  phase := h.phase
  mem := rfl
  log := zero_add _

theorem sum_step {ι M : Type} [Fintype ι] [DecidableEq ι] [AddCommMonoid M] (f f' : ι → M)
    (i : ι) {x : M}
    (hi : f i = x + f' i) (hf : ∀ j ≠ i, f j = f' j) : ∑ j, f j = x + ∑ j, f' j := by
  rw [← Finset.add_sum_erase Finset.univ f (Finset.mem_univ i),
    ← Finset.add_sum_erase Finset.univ f' (Finset.mem_univ i),
    hi, add_assoc, Finset.sum_congr rfl fun j hj => hf j (Finset.ne_of_mem_erase hj)]

/-- one thread goes on: the others do not see it -/
theorem Inv.move (hind : Independent threads exchanged m R W phases) {c : Config A K S β τ}
    {ph : β → Nat}
    (h : Inv threads exchanged m R W phases c ph) {b : β} {t : τ} {x : Prog A K S τ Unit}
    {mem' : A → K} {ws : List (A × K)}
    (hmem : ∀ a, ¬ W b t a → mem' a = c.mem a) (hwithin : Within R (W b t) x)
    (hgives : Gives (exchanged b) t x (ph b) mem')
    (hphase : (run (exchanged b) x (ph b) mem').phase = (rest exchanged c ph b t).phase)
    (hlog : (rest exchanged c ph b t).log = ws ++ (run (exchanged b) x (ph b) mem').log)
    (hsize : size (exchanged b) (c.threads b t) (ph b) c.mem = 1 + size (exchanged b) x (ph b) mem')
    (hstore : mem' = Stores.store c.mem ws) :
    Inv threads exchanged m R W phases ⟨mem', c.log ++ ws, c.go b t x⟩ ph ∧
      remaining exchanged ⟨mem', c.log ++ ws, c.go b t x⟩ ph < remaining exchanged c ph := by
  have hself : c.go b t x b t = x := by
    unfold Config.go
    rw [Function.update_self, Function.update_self]
  have hother : ∀ b' t', (b', t') ≠ (b, t) → c.go b t x b' t' = c.threads b' t' := by
    intro b' t' hne
    unfold Config.go
    by_cases hb : b' = b
    · subst hb
      have ht : t' ≠ t := fun ht => hne (by rw [ht])
      rw [Function.update_self, Function.update_of_ne ht]
    · rw [Function.update_of_ne hb]
  have hframe : ∀ b' t', (b', t') ≠ (b, t) → ∀ a, R a ∨ W b' t' a → mem' a = c.mem a := by
    intro b' t' hne a ha
    refine hmem a fun hW => ?_
    rcases ha with hR | hW'
    · exact hind.fixed b t a hW hR
    · obtain ⟨rfl, rfl⟩ := hind.apart b' t' b t a hW' hW
      exact hne rfl
  have hsame := fun b' t' (hne : (b', t') ≠ (b, t)) =>
    run_congr (exchanged b') (h.within b' t') (ph b') (hframe b' t' hne)
  refine ⟨⟨fun b' t' => ?_, fun b' t' => ?_, fun b' t' => ?_, ?_, ?_⟩, ?_⟩
  · show Within R (W b' t') (c.go b t x b' t')
    by_cases hne : (b', t') = (b, t)
    · obtain ⟨rfl, rfl⟩ := Prod.mk.inj hne
      rw [hself]
      exact hwithin
    · rw [hother b' t' hne]
      exact h.within b' t'
  · show Gives (exchanged b') t' (c.go b t x b' t') (ph b') mem'
    by_cases hne : (b', t') = (b, t)
    · obtain ⟨rfl, rfl⟩ := Prod.mk.inj hne
      rw [hself]
      exact hgives
    · rw [hother b' t' hne]
      exact (gives_congr (h.within b' t') (ph b') (hframe b' t' hne)).mpr (h.gives b' t')
  · show (run (exchanged b') (c.go b t x b' t') (ph b') mem').phase = phases b'
    by_cases hne : (b', t') = (b, t)
    · obtain ⟨rfl, rfl⟩ := Prod.mk.inj hne
      rw [hself, hphase, h.phase]
    · rw [hother b' t' hne, (hsame b' t' hne).2.1]
      exact h.phase b' t'
  · rw [Stores.store_append, ← h.mem]
    exact hstore
  · have hsum := sum_step (fun i : β × τ => ((rest exchanged c ph i.1 i.2).log : Multiset (A × K)))
      (fun i : β × τ => ((run (exchanged i.1) (c.go b t x i.1 i.2) (ph i.1) mem').log : Multiset (A × K)))
      (b, t) (x := (ws : Multiset (A × K))) ?_ fun j hne => ?_
    · rw [← h.log, hsum, ← add_assoc]
      rfl
    · show ((rest exchanged c ph b t).log : Multiset (A × K)) = _
      rw [hself, hlog]
      rfl
    · show ((run (exchanged j.1) (c.threads j.1 j.2) (ph j.1) c.mem).log : Multiset (A × K)) = _
      rw [hother j.1 j.2 hne, (hsame j.1 j.2 hne).2.2.1]
  · have hsum := sum_step (fun i : β × τ => size (exchanged i.1) (c.threads i.1 i.2) (ph i.1) c.mem)
      (fun i : β × τ => size (exchanged i.1) (c.go b t x i.1 i.2) (ph i.1) mem') (b, t)
        (x := 1) ?_ fun j hne => ?_
    · show _ < ∑ i : β × τ, size (exchanged i.1) (c.threads i.1 i.2) (ph i.1) c.mem
      rw [hsum]
      exact Nat.lt_add_of_pos_left Nat.one_pos
    · rw [hself]
      exact hsize
    · rw [hother j.1 j.2 hne]
      exact (hsame j.1 j.2 hne).2.2.2.symm

/-- **A step keeps the invariant**, and leaves fewer steps. -/
theorem Inv.step (hind : Independent threads exchanged m R W phases) {c c' : Config A K S β τ}
    {ph : β → Nat} (h : Inv threads exchanged m R W phases c ph) (hstep : Step c c') :
    ∃ ph', Inv threads exchanged m R W phases c' ph' ∧
      remaining exchanged c' ph' < remaining exchanged c ph := by
  cases hstep with
  | @load b t a next hx =>
    have hwithin := h.within b t
    have hgives := h.gives b t
    rw [hx] at hwithin hgives
    have hmem : c.mem = Stores.store c.mem [] := rfl
    have hmove :=
      h.move hind (fun _ _ => rfl) (hwithin.2 (c.mem a)) hgives (by unfold rest; rw [hx]; rfl)
      (by unfold rest; rw [hx]; rfl) (by rw [hx]; exact Nat.add_comm _ 1) hmem
    rw [List.append_nil] at hmove
    exact ⟨ph, hmove⟩
  | @store b t a v next hx =>
    have hwithin := h.within b t
    have hgives := h.gives b t
    rw [hx] at hwithin hgives
    refine ⟨ph, h.move hind (fun a' ha' => ?_) hwithin.2 hgives ?_ ?_ ?_ rfl⟩
    · exact Function.update_of_ne (fun heq : a' = a => ha' (heq ▸ hwithin.1)) _ _
    · unfold rest
      rw [hx]
      rfl
    · unfold rest
      rw [hx]
      rfl
    · rw [hx]
      exact Nat.add_comm _ 1
  | @exchange b s next t₀ hx =>
    -- what the threads of the block give is what was expected of them
    have hs : s = exchanged b (ph b) := by
      funext t
      have hgives := h.gives b t
      rw [hx] at hgives
      exact hgives.1
    subst hs
    have hcases : ∀ b' t', (b' = b ∧
        Function.update c.threads b (fun t => next t (exchanged b (ph b))) b' t'
        = next t' (exchanged b (ph b)) ∧
        Function.update ph b (ph b + 1) b' = ph b + 1) ∨
        (b' ≠ b ∧
          Function.update c.threads b (fun t => next t (exchanged b (ph b))) b' t' = c.threads b' t' ∧
        Function.update ph b (ph b + 1) b' = ph b') := by
      intro b' t'
      by_cases hb : b' = b
      · subst hb
        exact .inl ⟨rfl, by rw [Function.update_self], Function.update_self _ _ _⟩
      · exact .inr ⟨hb, by rw [Function.update_of_ne hb], Function.update_of_ne hb _ _⟩
    have hrest : ∀ b' t', rest exchanged ⟨c.mem, c.log, Function.update c.threads b fun t =>
        next t (exchanged b (ph b))⟩
        (Function.update ph b (ph b + 1)) b' t' = rest exchanged c ph b' t' := by
      intro b' t'
      unfold rest
      rcases hcases b' t' with ⟨rfl, hthread, hphase⟩ | ⟨_, hthread, hphase⟩
      · simp only [hthread, hphase, hx]
        rfl
      · simp only [hthread, hphase]
    refine ⟨Function.update ph b (ph b + 1), ⟨fun b' t' => ?_, fun b' t' => ?_, fun b' t' => ?_,
      h.mem, ?_⟩, ?_⟩
    · rcases hcases b' t' with ⟨rfl, hthread, hphase⟩ | ⟨_, hthread, hphase⟩
      · have hwithin := h.within b' t'
        rw [hx] at hwithin
        simp only [hthread]
        exact hwithin _
      · simp only [hthread]
        exact h.within b' t'
    · rcases hcases b' t' with ⟨rfl, hthread, hphase⟩ | ⟨_, hthread, hphase⟩
      · have hgives := h.gives b' t'
        rw [hx] at hgives
        simp only [hthread, hphase]
        exact hgives.2
      · simp only [hthread, hphase]
        exact h.gives b' t'
    · rw [hrest]
      exact h.phase b' t'
    · simp only [hrest]
      exact h.log
    · unfold remaining
      refine Finset.sum_lt_sum (fun i _ => ?_) ⟨(b, t₀), Finset.mem_univ _, ?_⟩
      · obtain ⟨b', t'⟩ := i
        rcases hcases b' t' with ⟨rfl, hthread, hphase⟩ | ⟨_, hthread, hphase⟩
        · simp only [hthread, hphase, hx]
          exact Nat.le_succ _
        · simp only [hthread, hphase]
          exact le_rfl
      · rcases hcases b t₀ with ⟨_, hthread, hphase⟩ | ⟨hne, _, _⟩
        · simp only [hthread, hphase, hx]
          exact Nat.lt_succ_self _
        · exact absurd rfl hne

theorem Inv.run (hind : Independent threads exchanged m R W phases) {c : Config A K S β τ}
    (hrun : Relation.ReflTransGen Step (start m threads) c) :
    ∃ ph, Inv threads exchanged m R W phases c ph := by
  induction hrun with
  | refl => exact ⟨_, hind.inv_start⟩
  | tail _ hstep ih =>
    obtain ⟨ph, hinv⟩ := ih
    obtain ⟨ph', hinv', _⟩ := hinv.step hind hstep
    exact ⟨ph', hinv'⟩

/-! ## runs to the end -/

/-- **The stores do not depend on the order of the threads.** -/
theorem Independent.log (hind : Independent threads exchanged m R W phases) {c : Config A K S β τ}
    (hrun : Relation.ReflTransGen Step (start m threads) c) (hdone : Done c) :
    (c.log : Multiset (A × K)) =
      ∑ i : β × τ, ((Threads.run (exchanged i.1) (threads i.1 i.2) 0 m).log : Multiset (A × K)) := by
  obtain ⟨ph, hinv⟩ := Inv.run hind hrun
  have hrest : ∀ i : β × τ, ((rest exchanged c ph i.1 i.2).log : Multiset (A × K)) = 0 := by
    intro i
    unfold rest
    rw [hdone]
    rfl
  rw [← hinv.log, Finset.sum_congr rfl fun i _ => hrest i, Finset.sum_const_zero, add_zero]

/-- **Each store once:** threads that each store to no cell twice make each other's stores to none either -/
theorem Independent.stored (hind : Independent threads exchanged m R W phases) {c : Config A K S β τ}
    (hrun : Relation.ReflTransGen Step (start m threads) c) (hdone : Done c)
    (hn : ∀ b t, ((Threads.run (exchanged b) (threads b t) 0 m).log.map Prod.fst).Nodup) :
    (c.log.map Prod.fst).Nodup ∧
      ∀ w, w ∈ c.log ↔ ∃ b t, w ∈ (Threads.run (exchanged b) (threads b t) 0 m).log := by
  have hlog := hind.log hrun hdone
  constructor
  · rw [← Multiset.coe_nodup, ← Multiset.map_coe, hlog, ← Multiset.coe_mapAddMonoidHom, map_sum,
      Multiset.nodup_iff_count_le_one]
    intro a
    rw [Multiset.count_sum']
    by_cases hstored : ∃ i : β × τ,
      a ∈ (Threads.run (exchanged i.1) (threads i.1 i.2) 0 m).log.map Prod.fst
    · obtain ⟨i, hi⟩ := hstored
      rw [Finset.sum_eq_single i ?_ fun h => absurd (Finset.mem_univ i) h]
      · exact Multiset.nodup_iff_count_le_one.mp (Multiset.coe_nodup.mpr (hn i.1 i.2)) a
      · intro j _ hne
        refine Multiset.count_eq_zero.mpr fun hj => hne ?_
        obtain ⟨w, hw, rfl⟩ := List.mem_map.mp hi
        obtain ⟨w', hw', heq⟩ := List.mem_map.mp (Multiset.mem_coe.mp hj)
        have hWj := log_within (hind.within j.1 j.2) 0 m w' hw'
        obtain ⟨hb, ht⟩ :=
          hind.apart j.1 j.2 i.1 i.2 w.1 (heq ▸ hWj) (log_within (hind.within i.1 i.2) 0 m w hw)
        exact Prod.ext hb ht
    · rw [Finset.sum_eq_zero fun i _ => Multiset.count_eq_zero.mpr fun hi => hstored ⟨i, hi⟩]
      exact Nat.zero_le _
  · intro w
    rw [← Multiset.mem_coe, hlog, Multiset.mem_sum]
    exact ⟨fun ⟨i, _, hi⟩ => ⟨i.1, i.2, hi⟩, fun ⟨b, t, h⟩ => ⟨(b, t), Finset.mem_univ _, h⟩⟩

/-- the memory at the end is the one before with the stores so far -/
theorem Independent.mem (hind : Independent threads exchanged m R W phases) {c : Config A K S β τ}
    (hrun : Relation.ReflTransGen Step (start m threads) c) : c.mem = Stores.store m c.log := by
  obtain ⟨_, hinv⟩ := Inv.run hind hrun
  exact hinv.mem

/-- threads that are not all done can take a step -/
theorem Inv.progress {c : Config A K S β τ} {ph : β → Nat}
    (h : Inv threads exchanged m R W phases c ph) (hdone : ¬ Done c) :
    ∃ c', Step c c' := by
  by_cases hload : ∃ b t a next, c.threads b t = .load a next
  · obtain ⟨b, t, a, next, hx⟩ := hload
    exact ⟨_, .load hx⟩
  by_cases hstore : ∃ b t a v next, c.threads b t = .store a v next
  · obtain ⟨b, t, a, v, next, hx⟩ := hstore
    exact ⟨_, .store hx⟩
  have hother : ∀ b t, c.threads b t = .ret () ∨ ∃ s next, c.threads b t = .exchange s next := by
    intro b t
    cases hx : c.threads b t with
    | ret r => exact .inl rfl
    | load a next => exact absurd ⟨b, t, a, next, hx⟩ hload
    | store a v next => exact absurd ⟨b, t, a, v, next, hx⟩ hstore
    | exchange s next => exact .inr ⟨s, next, rfl⟩
  -- a thread that waits has a barrier to pass, and so have the others of its block
  obtain ⟨b, hb⟩ := not_forall.mp hdone
  obtain ⟨t, ht⟩ := not_forall.mp hb
  have hwait : ∀ t', ∃ s next, c.threads b t' = .exchange s next := by
    obtain ⟨s, next, hx⟩ := (hother b t).resolve_left ht
    have hlt : ph b < phases b := by
      rw [← h.phase b t]
      unfold rest
      rw [hx]
      exact le_phase _ _ _
    intro t'
    refine (hother b t').resolve_left fun hret => ?_
    have hphase := h.phase b t'
    unfold rest at hphase
    rw [hret] at hphase
    exact absurd hphase hlt.ne
  choose s next hx using hwait
  exact ⟨_, .exchange t hx⟩

/-- **No deadlock:** every order of steps can be continued to the end. -/
theorem Independent.exists_done (hind : Independent threads exchanged m R W phases)
    {c : Config A K S β τ} (hrun : Relation.ReflTransGen Step (start m threads) c) :
    ∃ c', Relation.ReflTransGen Step c c' ∧ Done c' := by
  have hfinish : ∀ n c ph, Inv threads exchanged m R W phases c ph → remaining exchanged c ph < n →
      ∃ c', Relation.ReflTransGen Step c c' ∧ Done c' := by
    intro n
    induction n with
    | zero => exact fun _ _ _ h => absurd h (Nat.not_lt_zero _)
    | succ n ih =>
      intro c ph hinv hn
      by_cases hdone : Done c
      · exact ⟨c, .refl, hdone⟩
      · obtain ⟨c', hstep⟩ := hinv.progress hdone
        obtain ⟨ph', hinv', hless⟩ := hinv.step hind hstep
        obtain ⟨c'', hrun', hdone'⟩ := ih c' ph' hinv' (by omega)
        exact ⟨c'', .head hstep hrun', hdone'⟩
  obtain ⟨ph, hinv⟩ := Inv.run hind hrun
  exact hfinish _ c ph hinv (Nat.lt_succ_self _)

end
end Threads

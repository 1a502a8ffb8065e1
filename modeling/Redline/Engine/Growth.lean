import Redline.Sched.Drain
import Redline.Engine.Reports

/-!
# Configurations that never abort

Under the watermark policy a decode row at a block boundary takes its next block from the pool.  If
the pool has a full table of blocks for each of `max_batch` sequences, there is one for every row
that can ever need one (`Inv.growth_fits`): a request holds and is promised no more than the blocks
of its longest sequence, counting the block it is about to take.

The engine's constructor warns about the other configurations (`warnsWatermark_iff`).
-/

namespace Redline
open Prog Ledger

def EngineOptions.maxBlocksPerSeq (o : EngineOptions) : Nat := blocksForTokens o.maxSeqLen.toNat

/-- the constructor's warning: decode growth can exhaust the pool -/
def Engine.warnsWatermark (o : EngineOptions) (e : Engine) : Bool :=
  match o.admissionPolicy with
  | .kReserveFull => false
  | .kWatermark =>
    decide ((e.sched.allocator.usableBlocks : Int) < o.maxBatch * o.maxBlocksPerSeq)

section
variable {T : Nat} {o : SchedulerOptions} {s s' : Scheduler} {plan : StepPlan}

/-- no sequence outgrows the table of a sequence -/
theorem Inv.seqLen_le (h : Inv T o s) {r : Nat} (hr : r ∈ s.running) :
    blocksForTokens (s.heap r).seqLen ≤ blocksForTokens o.maxSeqLen := by
  have hfits := (h.valid r (h.lt_nextPtr (Or.inr (List.mem_append_left _ hr)))).fits_seq
  have hlt := (h.running r hr).outputs_lt
  refine blocksForTokens_mono ?_
  unfold Request.seqLen
  omega

/-- a running request holds, and is about to take, a table of blocks at most -/
theorem Inv.commitment_running (h : Inv T o s) (hp : o.admissionPolicy = .kWatermark)
    {l : List Nat} (hl : ∀ r ∈ l, r ∈ s.running) :
    held Scheduler.commitment s.heap l + s.boundary l ≤ l.length * blocksForTokens o.maxSeqLen := by
  induction l with
  | nil => simp [Scheduler.boundary]
  | cons r l ih =>
    have hrest := ih fun x hx => hl x (List.mem_cons_of_mem _ hx)
    have hr := hl r List.mem_cons_self
    have hrun := h.running r hr
    have hle := h.seqLen_le hr
    have hres : (s.heap r).reservedBlocks = 0 := by
      rw [hrun.reserved]
      unfold growthLeft
      rw [hp]
    have heq := hrun.blocks_eq
    unfold Scheduler.boundary at hrest ⊢
    rw [held_cons, List.countP_cons, List.length_cons, Nat.cast_succ, add_mul, one_mul]
    unfold Scheduler.commitment at hrest ⊢
    by_cases hn : Scheduler.needsBlock (s.heap r)
    · rw [if_pos hn] at heq
      rw [if_pos (decide_eq_true hn)]
      push_cast
      omega
    · rw [if_neg hn] at heq
      rw [if_neg (by simpa using hn)]
      omega

/-- a prefilling request is promised the blocks of its prompt -/
theorem Inv.commitment_prefill (h : Inv T o s) (hp : o.admissionPolicy = .kWatermark)
    {l : List Nat} (hl : ∀ r ∈ l, r ∈ s.prefillQueue) :
    held Scheduler.commitment s.heap l ≤ l.length * blocksForTokens o.maxSeqLen := by
  induction l with
  | nil => simp
  | cons r l ih =>
    have hrest := ih fun x hx => hl x (List.mem_cons_of_mem _ hx)
    have hr := hl r List.mem_cons_self
    have hv := h.valid r (h.lt_nextPtr (Or.inr (List.mem_append_right _ hr)))
    have hfits := hv.fits_seq
    have hmax := hv.maxNew_pos
    have hle : blocksForTokens (s.heap r).numPromptTokens ≤ blocksForTokens o.maxSeqLen :=
      blocksForTokens_mono (by omega)
    have hpromised : promised o (s.heap r) = blocksForTokens (s.heap r).numPromptTokens := by
      unfold promised
      rw [hp]
      rfl
    rw [held_cons, List.length_cons, Nat.cast_succ, add_mul, one_mul]
    unfold Scheduler.commitment at hrest ⊢
    rw [(h.prefill r hr).reserved, hpromised]
    omega

/-- **There is a block for every row that needs one**, in every state. -/
theorem Inv.growth_fits (h : Inv T o s) (hp : o.admissionPolicy = .kWatermark)
    (hfit : o.maxBatch * blocksForTokens o.maxSeqLen ≤ s.allocator.usableBlocks) :
    (s.boundary s.running : Int) ≤ s.uncommitted := by
  have hadd := h.uncommitted_add
  have hrun := h.commitment_running hp (l := s.running) fun _ hr => hr
  have hpre := h.commitment_prefill hp (l := s.prefillQueue) fun _ hr => hr
  have hlen : s.running.length + s.prefillQueue.length ≤ o.maxBatch := by
    have hcount := h.count
    have hadm : s.admitted.length = s.running.length + s.prefillQueue.length := List.length_append
    omega
  have hroom : ((s.running.length + s.prefillQueue.length : Nat) : Int) * blocksForTokens o.maxSeqLen
      ≤ s.allocator.usableBlocks := by
    exact_mod_cast (Nat.mul_le_mul_right _ hlen).trans hfit
  unfold Scheduler.admitted at hadd
  rw [held_append] at hadd
  push_cast at hroom
  rw [add_mul] at hroom
  omega

/-- so planning evicts nobody -/
theorem Planned.spares (h : Inv T o s) (hp : o.admissionPolicy = .kWatermark)
    (hfit : o.maxBatch * blocksForTokens o.maxSeqLen ≤ s.allocator.usableBlocks)
    (hP : Scheduler.Planned T o s plan s') : plan.aborted = [] := by
  cases hP with
  | prefill s1 k r rest hP => rw [hP.shape]; rfl
  | decode blocked hD =>
    by_contra hne
    have hroom := h.growth_fits hp hfit
    have := (hD.aborts hne).2
    omega

end

theorem warnsWatermark_iff {options : EngineOptions} {e : Engine}
    (hp : options.admissionPolicy = .kWatermark) : e.warnsWatermark options = false ↔
      options.maxBatch * options.maxBlocksPerSeq ≤ (e.sched.allocator.usableBlocks : Int) := by
  unfold Engine.warnsWatermark
  rw [hp]
  simp only [decide_eq_false_iff_not, Int.not_lt]

/-- every plan that was made so far evicted nobody -/
def NoAborts (events : List Event) : Prop :=
  ∀ plan out, .stepped plan out ∈ events → plan.aborted = []

/-- one call keeps the log free of evictions, in a pool that is large enough -/
theorem NoAborts.stepped {T : Nat} {o : SchedulerOptions} {w w' : EngineRun Unit}
    {c : EngineCall (Except ExecutorError (Nat → Int))} (hN : NoAborts w.events)
    (hE : EngineInv T o w.engine) (hp : o.admissionPolicy = .kWatermark)
    (hfit : o.maxBatch * blocksForTokens o.maxSeqLen ≤ w.engine.sched.allocator.usableBlocks)
    (hs : EngineRun.Stepped T o hostOnly w c w') : NoAborts w'.events := by
  intro plan out hm
  cases hs with
  | refused a err =>
    rcases List.mem_append.mp hm with hm | hm
    · exact hN plan out hm
    · cases List.mem_singleton.mp hm
  | added a accepted =>
    rcases List.mem_append.mp hm with hm | hm
    · exact hN plan out hm
    · cases List.mem_singleton.mp hm
  | stepped k plan' s out' e d plans planned ended =>
    rcases List.mem_append.mp hm with hm | hm
    · exact hN plan out hm
    · obtain ⟨rfl, _⟩ := Event.stepped.inj (List.mem_singleton.mp hm)
      exact Planned.spares hE.sched hp hfit planned

/-- **The no-abort test is sound**: where the constructor stays silent no plan of any run aborts
anything, and there is always a block for each row that needs one. -/
theorem no_abort_configuration (config : ModelConfig) (options : EngineOptions) (captured : Bool)
    (probe : Nat → Nat → Option PrefillGemmMode) (e : Engine)
    (he : Engine.make config options captured probe = .ok e)
    (hp : options.admissionPolicy = .kWatermark) :
    (e.warnsWatermark options = false ↔
      options.maxBatch * options.maxBlocksPerSeq ≤ (e.sched.allocator.usableBlocks : Int)) ∧
    (options.maxBatch * options.maxBlocksPerSeq ≤ (e.sched.allocator.usableBlocks : Int) →
      ∀ cs : List (EngineCall (Except ExecutorError (Nat → Int))),
        ∃ w, run (EngineRun.step hostOnly) (.init e ()) cs = some w ∧ NoAborts w.events ∧
          (w.engine.sched.boundary w.engine.sched.running : Int) ≤ w.engine.sched.uncommitted) := by
  refine ⟨warnsWatermark_iff hp, fun hfit cs => ?_⟩
  have hE := EngineInv.make he
  have htotal : ∀ e' : Engine, EngineInv e.totalBlocks (Engine.schedulerOptions config options) e' →
      e'.sched.allocator.usableBlocks = e.sched.allocator.usableBlocks := by
    intro e' hE'
    unfold BlockAllocator.usableBlocks
    rw [hE'.sched.total, hE.sched.total]
  have hroom : ∀ e' : Engine, EngineInv e.totalBlocks (Engine.schedulerOptions config options) e' →
      (Engine.schedulerOptions config options).maxBatch
          * blocksForTokens (Engine.schedulerOptions config options).maxSeqLen
        ≤ e'.sched.allocator.usableBlocks := by
    intro e' hE'
    rw [htotal e' hE']
    have hmax : ((Engine.schedulerOptions config options).maxBatch : Int) = options.maxBatch := by
      have hpos := hE.batch_pos
      show ((options.maxBatch.toNat : Nat) : Int) = _
      have hpos' : 1 ≤ options.maxBatch.toNat := hpos
      omega
    have hcast : (((Engine.schedulerOptions config options).maxBatch
        * blocksForTokens (Engine.schedulerOptions config options).maxSeqLen : Nat) : Int)
        = options.maxBatch * options.maxBlocksPerSeq := by
      rw [Nat.cast_mul, hmax]
      rfl
    omega
  have hinit : NoAborts (EngineRun.init e ()).events := fun plan out hm => absurd hm List.not_mem_nil
  obtain ⟨w, hw, hE', hN⟩ := EngineRun.run_keeps (fun w => NoAborts w.events)
    (fun w c w' hE' hN hs => hN.stepped hE' hp (hroom _ hE') hs) hE hinit cs
  exact ⟨w, hw, hN, hE'.sched.growth_fits hp (hroom _ hE')⟩

/-- two sequences of one block at most, against three usable blocks -/
def roomyOptions : EngineOptions := { tinyOptions .kWatermark with maxSeqLen := 16 }

def roomyEngine : Engine :=
  { tinyEngine .kWatermark with
    executor := { (tinyEngine .kWatermark).executor with
      options := makeExecutorOptions roomyOptions
      maxBlocksPerSeq := 1 }
    sched := .make 4 (Engine.schedulerOptions tinyConfig roomyOptions) }

theorem roomyEngine_make : Engine.make tinyConfig roomyOptions true tinyProbe = .ok roomyEngine := by
  have hb : makeExecutorOptions roomyOptions =
      { makeExecutorOptions (tinyOptions .kWatermark) with maxSeqLen := 16 } := rfl
  have hx : Executor.make tinyConfig (makeExecutorOptions roomyOptions) true tinyProbe
      = .ok roomyEngine.executor := by
    unfold roomyEngine
    rw [hb, makeExecutorOptions_tiny]
    rfl
  have hg : ¬ (¬ 0 < roomyOptions.kvPoolGb ∨ 1024 < roomyOptions.kvPoolGb) := by
    show ¬ (¬ (0 : ℚ) < 1 / 4194304 ∨ (1024 : ℚ) < 1 / 4194304)
    norm_num
  unfold Engine.make
  rw [if_neg hg, hx]
  rfl

theorem no_abort_configuration_example :
    ∃ w, run (EngineRun.step hostOnly) (.init roomyEngine ()) [.addRequest
        { promptTokens := [1, 2], maxNewTokens := 14 }, .step (.ok fun _ => 4)] = some w ∧
      NoAborts w.events ∧
      (w.engine.sched.boundary w.engine.sched.running : Int) ≤ w.engine.sched.uncommitted :=
  (no_abort_configuration tinyConfig roomyOptions true tinyProbe roomyEngine roomyEngine_make rfl).2
    (by decide) _

end Redline

import Redline.Core.Config
import Redline.Engine.Run

/-!
# The context ceiling

Nothing holds `max_seq_len` below the `max_position_embeddings` of the checkpoint.  The device of a
run notes its launches (`Environment.noting`).

* `Launched.below`     the rows of a launch, when the accepted requests end in time;
* `positions_below`    in every run whose accepted requests end in time no row reaches the ceiling;
* `exceeds_ceiling`    a prompt that passes every check and reaches it.
-/

namespace Redline
open Prog Script

/-- the same environment, with the launches noted -/
def Environment.noting {κ δ : Type} (env : Environment κ δ) : Environment κ (List Launch × δ) where
  dev := fun k l d => ((env.dev k l d.2).1, (d.1 ++ [l], (env.dev k l d.2).2))
  planned := fun s s' d => (d.1, env.planned s s' d.2)

/-- every row of the launch is below the ceiling -/
def Launch.Below (ceiling : Int) (l : Launch) : Prop := ∀ row ∈ l.rows, (row.position : Int) < ceiling

/-- a request that `AddRequest` accepts ends in time -/
def EndsInTime {δ κ : Type} (ceiling : Int) (w : EngineRun δ) : EngineCall κ → Prop
  | .addRequest a => (∀ err, w.engine.addRequest a ≠ some (.error err)) →
      (a.promptTokens.length : Int) + a.maxNewTokens ≤ ceiling + 1
  | .step _ => True

section
variable {T : Nat} {o : SchedulerOptions} {ceiling : Int}

/-- the accepted requests end in time -/
def AllInTime (ceiling : Int) (s : Scheduler) : Prop :=
  ∀ r < s.nextPtr, ((s.heap r).numPromptTokens : Int) + (s.heap r).maxNewTokens ≤ ceiling + 1

theorem AllInTime.of_asked {s s' : Scheduler} (h : AllInTime ceiling s) (hptr : s'.nextPtr = s.nextPtr)
    (hask : ∀ r, (s'.heap r).asked = (s.heap r).asked) : AllInTime ceiling s' := by
  intro r hr
  have hprompt : (s'.heap r).promptTokens = (s.heap r).promptTokens :=
    congrArg NewRequest.promptTokens (hask r)
  have hmax : (s'.heap r).maxNewTokens = (s.heap r).maxNewTokens :=
    congrArg NewRequest.maxNewTokens (hask r)
  unfold Request.numPromptTokens
  rw [hprompt, hmax]
  exact h r (hptr ▸ hr)

/-- **The rows of a launch**, when the accepted requests end in time. -/
theorem Launched.below {x : Executor} {s : Scheduler} {plan : StepPlan} {l : Launch} (h : Inv T o s)
    (hall : AllInTime ceiling s) (hceiling : 0 < ceiling) (hP : Scheduler.PlanOk o s plan)
    (hl : Launched x o s plan l) : l.Below ceiling := by
  intro row hrow
  cases hl with
  | chunk r prefill ok =>
    obtain ⟨t, ht, rfl⟩ := List.mem_map.mp hrow
    have ht := List.mem_range.mp ht
    show ((plan.prefillBegin + t : Nat) : Int) < ceiling
    have hr : r < s.nextPtr := by
      cases hP with
      | prefill r' rest queue shape blocks =>
        obtain rfl : r' = r := by
          rw [shape] at prefill
          exact Option.some.inj prefill
        exact h.lt_nextPtr (Or.inr (List.mem_append_right _ (by rw [queue]; exact List.mem_cons_self)))
      | decode shape running blocks victims =>
        rw [shape] at prefill
        cases prefill
    have hend := hall r hr
    have hpos := (h.valid r hr).maxNew_pos
    have hle := ok.slice.2
    omega
  | batch rows prefill busy ok live max =>
    rcases List.mem_append.mp hrow with hrow | hrow
    · obtain ⟨q, hq, rfl⟩ := List.mem_map.mp hrow
      obtain ⟨r, hr, rfl⟩ := List.mem_map.mp hq
      have hrun : r ∈ s.running := by
        cases hP with
        | prefill r' rest queue shape blocks =>
          rw [shape] at prefill
          cases prefill
        | decode shape running blocks victims => rwa [running]
      have hend := hall r (h.lt_nextPtr (Or.inr (List.mem_append_left _ hrun)))
      have hlt := (h.running r hrun).outputs_lt
      have hpos := (h.running r hrun).outputs_pos
      show (((s.heap r).seqLen - 1 : Nat) : Int) < ceiling
      unfold Request.seqLen
      omega
    · rw [(List.mem_replicate.mp hrow).2]
      exact hceiling

variable {κ δ : Type} {env : Environment κ δ}

/-- what a run keeps -/
structure Noted (ceiling : Int) (w : EngineRun (List Launch × δ)) : Prop where
  requests : AllInTime ceiling w.engine.sched
  launches : ∀ l ∈ w.device.1, l.Below ceiling

/-- a request that meets the checks is added -/
theorem addRequest_of_accepted {e : Engine} (hE : EngineInv T o e) {a : RequestArgs}
    (hA : Engine.Accepted o e a) :
    e.addRequest a = some (.ok (e.nextRequestId, e.added a)) := by
  have htokens : ∀ (tokens : List Int) what, (∀ t ∈ tokens, e.executor.inVocabulary t) →
      e.checkTokens tokens what = .ok () := by
    intro tokens what hall
    unfold Engine.checkTokens
    rw [List.find?_eq_none.mpr fun t ht => by simpa using hall t ht]
  have hvalid : e.sched.validateRequest (a.request e.nextRequestId) = .ok () := by
    rw [Scheduler.validateRequest_ok, hE.sched.options]
    exact hA.valid
  rcases Engine.addRequest_spec hE a with ⟨err, herr⟩ | ⟨hadded, _⟩
  · unfold Engine.addRequest Scheduler.enqueue at herr
    have hwaiting : (a.request e.nextRequestId).state = .kWaiting := rfl
    simp only [htokens _ _ hA.prompt, htokens _ _ hA.forced, check_pos hwaiting, hvalid,
      Option.bind_eq_bind, Option.bind_some, Option.pure_def] at herr
    cases herr
  · exact hadded

theorem step_added {μ : Type} {env : Environment κ μ} {w : EngineRun μ} {a : RequestArgs}
    (hE : EngineInv T o w.engine)
    (hA : Engine.Accepted o w.engine a) : EngineRun.step env w (.addRequest a) =
      some { w with
        engine := w.engine.added a
        events := w.events ++ [.added w.engine.nextRequestId a] } := by
  simp only [EngineRun.step, addRequest_of_accepted hE hA]
  rfl

theorem Noted.step {w w' : EngineRun (List Launch × δ)} {c : EngineCall κ} (hE : EngineInv T o w.engine)
    (hceiling : 0 < ceiling) (h : Noted ceiling w) (hc : EndsInTime ceiling w c)
    (hs : EngineRun.Stepped T o env.noting w c w') : Noted ceiling w' := by
  cases hs with
  | refused a err => exact ⟨h.requests, h.launches⟩
  | added a accepted =>
    have ha : (a.promptTokens.length : Int) + a.maxNewTokens ≤ ceiling + 1 :=
      hc fun err => by rw [addRequest_of_accepted hE accepted]; nofun
    refine ⟨fun r hr => ?_, h.launches⟩
    rcases Nat.lt_succ_iff_lt_or_eq.mp hr with hr | rfl
    · have hold : (w.engine.added a).sched.heap r = w.engine.sched.heap r :=
        Function.update_of_ne (Nat.ne_of_lt hr) _ _
      show (((w.engine.added a).sched.heap r).numPromptTokens : Int) +
        ((w.engine.added a).sched.heap r).maxNewTokens ≤ _
      rw [hold]
      exact h.requests r hr
    · have hnew : (w.engine.added a).sched.heap w.engine.sched.nextPtr
          = a.request w.engine.nextRequestId :=
        Function.update_self _ _ _
      show (((w.engine.added a).sched.heap w.engine.sched.nextPtr).numPromptTokens : Int) +
        ((w.engine.added a).sched.heap w.engine.sched.nextPtr).maxNewTokens ≤ _
      rw [hnew]
      exact ha
  | stepped k plan s out e d plans planned ended =>
    have hall : AllInTime ceiling s := h.requests.of_asked (Planned.nextPtr planned)
      fun r => (Planned.carried planned r).asked
    obtain ⟨hptr, hask⟩ := ended.asked
    refine ⟨hall.of_asked hptr hask, ?_⟩
    have hbelow : ∀ l, Launched w.engine.executor o s plan l → l.Below ceiling := fun l hl =>
      hl.below planned.inv hall hceiling (planned.planOk hE.sched)
    have hnoted : ∀ l, Launched w.engine.executor o s plan l → ∀ l' ∈ w.device.1 ++ [l],
        l'.Below ceiling :=
      fun l hl => List.forall_mem_append.mpr ⟨h.launches, List.forall_mem_singleton.mpr (hbelow l hl)⟩
    cases ended with
    | idle empty => exact h.launches
    | evictions prefill decode results s completed => exact h.launches
    | refused m err launch busy => exact h.launches
    | threw m done l err d' launch launched device busy =>
      obtain ⟨_, rfl⟩ := Prod.mk.inj device
      exact hnoted l launched
    | done m done l argmax d' results s launch launched device completed =>
      obtain ⟨_, rfl⟩ := Prod.mk.inj device
      exact hnoted l launched

end

/-- **Below the ceiling.**  In every run of an engine on an accepted checkpoint, as long as the accepted requests
satisfy `prompt_len + max_new_tokens ≤ max_position_embeddings + 1`, every position that is fed to the model,
in a chunk or in a decode row, is below `max_position_embeddings`. -/
theorem positions_below {lib : JsonLibrary} {cfg : List (String × JsonText)} {eosTokenIds : List Int}
    {c : CheckpointConfig} (hc : CheckpointConfig.fromJsonText lib cfg eosTokenIds = .ok c)
    {options : EngineOptions}
    {captured : Bool} {probe : Nat → Nat → Option PrefillGemmMode} {e : Engine}
    (he : Engine.make c.toModelConfig options captured probe = .ok e) {κ δ : Type}
    (env : Environment κ δ) (d : δ) (calls : List (EngineCall κ))
    (hcalls : Legal (EngineRun.step env.noting) (EndsInTime c.maxPositionEmbeddings) (.init e ([],
      d)) calls) :
    ∃ w, run (EngineRun.step env.noting) (.init e ([], d)) calls = some w ∧
      ∀ l ∈ w.device.1, l.Below c.maxPositionEmbeddings := by
  have hceiling : 0 < c.maxPositionEmbeddings := by
    rw [CheckpointConfig.fromJsonText_pinned hc]
    exact show (0 : Int) < 32768 by decide
  have hE := EngineInv.make he
  obtain ⟨x, _, rfl⟩ := Engine.make_eq he
  obtain ⟨w, hrun, _, hnoted⟩ := EngineRun.run_spec (Noted c.maxPositionEmbeddings)
    (fun w call w' hE hI hok hs => Noted.step hE hceiling hI hok hs) hE
    ⟨fun r hr => absurd hr (Nat.not_lt_zero r), fun l hl => absurd hl List.not_mem_nil⟩ calls hcalls
  exact ⟨w, hrun, hnoted.launches⟩

/-! ## a request past the ceiling -/

/-- a chunk with an algorithm for its shape is launched -/
theorem chunk_launched {T : Nat} {o : SchedulerOptions} {e : Engine} {plan : StepPlan}
    (h : Inv T o e.sched)
    (hF : Fits e.executor T o) (hP : Scheduler.PlanOk o e.sched plan) {r : Nat}
    (hp : plan.prefill = some r)
    (hv : ∀ r < e.sched.nextPtr, ∀ t ∈ (e.sched.heap r).promptTokens, e.executor.inVocabulary t)
    (hprobe : ∀ rows ctx, e.executor.probe rows ctx ≠ none) (err : ExecutorError) (x : Executor) :
    e.launch plan ≠ some (.error err, x) := by
  cases hP with
  | decode shape running blocks victims =>
    rw [shape] at hp
    cases hp
  | prefill r' rest queue shape blocks =>
    have hok : ChunkOk e.executor (e.sched.heap r') plan.prefillBegin plan.prefillEnd := by
      rw [shape]
      exact hF.chunkOk h queue blocks (hv r' (h.lt_nextPtr
        (Or.inr (List.mem_append_right _ (by rw [queue]; exact List.mem_cons_self)))))
    have hr : plan.prefill = some r' := by rw [shape]; rfl
    unfold Engine.launch
    rw [hr]
    rcases Executor.prefillChunk_spec hok with ⟨hnone, _⟩ | ⟨mode, work, _, _, _, hs⟩
    · exact absurd hnone (hprobe _ _)
    · simp only [hs.eq]
      nofun

def ceilingCfg : List (String × JsonText) :=
  [("hidden_size", .num (.unsigned 1536)), ("num_hidden_layers", .num (.unsigned 28)),
   ("num_attention_heads", .num (.unsigned 12)), ("num_key_value_heads", .num (.unsigned 2)),
   ("intermediate_size", .num (.unsigned 8960)), ("vocab_size", .num (.unsigned 151936)),
   ("max_position_embeddings", .num (.unsigned 32768)), ("head_dim", .num (.unsigned 128))]

/-- one token more than the ceiling allows -/
def ceilingOptions : EngineOptions := { maxSeqLen := 32770, prefillChunkTokens := 32769 }

def ceilingRequest : RequestArgs := { promptTokens := List.replicate 32769 0, maxNewTokens := 1 }

def ceilingConfig : ModelConfig := (CheckpointConfig.pinned [151645, 151643]).toModelConfig

def ceilingExecutor : Executor :=
  { config := ceilingConfig
    options := makeExecutorOptions ceilingOptions
    buckets := [1, 2, 4, 8]
    maxBlocksPerSeq := 2049
    numKvBlocks := 2340
    hasDecodeGraphs := true
    probe := tinyProbe
    mirrors := fun _ _ => 0 }

def ceilingEngine : Engine :=
  { executor := ceilingExecutor
    sched :=
      .make ceilingExecutor.numKvBlocks.toNat (Engine.schedulerOptions ceilingConfig ceilingOptions)
    nextRequestId := 1
    requests := fun _ => none
    stats := { bucketDecodeSteps := ceilingExecutor.buckets.map fun _ => 0 } }

theorem ceilingCfg_accepted (lib : JsonLibrary) :
    CheckpointConfig.fromJsonText lib ceilingCfg [151645, 151643] = .ok (.pinned [151645, 151643]) := by
  have hn : (ceilingCfg.map Prod.fst).Nodup := by decide
  have hint : ∀ key (n : UInt64) (m : Int), (key, .num (.unsigned n)) ∈ ceilingCfg →
      CheckpointConfig.integerValue (.num (.unsigned n)) = some m →
      CheckpointConfig.expectInt lib ceilingCfg key m = .ok m :=
    fun key n m h hm => CheckpointConfig.expectInt_of_mem hn h hm
  have hhead : CheckpointConfig.checkHeadDim lib ceilingCfg 128 = .ok () := by
    have hvalue : CheckpointConfig.integerValue (.num (.unsigned 128)) = some 128 := by decide
    unfold CheckpointConfig.checkHeadDim
    rw [CheckpointConfig.findField_of_mem hn (show ("head_dim",
      .num (.unsigned 128)) ∈ ceilingCfg by simp [ceilingCfg])]
    simp only [hvalue]
    exact if_neg (not_not.mpr rfl)
  unfold CheckpointConfig.fromJsonText
  refine Throw.bind_eq_ok.mpr ⟨1536, hint _ 1536 _ (by simp [ceilingCfg]) (by decide), ?_⟩
  refine Throw.bind_eq_ok.mpr ⟨28, hint _ 28 _ (by simp [ceilingCfg]) (by decide), ?_⟩
  refine Throw.bind_eq_ok.mpr ⟨12, hint _ 12 _ (by simp [ceilingCfg]) (by decide), ?_⟩
  refine Throw.bind_eq_ok.mpr ⟨2, hint _ 2 _ (by simp [ceilingCfg]) (by decide), ?_⟩
  refine Throw.bind_eq_ok.mpr ⟨8960, hint _ 8960 _ (by simp [ceilingCfg]) (by decide), ?_⟩
  refine Throw.bind_eq_ok.mpr ⟨151936, hint _ 151936 _ (by simp [ceilingCfg]) (by decide), ?_⟩
  refine Throw.bind_eq_ok.mpr ⟨32768, hint _ 32768 _ (by simp [ceilingCfg]) (by decide), ?_⟩
  refine Throw.bind_eq_ok.mpr ⟨(), by decide, Throw.bind_eq_ok.mpr ⟨(), hhead, rfl⟩⟩

theorem ceilingOptions_executor :
    makeExecutorOptions ceilingOptions = ⟨1073741824, 8, 32770, 32769, true, 0, ""⟩ := by
  unfold makeExecutorOptions ceilingOptions
  congr 1
  norm_num

theorem ceilingExecutor_make :
    Executor.make ceilingConfig (makeExecutorOptions ceilingOptions) true tinyProbe
    = .ok ceilingExecutor := by
  have hbudget : computeBudget ceilingConfig ⟨1073741824, 8, 32770, 32769, true, 0, ""⟩
    = .ok 2340 := by decide
  have hwidth : blocksForTokens (32770 : Int).toNat = 2049 := by decide
  have hbuckets : makeDecodeBuckets (8 : Int).toNat = [1, 2, 4, 8] := by decide
  unfold Executor.make ceilingExecutor
  rw [ceilingOptions_executor, hbudget]
  show Except.ok _ = Except.ok _
  rw [hwidth, hbuckets]
  rfl

theorem ceilingEngine_make : Engine.make ceilingConfig ceilingOptions true tinyProbe
    = .ok ceilingEngine := by
  have hg : ¬ (¬ 0 < ceilingOptions.kvPoolGb ∨ 1024 < ceilingOptions.kvPoolGb) := by
    show ¬ (¬ (0 : ℚ) < 1 ∨ (1024 : ℚ) < 1)
    norm_num
  unfold Engine.make ceilingEngine
  rw [if_neg hg, ceilingExecutor_make]

theorem ceilingRequest_accepted :
    Engine.Accepted (Engine.schedulerOptions ceilingConfig ceilingOptions) ceilingEngine ceilingRequest := by
  have hlen : (ceilingRequest.request ceilingEngine.nextRequestId).numPromptTokens = 32769 :=
    List.length_replicate
  refine ⟨⟨?_, Int.one_pos, ?_, ?_⟩, fun t ht => ?_, nofun⟩
  · rw [hlen]
    decide
  · rw [hlen]
    show (32769 : Int) + 1 ≤ (32770 : Int).toNat
    decide
  · show Scheduler.worstCaseBlocks _ ≤ _
    unfold Scheduler.worstCaseBlocks
    rw [hlen]
    show blocksForTokens (32769 + (1 : Int).toNat) ≤ 2340 - 1
    decide
  · rw [List.eq_of_mem_replicate ht]
    exact ⟨le_refl 0, show (0 : Int) < 151936 by decide⟩

theorem admitsHead_of_free {s : Scheduler} {r : Nat} {rest : List Nat} (hw : s.waiting = r :: rest)
    (hbatch : s.numRunning < s.options.maxBatch) (hpolicy : s.options.admissionPolicy = .kReserveFull)
    (hfree : (Scheduler.worstCaseBlocks (s.heap r) : Int) ≤ s.allocator.freeBlocks - s.allocator.reserved) :
    s.admitsHead = true := by
  unfold Scheduler.admitsHead
  simp only [hw]
  refine Bool.and_eq_true_iff.mpr ⟨decide_eq_true hbatch, ?_⟩
  unfold Scheduler.canAdmit
  simp only [hpolicy]
  exact decide_eq_true hfree

theorem added_heap (e : Engine) (a : RequestArgs) :
    (e.added a).sched.heap e.sched.nextPtr = a.request e.nextRequestId := Function.update_self _ _ _

/-- the first chunk of the request is its whole prompt -/
theorem ceiling_plan {plan : StepPlan} {s : Scheduler} (hplanned : Scheduler.Planned 2340
      (Engine.schedulerOptions ceilingConfig ceilingOptions)
        (ceilingEngine.added ceilingRequest).sched plan s) :
    plan.prefill = some 0 ∧ plan.prefillBegin = 0 ∧ plan.prefillEnd = 32769 := by
  have hlen : (ceilingRequest.request 1).numPromptTokens = 32769 := List.length_replicate
  have hhead : (ceilingEngine.added ceilingRequest).sched.heap 0 = ceilingRequest.request 1 :=
    added_heap ceilingEngine ceilingRequest
  cases hplanned with
  | decode blocked h =>
    have hadmits : (ceilingEngine.added ceilingRequest).sched.admitsHead = true := by
      refine admitsHead_of_free (show _ = 0 :: [] from rfl) (show 0 < 8 by decide) rfl ?_
      rw [hhead]
      unfold Scheduler.worstCaseBlocks
      rw [hlen]
      show ((blocksForTokens (32769 + (1 : Int).toNat) : Nat) : Int) ≤ ((poolIds 2340).length : Int) - 0
      rw [length_poolIds]
      decide
    rw [hadmits] at blocked
    cases blocked
  | prefill s1 k r rest h =>
    have hqueue : s1.prefillQueue = [0].take k := h.admissions.prefill
    have hr : r = 0 ∧ 0 ∈ [0].take k := by
      rw [h.queue] at hqueue
      have hmem : r ∈ [0].take k := by rw [← hqueue]; exact List.mem_cons_self
      have hr := List.mem_singleton.mp (List.mem_of_mem_take hmem)
      exact ⟨hr, hr ▸ hmem⟩
    obtain ⟨rfl, hmem⟩ := hr
    obtain ⟨slot, hslot⟩ := h.admissions.taken 0 hmem
    rw [hhead] at hslot
    rw [h.shape]
    unfold Scheduler.chunkPlan chunkEnd
    rw [hslot]
    refine ⟨rfl, rfl, ?_⟩
    show min (0 + (32769 : Int).toNat) (ceilingRequest.request 1).numPromptTokens = 32769
    rw [hlen]
    decide

/-- the run feeds position 32768 -/
theorem ceiling_run : ∃ w, run (EngineRun.step hostOnly.noting) (.init ceilingEngine ([], ()))
      [.addRequest ceilingRequest, .step (.ok fun _ => 0)] = some w ∧
    ∃ l ∈ w.device.1, ∃ row ∈ l.rows, row.position = 32768 := by
  have hE : EngineInv 2340 (Engine.schedulerOptions ceilingConfig ceilingOptions) ceilingEngine :=
    EngineInv.make ceilingEngine_make
  have hE1 := Engine.EngineInv.added hE ceilingRequest_accepted
  obtain ⟨w, hstep, _, hdid⟩ := EngineRun.step_spec
    (w := ⟨ceilingEngine.added ceilingRequest, ([], ()), [.added 1 ceilingRequest]⟩) hostOnly.noting hE1
    (.step (.ok fun _ => 0))
  refine ⟨w, ?_, ?_⟩
  · rw [run_cons, step_added (w := .init ceilingEngine ([], ())) hE ceilingRequest_accepted,
      Option.bind_some, run_cons]
    exact congrArg (Option.bind · _) hstep
  have hrows : ∀ (x : Executor) plan s l,
      Launched x (Engine.schedulerOptions ceilingConfig ceilingOptions) s plan l →
      plan.prefill = some 0 ∧ plan.prefillBegin = 0 ∧ plan.prefillEnd = 32769 → ∃ row ∈ l.rows,
        row.position = 32768 := by
    rintro x plan s l hl ⟨hp, hb, he⟩
    cases hl with
    | chunk r prefill ok =>
      refine ⟨_, List.mem_map.mpr ⟨32768, List.mem_range.mpr ?_, rfl⟩, ?_⟩
      · omega
      · show plan.prefillBegin + 32768 = 32768
        omega
    | batch rows prefill busy ok live max =>
      rw [hp] at prefill
      cases prefill
  cases hdid with
  | stepped k plan s out e d plans planned ended =>
    have hplan := ceiling_plan planned
    cases ended with
    | idle empty =>
      unfold StepPlan.empty at empty
      rw [hplan.1] at empty
      cases empty
    | evictions prefill decode results s completed =>
      rw [hplan.1] at prefill
      cases prefill
    | refused m err launch busy =>
      have hE2 := Engine.EngineInv.planned hE1 planned
      exact absurd launch (chunk_launched hE2.sched hE2.fits (planned.planOk hE1.sched) hplan.1 hE2.prompts
        (fun _ _ => nofun) err _)
    | threw m done l err d' launch launched device busy =>
      cases (Prod.mk.inj device).1
    | done m done l argmax d' results s launch launched device completed =>
      obtain ⟨_, rfl⟩ := Prod.mk.inj device
      exact ⟨l, List.mem_singleton.mpr rfl, hrows _ plan _ l launched hplan⟩

/-- a JSON library that is not asked -/
def noJson : JsonLibrary := ⟨fun _ => .error "", fun _ => "", 1⟩

/-- a request of three positions -/
theorem positions_below_short :
    ∃ w, run (EngineRun.step hostOnly.noting) (.init ceilingEngine ([], ()))
        [.addRequest ⟨[1, 2], 2, false, []⟩, .step (.ok fun _ => 0)] = some w ∧
      ∀ l ∈ w.device.1, l.Below (CheckpointConfig.pinned [151645, 151643]).maxPositionEmbeddings :=
  positions_below (ceilingCfg_accepted noJson) ceilingEngine_make hostOnly () _
    ⟨fun _ => show (2 : Int) + 2 ≤ 32768 + 1 by decide, fun _ _ => ⟨trivial, fun _ _ => trivial⟩⟩

/-- a prompt of 32769 tokens -/
theorem exceeds_ceiling : ¬ ∀ (lib : JsonLibrary) (cfg : List (String × JsonText))
    (eosTokenIds : List Int)
    (c : CheckpointConfig), CheckpointConfig.fromJsonText lib cfg eosTokenIds = .ok c →
    ∀ (options : EngineOptions) (captured : Bool) (probe : Nat → Nat → Option PrefillGemmMode)
      (e : Engine),
    Engine.make c.toModelConfig options captured probe = .ok e →
    ∀ (κ δ : Type) (env : Environment κ δ) (d : δ) (calls : List (EngineCall κ))
      (w : EngineRun (List Launch × δ)),
    run (EngineRun.step env.noting) (.init e ([], d)) calls = some w →
    ∀ l ∈ w.device.1, l.Below c.maxPositionEmbeddings := by
  intro h
  obtain ⟨w, hrun, l, hl, row, hrow, hposition⟩ := ceiling_run
  have hbelow :=
    h noJson ceilingCfg _ _ (ceilingCfg_accepted noJson) ceilingOptions true tinyProbe ceilingEngine
    ceilingEngine_make _ _ hostOnly () _ w hrun l hl row hrow
  rw [hposition] at hbelow
  exact absurd hbelow (show ¬ (32768 : Int) < 32768 by decide)

end Redline

import Redline.Device.Layered
import Redline.Engine.Checks

/-!
# Graphs and padding

A decode batch runs as a captured graph, padded to its bucket, or kernel by kernel, padded or not as
`pad_eager_to_bucket` says.  The padded rows write the dummy block and their tokens are not copied
back, so two launches of one plan answer alike (`Launched.layered_same`).

`Twin` relates two engines that differ in their graphs, their padding, their mirrors and what they
counted; a launch is refused by both or by none (`launch_outcome`).  `padding_unseen` follows them
along a run.
-/

namespace Redline
open Prog Decoding

/-! ## two launches of one plan -/

theorem runRows_append {ι : Type} (f : Option Nat → DeviceRow → Pool ι → ι × Int)
    (items items' : List (Option Nat × DeviceRow)) (d : Pool ι) : runRows f (items ++ items') d
      = ((runRows f items d).1 ++ (runRows f items' (runRows f items d).2).1,
        (runRows f items' (runRows f items d).2).2) := by
  simp only [runRows_eq]
  exact InOrder.run_append items items' d

section
variable {κ : Type} {T : Nat} {o : SchedulerOptions} {s : Scheduler} {plan : StepPlan}
  {x x' : Executor} {l l' : Launch}

/-- padded rows change neither the live tokens nor the live cells -/
theorem runRows_pads (f : Option Nat → DeviceRow → Pool κ → κ × Int)
    (items : List (Option Nat × DeviceRow)) {row : DeviceRow} (hrow : PadRow row) (n : Nat)
    (d : Pool κ) : (∀ t < items.length,
        (runRows f (items ++ owners [] (List.replicate n row)) d).1[t]? = (runRows f items d).1[t]?) ∧
      ∀ c, c.1 ≠ kDummyBlockId →
        (runRows f (items ++ owners [] (List.replicate n row)) d).2 c = (runRows f items d).2 c := by
  rw [runRows_append]
  refine ⟨fun t ht => List.getElem?_append_left (by rw [length_runRows]; exact ht), fun c hc => ?_⟩
  show (runRows f (owners [] (List.replicate n row)) _).2 c = _
  rw [runRows_eq]
  refine InOrder.run_frame _ fun j hj => ?_
  obtain ⟨t, ht⟩ := List.getElem?_of_mem hj
  rw [owners_pad _ _ _ (Nat.zero_le _)] at ht
  obtain ⟨row', hr, rfl⟩ := Option.map_eq_some_iff.mp ht
  have hrow' : row' = row := List.eq_of_mem_replicate (List.mem_of_getElem? hr)
  intro e
  refine hc ((congrArg Prod.fst e).symm.trans ?_)
  show (cellOf row'.table row'.position).1 = _
  rw [hrow']
  exact hrow.block

/-- **Two launches of one plan**, padded differently, answer alike. -/
theorem Launched.greedy_same (hL : Launched x o s plan l) (hL' : Launched x' o s plan l')
    (hw : x'.maxBlocksPerSeq = x.maxBlocksPerSeq) (F : Numerics κ) (d : Pool κ) :
    answered l (greedyDevice F l d).1 = answered l' (greedyDevice F l' d).1 ∧
      ∀ c, c.1 ≠ kDummyBlockId → (greedyDevice F l d).2 c = (greedyDevice F l' d).2 c := by
  have htable : ∀ blocks, x'.tableRow blocks = x.tableRow blocks := fun blocks => by
    unfold Executor.tableRow
    rw [hw]
  cases hL with
  | chunk r prefill ok =>
    cases hL' with
    | batch rows' prefill' busy' ok' live' max' => rw [prefill] at prefill'; cases prefill'
    | chunk r' prefill' ok' =>
      obtain rfl : r' = r := Option.some.inj (prefill'.symm.trans prefill)
      have hrow : ∀ p, x'.chunkRow (s.heap r') plan.prefillEnd p
          = x.chunkRow (s.heap r') plan.prefillEnd p := fun p => by
        unfold Executor.chunkRow
        rw [htable]
      simp [hrow, answered, greedyDevice, Launch.items]
  | batch rows prefill busy ok live max =>
    cases hL' with
    | chunk r' prefill' ok' => rw [prefill'] at prefill; cases prefill
    | batch rows' prefill' busy' ok' live' max' =>
      have hrow : ∀ r, x'.decodeRow (s.heap r) = x.decodeRow (s.heap r) := fun r => by
        unfold Executor.decodeRow
        rw [htable]
      have hpos : ∀ y : Executor, (∀ r ∈ plan.decode, DecodeRowOk y (s.heap r)) →
          0 < y.maxBlocksPerSeq := by
        intro y hok
        obtain ⟨r, hr⟩ := List.exists_mem_of_ne_nil _ busy
        have h1 := blocksForTokens_pos (Nat.lt_of_lt_of_le Nat.zero_lt_one (hok r hr).seqLen.1)
        exact Nat.lt_of_lt_of_le h1 ((hok r hr).table.covers.trans (hok r hr).table.width)
      have hitems : ∀ (y : Executor) (n : Nat), (∀ r, y.decodeRow (s.heap r) = x.decodeRow (s.heap r)) →
          owners plan.decode (y.decodeRows (plan.decode.map s.heap) n)
            = owners plan.decode (plan.decode.map fun r => x.decodeRow (s.heap r)) ++
              owners [] (List.replicate (n - plan.decode.length) y.paddedRow) := by
        intro y n hy
        unfold Executor.decodeRows
        rw [owners_append _ _ _ (by simp), List.map_map, List.length_map]
        exact congrArg (fun rows => owners plan.decode rows ++ _) (List.map_congr_left fun r _ => hy r)
      have hlen : (owners plan.decode (plan.decode.map fun r => x.decodeRow (s.heap r))).length
          = plan.decode.length := by rw [length_owners, List.length_map]
      obtain ⟨h1, h2⟩ := runRows_pads (greedyRow F) (owners plan.decode (plan.decode.map fun r =>
        x.decodeRow (s.heap r))) (padRow_paddedRow (hpos x ok)) (rows - plan.decode.length) d
      obtain ⟨h1', h2'⟩ := runRows_pads (greedyRow F) (owners plan.decode (plan.decode.map fun r =>
        x.decodeRow (s.heap r))) (padRow_paddedRow (hpos x' ok')) (rows' - plan.decode.length) d
      rw [← hitems x rows fun _ => rfl] at h1 h2
      rw [← hitems x' rows' hrow] at h1' h2'
      refine ⟨congrArg Except.ok (List.map_congr_left fun t ht => ?_), fun c hc => ?_⟩
      · have htl : t < plan.decode.length := List.mem_range.mp ht
        rw [hlen] at h1 h1'
        simp only [Bool.false_eq_true, if_false, Launch.items]
        rw [List.getD_eq_getElem?_getD, List.getD_eq_getElem?_getD, h1 t htl, h1' t htl]
      · exact (h2 c hc).trans (h2' c hc).symm

/-! ## the layered device on both -/

variable {V C : Type}

/-- the slices agree, but for the dummy block -/
def SameSlices (numLayers : Nat) (slab slab' : Slab V C) : Prop :=
  ∀ layer < numLayers, ∀ c, c.1 ≠ kDummyBlockId → slab.pool layer c = slab'.pool layer c

theorem Launched.layered_same (h : Inv T o s) (hP : Scheduler.PlanOk o s plan)
    (hL : Launched x o s plan l) (hL' : Launched x' o s plan l')
    (hw : x'.maxBlocksPerSeq = x.maxBlocksPerSeq) (M : RowMath V C) {y y' : Executor}
    (hy : y.Refilled x) (hy' : y'.Refilled x') (hconfig : y'.config = y.config)
    (hpos : 0 < y.config.numLayers.toNat) {slab slab' : Slab V C}
    (hsame : SameSlices y.config.numLayers.toNat slab slab') :
    answered l (layeredDevice M y l slab).1 = answered l' (layeredDevice M y' l' slab').1 ∧
      SameSlices y.config.numLayers.toNat (layeredDevice M y l slab).2
        (layeredDevice M y' l' slab').2 := by
  obtain ⟨hans, hpool⟩ := hL.greedy_same hL' hw (M.numerics y.config.numLayers.toNat) slab.cells
  obtain ⟨h1, h2⟩ := layered_answers M hpos x s plan l hy h hP hL slab.cells slab fun _ _ _ _ => rfl
  have hpos' : 0 < y'.config.numLayers.toNat := by rw [hconfig]; exact hpos
  have hboth := layered_answers M hpos' x' s plan l' hy' h hP hL' slab.cells slab'
    fun layer hlayer c hc => (hsame layer (hconfig ▸ hlayer) c hc).symm
  rw [hconfig] at hboth
  refine ⟨h1.symm.trans (hans.trans hboth.1), fun layer hlayer c hc => ?_⟩
  exact (h2 layer hlayer c hc).trans ((congrFun (hpool c hc) layer).trans
    (hboth.2 layer hlayer c hc).symm)

/-- the tokens of a launch come out of the argmax kernel -/
theorem Launched.argmax (h : Inv T o s) (hP : Scheduler.PlanOk o s plan)
    (hL : Launched x o s plan l) (M : RowMath V C) {y : Executor} (hy : y.Refilled x)
    (slab : Slab V C) {t : Nat} (ht : t < l.tokens) :
    ∃ v, (layeredSlab M y l slab).argmax t = M.argmax v := by
  cases hp : l.prefill with
  | false =>
    obtain ⟨htokens, hlen, _⟩ := hL.decoded h hP hp
    have hrow : t < l.rows.length := by omega
    rw [layeredSlab_decode M y slab hp (hL.enqueued h hP hy)]
    exact ⟨_, if_pos hrow⟩
  | true =>
    have hops := hL.enqueued h hP hy
    obtain ⟨m, rfl⟩ := hy
    obtain ⟨chunkStart, mode, hmode, _, _, _, htokens, hctx, _⟩ := hL.chunked hp
    have hfinal : 0 < l.tokens := Nat.lt_of_le_of_lt (Nat.zero_le t) ht
    rw [layeredSlab_prefill M y slab hp hmode hctx hops, if_pos hfinal]
    exact ⟨_, if_pos (Nat.lt_of_lt_of_le ht htokens)⟩

end

/-! ## the two engines -/

/-- engines that differ in their graphs, their padding and what they counted -/
structure Twin (T : Nat) (o : SchedulerOptions) (y y' : Executor) (e e' : Engine) : Prop where
  inv : EngineInv T o e
  inv' : EngineInv T o e'
  spoken : Spoken e
  sched : e'.sched = e.sched
  nextRequestId : e'.nextRequestId = e.nextRequestId
  requests : e'.requests = e.requests
  /-- the executors stay those of the constructors -/
  refilled : y.Refilled e.executor
  refilled' : y'.Refilled e'.executor
  configs : y'.config = y.config
  probes : y'.probe = y.probe

section
variable {T : Nat} {o : SchedulerOptions} {y y' : Executor} {e e' : Engine} {plan : StepPlan}

theorem Twin.config (h : Twin T o y y' e e') : e.executor.config = y.config := by
  obtain ⟨m, hm⟩ := h.refilled
  rw [hm]

theorem Twin.config' (h : Twin T o y y' e e') : e'.executor.config = y.config := by
  obtain ⟨m, hm⟩ := h.refilled'
  rw [hm]
  exact h.configs

theorem Twin.probe (h : Twin T o y y' e e') : e'.executor.probe = e.executor.probe := by
  obtain ⟨m, hm⟩ := h.refilled
  obtain ⟨m', hm'⟩ := h.refilled'
  rw [hm, hm']
  exact h.probes

theorem Twin.width (h : Twin T o y y' e e') :
    e'.executor.maxBlocksPerSeq = e.executor.maxBlocksPerSeq :=
  h.inv'.fits.width.trans h.inv.fits.width.symm

theorem Twin.spoken' (h : Twin T o y y' e e') : Spoken e' := by
  intro r hr t ht
  rw [h.sched] at hr ht
  show _ ∧ t < e'.executor.config.vocabSize
  rw [h.config', ← h.config]
  exact h.spoken r hr t ht

theorem Twin.planned (h : Twin T o y y' e e') {s : Scheduler}
    (hP : Scheduler.Planned T o e.sched plan s) :
    Twin T o y y' { e with sched := s } { e' with sched := s } where
  inv := Engine.EngineInv.planned h.inv hP
  inv' := Engine.EngineInv.planned h.inv' (by rw [h.sched]; exact hP)
  spoken := h.spoken.planned hP
  sched := rfl
  nextRequestId := h.nextRequestId
  requests := h.requests
  refilled := h.refilled
  refilled' := h.refilled'
  configs := h.configs
  probes := h.probes

/-- a chunk without an algorithm -/
theorem Executor.prefillChunk_refused {x : Executor} {q : Request} {chunkBegin chunkEnd : Nat}
    (h : ChunkOk x q chunkBegin chunkEnd) (hp : x.probe (chunkEnd - chunkBegin) chunkEnd = none) :
    ∃ log, x.prefillChunk false q chunkBegin chunkEnd
      = some (log, .error (.noPrefillAlgorithm (chunkEnd - chunkBegin) chunkEnd)) := by
  refine ⟨_ ++ ([Action.resolve] ++ []), Script.bind_ok (fillPrefillMirrors_returns h.sliceOk) ?_⟩
  refine Script.bind_ok (Script.returns_emit _) ?_
  rw [hp]
  rfl

/-- how a launch starts: refused for want of a prefill algorithm, or with the rows of the plan -/
inductive LaunchOutcome (o : SchedulerOptions) (e : Engine) (plan : StepPlan) : Prop where
  | refused (r : Nat) (m : Mirrors) (prefill : plan.prefill = some r)
      (probe : e.executor.probe (plan.prefillEnd - plan.prefillBegin) plan.prefillEnd = none)
      (launch : e.launch plan = some (.error (.noPrefillAlgorithm
        (plan.prefillEnd - plan.prefillBegin) plan.prefillEnd), { e.executor with mirrors := m }))
  | launched (done : Executed) (l : Launch) (m : Mirrors)
      (probe : ∀ r, plan.prefill = some r →
        e.executor.probe (plan.prefillEnd - plan.prefillBegin) plan.prefillEnd ≠ none)
      (launch : e.launch plan = some (.ok (done, l), { e.executor with mirrors := m }))
      (rows : Launched e.executor o e.sched plan l)

theorem launch_outcome (hE : EngineInv T o e) (hS : Spoken e) (hP : Scheduler.PlanOk o e.sched plan)
    (hne : plan.prefill = none → plan.decode ≠ []) : LaunchOutcome o e plan := by
  obtain ⟨out, m, hl, hL⟩ := launch_spec hE.sched hE.fits hP hne hE.prompts
  have hchecks := passes_of_planOk hE hS hP
  cases hp : plan.prefill with
  | some r =>
    obtain ⟨hok, _⟩ := hchecks.chunk r hp
    have hcall := hl
    unfold Engine.launch at hcall
    rw [hp] at hcall
    cases hprobe : e.executor.probe (plan.prefillEnd - plan.prefillBegin) plan.prefillEnd with
    | none =>
      obtain ⟨log, hs⟩ := Executor.prefillChunk_refused hok hprobe
      simp only [hs] at hcall
      obtain ⟨rfl, -⟩ := Prod.mk.inj (Option.some.inj hcall)
      exact .refused r m hp hprobe hl
    | some mode =>
      rcases Executor.prefillChunk_spec hok with ⟨hnone, _⟩ | ⟨mode, work, _, _, _, hs⟩
      · rw [hprobe] at hnone
        cases hnone
      · simp only [hs.eq] at hcall
        obtain ⟨rfl, -⟩ := Prod.mk.inj (Option.some.inj hcall)
        exact .launched _ _ m (fun _ _ => by rw [hprobe]; nofun) hl (hL _ _ rfl)
  | none =>
    have hrows := hchecks.rows hp
    have hbatch : ∀ q ∈ plan.decode.map e.sched.heap, DecodeRowOk e.executor q := by
      intro q hq
      obtain ⟨r, hr, rfl⟩ := List.mem_map.mp hq
      exact hrows r hr
    have hmax : (plan.decode.map e.sched.heap).length ≤ o.maxBatch := by
      obtain ⟨log, shape, _, h1, h2⟩ := hchecks.eager hp (hne hp)
      rw [hE.fits.batch] at h2
      rw [List.length_map]
      omega
    have hcall := hl
    unfold Engine.launch at hcall
    rw [hp] at hcall
    obtain ⟨n, log, shape, hs, _⟩ := decodeCall_returns hE.fits (by simpa using hne hp) hmax hbatch
    rw [List.length_map] at hs
    simp only [hs.eq] at hcall
    obtain ⟨rfl, -⟩ := Prod.mk.inj (Option.some.inj hcall)
    exact .launched _ _ m (fun r hr => by rw [hp] at hr; cases hr) hl (hL _ _ rfl)

theorem Twin.finish (h : Twin T o y y' e e') {sampled : List Int} {results : List StepResult}
    {s : Scheduler} (hC : Scheduler.Completed T o e.sched plan sampled results s)
    (hv : ∀ t ∈ sampled, e.executor.inVocabulary t) (done done' : Executed) :
    Twin T o y y' (e.finish plan done results s) (e'.finish plan done' results s) where
  inv := Engine.EngineInv.completed h.inv hC done
  inv' := Engine.EngineInv.completed h.inv' (by rw [h.sched]; exact hC) done'
  spoken := h.spoken.completed h.inv hC hv done
  sched := rfl
  nextRequestId := h.nextRequestId
  requests := congrArg (Engine.dropFinished · results) h.requests
  refilled := h.refilled
  refilled' := h.refilled'
  configs := h.configs
  probes := h.probes

theorem Twin.mirrors (h : Twin T o y y' e e') (m m' : Mirrors) :
    Twin T o y y' { e with executor := { e.executor with mirrors := m } }
      { e' with executor := { e'.executor with mirrors := m' } } :=
  ⟨Engine.EngineInv.mirrors h.inv m, Engine.EngineInv.mirrors h.inv' m', h.spoken, h.sched,
    h.nextRequestId, h.requests, h.refilled.trans ⟨m, rfl⟩, h.refilled'.trans ⟨m', rfl⟩, h.configs,
    h.probes⟩

theorem Engine.complete_eq (e : Engine) (done : Executed) {sampled : List Int}
    {results : List StepResult}
    {s : Scheduler} (hs : e.sched.completeStep plan sampled = some (results, s)) :
    e.complete plan done sampled = some (results, e.finish plan done results s) := by
  simp only [Engine.complete, hs, Option.bind_eq_bind, Option.bind_some]
  rfl

variable {δ : Type} {R : δ → δ → Prop} {dev dev' : Device δ} {d d' : δ}

/-- the devices answer two launches of one plan alike, inside the vocabulary -/
structure TwinDevices (T : Nat) (o : SchedulerOptions) (y y' : Executor) (R : δ → δ → Prop)
    (dev dev' : Device δ) : Prop where
  alike : ∀ x x' s plan l l', y.Refilled x → y'.Refilled x' → Inv T o s →
    Scheduler.PlanOk o s plan → Launched x o s plan l →
    Launched x' o s plan l' → x'.maxBlocksPerSeq = x.maxBlocksPerSeq → ∀ d d', R d d' →
      answered l (dev l d).1 = answered l' (dev' l' d').1 ∧ R (dev l d).2 (dev' l' d').2
  vocabulary : ∀ x s plan l, y.Refilled x → Inv T o s → Scheduler.PlanOk o s plan →
    Launched x o s plan l →
    ∀ d tokens, answered l (dev l d).1 = .ok tokens → ∀ t ∈ tokens, 0 ≤ t ∧ t < y.config.vocabSize

/-- how a call ends on twin engines -/
def EndAlike (T : Nat) (o : SchedulerOptions) (y y' : Executor) (R : δ → δ → Prop)
    (out out' : Option (Except ExecutorError (List StepResult) × Engine × δ)) : Prop :=
  ∃ res e e' d d', out = some (res, e, d) ∧ out' = some (res, e', d') ∧ Twin T o y y' e e' ∧ R d d'

theorem Twin.execute (h : Twin T o y y' e e') (hP : Scheduler.PlanOk o e.sched plan)
    (hdev : TwinDevices T o y y' R dev dev') (hR : R d d') :
    EndAlike T o y y' R (e.execute dev d plan) (e'.execute dev' d' plan) := by
  have hP' : Scheduler.PlanOk o e'.sched plan := by rw [h.sched]; exact hP
  unfold EndAlike Engine.execute
  by_cases hn : (plan.prefill.isNone && plan.decode.isEmpty) = true
  · -- the device is not asked
    have hp : plan.prefill = none := by simpa using (Bool.and_eq_true_iff.mp hn).1
    have hd : plan.decode = [] := by simpa using (Bool.and_eq_true_iff.mp hn).2
    have hlen : ([] : List Int).length = e.sched.tokensDue plan := by
      unfold Scheduler.tokensDue
      rw [hp, hd]
      rfl
    obtain ⟨results, s, hs, hC⟩ := Scheduler.completeStep_spec h.inv.sched hP hlen
    have hs' : e'.sched.completeStep plan [] = some (results, s) := by rw [h.sched]; exact hs
    rw [if_pos hn, if_pos hn, Engine.complete_eq e {} hs, Engine.complete_eq e' {} hs']
    exact ⟨_, _, _, d, d', rfl, rfl, h.finish hC nofun {} {}, hR⟩
  · have hne : plan.prefill = none → plan.decode ≠ [] := by
      intro h1 h2
      rw [h1, h2] at hn
      exact hn rfl
    rw [if_neg hn, if_neg hn]
    cases launch_outcome h.inv h.spoken hP hne with
    | refused r m prefill probe launch =>
      cases launch_outcome h.inv' h.spoken' hP' hne with
      | launched done l m' probe' launch' rows' =>
        exact absurd (h.probe ▸ probe) (probe' r prefill)
      | refused r' m' prefill' probe' launch' =>
        rw [launch, launch']
        exact ⟨_, _, _, d, d', rfl, rfl, h.mirrors m m', hR⟩
    | launched done l m probe launch rows =>
      cases launch_outcome h.inv' h.spoken' hP' hne with
      | refused r' m' prefill' probe' launch' =>
        exact absurd (h.probe ▸ probe') (probe r' prefill')
      | launched done' l' m' probe' launch' rows' =>
        rw [h.sched] at rows'
        obtain ⟨hans, hnext⟩ := hdev.alike _ _ _ plan l l' h.refilled h.refilled' h.inv.sched hP rows
          rows' h.width d d' hR
        have hvocab : ∀ tokens, answered l (dev l d).1 = .ok tokens →
            ∀ t ∈ tokens, e.executor.inVocabulary t := fun tokens ht t hm => by
          have := hdev.vocabulary _ _ plan l h.refilled h.inv.sched hP rows d tokens ht t hm
          rw [← h.config] at this
          exact this
        simp only [launch, launch', Option.bind_eq_bind, Option.bind_some]
        cases hd1 : dev l d with
        | mk r d1 =>
          cases hd1' : dev' l' d' with
          | mk r' d1' =>
            rw [hd1, hd1'] at hans hnext
            rw [hd1] at hvocab
            cases r with
            | error err =>
              cases r' with
              | ok argmax' => cases hans
              | error err' =>
                obtain rfl := Except.error.inj hans
                exact ⟨_, _, _, d1, d1', rfl, rfl, h.mirrors m m', hnext⟩
            | ok argmax =>
              cases r' with
              | error err' => cases hans
              | ok argmax' =>
                have htokens : (List.range l.tokens).map argmax = (List.range l'.tokens).map argmax' :=
                  Except.ok.inj hans
                have hlen : ((List.range l.tokens).map argmax).length = e.sched.tokensDue plan := by
                  rw [List.length_map, List.length_range, rows.tokens]
                obtain ⟨results, s, hs, hC⟩ := Scheduler.completeStep_spec h.inv.sched hP hlen
                have hs' : e'.sched.completeStep plan ((List.range l'.tokens).map argmax')
                    = some (results, s) := by
                  rw [h.sched, ← htokens]
                  exact hs
                have hm := (h.mirrors m m').finish hC (hvocab _ rfl) done done'
                have h1 := Engine.complete_eq { e with
                  executor := { e.executor with mirrors := m } } done hs
                have h1' := Engine.complete_eq { e' with
                  executor := { e'.executor with mirrors := m' } } done' hs'
                simp only [h1, h1', Option.bind_some]
                exact ⟨_, _, _, d1, d1', rfl, rfl, hm, hnext⟩

/-- **One step of twin engines.** -/
theorem Twin.step (h : Twin T o y y' e e')
    (hdev : TwinDevices T o y y' R dev dev') (hR : R d d') :
    EndAlike T o y y' R (e.step dev d) (e'.step dev' d') := by
  obtain ⟨plan, s, hs, hP⟩ := Scheduler.planStep_spec h.inv.sched
  have hs' : e'.sched.planStep = some (plan, s) := by rw [h.sched]; exact hs
  unfold Engine.step
  simp only [hs, hs', Option.bind_eq_bind, Option.bind_some]
  by_cases hempty : plan.empty = true
  · rw [if_pos hempty, if_pos hempty]
    exact ⟨_, _, _, d, d', rfl, rfl, h.planned hP, hR⟩
  · rw [if_neg hempty, if_neg hempty]
    exact (h.planned hP).execute (hP.planOk h.inv.sched) hdev hR

/-! ## runs -/

theorem Twin.checkTokens (h : Twin T o y y' e e') (tokens : List Int) (what : String) :
    e'.checkTokens tokens what = e.checkTokens tokens what := by
  have hv : ∀ t, e'.executor.inVocabulary t ↔ e.executor.inVocabulary t := fun t => by
    show (0 ≤ t ∧ t < e'.executor.config.vocabSize) ↔ (0 ≤ t ∧ t < e.executor.config.vocabSize)
    rw [h.config', h.config]
  have hfind : (fun t => decide ¬ e'.executor.inVocabulary t)
      = fun t => decide ¬ e.executor.inVocabulary t :=
    funext fun t => decide_eq_decide.mpr (not_congr (hv t))
  unfold Engine.checkTokens
  rw [hfind, h.config', h.config]

/-- a request is refused with the same error, or let in with the same id -/
theorem Twin.addRequest_eq (h : Twin T o y y' e e') (a : RequestArgs) : e'.addRequest a
    = (e.addRequest a).map fun r => r.map fun p => (p.1, { e' with
        sched := p.2.sched
        nextRequestId := p.2.nextRequestId
        requests := p.2.requests }) := by
  unfold Engine.addRequest
  rw [h.checkTokens, h.checkTokens, h.sched, h.nextRequestId, h.requests]
  cases e.checkTokens a.promptTokens "prompt_tokens" with
  | error err => rfl
  | ok u =>
    cases e.checkTokens a.forcedTokens "forced_tokens" with
    | error err => rfl
    | ok u' =>
      cases e.sched.enqueue (a.request e.nextRequestId) with
      | none => rfl
      | some r => cases r <;> rfl

theorem Twin.added (h : Twin T o y y' e e') {a : RequestArgs} (hA : Engine.Accepted o e a) :
    Twin T o y y' (e.added a) { e' with
      sched := (e.added a).sched
      nextRequestId := (e.added a).nextRequestId
      requests := (e.added a).requests } := by
  have hadded : ({ e' with
      sched := (e.added a).sched
      nextRequestId := (e.added a).nextRequestId
      requests := (e.added a).requests } : Engine) = e'.added a := by
    unfold Engine.added
    rw [h.sched, h.nextRequestId, h.requests]
  have hA' : Engine.Accepted o e' a := by
    have hv : ∀ t, e.executor.inVocabulary t → e'.executor.inVocabulary t := fun t ht => by
      show 0 ≤ t ∧ t < e'.executor.config.vocabSize
      rw [h.config', ← h.config]
      exact ht
    refine ⟨?_, fun t ht => hv t (hA.prompt t ht), fun t ht => hv t (hA.forced t ht)⟩
    rw [h.sched, h.nextRequestId]
    exact hA.valid
  refine ⟨Engine.EngineInv.added h.inv hA, ?_, fun r hr t ht => ?_,
    rfl, rfl, rfl, h.refilled, h.refilled', h.configs, h.probes⟩
  · rw [hadded]
    exact Engine.EngineInv.added h.inv' hA'
  · have ht' : t ∈ (Function.update e.sched.heap e.sched.nextPtr (a.request e.nextRequestId)
        r).outputTokens := ht
    by_cases hn : r = e.sched.nextPtr
    · rw [hn, Function.update_self] at ht'
      exact absurd ht' List.not_mem_nil
    · rw [Function.update_of_ne hn] at ht'
      have hr' : r < e.sched.nextPtr + 1 := hr
      exact h.spoken r (by omega) t ht'

/-- the runs of twin engines on related devices, with one log -/
structure TwinRuns (T : Nat) (o : SchedulerOptions) (y y' : Executor) (R : δ → δ → Prop)
    (w w' : EngineRun δ) : Prop where
  engine : Twin T o y y' w.engine w'.engine
  device : R w.device w'.device
  events : w'.events = w.events

variable {env env' : Environment Unit δ} {w w' : EngineRun δ}

theorem TwinRuns.step (hdev : ∀ k, TwinDevices T o y y' R (env.dev k) (env'.dev k))
    (hplanned : ∀ s s' d d', R d d' → R (env.planned s s' d) (env'.planned s s' d'))
    (h : TwinRuns T o y y' R w w') (call : EngineCall Unit) :
    ∃ w1 w1', EngineRun.step env w call = some w1 ∧ EngineRun.step env' w' call = some w1' ∧
      TwinRuns T o y y' R w1 w1' := by
  cases call with
  | addRequest a =>
    have ha' := h.engine.addRequest_eq a
    rcases Engine.addRequest_spec h.engine.inv a with ⟨err, ha⟩ | ⟨ha, hA⟩
    · rw [ha] at ha'
      exact ⟨_, _, EngineRun.step_refused env ha, EngineRun.step_refused env' ha', h.engine, h.device,
        congrArg (· ++ _) h.events⟩
    · rw [ha] at ha'
      exact ⟨_, _, EngineRun.step_added env ha, EngineRun.step_added env' ha', h.engine.added hA,
        h.device, congrArg (· ++ _) h.events⟩
  | step k =>
    obtain ⟨plan, s, hs, _⟩ := Scheduler.planStep_spec h.engine.inv.sched
    have hs' : w'.engine.sched.planStep = some (plan, s) := by rw [h.engine.sched]; exact hs
    obtain ⟨res, e1, e1', d1, d1', hx, hx', htwin, hR⟩ := h.engine.step (hdev k)
      (hplanned w.engine.sched s _ _ h.device)
    rw [← h.engine.sched] at hx'
    exact ⟨_, _, EngineRun.step_eq hs hx, EngineRun.step_eq hs' hx', htwin, hR,
      congrArg (· ++ _) h.events⟩

theorem TwinRuns.run (hdev : ∀ k, TwinDevices T o y y' R (env.dev k) (env'.dev k))
    (hplanned : ∀ s s' d d', R d d' → R (env.planned s s' d) (env'.planned s s' d'))
    (calls : List (EngineCall Unit)) : ∀ {w w' : EngineRun δ}, TwinRuns T o y y' R w w' →
    ∃ w1 w1', Prog.run (EngineRun.step env) w calls = some w1 ∧
      Prog.run (EngineRun.step env') w' calls = some w1' ∧ TwinRuns T o y y' R w1 w1' := by
  induction calls with
  | nil => exact fun h => ⟨_, _, rfl, rfl, h⟩
  | cons call calls ih =>
    intro w w' h
    obtain ⟨w1, w1', hs, hs', h1⟩ := TwinRuns.step hdev hplanned h call
    obtain ⟨w2, w2', hr, hr', h2⟩ := ih h1
    exact ⟨w2, w2', by rw [run_cons, hs]; exact hr, by rw [run_cons, hs']; exact hr', h2⟩

end

/-- the blocks and the probes of an accepted configuration -/
theorem Executor.make_blocks {c : ModelConfig} {o : ExecutorOptions} {captured : Bool}
    {probe : Nat → Nat → Option PrefillGemmMode} {x : Executor}
    (h : Executor.make c o captured probe = .ok x) :
    x.numKvBlocks = o.kvPoolBytes / (kKvBlockSize * c.kvBytesPerToken) ∧ x.probe = probe := by
  unfold Executor.make at h
  cases hb : computeBudget c o with
  | error err => rw [hb] at h; cases h
  | ok n =>
    rw [hb] at h
    obtain rfl := Except.ok.inj h
    unfold computeBudget at hb
    cases hv : validateGeometry c o with
    | error err => rw [hv] at hb; cases hb
    | ok u =>
      rw [hv] at hb
      simp only [bind, Except.bind] at hb
      split at hb
      · cases hb
      · exact ⟨(Except.ok.inj hb).symm, rfl⟩

section
variable {config : ModelConfig} {options : EngineOptions} {captured captured' : Bool}
  {probe : Nat → Nat → Option PrefillGemmMode} {graphs : Bool} {pad : Int} {e e' : Engine}

/-- what options that differ in graphs and padding make of one configuration -/
theorem Twin.make (he : Engine.make config options captured probe = .ok e)
    (he' : Engine.make config { options with
      enableCudaGraphs := graphs
      padEagerToBucket := pad } captured' probe = .ok e') :
    Twin e.totalBlocks (Engine.schedulerOptions config options) e.executor e'.executor e e' := by
  have hE := EngineInv.make he
  have hE' := EngineInv.make he'
  obtain ⟨x, hx, rfl⟩ := Engine.make_eq he
  obtain ⟨x', hx', rfl⟩ := Engine.make_eq he'
  obtain ⟨hblocks, hprobe⟩ := Executor.make_blocks hx
  obtain ⟨hblocks', hprobe'⟩ := Executor.make_blocks hx'
  have hsame : x'.numKvBlocks = x.numKvBlocks := hblocks'.trans hblocks.symm
  have htotal : x'.numKvBlocks.toNat = x.numKvBlocks.toNat := congrArg Int.toNat hsame
  refine ⟨hE, ?_, fun r hr => absurd hr (Nat.not_lt_zero r), ?_, rfl, rfl,
    ⟨_, rfl⟩, ⟨_, rfl⟩, (executor_of_make hx').2.1.trans (executor_of_make hx).2.1.symm,
    hprobe'.trans hprobe.symm⟩
  · unfold Engine.totalBlocks at hE' ⊢
    rw [← htotal]
    exact hE'
  · show Scheduler.make x'.numKvBlocks.toNat _ = Scheduler.make x.numKvBlocks.toNat _
    rw [htotal]
    rfl

end

/-- **Graphs and padding are not seen**, by kernels that compute each row by itself and an argmax in the
vocabulary.  Engines that differ in `enable_cuda_graphs`, in `pad_eager_to_bucket` and in whether the
capture succeeded make the same plans, report the same results and keep the same cells outside block 0,
for every run and both admission policies. -/
theorem padding_unseen (V C : Type) (M : RowMath V C) (config : ModelConfig)
    (options : EngineOptions) (graphs : Bool) (pad : Int) (captured captured' : Bool)
    (probe : Nat → Nat → Option PrefillGemmMode) (e e' : Engine)
    (he : Engine.make config options captured probe = .ok e)
    (he' : Engine.make config { options with
      enableCudaGraphs := graphs
      padEagerToBucket := pad } captured' probe = .ok e')
    (hM : ∀ v, 0 ≤ M.argmax v ∧ M.argmax v < config.vocabSize) (slab0 : Slab V C)
    (cs : List (EngineCall Unit)) :
    ∃ w w', run (EngineRun.step (layered M e.executor)) (.init e slab0) cs = some w ∧
      run (EngineRun.step (layered M e'.executor)) (.init e' slab0) cs = some w' ∧
      w'.events = w.events ∧ w'.engine.sched = w.engine.sched ∧
      SameSlices config.numLayers.toNat w.device w'.device := by
  have htwin := Twin.make he he'
  have hconfig : e.executor.config = config := by
    obtain ⟨x, hx, rfl⟩ := Engine.make_eq he
    exact (executor_of_make hx).2.1
  have hdev : ∀ k : Unit, TwinDevices e.totalBlocks (Engine.schedulerOptions config options)
      e.executor e'.executor (SameSlices config.numLayers.toNat) ((layered M e.executor).dev k)
      ((layered M e'.executor).dev k) := by
    intro k
    refine ⟨fun x x' s plan l l' hy hy' h hP hL hL' hw slab slab' hsame => ?_,
      fun x s plan l hy h hP hL slab tokens ht t hm => ?_⟩
    · have hslices : SameSlices e.executor.config.numLayers.toNat slab slab' := by
        rw [hconfig]
        exact hsame
      have := hL.layered_same h hP hL' hw M hy hy' htwin.configs htwin.inv.fits.layers hslices
      rw [hconfig] at this
      exact this
    · obtain rfl := Except.ok.inj ht
      obtain ⟨i, hi, rfl⟩ := List.mem_map.mp hm
      obtain ⟨v, hv⟩ := hL.argmax h hP M hy slab (List.mem_range.mp hi)
      rw [hv, hconfig]
      exact hM v
  have h0 : TwinRuns e.totalBlocks (Engine.schedulerOptions config options) e.executor e'.executor
      (SameSlices config.numLayers.toNat) (.init e slab0) (.init e' slab0) :=
    ⟨htwin, fun _ _ _ _ => rfl, rfl⟩
  obtain ⟨w, w', hw, hw', h⟩ := TwinRuns.run hdev (fun _ _ _ _ h => h) cs h0
  exact ⟨w, w', hw, hw', h.events, h.engine.sched, h.device⟩

/-- `tinyEngine` without graphs, its batches padded to two rows -/
def paddedEngine (policy : AdmissionPolicy) : Engine :=
  { tinyEngine policy with
    executor := { (tinyEngine policy).executor with
      options := makeExecutorOptions { tinyOptions policy with
        enableCudaGraphs := false
        padEagerToBucket := 2 }
      hasDecodeGraphs := false } }

theorem paddedEngine_make (policy : AdmissionPolicy) : Engine.make tinyConfig { tinyOptions policy with
      enableCudaGraphs := false
      padEagerToBucket := 2 } true tinyProbe = .ok (paddedEngine policy) := by
  have hoptions : makeExecutorOptions { tinyOptions policy with
      enableCudaGraphs := false
      padEagerToBucket := 2 } = { makeExecutorOptions (tinyOptions policy) with
      enableCudaGraphs := false
      padEagerToBucket := 2 } := rfl
  have hx : Executor.make tinyConfig (makeExecutorOptions { tinyOptions policy with
      enableCudaGraphs := false
      padEagerToBucket := 2 }) true tinyProbe = .ok (paddedEngine policy).executor := by
    unfold paddedEngine tinyEngine
    rw [hoptions, makeExecutorOptions_tiny]
    rfl
  have hg : ¬ (¬ 0 < (tinyOptions policy).kvPoolGb ∨ 1024 < (tinyOptions policy).kvPoolGb) := by
    show ¬ (¬ (0 : ℚ) < 1 / 4194304 ∨ (1024 : ℚ) < 1 / 4194304)
    norm_num
  unfold Engine.make
  rw [if_neg hg, hx]
  rfl

/-- one run replays graphs, the other one pads its eager batches -/
theorem padding_unseen_example : ∃ w w',
    run (EngineRun.step (layered tinyMath (tinyEngine .kReserveFull).executor))
      (.init (tinyEngine .kReserveFull) tinySlab) (tinyWorkload ++ List.replicate 4 (.step ()))
        = some w ∧
    run (EngineRun.step (layered tinyMath (paddedEngine .kReserveFull).executor))
      (.init (paddedEngine .kReserveFull) tinySlab) (tinyWorkload ++ List.replicate 4 (.step ()))
        = some w' ∧
    w'.events = w.events ∧ w'.engine.sched = w.engine.sched ∧ SameSlices 1 w.device w'.device ∧
    (tinyEngine .kReserveFull).replaysGraph 1 = true ∧
    (paddedEngine .kReserveFull).replaysGraph 1 = false ∧
    (paddedEngine .kReserveFull).executor.executedRows 1 0 = 2 := by
  obtain ⟨w, w', hw, hw', hevents, hsched, hslices⟩ := padding_unseen Int Int tinyMath tinyConfig
    (tinyOptions .kReserveFull) false 2 true true tinyProbe (tinyEngine .kReserveFull)
    (paddedEngine .kReserveFull) (tinyEngine_make .kReserveFull) (paddedEngine_make .kReserveFull)
    (fun v => ⟨Int.emod_nonneg v (by decide), Int.emod_lt_of_pos v (by decide)⟩) tinySlab
    (tinyWorkload ++ List.replicate 4 (.step ()))
  exact ⟨w, w', hw, hw', hevents, hsched, hslices, by decide, by decide, by decide⟩

end Redline

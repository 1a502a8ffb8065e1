import Redline.Engine.Enqueued
import Redline.Sched.Request

/-!
# The executor call of a plan

`Fits x T o`: the sizes of the executor are the ones the scheduler works with.  Then a plan that
stands meets every check of the executor but one: the last token of a decode row may lie outside
the vocabulary, if the device sampled it there.

`launch_spec`: no assertion of the executor fails, and what is launched is `Launched`: the rows of
the plan, as they were meant.
-/

namespace Redline
open Prog Script Ledger

structure Fits (x : Executor) (T : Nat) (o : SchedulerOptions) : Prop where
  blocks : x.numKvBlocks = T
  batch : x.options.maxBatch = o.maxBatch
  seqLen : x.options.maxSeqLen = o.maxSeqLen
  chunk : x.options.prefillChunkTokens = o.prefillChunkTokens
  width : x.maxBlocksPerSeq = blocksForTokens o.maxSeqLen
  buckets : x.buckets = makeDecodeBuckets o.maxBatch
  layers : 0 < x.config.numLayers.toNat

/-! ## buckets -/

theorem selectBucket_some {n b : Nat} {buckets : List Nat} (h : selectBucket n buckets = some b) :
    0 < n ∧ n ≤ b ∧ b ∈ buckets := by
  unfold selectBucket at h
  by_cases hn : n = 0
  · rw [if_pos hn] at h; cases h
  · rw [if_neg hn] at h
    have hle := List.find?_some h
    exact ⟨by omega, by simpa using hle, List.mem_of_find?_eq_some h⟩

theorem le_of_mem_buckets {b m : Nat} (h : b ∈ makeDecodeBuckets m) : b ≤ m := by
  unfold makeDecodeBuckets at h
  simpa using (List.mem_filter.mp h).2

section
variable {T : Nat} {o : SchedulerOptions} {x : Executor}

/-- the executed rows cover the live ones -/
theorem Executor.executedRows_le (x : Executor) {live padToRows : Nat}
    (hp : 0 < padToRows → live ≤ padToRows) : live ≤ x.executedRows live padToRows := by
  unfold Executor.executedRows
  split
  · exact hp ‹_›
  · split
    · simp only
      split
      · rename_i bucket hs
        have hle := (selectBucket_some hs).2.1
        split <;> omega
      · omega
    · omega

/-- **The executed rows** cover the live ones and never exceed `max_batch`. -/
theorem Fits.executedRows (hF : Fits x T o) {live : Nat} (hlive : live ≤ o.maxBatch)
    (padToRows : Nat) (hp : 0 < padToRows → live ≤ padToRows ∧ padToRows ≤ o.maxBatch) :
    live ≤ x.executedRows live padToRows ∧ x.executedRows live padToRows ≤ o.maxBatch := by
  refine ⟨x.executedRows_le fun h0 => (hp h0).1, ?_⟩
  unfold Executor.executedRows
  split
  · exact (hp ‹_›).2
  · split
    · simp only
      split
      · rename_i bucket hs
        obtain ⟨_, _, hm⟩ := selectBucket_some hs
        rw [hF.buckets] at hm
        have := le_of_mem_buckets hm
        split <;> omega
      · omega
    · omega

/-! ## what stands meets the checks -/

variable {s : Scheduler}

theorem Inv.block_bounds (h : Inv T o s) {r : Nat} (hr : r ∈ s.admitted) {b : Int}
    (hb : b ∈ (s.heap r).blockTable.blocks) : 1 ≤ b ∧ b < T := by
  have hm : b ∈ s.blocksHeld s.admitted := mem_held.mpr ⟨r, hr, hb⟩
  rw [← h.total]
  exact h.alloc.bounds (Or.inr hm)

theorem Fits.table (hF : Fits x T o) (h : Inv T o s) {r : Nat} (hr : r ∈ s.admitted) {n : Nat}
    (hn : (s.heap r).blockTable.numBlocks = blocksForTokens n) (hlen : n ≤ o.maxSeqLen) :
    TableOk x (blocksForTokens n) (s.heap r).blockTable.blocks where
  covers := hn.ge
  width := by
    rw [hF.width]
    exact hn.le.trans (blocksForTokens_mono hlen)
  ids := fun b hb => by
    have := h.block_bounds hr hb
    rw [hF.blocks]
    unfold kDummyBlockId
    omega

theorem Fits.decodeRow (hF : Fits x T o) (h : Inv T o s) {r : Nat} (hr : r ∈ s.running)
    (hb : (s.heap r).blockTable.numBlocks = blocksForTokens (s.heap r).seqLen) :
    DecodeRowFits x (s.heap r) := by
  have hadm : r ∈ s.admitted := List.mem_append_left _ hr
  have hrun := h.running r hr
  have hv := h.valid r (h.lt_nextPtr (Or.inr hadm))
  have hlen : (s.heap r).seqLen ≤ o.maxSeqLen := by
    have := hrun.outputs_lt
    have := hv.fits_seq
    unfold Request.seqLen
    omega
  refine ⟨fun e => ?_, ⟨hrun.seqLen_pos, by rw [hF.seqLen]; omega⟩, hF.table h hadm hb hlen⟩
  have := hrun.outputs_pos
  unfold Request.numOutputTokens at this
  rw [e] at this
  exact absurd this (Nat.lt_irrefl 0)

theorem Fits.chunkOk (hF : Fits x T o) (h : Inv T o s) {r : Nat} {rest : List Nat}
    (hq : s.prefillQueue = r :: rest)
    (hb : (s.heap r).blockTable.numBlocks = blocksForTokens (chunkEnd o (s.heap r)))
    (hv : ∀ t ∈ (s.heap r).promptTokens, x.inVocabulary t) :
    ChunkOk x (s.heap r) (s.heap r).prefillProgress (chunkEnd o (s.heap r)) := by
  have hm : r ∈ s.prefillQueue := by rw [hq]; exact List.mem_cons_self
  have hadm : r ∈ s.admitted := List.mem_append_right _ hm
  have hpre := h.prefill r hm
  have hval := h.valid r (h.lt_nextPtr (Or.inr hadm))
  have hlt := lt_chunkEnd h.tuned hpre
  have hle := chunkEnd_le_prompt (o := o) (q := s.heap r)
  have hpos := hval.maxNew_pos
  have hseq := hval.fits_seq
  refine ⟨⟨hlt, hle⟩, ?_, ?_, hv, hF.table h hadm hb (by omega)⟩
  · rw [hF.chunk]
    unfold chunkEnd
    omega
  · rw [hF.seqLen]
    omega

end

/-! ## the calls -/

namespace Executor

section
variable {x : Executor} {batch : List Request}

/-- a decode call that returned: its log and its shape -/
structure Decoded (x : Executor) (batch : List Request) (n : Nat) (log : List Action)
    (shape : DecodeShape) : Prop where
  rows : shape.rows = n
  fill : HostOnly (x.decodeLog 0 (x.decodeRows batch n))
  work : ∃ work, log = x.decodeLog 0 (x.decodeRows batch n) ++ work ∧ x.DecodeWork n work

theorem decodeEager_returns (hne : batch ≠ []) (hmax : (batch.length : Int) ≤ x.options.maxBatch)
    (h : ∀ q ∈ batch, DecodeRowOk x q) :
    ∃ log shape, Returns (x.decodeEager batch) log shape ∧
      Decoded x batch (x.executedRows batch.length 0) log shape := by
  have hfill := fillDecodeMirrors_returns h 0 fun h0 => absurd h0 (Nat.lt_irrefl 0)
  have hret : Returns (x.decodeEager batch)
      (x.decodeLog 0 (x.decodeRows batch (x.executedRows batch.length 0)) ++
        (x.decodeEagerWork (x.executedRows batch.length 0) ++ []))
      ⟨x.executedRows batch.length 0, x.bucketForRows (x.executedRows batch.length 0)⟩ := by
    unfold decodeEager
    rw [if_neg hne]
    exact (returns_failIf (by omega) _).then (hfill.bind ((returns_emitAll _).bind (returns_pure _)))
  rw [List.append_nil] at hret
  exact ⟨_, _, hret, rfl, hostOnly_of_fill (fillDecodeMirrors_emits batch 0) hfill, _, rfl,
    decodeEager_work x _⟩

theorem decodeEager_total (hne : batch ≠ []) (h : ∀ q ∈ batch, DecodeRowFits x q) :
    Total (fun _ => (batch.length : Int) ≤ x.options.maxBatch ∧ ∀ q ∈ batch, DecodeRowOk x q)
      (x.decodeEager batch) := by
  unfold decodeEager
  rw [if_neg hne]
  refine (total_failIf _ _).bind fun _ hmax =>
    (fillDecodeMirrors_total h fun h0 => absurd h0 (Nat.lt_irrefl 0)).bind fun _ hr => ?_
  exact (total_emitAll _).bind fun _ _ => total_pure ⟨by omega, hr.2⟩

theorem decodeGraph_returns (hne : batch ≠ []) (hg : x.hasDecodeGraphs = true)
    (hmax : (batch.length : Int) ≤ x.options.maxBatch) {bucket : Nat}
    (hb : selectBucket batch.length x.buckets = some bucket)
    (hbm : (bucket : Int) ≤ x.options.maxBatch) (h : ∀ q ∈ batch, DecodeRowOk x q) :
    ∃ log shape, Returns (x.decodeGraph batch) log shape ∧ shape.bucket = some bucket ∧
      Decoded x batch (x.executedRows batch.length bucket) log shape := by
  obtain ⟨h0, hle, _⟩ := selectBucket_some hb
  have hrows : x.executedRows batch.length bucket = bucket := if_pos (by omega)
  have hfill := fillDecodeMirrors_returns h bucket fun _ => ⟨hle, hbm⟩
  have hret : Returns (x.decodeGraph batch)
      (x.decodeLog 0 (x.decodeRows batch (x.executedRows batch.length bucket)) ++
        (x.decodeGraphWork (x.executedRows batch.length bucket) ++ []))
      ⟨x.executedRows batch.length bucket, some bucket⟩ := by
    unfold decodeGraph
    rw [if_neg hne, hb]
    exact (returns_failIf (by rw [hg]; decide) _).then <| (returns_failIf (by omega) _).then <|
      hfill.bind <| (returns_assert hrows).then <| (returns_emitAll _).bind <| returns_pure _
  rw [List.append_nil] at hret
  exact ⟨_, _, hret, rfl, rfl, hostOnly_of_fill (fillDecodeMirrors_emits batch bucket) hfill, _, rfl,
    decodeGraph_work x _⟩

/-- an eager step that returned -/
theorem decodeEager_inv {log : List Action} {shape : DecodeShape} (hne : batch ≠ [])
    (h : Returns (x.decodeEager batch) log shape) : ∃ fill,
      Returns (x.fillDecodeMirrors batch 0) fill shape.rows ∧
        log = fill ++ x.decodeEagerWork shape.rows := by
  unfold decodeEager at h
  rw [if_neg hne, returns_failIf_bind] at h
  obtain ⟨_, h⟩ := h
  obtain ⟨fill, work, rows, rfl, hfill, h⟩ := returns_bind_iff.mp h
  obtain ⟨l1, l2, _, rfl, hwork, hend⟩ := returns_bind_iff.mp h
  obtain ⟨rfl, rfl⟩ := returns_pure_iff.mp hend
  refine ⟨fill, hfill, ?_⟩
  rw [← (outcome_inj hwork).1, List.append_nil]

/-- a graph step that returned filled the rows of its bucket -/
theorem decodeGraph_inv {log : List Action} {shape : DecodeShape} (hne : batch ≠ [])
    (h : Returns (x.decodeGraph batch) log shape) : x.hasDecodeGraphs = true ∧ ∃ bucket fill,
      selectBucket batch.length x.buckets = some bucket ∧ shape = ⟨bucket, some bucket⟩ ∧
      Returns (x.fillDecodeMirrors batch bucket) fill bucket ∧
        log = fill ++ x.decodeGraphWork bucket := by
  unfold decodeGraph at h
  rw [if_neg hne, returns_failIf_bind, returns_failIf_bind] at h
  obtain ⟨hg, _, h⟩ := h
  refine ⟨by simpa using hg, ?_⟩
  cases hb : selectBucket batch.length x.buckets with
  | none =>
    rw [hb] at h
    cases h
  | some bucket =>
    rw [hb] at h
    obtain ⟨fill, work, rows, rfl, hfill, h⟩ := returns_bind_iff.mp h
    obtain ⟨hrows, h⟩ := returns_assert_bind.mp h
    obtain ⟨l1, l2, _, rfl, hwork, hend⟩ := returns_bind_iff.mp h
    obtain ⟨rfl, hshape⟩ := returns_pure_iff.mp hend
    subst hrows
    refine ⟨rows, fill, rfl, hshape.symm, hfill, ?_⟩
    rw [← (outcome_inj hwork).1, List.append_nil]

theorem decodeGraph_total (hne : batch ≠ []) {bucket : Nat}
    (hb : selectBucket batch.length x.buckets = some bucket)
    (hbm : (bucket : Int) ≤ x.options.maxBatch) (h : ∀ q ∈ batch, DecodeRowFits x q) :
    Total (fun _ => (batch.length : Int) ≤ x.options.maxBatch ∧ ∀ q ∈ batch, DecodeRowOk x q)
      (x.decodeGraph batch) := by
  obtain ⟨h0, hle, _⟩ := selectBucket_some hb
  have hrows : x.executedRows batch.length bucket = bucket := if_pos (by omega)
  unfold decodeGraph
  rw [if_neg hne, hb]
  refine (total_failIf _ _).bind fun _ _ => (total_failIf _ _).bind fun _ hmax =>
    (fillDecodeMirrors_total h fun _ => ⟨hle, hbm⟩).bind fun rows hr => ?_
  exact (total_assert (hr.1.trans hrows)).bind fun _ _ => (total_emitAll _).bind fun _ _ =>
    total_pure ⟨by omega, hr.2⟩

/-- a decode call that returned: a fill and the work of its rows -/
theorem decode_split {log : List Action} {shape : DecodeShape} (hne : batch ≠ [])
    (h : Returns (x.decodeEager batch) log shape ∨ Returns (x.decodeGraph batch) log shape) :
    ∃ fill work, log = fill ++ work ∧ HostOnly fill ∧ x.DecodeWork shape.rows work := by
  rcases h with h | h
  · obtain ⟨fill, hfill, rfl⟩ := decodeEager_inv hne h
    exact ⟨fill, _, rfl, hostOnly_of_fill (fillDecodeMirrors_emits batch 0) hfill, decodeEager_work x _⟩
  · obtain ⟨_, bucket, fill, _, rfl, hfill, rfl⟩ := decodeGraph_inv hne h
    exact ⟨fill, _, rfl, hostOnly_of_fill (fillDecodeMirrors_emits batch bucket) hfill,
      decodeGraph_work x _⟩

/-- a chunk that returned: a fill and its work -/
theorem prefill_split {q : Request} {chunkBegin chunkEnd : Nat} {log : List Action}
    {shape : PrefillShape}
    (h : Returns (x.prefillChunk false q chunkBegin chunkEnd) log shape) : ∃ fill work mode,
      log = fill ++ work ∧ HostOnly fill ∧
        x.PrefillWork shape.rows chunkBegin chunkEnd shape.finalChunk mode work := by
  unfold prefillChunk at h
  obtain ⟨fill, l1, rows, rfl, hfill, h1⟩ := returns_bind_iff.mp h
  obtain ⟨l2, l3, _, rfl, hresolve, h2⟩ := returns_bind_iff.mp h1
  obtain ⟨rfl, _⟩ := outcome_inj hresolve
  cases hp : x.probe rows chunkEnd with
  | none =>
    rw [hp] at h2
    cases h2
  | some mode =>
    rw [hp] at h2
    obtain ⟨work, l4, _, rfl, hwork, hend⟩ := returns_bind_iff.mp h2
    obtain ⟨rfl, rfl⟩ := returns_pure_iff.mp hend
    obtain ⟨rfl, _⟩ := outcome_inj hwork
    refine ⟨fill ++ [.resolve], _, mode, by rw [List.append_nil, List.append_assoc],
      hostOnly_append (hostOnly_of_fill (fillPrefillMirrors_emits q chunkBegin chunkEnd) hfill) ?_,
      prefill_work x _ _ _ _ mode⟩
    exact fun a ha => Or.inr (List.mem_singleton.mp ha)

/-- the stores of a chunk -/
def chunkFill (x : Executor) (q : Request) (chunkBegin chunkEnd : Nat) : List Action :=
  chunkLog chunkBegin 0 ((q.promptTokens.drop chunkBegin).take (chunkEnd - chunkBegin)) ++
    storeRow .blockTables 0 (x.tableRow q.blockTable.blocks)

/-- a chunk is refused at most for want of an algorithm -/
theorem prefillChunk_spec {q : Request} {chunkBegin chunkEnd : Nat}
    (h : ChunkOk x q chunkBegin chunkEnd) :
    (x.probe (chunkEnd - chunkBegin) chunkEnd = none ∧ ∃ log, x.prefillChunk false q chunkBegin chunkEnd
      = some (log, .error (.noPrefillAlgorithm (chunkEnd - chunkBegin) chunkEnd))) ∨
    ∃ mode work, x.probe (chunkEnd - chunkBegin) chunkEnd = some mode ∧
      x.PrefillWork (chunkEnd - chunkBegin) chunkBegin chunkEnd
        (chunkEnd == q.numPromptTokens) mode work ∧
      HostOnly (x.chunkFill q chunkBegin chunkEnd) ∧
        Returns (x.prefillChunk false q chunkBegin chunkEnd)
        (x.chunkFill q chunkBegin chunkEnd ++ ([.resolve] ++ work))
        { rows := chunkEnd - chunkBegin, finalChunk := chunkEnd == q.numPromptTokens } := by
  have hfill := fillPrefillMirrors_returns h.sliceOk
  have hhost := hostOnly_of_fill (fillPrefillMirrors_emits q chunkBegin chunkEnd) hfill
  unfold prefillChunk
  cases hp : x.probe (chunkEnd - chunkBegin) chunkEnd with
  | none =>
    refine Or.inl ⟨rfl, _ ++ ([Action.resolve] ++ []), bind_ok hfill (bind_ok (returns_emit _) ?_)⟩
    rw [hp]
    rfl
  | some mode =>
    let final := chunkEnd == q.numPromptTokens
    let work := x.prefillWork false (chunkEnd - chunkBegin) chunkBegin chunkEnd final mode
    have hwork := Returns.bind (f := fun _ => pure (⟨chunkEnd - chunkBegin, final⟩ : PrefillShape))
      (returns_emitAll (ε := ExecutorError) work) (returns_pure _)
    rw [List.append_nil] at hwork
    refine Or.inr ⟨mode, work, rfl, prefill_work x _ _ _ _ mode, hhost,
      hfill.bind ((returns_emit _).bind ?_)⟩
    rw [hp]
    exact hwork

end
end Executor

/-! ## the launch -/

/-- what a plan launches: its rows, as they were meant, in the tables and under the kernels of the call -/
inductive Launched (x : Executor) (o : SchedulerOptions) (s : Scheduler) (plan : StepPlan) :
    Launch → Prop where
  | chunk (r : Nat) (prefill : plan.prefill = some r)
      (ok : ChunkOk x (s.heap r) plan.prefillBegin plan.prefillEnd) (mode : PrefillGemmMode)
      (algorithm : x.probe (plan.prefillEnd - plan.prefillBegin) plan.prefillEnd = some mode)
      (tables : Nat → Int)
      (table : (List.range x.maxBlocksPerSeq).map tables = x.tableRow (s.heap r).blockTable.blocks) :
      Launched x o s plan
        { prefill := true
          batch := List.replicate (plan.prefillEnd - plan.prefillBegin) r
          rows := (List.range (plan.prefillEnd - plan.prefillBegin)).map fun t =>
            x.chunkRow (s.heap r) plan.prefillEnd (plan.prefillBegin + t)
          tokens := if plan.prefillEnd == (s.heap r).numPromptTokens then 1 else 0
          kernels := x.prefillKernels (plan.prefillEnd - plan.prefillBegin) plan.prefillBegin
            plan.prefillEnd (plan.prefillEnd == (s.heap r).numPromptTokens) mode
          blockTables := tables }
  | batch (rows : Nat) (prefill : plan.prefill = none) (busy : plan.decode ≠ [])
      (ok : ∀ r ∈ plan.decode, DecodeRowOk x (s.heap r))
      (live : plan.decode.length ≤ rows) (max : rows ≤ o.maxBatch) (tables : Nat → Int)
      (table : ∀ t row, (x.decodeRows (plan.decode.map s.heap) rows)[t]? = some row →
        (List.range x.maxBlocksPerSeq).map (fun i => tables (t * x.maxBlocksPerSeq + i)) = row.table) :
      Launched x o s plan
        { prefill := false
          batch := plan.decode
          rows := x.decodeRows (plan.decode.map s.heap) rows
          tokens := plan.decode.length
          kernels := x.decodeKernels rows
          blockTables := tables }

theorem Launched.tokens {x : Executor} {o : SchedulerOptions} {s : Scheduler} {plan : StepPlan}
    {l : Launch} (h : Launched x o s plan l) : l.tokens = s.tokensDue plan := by
  cases h with
  | chunk r prefill ok =>
    unfold Scheduler.tokensDue Scheduler.finalPrefillChunk
    rw [prefill]
  | batch rows prefill busy ok live max =>
    unfold Scheduler.tokensDue
    rw [prefill]

namespace Executor
variable {x : Executor}

theorem length_decodeRows {batch : List Request} {rows : Nat} (h : batch.length ≤ rows) :
    (x.decodeRows batch rows).length = rows := by
  unfold decodeRows
  rw [List.length_append, List.length_map, List.length_replicate]
  omega

theorem width_decodeRows {batch : List Request} (h : ∀ q ∈ batch, DecodeRowOk x q) (rows : Nat) :
    ∀ row ∈ x.decodeRows batch rows, row.table.length = x.maxBlocksPerSeq := by
  intro row hrow
  rcases List.mem_append.mp hrow with hrow | hrow
  · obtain ⟨q, hq, rfl⟩ := List.mem_map.mp hrow
    exact length_tableRow (h q hq).table.width
  · rw [List.eq_of_mem_replicate hrow]
    exact List.length_replicate

end Executor

section
variable {x : Executor} {o : SchedulerOptions} {s : Scheduler} {plan : StepPlan}

/-- the launch of a decode call that returned -/
theorem launched_decode (hl : 0 < x.config.numLayers.toNat) {n : Nat} {log : List Action}
    {shape : DecodeShape} (hD : x.Decoded (plan.decode.map s.heap) n log shape)
    (hp : plan.prefill = none) (hne : plan.decode ≠ []) (hlen : plan.decode.length ≤ n)
    (hmax : n ≤ o.maxBatch) (h : ∀ r ∈ plan.decode, DecodeRowOk x (s.heap r)) :
    Launched x o s plan (x.launchOf plan.decode log) := by
  obtain ⟨work, rfl, hwork⟩ := hD.work
  have hlive : ((plan.decode.map s.heap)).length ≤ n := by rwa [List.length_map]
  have hrows := Executor.length_decodeRows (x := x) hlive
  have hok : ∀ q ∈ plan.decode.map s.heap, DecodeRowOk x q := fun q hq => by
    obtain ⟨r, hr, rfl⟩ := List.mem_map.mp hq
    exact h r hr
  have hrow := Executor.row_decodeLog _ (Executor.width_decodeRows hok n) 0 x.mirrors
  simp only [Nat.zero_add] at hrow
  rw [Executor.launchOf_decode hl hD.fill hwork, Nat.min_eq_right hlen]
  have hmap : ((List.range n).map fun t => (Executor.afterLog (x.decodeLog 0
      (x.decodeRows (plan.decode.map s.heap) n)) x.mirrors).row x.maxBlocksPerSeq x.maxBlocksPerSeq
        (Executor.afterLog (x.decodeLog 0 (x.decodeRows (plan.decode.map s.heap) n)) x.mirrors
          .seqLens t).toNat t) = x.decodeRows (plan.decode.map s.heap) n := by
    refine List.ext_getElem (by rw [List.length_map, List.length_range, hrows]) fun t h1 h2 => ?_
    rw [List.getElem_map, List.getElem_range]
    exact hrow t _ (List.getElem?_eq_getElem h2)
  rw [hmap]
  refine .batch n hp hne h hlen hmax _ fun t row hget => ?_
  have ht : t < n := by rw [← hrows]; exact (List.getElem?_eq_some_iff.mp hget).1
  rw [← congrArg DeviceRow.table (hrow t row hget)]
  exact List.map_congr_left fun i hi => if_pos (Stores.row_lt (List.mem_range.mp hi) ht)

/-- the launch of a chunk that returned -/
theorem launched_chunk (hl : 0 < x.config.numLayers.toNat) {r : Nat} (hp : plan.prefill = some r)
    (h : ChunkOk x (s.heap r) plan.prefillBegin plan.prefillEnd) {mode : PrefillGemmMode}
    (hmode : x.probe (plan.prefillEnd - plan.prefillBegin) plan.prefillEnd = some mode)
    {work : List Action} (hw : x.PrefillWork (plan.prefillEnd - plan.prefillBegin) plan.prefillBegin
      plan.prefillEnd (plan.prefillEnd == (s.heap r).numPromptTokens) mode work)
    (hf : HostOnly (x.chunkFill (s.heap r) plan.prefillBegin plan.prefillEnd)) :
    Launched x o s plan (x.launchOf (List.replicate (plan.prefillEnd - plan.prefillBegin) r)
      (x.chunkFill (s.heap r) plan.prefillBegin plan.prefillEnd ++ ([.resolve] ++ work))) := by
  have hresolve : HostOnly [Action.resolve] := fun a ha => Or.inr (List.mem_singleton.mp ha)
  have hslice := h.slice.1
  have htable := (Executor.chunkMirrors_get h.sliceOk x.mirrors).2
  have hafter : Executor.afterLog
      (x.chunkFill (s.heap r) plan.prefillBegin plan.prefillEnd ++ [.resolve])
      x.mirrors = Executor.afterLog (x.chunkFill (s.heap r) plan.prefillBegin plan.prefillEnd) x.mirrors :=
    Executor.afterLog_append _ _ _
  rw [← List.append_assoc, Executor.launchOf_prefill hl (hostOnly_append hf hresolve) hw, hafter,
    List.length_replicate]
  have hrows : (List.range (plan.prefillEnd - plan.prefillBegin)).map ((Executor.afterLog
      (x.chunkFill (s.heap r) plan.prefillBegin plan.prefillEnd) x.mirrors).row x.maxBlocksPerSeq 0
        plan.prefillEnd) = (List.range (plan.prefillEnd - plan.prefillBegin)).map fun t =>
          x.chunkRow (s.heap r) plan.prefillEnd (plan.prefillBegin + t) :=
    List.map_congr_left fun t ht => Executor.row_chunkLog h.sliceOk x.mirrors (List.mem_range.mp ht)
  have htokens : min (if plan.prefillEnd == (s.heap r).numPromptTokens then 1 else 0)
      (plan.prefillEnd - plan.prefillBegin)
      = if plan.prefillEnd == (s.heap r).numPromptTokens then 1 else 0 := by
    split <;> omega
  rw [hrows, htokens]
  refine .chunk r hp h mode hmode _ ?_
  rw [← htable]
  exact List.map_congr_left fun i hi => if_pos (List.mem_range.mp hi)

end

section
variable {T : Nat} {o : SchedulerOptions} {e : Engine} {plan : StepPlan}

/-- the sizes and the bucket of a decode call -/
theorem Fits.replays (hF : Fits e.executor T o) {n : Nat} (hr : e.replaysGraph n = true) :
    ∃ bucket, selectBucket n e.executor.buckets = some bucket ∧
      (bucket : Int) ≤ e.executor.options.maxBatch ∧ e.executor.hasDecodeGraphs = true := by
  unfold Engine.replaysGraph at hr
  rw [Bool.and_eq_true, Option.isSome_iff_exists] at hr
  obtain ⟨⟨bucket, hb⟩, hg⟩ := hr
  have hm := (selectBucket_some hb).2.2
  rw [hF.buckets] at hm
  have := le_of_mem_buckets hm
  exact ⟨bucket, hb, by rw [hF.batch]; omega, hg⟩

/-- the decode call of a plan, when nothing is refused -/
theorem decodeCall_returns (hF : Fits e.executor T o) {batch : List Request} (hne : batch ≠ [])
    (hmax : batch.length ≤ o.maxBatch) (h : ∀ q ∈ batch, DecodeRowOk e.executor q) :
    ∃ n log shape, Returns (if e.replaysGraph batch.length then e.executor.decodeGraph batch
        else e.executor.decodeEager batch) log shape ∧ batch.length ≤ n ∧ n ≤ o.maxBatch ∧
      e.executor.Decoded batch n log shape := by
  have hmax' : (batch.length : Int) ≤ e.executor.options.maxBatch := by rw [hF.batch]; omega
  by_cases hr : e.replaysGraph batch.length = true
  · obtain ⟨bucket, hb, hbm, hg⟩ := hF.replays hr
    obtain ⟨log, shape, hret, _, hD⟩ := Executor.decodeGraph_returns hne hg hmax' hb hbm h
    obtain ⟨h0, hle, _⟩ := selectBucket_some hb
    have hbm' : bucket ≤ o.maxBatch := by rw [hF.batch] at hbm; omega
    obtain ⟨h1, h2⟩ := hF.executedRows hmax _ fun _ => ⟨hle, hbm'⟩
    exact ⟨_, log, shape, by rw [if_pos hr]; exact hret, h1, h2, hD⟩
  · obtain ⟨log, shape, hret, hD⟩ := Executor.decodeEager_returns hne hmax' h
    obtain ⟨h1, h2⟩ := hF.executedRows hmax 0 fun h0 => absurd h0 (Nat.lt_irrefl 0)
    exact ⟨_, log, shape, by rw [if_neg hr]; exact hret, h1, h2, hD⟩

/-- the decode call of a plan ends, and returns only if nothing was refused -/
theorem decodeCall_total (hF : Fits e.executor T o) {batch : List Request} (hne : batch ≠ [])
    (h : ∀ q ∈ batch, DecodeRowFits e.executor q) :
    Total (fun _ => (batch.length : Int) ≤ e.executor.options.maxBatch ∧
        ∀ q ∈ batch, DecodeRowOk e.executor q)
      (if e.replaysGraph batch.length then e.executor.decodeGraph batch
        else e.executor.decodeEager batch) := by
  by_cases hr : e.replaysGraph batch.length = true
  · obtain ⟨bucket, hb, hbm, _⟩ := hF.replays hr
    rw [if_pos hr]
    exact Executor.decodeGraph_total hne hb hbm h
  · rw [if_neg hr]
    exact Executor.decodeEager_total hne h

/-- **No assertion of the executor fails**, and what is launched are the rows of the plan. -/
theorem launch_spec (h : Inv T o e.sched) (hF : Fits e.executor T o)
    (hP : Scheduler.PlanOk o e.sched plan) (hne : plan.prefill = none → plan.decode ≠ [])
    (hv : ∀ r < e.sched.nextPtr, ∀ t ∈ (e.sched.heap r).promptTokens, e.executor.inVocabulary t) :
    ∃ out m, e.launch plan = some (out, { e.executor with mirrors := m }) ∧
      ∀ done l, out = .ok (done, l) → Launched e.executor o e.sched plan l := by
  cases hP with
  | prefill r rest queue shape blocks =>
    have hp : plan.prefill = some r := by rw [shape]; rfl
    have hb : plan.prefillBegin = (e.sched.heap r).prefillProgress := by rw [shape]; rfl
    have he : plan.prefillEnd = chunkEnd o (e.sched.heap r) := by rw [shape]; rfl
    have hr : r < e.sched.nextPtr :=
      h.lt_nextPtr (Or.inr (List.mem_append_right _ (by rw [queue]; exact List.mem_cons_self)))
    have hok : ChunkOk e.executor (e.sched.heap r) plan.prefillBegin plan.prefillEnd := by
      rw [hb, he]; exact hF.chunkOk h queue blocks (hv r hr)
    unfold Engine.launch
    rw [hp]
    rcases Executor.prefillChunk_spec hok with ⟨_, log, hs⟩ | ⟨mode, work, hmode, hwork, hfill, hs⟩
    · simp only [hs]
      exact ⟨_, _, rfl, nofun⟩
    · simp only [hs.eq]
      refine ⟨_, _, rfl, fun done l hl => ?_⟩
      obtain ⟨rfl, rfl⟩ := Prod.mk.inj (Except.ok.inj hl)
      exact launched_chunk hF.layers hp hok hmode hwork hfill
  | decode shape running blocks victims =>
    have hp : plan.prefill = none := by rw [shape]
    have hfits : ∀ q ∈ plan.decode.map e.sched.heap, DecodeRowFits e.executor q := by
      intro q hq
      obtain ⟨r, hr, rfl⟩ := List.mem_map.mp hq
      exact hF.decodeRow h (by rw [running]; exact hr) (blocks r hr)
    have hne' : plan.decode.map e.sched.heap ≠ [] := by simpa using hne hp
    have hlen : (plan.decode.map e.sched.heap).length = plan.decode.length := List.length_map _
    have htotal := decodeCall_total hF hne' hfits
    rw [hlen] at htotal
    unfold Engine.launch
    rw [hp]
    rcases htotal.cases with ⟨log, err, hs⟩ | ⟨log, shape1, hs, hmax, hok⟩
    · simp only [hs]
      exact ⟨_, _, rfl, nofun⟩
    · rw [hF.batch] at hmax
      obtain ⟨n, log1, shape2, hs1, h1, h2, hD⟩ := decodeCall_returns hF hne' (by omega) hok
      rw [hlen] at hs1 h1
      obtain ⟨rfl, hsh⟩ := outcome_inj (hs.eq.symm.trans hs1.eq)
      obtain rfl := Except.ok.inj hsh
      simp only [hs.eq]
      refine ⟨_, _, rfl, fun done l hl => ?_⟩
      obtain ⟨rfl, rfl⟩ := Prod.mk.inj (Except.ok.inj hl)
      have hrow : ∀ r ∈ plan.decode, DecodeRowOk e.executor (e.sched.heap r) :=
        fun r hr => hok _ (List.mem_map_of_mem hr)
      exact launched_decode hF.layers hD hp (hne hp) h1 h2 hrow

end
end Redline

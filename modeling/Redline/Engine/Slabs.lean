import Redline.Engine.InFlight
import Redline.Gemm.Confined

/-!
# No access leaves its region

What the executor stores into the pinned mirrors, copies and launches, in every call and however the
call ends, against the sizes that the two slabs were carved with.

* `Action.Within`         a store, a copy or a launch within the capacities;
* `decodeEager_within`, `decodeGraph_within`, `prefillChunk_within`   every action of a call;
* `slabs_safe`            the regions of both slabs, the products of the forwards, and the calls.
-/

namespace Redline
open Wrap Script

/-! ## the capacities -/

/-- the region of the scratch slab that a mirror is copied to, and of the pinned slab that it is in -/
def Mirror.region : Mirror → ScratchRegion
  | .inputIds => .inputIds
  | .positions => .positions
  | .seqLens => .seqLens
  | .blockTables => .blockTables

/-- a launch over no more rows and keys than its buffers have -/
def Kernel.Within (o : EngineOptions) (width : Nat) : Kernel → Prop
  | .embedGather rows | .rmsNorm rows | .rmsNormResidual rows | .ropeInplace rows | .siluMul rows =>
    rows ≤ max o.prefillChunkTokens o.maxBatch
  | .gemm which rows =>
    rows ≤ max o.prefillChunkTokens o.maxBatch ∧ (which = .lmHead → rows ≤ o.maxBatch) ∧
    (which = .scores ∨ which = .pv → rows ≤ o.prefillChunkTokens)
  | .kvScatter _ rowStride rows => rows ≤ max o.prefillChunkTokens o.maxBatch ∧
      (rowStride = 0 ∨ rowStride = width ∧ rows ≤ o.maxBatch)
  | .pagedAttentionDecode _ _ rows | .greedyArgmax rows => rows ≤ o.maxBatch
  | .kvGather _ ctx => ctx ≤ o.maxSeqLen
  | .prefillSoftmax rows ctx _ => rows ≤ o.prefillChunkTokens ∧ ctx ≤ o.maxSeqLen

/-- an access to the slabs that stays in the region it is meant for -/
def Action.Within (o : EngineOptions) (width : Nat) : Action → Prop
  | .store w => (w.index + 1) * 4 ≤ regionBytes o w.mirror.region
  | .upload mirror count => count * 4 ≤ regionBytes o mirror.region
  | .launch kernels => ∀ k ∈ kernels, k.Within o width
  | .download count => count * 4 ≤ regionBytes o .argmax
  | _ => True

/-- the sizes of an executor of these options -/
structure Executor.MadeFor (x : Executor) (o : EngineOptions) : Prop where
  sized : Sized o
  batch : x.options.maxBatch = o.maxBatch
  seqLen : x.options.maxSeqLen = o.maxSeqLen
  chunk : x.options.prefillChunkTokens = o.prefillChunkTokens
  width : x.maxBlocksPerSeq = (o.maxSeqLen + 15) / 16
  buckets : x.buckets = makeDecodeBuckets o.maxBatch.toNat

namespace Executor
variable {x : Executor} {o : EngineOptions} (hx : x.MadeFor o)
include hx

/-! ## the fills -/

omit hx in
/-- one of the two inputs of a token row -/
theorem put_within (mirror : Mirror) {index : Nat} (hmirror : mirror = .inputIds ∨ mirror = .positions)
    (hindex : index < max o.prefillChunkTokens o.maxBatch) (value : Int) :
    Emits (Action.Within o x.maxBlocksPerSeq) (put mirror index value) := by
  refine emits_emit ?_
  rcases hmirror with rfl | rfl
  all_goals
    show (index + 1 : Int) * 4 ≤ 4 * max o.prefillChunkTokens o.maxBatch
    omega

omit hx in
/-- the inputs of a decode row -/
theorem putRow_within {α : Type} {r : Nat} (hr : r < o.maxBatch) {inputId position seqLen : Int}
    {rest : ExecutorCall α} (hrest : Emits (Action.Within o x.maxBlocksPerSeq) rest) :
    Emits (Action.Within o x.maxBlocksPerSeq) (do
      put .inputIds r inputId
      put .positions r position
      put .seqLens r seqLen
      rest) := by
  have hrow : (r : Int) < max o.prefillChunkTokens o.maxBatch := lt_max_of_lt_right hr
  refine (put_within .inputIds (.inl rfl) hrow _).bind fun _ =>
    (put_within .positions (.inr rfl) hrow _).bind fun _ =>
    (emits_emit ?_).bind fun _ => hrest
  show (r + 1 : Int) * 4 ≤ 4 * o.maxBatch
  omega

/-- entry `i` of the table of row `r` -/
theorem MadeFor.table_within {r i : Nat} {value : Int} (hr : r < o.maxBatch)
    (hi : i < x.maxBlocksPerSeq) :
    (Action.store ⟨.blockTables, r * x.maxBlocksPerSeq + i, value⟩).Within o x.maxBlocksPerSeq := by
  have hrows : r < o.maxBatch.toNat := by omega
  have hlast : r * x.maxBlocksPerSeq + i < o.maxBatch.toNat * x.maxBlocksPerSeq :=
    Stores.row_lt hi hrows
  have hlast : ((r * x.maxBlocksPerSeq + i : Nat) : Int) + 1
      ≤ o.maxBatch * ((o.maxSeqLen + 15) / 16) := by
    have hcast : ((r * x.maxBlocksPerSeq + i : Nat) : Int) + 1
        ≤ (o.maxBatch.toNat : Int) * x.maxBlocksPerSeq := by
      exact_mod_cast hlast
    rwa [Int.toNat_of_nonneg (by omega), hx.width] at hcast
  show (((r * x.maxBlocksPerSeq + i : Nat) : Int) + 1) * 4
    ≤ 4 * (o.maxBatch * ((o.maxSeqLen + 15) / 16))
  omega

theorem MadeFor.fillDummy_within {r : Nat} (hr : r < o.maxBatch) (start : Nat) :
    Emits (Action.Within o x.maxBlocksPerSeq)
      (fillDummy (r * x.maxBlocksPerSeq + start) (r * x.maxBlocksPerSeq + x.maxBlocksPerSeq)) := by
  refine emits_emitAll fun a ha => ?_
  obtain ⟨i, hi, rfl⟩ := List.mem_map.mp ha
  obtain ⟨j, rfl⟩ := Nat.exists_eq_add_of_le (List.mem_range'_1.mp hi).1
  rw [Nat.add_assoc]
  exact hx.table_within hr (by have := (List.mem_range'_1.mp hi).2; omega)

theorem MadeFor.fillTableRow_within {r : Nat} (hr : r < o.maxBatch) {blocks : List Int}
    (hwidth : ¬ x.maxBlocksPerSeq < blocks.length) (bad : Nat → Int → ExecutorError) :
    Emits (Action.Within o x.maxBlocksPerSeq) (x.fillTableRow (r * x.maxBlocksPerSeq) blocks bad) := by
  unfold fillTableRow
  refine (emits_each_get _ _ fun i block hblock => ?_).bind fun _ => hx.fillDummy_within hr _
  have hi := (List.getElem?_eq_some_iff.mp hblock).1
  rw [Nat.zero_add]
  exact (emits_assert _).bind fun _ => (emits_failIf _ _).bind fun _ =>
    emits_emit (hx.table_within hr (by omega))

theorem MadeFor.fillDecodeRow_within {r : Nat} (hr : r < o.maxBatch) (q : Request) :
    Emits (Action.Within o x.maxBlocksPerSeq) (x.fillDecodeRow r q) := by
  unfold fillDecodeRow
  refine (emits_failIf _ _).bind fun _ => (emits_failIf _ _).bind fun _ =>
    (emits_failIf _ _).bind fun _ =>
    (emits_failIf _ _).bind fun _ => emits_failIf_bind fun hwidth => ?_
  exact putRow_within hr (hx.fillTableRow_within hr hwidth _)

theorem MadeFor.fillPaddedRow_within {r : Nat} (hr : r < o.maxBatch) :
    Emits (Action.Within o x.maxBlocksPerSeq) (x.fillPaddedRow r) := by
  unfold fillPaddedRow
  exact putRow_within hr (hx.fillDummy_within hr 0)

/-- the executed rows are within the batch -/
theorem MadeFor.executedRows_le_batch {live padToRows : Nat} (hlive : live ≤ o.maxBatch)
    (hpad : 0 < padToRows → padToRows ≤ o.maxBatch) : x.executedRows live padToRows ≤ o.maxBatch := by
  unfold executedRows
  split
  · exact hpad ‹_›
  · split
    · simp only
      split
      · rename_i bucket hs
        obtain ⟨_, _, hm⟩ := selectBucket_some hs
        rw [hx.buckets] at hm
        have := le_of_mem_buckets hm
        split <;> omega
      · exact hlive
    · exact hlive

theorem MadeFor.fillDecodeMirrors_within (batch : List Request) (hbatch : batch.length ≤ o.maxBatch)
    (padToRows : Nat) :
    Emits (Action.Within o x.maxBlocksPerSeq) (x.fillDecodeMirrors batch padToRows) ∧
      Ensures (fun rows : Nat => (rows : Int) ≤ o.maxBatch) (x.fillDecodeMirrors batch padToRows) := by
  have hrows : (0 < padToRows → batch.length ≤ padToRows ∧ (padToRows : Int) ≤ x.options.maxBatch) →
      x.executedRows batch.length padToRows ≤ o.maxBatch := fun hpad =>
    hx.executedRows_le_batch hbatch fun h0 => hx.batch ▸ (hpad h0).2
  constructor
  · unfold fillDecodeMirrors
    refine (emits_assert _).bind_ensures (ensures_assert _) fun _ hpad => ?_
    have hrows := hrows hpad
    refine (emits_each_get _ _ fun r q hq => ?_).bind fun _ =>
      (emits_each_get _ _ fun i r hr => ?_).bind fun _ =>
      emits_pure _
    · rw [Nat.zero_add]
      exact hx.fillDecodeRow_within (by have := (List.getElem?_eq_some_iff.mp hq).1; omega) q
    · have hmem := (List.mem_range'_1.mp (List.mem_of_getElem? hr)).2
      exact hx.fillPaddedRow_within (by omega)
  · refine (fillDecodeMirrors_ensures batch padToRows).mono fun rows h => ?_
    rw [h.1]
    exact hrows h.2.1

theorem MadeFor.fillPrefillMirrors_within (q : Request) (chunkBegin chunkEnd : Nat) :
    Emits (Action.Within o x.maxBlocksPerSeq) (x.fillPrefillMirrors q chunkBegin chunkEnd) := by
  have hbatch := hx.sized.maxBatch.1
  unfold fillPrefillMirrors
  refine (emits_failIf _ _).bind fun _ => emits_failIf_bind fun hrows =>
    (emits_failIf _ _).bind fun _ =>
    (emits_failIf _ _).bind fun _ => emits_failIf_bind fun hwidth => ?_
  refine (emits_each_get _ _ fun i token htoken => ?_).bind fun _ => ?_
  · have hlen := (List.getElem?_eq_some_iff.mp htoken).1
    rw [List.length_take] at hlen
    rw [hx.chunk] at hrows
    have hrow : ((0 + i : Nat) : Int) < max o.prefillChunkTokens o.maxBatch :=
      lt_max_of_lt_left (by omega)
    exact (emits_failIf _ _).bind fun _ => (put_within .inputIds (.inl rfl) hrow _).bind fun _ =>
      put_within .positions (.inr rfl) hrow _
  · have htable := hx.fillTableRow_within (r := 0) (by omega) hwidth fun i block =>
      .prefillChunk q.id (.badBlock i block)
    rw [Nat.zero_mul] at htable
    exact htable.bind fun _ => emits_pure _

/-! ## the work behind a fill -/

section
variable {rows : Nat}

theorem MadeFor.uploadDecodeInputs_within (hrows : rows ≤ o.maxBatch) :
    ∀ a ∈ x.uploadDecodeInputs rows, a.Within o x.maxBlocksPerSeq := by
  have hmax := le_max_right o.prefillChunkTokens o.maxBatch
  have htables : (rows * x.maxBlocksPerSeq : Int) ≤ o.maxBatch * ((o.maxSeqLen + 15) / 16) := by
    rw [hx.width]
    exact mul_le_mul_of_nonneg_right hrows (by have := hx.sized.maxSeqLen.1; omega)
  unfold uploadDecodeInputs
  simp only [List.forall_mem_cons, Action.Within, Mirror.region, regionBytes]
  push_cast
  exact ⟨by omega, by omega, by omega, by omega, List.forall_mem_nil _⟩

theorem MadeFor.uploadPrefillInputs_within (hrows : rows ≤ o.prefillChunkTokens) :
    ∀ a ∈ x.uploadPrefillInputs rows, a.Within o x.maxBlocksPerSeq := by
  have hmax := le_max_left o.prefillChunkTokens o.maxBatch
  have htables : (1 * x.maxBlocksPerSeq : Int) ≤ o.maxBatch * ((o.maxSeqLen + 15) / 16) := by
    rw [hx.width]
    exact mul_le_mul_of_nonneg_right hx.sized.maxBatch.1 (by have := hx.sized.maxSeqLen.1; omega)
  unfold uploadPrefillInputs
  simp only [List.forall_mem_cons, Action.Within, Mirror.region, regionBytes]
  exact ⟨by omega, by omega, by omega, List.forall_mem_nil _⟩

omit hx in
theorem launches_within {width : Nat} {kernels : List Kernel} (h : ∀ k ∈ kernels, k.Within o width) :
    ∀ a ∈ kernels.map launch, a.Within o width := by
  intro a ha
  obtain ⟨k, hk, rfl⟩ := List.mem_map.mp ha
  exact fun k' hk' => List.mem_singleton.mp hk' ▸ h k hk

omit hx in
/-- a product of the layers that is not of the attention -/
theorem linear_within {width : Nat} {which : Gemm}
    (hwhich : which ≠ .lmHead ∧ which ≠ .scores ∧ which ≠ .pv)
    (hrows : rows ≤ max o.prefillChunkTokens o.maxBatch) : (Kernel.gemm which rows).Within o width :=
  ⟨hrows, fun h => absurd h hwhich.1, fun h => h.elim (fun h => absurd h hwhich.2.1) fun h =>
    absurd h hwhich.2.2⟩

omit hx in
theorem mlpKernels_within {width : Nat} (hrows : rows ≤ max o.prefillChunkTokens o.maxBatch) :
    ∀ k ∈ mlpKernels rows, k.Within o width := by
  unfold mlpKernels
  simp only [List.forall_mem_cons]
  exact ⟨hrows, linear_within (by decide) hrows, hrows, linear_within (by decide) hrows,
    List.forall_mem_nil _⟩

omit hx in
theorem inputNorm_within {width layer : Nat} (hrows : rows ≤ max o.prefillChunkTokens o.maxBatch) :
    (inputNorm layer rows).Within o width := by
  unfold inputNorm
  split <;> exact hrows

omit hx in
theorem decodeForward_within (hrows : rows ≤ o.maxBatch) :
    ∀ k ∈ x.enqueueDecodeForward rows, k.Within o x.maxBlocksPerSeq := by
  have hmax : (rows : Int) ≤ max o.prefillChunkTokens o.maxBatch := le_max_of_le_right hrows
  unfold enqueueDecodeForward
  rw [List.cons_append, List.forall_mem_cons, List.forall_mem_append]
  refine ⟨hmax, fun k hk => ?_, ?_⟩
  · obtain ⟨layer, _, hlayer⟩ := List.mem_flatMap.mp hk
    clear hk
    revert k
    simp only [List.forall_mem_cons]
    exact ⟨inputNorm_within hmax, linear_within (by decide) hmax, hmax,
      ⟨hmax, .inr ⟨rfl, hrows⟩⟩, hrows, linear_within (by decide) hmax, mlpKernels_within hmax⟩
  · simp only [List.forall_mem_cons]
    exact ⟨hmax, ⟨hmax, fun _ => hrows, fun h => absurd h (by decide)⟩, List.forall_mem_nil _⟩

section
variable {width ctx : Nat} (hrows : rows ≤ o.prefillChunkTokens) (hctx : ctx ≤ o.maxSeqLen)
include hrows hctx
omit hx

theorem prefillAttention_within (layer chunkStart : Nat) (mode : PrefillGemmMode) :
    ∀ k ∈ x.enqueuePrefillAttention layer rows chunkStart ctx mode, k.Within o width := by
  have hmax : (rows : Int) ≤ max o.prefillChunkTokens o.maxBatch := le_max_of_le_left hrows
  unfold enqueuePrefillAttention
  dsimp only
  rw [List.cons_append, List.forall_mem_cons, List.forall_mem_append, List.forall_mem_cons]
  refine ⟨hctx, fun k hk => ?_, ⟨hrows, hctx⟩, fun k hk => ?_⟩
  · obtain rfl := List.eq_of_mem_replicate hk
    exact ⟨hmax, fun h => absurd h (by decide), fun _ => hrows⟩
  · obtain rfl := List.eq_of_mem_replicate hk
    exact ⟨hmax, fun h => absurd h (by decide), fun _ => hrows⟩

theorem prefillForward_within (hbatch : 1 ≤ o.maxBatch) (chunkStart : Nat) (finalChunk : Bool)
    (mode : PrefillGemmMode) :
    ∀ k ∈ x.enqueuePrefillForward rows chunkStart ctx finalChunk mode, k.Within o width := by
  have hmax : (rows : Int) ≤ max o.prefillChunkTokens o.maxBatch := le_max_of_le_left hrows
  have hone : ((1 : Nat) : Int) ≤ max o.prefillChunkTokens o.maxBatch := le_max_of_le_right hbatch
  unfold enqueuePrefillForward
  rw [List.cons_append, List.forall_mem_cons, List.forall_mem_append]
  refine ⟨hmax, fun k hk => ?_, ?_⟩
  · obtain ⟨layer, _, hlayer⟩ := List.mem_flatMap.mp hk
    clear hk
    revert k
    unfold prefillLayerKernels
    simp only [List.forall_mem_cons, List.forall_mem_append]
    exact ⟨inputNorm_within hmax, linear_within (by decide) hmax, hmax, ⟨hmax, .inl rfl⟩,
      prefillAttention_within hrows hctx layer chunkStart mode, linear_within (by decide) hmax,
      mlpKernels_within hmax⟩
  · cases finalChunk with
    | false => exact List.forall_mem_nil _
    | true =>
      simp only [if_true, List.forall_mem_cons]
      exact ⟨hone, ⟨hone, fun _ => hbatch, fun h => absurd h (by decide)⟩, List.forall_mem_nil _⟩

theorem dump_within (chunkStart : Nat) (mode : PrefillGemmMode) :
    ∀ a ∈ x.dumpLayer0Activations rows chunkStart ctx mode, a.Within o width := by
  have hmax : (rows : Int) ≤ max o.prefillChunkTokens o.maxBatch := le_max_of_le_left hrows
  have hend : ∀ a ∈ [Action.sync, .poll, .writeFile], a.Within o width := by
    simp only [List.forall_mem_cons]
    exact ⟨trivial, trivial, trivial, List.forall_mem_nil _⟩
  have hfiles : ∀ a ∈ [Action.writeFile, .writeFile], a.Within o width := by
    simp only [List.forall_mem_cons]
    exact ⟨trivial, trivial, List.forall_mem_nil _⟩
  have hstage : ∀ {kernels : List Kernel}, (∀ k ∈ kernels, k.Within o width) →
      ∀ a ∈ kernels.map launch ++ [.sync, .poll, .writeFile], a.Within o width := fun h =>
    List.forall_mem_append.mpr ⟨launches_within h, hend⟩
  have hnorm : ∀ k ∈ [Kernel.embedGather rows, .rmsNorm rows], k.Within o width := by
    simp only [List.forall_mem_cons]
    exact ⟨hmax, hmax, List.forall_mem_nil _⟩
  have hqkv : ∀ k ∈ [Kernel.gemm .qkvBias rows], k.Within o width := by
    simp only [List.forall_mem_cons]
    exact ⟨linear_within (by decide) hmax, List.forall_mem_nil _⟩
  have hattention : ∀ k ∈ Kernel.ropeInplace rows :: .kvScatter 0 0 rows ::
      (x.enqueuePrefillAttention 0 rows chunkStart ctx mode ++ [.gemm .o rows]), k.Within o width := by
    simp only [List.forall_mem_cons, List.forall_mem_append]
    exact ⟨hmax, ⟨hmax, .inl rfl⟩, prefillAttention_within hrows hctx 0 chunkStart mode,
      linear_within (by decide) hmax, List.forall_mem_nil _⟩
  unfold dumpLayer0Activations
  dsimp only
  rw [List.cons_append, List.cons_append, List.cons_append, List.cons_append, List.forall_mem_cons,
    List.forall_mem_append, List.forall_mem_append, List.forall_mem_append, List.forall_mem_append]
  exact ⟨trivial, ⟨⟨⟨hstage hnorm, hstage hqkv⟩, hstage hattention⟩,
    hstage (mlpKernels_within hmax)⟩, hfiles⟩

end

/-! ## the calls -/

omit hx in
theorem finishDecode_within {width : Nat} (hrows : rows ≤ o.maxBatch) :
    ∀ a ∈ finishDecode rows, a.Within o width := by
  unfold finishDecode
  simp only [List.forall_mem_cons]
  refine ⟨?_, trivial, trivial, List.forall_mem_nil _⟩
  show (rows : Int) * 4 ≤ 4 * o.maxBatch
  omega

omit hx in
theorem finishPrefill_within {width : Nat} (hbatch : 1 ≤ o.maxBatch) (finalChunk : Bool) :
    ∀ a ∈ finishPrefill finalChunk, a.Within o width := by
  cases finalChunk with
  | false =>
    simp only [finishPrefill, Bool.false_eq_true, if_false, List.forall_mem_cons]
    exact ⟨trivial, trivial, List.forall_mem_nil _⟩
  | true =>
    have hlaunch : (launch (.greedyArgmax 1)).Within o width := by
      intro k hk
      rw [List.mem_singleton.mp hk]
      exact hbatch
    exact List.forall_mem_cons.mpr
      ⟨hlaunch, finishDecode_within (show ((1 : Nat) : Int) ≤ o.maxBatch from hbatch)⟩

omit hx in
/-- the kernels of a decode step -/
theorem decodeKernels_within (hrows : rows ≤ o.maxBatch) :
    ∀ k ∈ x.enqueueDecodeForward rows ++ [Kernel.greedyArgmax rows], k.Within o x.maxBlocksPerSeq :=
  List.forall_mem_append.mpr ⟨decodeForward_within hrows,
    fun k hk => by rw [List.mem_singleton.mp hk]; exact hrows⟩

theorem MadeFor.decodeEager_within (batch : List Request) :
    Emits (Action.Within o x.maxBlocksPerSeq) (x.decodeEager batch) := by
  unfold decodeEager
  split
  · exact emits_pure _
  · refine emits_failIf_bind fun hbatch => ?_
    rw [hx.batch] at hbatch
    obtain ⟨hfill, hrows⟩ := hx.fillDecodeMirrors_within batch (by omega) 0
    refine hfill.bind_ensures hrows fun rows hrows => (emits_emitAll ?_).bind fun _ => emits_pure _
    unfold decodeEagerWork
    rw [List.forall_mem_append, List.forall_mem_append]
    exact ⟨⟨hx.uploadDecodeInputs_within hrows, launches_within (decodeKernels_within hrows)⟩,
      finishDecode_within hrows⟩

theorem MadeFor.decodeGraph_within (batch : List Request) :
    Emits (Action.Within o x.maxBlocksPerSeq) (x.decodeGraph batch) := by
  unfold decodeGraph
  split
  · exact emits_pure _
  · refine (emits_failIf _ _).bind fun _ => emits_failIf_bind fun hbatch => ?_
    rw [hx.batch] at hbatch
    split
    · exact emits_raise _
    · rename_i bucket _
      obtain ⟨hfill, hrows⟩ := hx.fillDecodeMirrors_within batch (by omega) bucket
      refine hfill.bind_ensures hrows fun rows hrows => (emits_assert _).bind fun _ =>
        (emits_emitAll ?_).bind fun _ => emits_pure _
      unfold decodeGraphWork
      rw [List.forall_mem_append, List.forall_mem_cons]
      exact ⟨hx.uploadDecodeInputs_within hrows, decodeKernels_within hrows, finishDecode_within hrows⟩

theorem MadeFor.prefillChunk_within (dump : Bool) (q : Request) (chunkBegin chunkEnd : Nat) :
    Emits (Action.Within o x.maxBlocksPerSeq) (x.prefillChunk dump q chunkBegin chunkEnd) := by
  have hbatch := hx.sized.maxBatch.1
  unfold prefillChunk
  refine (hx.fillPrefillMirrors_within q chunkBegin chunkEnd).bind_ensures
    (x.fillPrefillMirrors_ensures q chunkBegin chunkEnd) fun rows hslice => ?_
  have hrows : (rows : Int) ≤ o.prefillChunkTokens := by
    rw [hslice.1, ← hx.chunk]
    exact hslice.2.rows
  have hctx : (chunkEnd : Int) ≤ o.maxSeqLen := hx.seqLen ▸ hslice.2.seqLen
  refine (emits_emit trivial).bind fun _ => ?_
  split
  · exact emits_raise _
  · refine (emits_emitAll ?_).bind fun _ => emits_pure _
    unfold prefillWork
    rw [List.forall_mem_append, List.forall_mem_append, List.forall_mem_append]
    refine ⟨⟨⟨hx.uploadPrefillInputs_within hrows,
      launches_within (prefillForward_within hrows hctx hbatch _ _ _)⟩,
      finishPrefill_within hbatch _⟩, ?_⟩
    split
    · exact dump_within hrows hctx _ _
    · exact List.forall_mem_nil _

end
end Executor

/-! ## the slabs -/

namespace DeviceBuffers

/-- a region of the pinned slab, from the start of the slab on -/
def pinnedExtent (x : DeviceBuffers) (region : ScratchRegion) : Extent :=
  ⟨(computePinnedLayout machine x.config x.options).1.getD (pinnedRegions.idxOf region) 0,
    scratchBytes machine x.config x.options region⟩

def pinnedSlab (x : DeviceBuffers) : Extent := ⟨0, (computePinnedLayout machine x.config x.options).2⟩

/-- the slabs are carved into regions of their own, and nothing that the executor does leaves its region -/
structure Safe (x : DeviceBuffers) (o : EngineOptions) : Prop where
  aligned : ∀ region, 256 ∣ x.slabAt region
  apart : ∀ region region', region ≠ region' → (x.extent region).Apart (x.extent region')
  within : ∀ region, (x.extent region).Within x.scratchExtent
  cells : ∀ (region : ScratchRegion) (row col : Nat), row < (region.shape o).rows →
    col < (region.shape o).cols →
    (x.extent region).Holds (x.slabAt region + (row * (region.shape o).cols + col) * (region.shape o).size)
      (region.shape o).size
  pinnedAligned : ∀ region, 256 ∣ (x.pinnedExtent region).start
  pinnedApart : ∀ region ∈ pinnedRegions, ∀ region' ∈ pinnedRegions, region ≠ region' →
    (x.pinnedExtent region).Apart (x.pinnedExtent region')
  pinnedWithin : ∀ region ∈ pinnedRegions, (x.pinnedExtent region).Within x.pinnedSlab
  matrices : ∀ layer < 28, ∀ which, (x.matrixExtent layer which).Within (x.matrixSlab which) ∧
    (x.biasExtent layer).Within x.weightsExtent
  products : ∀ which call, x.WithinCapacity o which call → ∃ layer < 28, x.Confined layer which call
  enqueued : ∀ e : Executor, e.config = x.config →
    (∀ rows, (e.enqueueDecodeForward rows).filterMap productOf = (x.decodeForwardCalls rows).map productRows) ∧
      ∀ rows chunkStart ctx finalChunk mode,
        (e.enqueuePrefillForward rows chunkStart ctx finalChunk mode).filterMap productOf
          = (x.prefillForwardCalls rows ctx finalChunk mode).map productRows
  gathers : ∀ region, region = .khat ∨ region = .vhat →
    ∀ (K : Type) (khat vhat buffer : GatherBuffer) pointersAligned
    (pool : Int → K) blockTableRow (ctx : Nat), ctx ≤ o.maxSeqLen → buffer.kv < 2 →
    buffer.headStride = x.gatherPlaneStride → buffer.rowStride = x.config.headDim →
    ∀ w ∈ launchKvGather khat vhat buffer pointersAligned pool blockTableRow ctx x.config.numKvHeads.toNat
      x.config.headDim.toNat, (x.extent region).Holds (x.slabAt region + w.1 * 2) 2
  softmaxes : ∀ (K : Type) [Field K] [LinearOrder K] (math : DeviceMath K) (scores : Int → K)
    (rows ctx chunkStart : Nat), rows ≤ o.prefillChunkTokens → ctx ≤ o.maxSeqLen →
    ∀ w ∈ launchPrefillSoftmax math scores x.config.numQHeads.toNat rows ctx chunkStart,
      (x.extent .probs).Holds (x.slabAt .probs + w.1 * 2) 2 ∧
        (x.extent .scores).Holds (x.slabAt .scores + w.1 * 4) 4
  calls : ∀ captured probe e, Executor.make x.config x.options captured probe = .ok e → ∀ mirrors,
    let e := { e with mirrors }
    (∀ batch, Emits (Action.Within o e.maxBlocksPerSeq) (e.decodeEager batch)) ∧
      (∀ batch, Emits (Action.Within o e.maxBlocksPerSeq) (e.decodeGraph batch)) ∧
        ∀ dump q chunkBegin chunkEnd,
          Emits (Action.Within o e.maxBlocksPerSeq) (e.prefillChunk dump q chunkBegin chunkEnd)

section
variable {x : DeviceBuffers} {o : EngineOptions} {eosTokenIds : List Int} (hx : x.Carved o eosTokenIds)
include hx

theorem Carved.pinned_layout : computePinnedLayout machine x.config x.options
    = takeAll exact 256 0 (pinnedRegions.map (regionBytes o)) := by
  rw [hx.config, hx.options, (counts_of_total eosTokenIds hx.sized hx.seqLen hx.total).2.1]
  unfold computePinnedLayout
  rw [List.map_congr_left fun region _ => scratchBytes_exact hx.sized region]

theorem Carved.pinnedExtent_eq (region : ScratchRegion) :
    x.pinnedExtent region = ⟨offsetOf exact 256 pinnedRegions (regionBytes o) region,
      regionBytes o region⟩ := by
  unfold pinnedExtent offsetOf
  rw [hx.bytes_eq, hx.pinned_layout]

omit hx in
theorem pinnedExtent_dvd (region : ScratchRegion) : 256 ∣ (x.pinnedExtent region).start := by
  unfold pinnedExtent computePinnedLayout
  dsimp only
  rw [List.getD_eq_getElem?_getD]
  cases hget : (takeAll machine 256 0 (pinnedRegions.map (scratchBytes machine x.config x.options))).1[
      pinnedRegions.idxOf region]? with
  | none => exact Int.dvd_zero _
  | some offset => exact takeAll_dvd _ (Int.dvd_zero _) offset (List.mem_of_getElem? hget)

/-- the sizes of an executor of these slabs -/
theorem Carved.madeFor {captured : Bool} {probe : Nat → Nat → Option PrefillGemmMode} {e : Executor}
    (hmake : Executor.make x.config x.options captured probe = .ok e) (mirrors : Mirrors) :
    Executor.MadeFor { e with mirrors } o := by
  obtain ⟨_, _, hoptions, hbuckets, hwidth, _⟩ := executor_of_make hmake
  have hseq := hx.sized.maxSeqLen.1
  rw [hx.options] at hoptions hbuckets hwidth
  refine ⟨hx.sized, congrArg ExecutorOptions.maxBatch hoptions,
    congrArg ExecutorOptions.maxSeqLen hoptions,
    congrArg ExecutorOptions.prefillChunkTokens hoptions, ?_, hbuckets⟩
  show (e.maxBlocksPerSeq : Int) = (o.maxSeqLen + 15) / 16
  rw [hwidth]
  unfold blocksForTokens makeExecutorOptions kKvBlockSize
  dsimp only
  omega

theorem Carved.safe : x.Safe o where
  aligned := slabAt_dvd
  apart _ _ hne := hx.extent_apart hne
  within := hx.extent_within
  cells region _ _ hrow hcol := hx.cell_within region hrow hcol
  pinnedAligned := pinnedExtent_dvd
  pinnedApart region hregion region' hregion' hne := by
    rw [hx.pinnedExtent_eq, hx.pinnedExtent_eq]
    exact offsetOf_apart (by decide)
      (fun region _ => regionBytes_nonneg hx.sized region) hregion hregion' hne
  pinnedWithin region hregion := by
    have hwithin := offsetOf_within (show (0 : Int) < 256 by decide)
      (fun region _ => regionBytes_nonneg hx.sized region) hregion
    rw [hx.pinnedExtent_eq]
    unfold Extent.Within Extent.Holds Extent.stop pinnedSlab
    rw [hx.pinned_layout]
    dsimp only
    omega
  matrices _ hlayer := hx.matrix_within hlayer
  products _ _ h := hx.forward_confined h
  enqueued _ hconfig := ⟨decodeForwardCalls_kernels hconfig, prefillForwardCalls_kernels hconfig⟩
  gathers region hregion K khat vhat buffer pointersAligned pool blockTableRow ctx hctx hkv hhead hrow := by
    refine hx.gather_confined hctx region ?_ khat vhat hkv hhead hrow pointersAligned pool blockTableRow
    rcases hregion with rfl | rfl
    · rfl
    · rfl
  softmaxes _ _ _ math scores rows ctx chunkStart hrows hctx :=
    hx.softmax_confined hctx hrows math scores chunkStart
  calls _ _ _ hmake mirrors :=
    have hmade := hx.madeFor hmake mirrors
    ⟨hmade.decodeEager_within, hmade.decodeGraph_within, hmade.prefillChunk_within⟩

end
end DeviceBuffers

/-- **No access leaves its region.**  For options that the constructor accepts and whose byte counts are
in range, both slabs are carved into aligned regions of their own, every operand of every product that a
forward within the capacities enqueues is in the region it is meant for, and every store, copy and launch of a
call, however it ends, stays within the capacities. -/
theorem slabs_safe {eosTokenIds : List Int} {o : EngineOptions} (h32 : o.Fits32)
    (ho : o.Accepted (pinnedGeometry eosTokenIds)) (hseq : o.maxSeqLen ≤ 2 ^ 31 - 16)
    {x : DeviceBuffers}
    (hconfig : x.config = pinnedGeometry eosTokenIds) (hoptions : x.options = makeExecutorOptions o)
    (htotal : requiredTotal o x.hasLmHead < 2 ^ 63) : x.Safe o :=
  DeviceBuffers.Carved.safe ⟨hconfig, hoptions, ho.sized h32, hseq, htotal⟩

def defaultBuffers : DeviceBuffers :=
  ⟨pinnedGeometry [151645, 151643], makeExecutorOptions {}, ⟨256, by decide, by decide⟩,
    ⟨512, by decide, by decide⟩, false⟩

theorem slabs_safe_defaults : defaultBuffers.Safe {} := by
  have h32 : ({} : EngineOptions).Fits32 := ⟨by decide, by decide, by decide⟩
  have htotal : requiredTotal {} false < 2 ^ 63 := by
    rw [show ({} : EngineOptions) = { maxSeqLen := 2048, prefillChunkTokens := 1024 } from rfl,
      requiredTotal_oneGb (by decide) (by decide) h32, requiredBytes_oneGb]
    decide +kernel
  exact slabs_safe h32 (accepted_oneGb (by decide) (by decide)) (by decide) rfl rfl htotal

end Redline

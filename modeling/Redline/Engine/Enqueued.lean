import Redline.Engine.Fill
import Redline.Lib.Stores

/-!
# What a call enqueues

A call that returns has filled its mirrors (`HostOnly`) and then enqueued its copies, its kernels and
the way back of its tokens (`Work`).  So the input buffers hold what the fill left in the mirrors as
far as the copies reach (`inputsAfter_log`), and `launchOf` is the launch of those kernels:

* `launchOf_decode`    rows from the lengths in the mirrors, each with its own table row;
* `launchOf_prefill`   all rows over table row 0, as far as the gather reads.
-/

namespace Redline
open Script

/-! ## the host's part of a log -/

def Action.isUpload : Action → Bool
  | .upload .. => true
  | _ => false

/-- neither a store nor an upload -/
def Inert (l : List Action) : Prop := ∀ a ∈ l, a.isStore = false ∧ a.isUpload = false

theorem inert_append {a b : List Action} (ha : Inert a) (hb : Inert b) : Inert (a ++ b) :=
  List.forall_mem_append.mpr ⟨ha, hb⟩

theorem inert_launches (ks : List Kernel) : Inert (ks.map Executor.launch) := by
  intro a ha
  obtain ⟨k, _, rfl⟩ := List.mem_map.mp ha
  exact ⟨rfl, rfl⟩

theorem inert_finishDecode (rows : Nat) : Inert (Executor.finishDecode rows) := by
  intro a ha
  unfold Executor.finishDecode at ha
  simp only [List.mem_cons, List.not_mem_nil, or_false] at ha
  rcases ha with rfl | rfl | rfl <;> exact ⟨rfl, rfl⟩

theorem inert_finishPrefill (finalChunk : Bool) : Inert (Executor.finishPrefill finalChunk) := by
  intro a ha
  cases finalChunk with
  | false =>
    rcases List.mem_pair.mp ha with rfl | rfl <;> exact ⟨rfl, rfl⟩
  | true =>
    rcases List.mem_cons.mp ha with rfl | ha
    · exact ⟨rfl, rfl⟩
    · exact inert_finishDecode 1 a ha

/-- stores and plan resolution -/
def HostOnly (l : List Action) : Prop := ∀ a ∈ l, a.isStore = true ∨ a = .resolve

theorem hostOnly_append {a b : List Action} (ha : HostOnly a) (hb : HostOnly b) : HostOnly (a ++ b) :=
  List.forall_mem_append.mpr ⟨ha, hb⟩

section
variable {l : List Action}

theorem HostOnly.kernels (h : HostOnly l) : l.flatMap Action.kernels = [] := by
  refine List.flatMap_eq_nil_iff.mpr fun a ha => ?_
  rcases h a ha with hstore | rfl
  · cases a with
    | store w => rfl
    | _ => cases hstore
  · rfl

theorem HostOnly.downloaded (h : HostOnly l) : (l.map Action.downloaded).sum = 0 := by
  refine List.sum_eq_zero fun n hn => ?_
  obtain ⟨a, ha, rfl⟩ := List.mem_map.mp hn
  rcases h a ha with hstore | rfl
  · cases a with
    | store w => rfl
    | _ => cases hstore
  · rfl

/-- the host leaves the device buffers alone -/
theorem HostOnly.stage (h : HostOnly l) : ∀ m d : Mirrors,
    l.foldl Executor.Action.stage (m, d) = (Executor.afterLog l m, d) := by
  induction l with
  | nil => exact fun _ _ => rfl
  | cons a l ih =>
    intro m d
    have htail : HostOnly l := fun b hb => h b (List.mem_cons_of_mem _ hb)
    rw [List.foldl_cons, Executor.afterLog_cons]
    rcases h a List.mem_cons_self with hstore | rfl
    · cases a with
      | store w => exact ih htail _ _
      | _ => cases hstore
    · exact ih htail _ _

theorem Inert.stage (h : Inert l) (s : Mirrors × Mirrors) : l.foldl Executor.Action.stage s = s := by
  induction l with
  | nil => rfl
  | cons a l ih =>
    obtain ⟨hstore, hupload⟩ := h a List.mem_cons_self
    have ha : Executor.Action.stage s a = s := by
      cases a with
      | store w => cases hstore
      | upload k n => cases hupload
      | _ => rfl
    rw [List.foldl_cons, ha]
    exact ih fun b hb => h b (List.mem_cons_of_mem _ hb)

end

namespace Executor
variable {x : Executor}

/-! ## the fills only store -/

theorem put_emits (mirror : Mirror) (index : Nat) (value : Int) :
    Emits (fun a => a.isStore = true) (put mirror index value) := emits_emit rfl

theorem fillDummy_emits (start stop : Nat) :
    Emits (fun a => a.isStore = true) (fillDummy start stop) := by
  refine emits_emitAll fun a ha => ?_
  obtain ⟨i, _, rfl⟩ := List.mem_map.mp ha
  rfl

theorem fillTableRow_emits (base : Nat) (blocks : List Int) (bad : Nat → Int → ExecutorError) :
    Emits (fun a => a.isStore = true) (x.fillTableRow base blocks bad) := by
  unfold fillTableRow
  refine (emits_each (fun i block => ?_) blocks 0).bind fun _ => fillDummy_emits _ _
  exact (emits_assert _).bind fun _ => (emits_failIf _ _).bind fun _ => put_emits _ _ _

theorem fillDecodeMirrors_emits (batch : List Request) (padToRows : Nat) :
    Emits (fun a => a.isStore = true) (x.fillDecodeMirrors batch padToRows) := by
  unfold fillDecodeMirrors
  refine (emits_assert _).bind fun _ => (emits_each (fun r q => ?_) batch 0).bind fun _ =>
    (emits_each (fun _ r => ?_) _ _).bind fun _ => emits_pure _
  · unfold fillDecodeRow
    exact (emits_failIf _ _).bind fun _ => (emits_failIf _ _).bind fun _ =>
      (emits_failIf _ _).bind fun _ => (emits_failIf _ _).bind fun _ =>
      (emits_failIf _ _).bind fun _ => (put_emits _ _ _).bind fun _ =>
      (put_emits _ _ _).bind fun _ => (put_emits _ _ _).bind fun _ => fillTableRow_emits _ _ _
  · unfold fillPaddedRow
    exact (put_emits _ _ _).bind fun _ => (put_emits _ _ _).bind fun _ =>
      (put_emits _ _ _).bind fun _ => fillDummy_emits _ _

theorem fillPrefillMirrors_emits (q : Request) (chunkBegin chunkEnd : Nat) :
    Emits (fun a => a.isStore = true) (x.fillPrefillMirrors q chunkBegin chunkEnd) := by
  unfold fillPrefillMirrors
  refine (emits_failIf _ _).bind fun _ => (emits_failIf _ _).bind fun _ =>
    (emits_failIf _ _).bind fun _ => (emits_failIf _ _).bind fun _ =>
    (emits_failIf _ _).bind fun _ => (emits_each (fun i token => ?_) _ 0).bind fun _ =>
    (fillTableRow_emits _ _ _).bind fun _ => emits_pure _
  exact (emits_failIf _ _).bind fun _ => (put_emits _ _ _).bind fun _ => put_emits _ _ _

/-- what a fill logs -/
theorem hostOnly_of_fill {α : Type} {fill : ExecutorCall α} {log : List Action} {a : α}
    (h : Emits (fun a => a.isStore = true) fill) (hfill : Returns fill log a) : HostOnly log :=
  fun act hact => Or.inl (h _ _ hfill act hact)

end Executor

/-! ## the device's part -/

/-- copies first, then kernels and downloads -/
structure Work (uploads : List Action) (kernels : List Kernel) (tokens : Nat) (work : List Action) :
    Prop where
  copies : ∀ a ∈ uploads, a.isUpload = true
  split : ∃ rest, work = uploads ++ rest ∧ Inert rest
  kernels : work.flatMap Action.kernels = kernels
  tokens : (work.map Action.downloaded).sum = tokens

section
variable {fill work uploads : List Action} {kernels : List Kernel} {tokens : Nat}

theorem Work.inputsAfter (hf : HostOnly fill) (hw : Work uploads kernels tokens work) (m : Mirrors) :
    Executor.inputsAfter (fill ++ work) m
      = (uploads.foldl Executor.Action.stage (Executor.afterLog fill m, fun _ _ => 0)).2 := by
  obtain ⟨rest, rfl, hrest⟩ := hw.split
  unfold Executor.inputsAfter
  rw [List.foldl_append, List.foldl_append, hf.stage, hrest.stage]

theorem Work.noStore (hw : Work uploads kernels tokens work) : NoStore work := by
  obtain ⟨rest, rfl, hrest⟩ := hw.split
  refine noStore_append (fun a ha => ?_) fun a ha => (hrest a ha).1
  have hcopy := hw.copies a ha
  cases a with
  | upload k n => rfl
  | _ => cases hcopy

theorem Work.log_kernels (hf : HostOnly fill) (hw : Work uploads kernels tokens work) :
    (fill ++ work).flatMap Action.kernels = kernels := by
  rw [List.flatMap_append, hf.kernels, List.nil_append, hw.kernels]

theorem Work.log_tokens (hf : HostOnly fill) (hw : Work uploads kernels tokens work) :
    ((fill ++ work).map Action.downloaded).sum = tokens := by
  rw [List.map_append, List.sum_append, hf.downloaded, Nat.zero_add, hw.tokens]

end

theorem launched_kernels (kernels : List Kernel) :
    (kernels.map Executor.launch).flatMap Action.kernels = kernels := by
  rw [List.flatMap_map]
  exact List.flatMap_singleton' kernels

theorem launched_downloads (kernels : List Kernel) :
    ((kernels.map Executor.launch).map Action.downloaded).sum = 0 := by
  refine List.sum_eq_zero fun n hn => ?_
  rw [List.map_map] at hn
  obtain ⟨k, _, rfl⟩ := List.mem_map.mp hn
  rfl

namespace Executor

/-- what a decode step enqueues, kernel by kernel or as one graph -/
abbrev DecodeWork (x : Executor) (rows : Nat) (work : List Action) : Prop :=
  Work (x.uploadDecodeInputs rows) (x.decodeKernels rows) rows work

/-- what a chunk enqueues -/
abbrev PrefillWork (x : Executor) (rows chunkBegin chunkEnd : Nat) (finalChunk : Bool)
    (mode : PrefillGemmMode) (work : List Action) : Prop :=
  Work (x.uploadPrefillInputs rows) (x.prefillKernels rows chunkBegin chunkEnd finalChunk mode)
    (if finalChunk then 1 else 0) work

theorem decodeEager_work (x : Executor) (rows : Nat) : x.DecodeWork rows (x.decodeEagerWork rows) where
  copies := by simp [uploadDecodeInputs, Action.isUpload]
  split := ⟨_, List.append_assoc _ _ _, inert_append (inert_launches _) (inert_finishDecode rows)⟩
  kernels := by
    unfold decodeEagerWork
    rw [List.flatMap_append, List.flatMap_append, launched_kernels]
    exact List.append_nil _
  tokens := by
    unfold decodeEagerWork
    rw [List.map_append, List.map_append, List.sum_append, List.sum_append, launched_downloads]
    exact Nat.zero_add rows

theorem decodeGraph_work (x : Executor) (rows : Nat) : x.DecodeWork rows (x.decodeGraphWork rows) where
  copies := by simp [uploadDecodeInputs, Action.isUpload]
  split := by
    refine ⟨_, rfl, fun a ha => ?_⟩
    rcases List.mem_cons.mp ha with rfl | ha
    · exact ⟨rfl, rfl⟩
    · exact inert_finishDecode rows a ha
  kernels := by
    unfold decodeGraphWork
    rw [List.flatMap_append]
    exact List.append_nil _
  tokens := by simp [decodeGraphWork, uploadDecodeInputs, finishDecode, Action.downloaded]

theorem prefill_work (x : Executor) (rows chunkBegin chunkEnd : Nat) (finalChunk : Bool)
    (mode : PrefillGemmMode) : x.PrefillWork rows chunkBegin chunkEnd finalChunk mode
      (x.prefillWork false rows chunkBegin chunkEnd finalChunk mode) where
  copies := by simp [uploadPrefillInputs, Action.isUpload]
  split := by
    unfold prefillWork
    rw [List.append_assoc, List.append_assoc]
    exact ⟨_, rfl, inert_append (inert_launches _) (inert_append (inert_finishPrefill finalChunk) nofun)⟩
  kernels := by
    unfold prefillWork prefillKernels
    rw [List.flatMap_append, List.flatMap_append, List.flatMap_append, launched_kernels]
    cases finalChunk <;> exact List.append_nil _
  tokens := by
    unfold prefillWork
    rw [List.map_append, List.map_append, List.map_append, List.sum_append, List.sum_append,
      List.sum_append, launched_downloads]
    cases finalChunk <;> rfl

/-! ## the arguments of the kernels -/

section
variable {x : Executor}

theorem scattered_decode (hl : 0 < x.config.numLayers.toNat) (rows : Nat) :
    (x.decodeKernels rows).findSome? Kernel.scattered = some (x.maxBlocksPerSeq, rows) := by
  obtain ⟨n, hn⟩ := Nat.exists_eq_add_of_lt hl
  rw [Nat.zero_add] at hn
  unfold decodeKernels enqueueDecodeForward
  rw [hn, List.range_succ_eq_map]
  rfl

theorem gathered_decode (rows : Nat) : (x.decodeKernels rows).findSome? Kernel.gathered = none := by
  refine List.findSome?_eq_none_iff.mpr fun k hk => ?_
  unfold decodeKernels enqueueDecodeForward mlpKernels inputNorm at hk
  cases k with
  | kvGather layer ctx =>
    simp only [List.cons_append, List.nil_append, List.append_assoc, List.mem_cons, List.mem_append,
      List.mem_flatMap, reduceCtorEq, List.not_mem_nil, or_false, false_or] at hk
    obtain ⟨layer', _, hk⟩ := hk
    split at hk <;> cases hk
  | _ => rfl

theorem scattered_prefill (hl : 0 < x.config.numLayers.toNat) (rows chunkStart ctx : Nat)
    (finalChunk : Bool) (mode : PrefillGemmMode) :
    (x.prefillKernels rows chunkStart ctx finalChunk mode).findSome? Kernel.scattered
      = some (0, rows) := by
  obtain ⟨n, hn⟩ := Nat.exists_eq_add_of_lt hl
  rw [Nat.zero_add] at hn
  unfold prefillKernels enqueuePrefillForward
  rw [hn, List.range_succ_eq_map]
  rfl

theorem gathered_prefill (hl : 0 < x.config.numLayers.toNat) (rows chunkStart ctx : Nat)
    (finalChunk : Bool) (mode : PrefillGemmMode) :
    (x.prefillKernels rows chunkStart ctx finalChunk mode).findSome? Kernel.gathered = some ctx := by
  obtain ⟨n, hn⟩ := Nat.exists_eq_add_of_lt hl
  rw [Nat.zero_add] at hn
  unfold prefillKernels enqueuePrefillForward
  rw [hn, List.range_succ_eq_map]
  rfl

/-! ## the launch -/

/-- a row is what the buffers hold for it -/
theorem row_congr {m m' : Mirrors} {width rowStride extent t : Nat}
    (hid : m .inputIds t = m' .inputIds t) (hpos : m .positions t = m' .positions t)
    (htable : ∀ i < width, m .blockTables (t * rowStride + i) = m' .blockTables (t * rowStride + i)) :
    m.row width rowStride extent t = m'.row width rowStride extent t := by
  unfold Mirrors.row
  rw [hid, hpos, List.map_congr_left fun i hi => htable i (List.mem_range.mp hi)]

/-- the copies of a decode step reach this far -/
theorem uploaded_decode (rows : Nat) (m : Mirrors) :
    ((x.uploadDecodeInputs rows).foldl Action.stage (m, fun _ _ => 0)).2 = fun k i =>
      if i < (if k = .blockTables then rows * x.maxBlocksPerSeq else rows) then m k i else 0 := by
  funext k i
  cases k <;> rfl

theorem uploaded_prefill (rows : Nat) (m : Mirrors) :
    ((x.uploadPrefillInputs rows).foldl Action.stage (m, fun _ _ => 0)).2 = fun k i =>
      if k ≠ .seqLens ∧ i < (if k = .blockTables then x.maxBlocksPerSeq else rows) then m k i else 0 := by
  funext k i
  cases k <;> simp [uploadPrefillInputs, Action.stage]

variable {fill work : List Action}

/-- **A decode launch**: a row for each executed row, with its own table. -/
theorem launchOf_decode (hl : 0 < x.config.numLayers.toNat) (hf : HostOnly fill) {rows : Nat}
    (hw : x.DecodeWork rows work) (batch : List Nat) : x.launchOf batch (fill ++ work) =
      { prefill := false
        batch
        rows := (List.range rows).map fun t => (afterLog fill x.mirrors).row x.maxBlocksPerSeq
          x.maxBlocksPerSeq (afterLog fill x.mirrors .seqLens t).toNat t
        tokens := min rows batch.length
        kernels := x.decodeKernels rows
        blockTables := fun i =>
          if i < rows * x.maxBlocksPerSeq then afterLog fill x.mirrors .blockTables i else 0 } := by
  unfold launchOf
  simp only [hw.log_kernels hf, hw.log_tokens hf, hw.inputsAfter hf, uploaded_decode,
    scattered_decode hl, gathered_decode, Option.getD_some, Option.getD_none, Option.isSome_none]
  congr 1
  refine List.map_congr_left fun t ht => ?_
  have ht := List.mem_range.mp ht
  have hlens : (if t < (if Mirror.seqLens = .blockTables then rows * x.maxBlocksPerSeq else rows) then
      afterLog fill x.mirrors .seqLens t else 0) = afterLog fill x.mirrors .seqLens t := if_pos ht
  rw [hlens]
  exact row_congr (if_pos ht) (if_pos ht) fun i hi => if_pos (Stores.row_lt hi ht)

/-- **A prefill launch**: the rows of a chunk, all over table row 0. -/
theorem launchOf_prefill (hl : 0 < x.config.numLayers.toNat) (hf : HostOnly fill)
    {rows chunkBegin chunkEnd : Nat} {finalChunk : Bool} {mode : PrefillGemmMode}
    (hw : x.PrefillWork rows chunkBegin chunkEnd finalChunk mode work) (batch : List Nat) :
    x.launchOf batch (fill ++ work) =
      { prefill := true
        batch
        rows := (List.range rows).map ((afterLog fill x.mirrors).row x.maxBlocksPerSeq 0 chunkEnd)
        tokens := min (if finalChunk then 1 else 0) batch.length
        kernels := x.prefillKernels rows chunkBegin chunkEnd finalChunk mode
        blockTables := fun i =>
          if i < x.maxBlocksPerSeq then afterLog fill x.mirrors .blockTables i else 0 } := by
  unfold launchOf
  simp only [hw.log_kernels hf, hw.log_tokens hf, hw.inputsAfter hf, uploaded_prefill,
    scattered_prefill hl, gathered_prefill hl, Option.getD_some, Option.isSome_some]
  congr 1
  · refine List.map_congr_left fun t ht => ?_
    have ht := List.mem_range.mp ht
    refine row_congr (if_pos ⟨by decide, ht⟩) (if_pos ⟨by decide, ht⟩) fun i hi =>
      if_pos ⟨by decide, ?_⟩
    rw [Nat.mul_zero, Nat.zero_add]
    exact hi
  · simp

end
end Executor
end Redline

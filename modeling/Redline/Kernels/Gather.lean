import Redline.Core.Types
import Redline.Lib.BlockReduce
import Redline.Lib.Stores

/-!
# kv_gather

`kernels/kv_gather.cu` copies the cached keys and values of one sequence out of the paged pool into the
dense buffers `khat` and `vhat`, word by word.  `kvGather_at`: element `(h, t, d)` of a buffer is then
the pool element of position `t`, on the vector path and on the scalar one.
-/

namespace Redline
variable {K : Type*}

/-- the row of `(block, kv, head, slot)` in one layer of the pool -/
def poolRowBase (block kv head slot numKvHeads headDim : Int) : Int :=
  (((block * 2 + kv) * numKvHeads + head) * kKvBlockSize + slot) * headDim

/-- one of the two buffers the gather writes; `kv` is 0 for `khat` and 1 for `vhat` -/
structure GatherBuffer where
  kv : Nat
  headStride : Int
  rowStride : Int

/-- the stores of word `w` of the payload of position `t` -/
def kvGatherWord (halvesPerWord : Nat) (buffer : GatherBuffer) (pool : Int → K)
    (blockTableRow : Nat → Int) (numKvHeads headDim t w : Nat) : List (Int × K) :=
  let block := blockTableRow (t / kKvBlockSize)
  let slot := t % kKvBlockSize
  let wordsPerHead := headDim / halvesPerWord
  let wordsPerSide := numKvHeads * wordsPerHead
  let kv := if w < wordsPerSide then 0 else 1
  let r := w - kv * wordsPerSide
  let h := r / wordsPerHead
  let dw := r - h * wordsPerHead
  let src := poolRowBase block kv h slot numKvHeads headDim / halvesPerWord + dw
  let dstRow := h * buffer.headStride + t * buffer.rowStride
  if kv = buffer.kv then
    (List.range halvesPerWord).map fun (e : Nat) =>
      (dstRow + dw * halvesPerWord + e, pool (src * halvesPerWord + e))
  else []

/-- the stores of thread `tid` of block `t` into the buffer, in words of `halvesPerWord` -/
def kvGatherThread (halvesPerWord : Nat) (buffer : GatherBuffer) (pool : Int → K)
    (blockTableRow : Nat → Int) (numKvHeads headDim t tid : Nat) : List (Int × K) :=
  (BlockReduce.strided 128 (2 * (numKvHeads * (headDim / halvesPerWord))) tid).flatMap
    (kvGatherWord halvesPerWord buffer pool blockTableRow numKvHeads headDim t)

/-- words of 8 halves where everything is aligned to them -/
def gatherVectorizable (khat vhat : GatherBuffer) (headDim : Nat) (pointersAligned : Bool) : Bool :=
  headDim % 8 = 0 ∧ khat.headStride % 8 = 0 ∧ khat.rowStride % 8 = 0 ∧ vhat.headStride % 8 = 0 ∧
    vhat.rowStride % 8 = 0 ∧ pointersAligned

/-- the stores into one of the buffers -/
def launchKvGather (khat vhat buffer : GatherBuffer) (pointersAligned : Bool) (pool : Int → K)
    (blockTableRow : Nat → Int) (ctxLen numKvHeads headDim : Nat) : List (Int × K) :=
  let halvesPerWord := if gatherVectorizable khat vhat headDim pointersAligned then 8 else 1
  (List.range ctxLen).flatMap fun t => (List.range 128).flatMap fun tid =>
    kvGatherThread halvesPerWord buffer pool blockTableRow numKvHeads headDim t tid

/-- the pool element of channel `d` of position `t` in one head -/
def cachedAt (kv : Nat) (pool : Int → K) (blockTableRow : Nat → Int)
    (numKvHeads headDim h t d : Nat) : K :=
  pool (poolRowBase (blockTableRow (t / kKvBlockSize)) kv h (t % kKvBlockSize : Nat) numKvHeads headDim + d)

/-! ## what is stored -/

section
variable {hp : Nat} {buffer : GatherBuffer} {pool : Int → K} {blockTableRow : Nat → Int}
  {ctxLen numKvHeads headDim : Nat}

/-- the element stores of the gather, whatever the width of its words -/
def gatherStores (hp : Nat) (buffer : GatherBuffer) (pool : Int → K) (blockTableRow : Nat → Int)
    (ctxLen numKvHeads headDim : Nat) : List (Int × K) :=
  (List.range ctxLen).flatMap fun t => (List.range 128).flatMap fun tid =>
    kvGatherThread hp buffer pool blockTableRow numKvHeads headDim t tid

/-- the element moves of the gather, one for each position, head and channel -/
def gatherMoves (buffer : GatherBuffer) (pool : Int → K) (blockTableRow : Nat → Int)
    (ctxLen numKvHeads headDim : Nat) : List (Int × K) :=
  (List.range ctxLen).flatMap fun (t : Nat) => (List.range numKvHeads).flatMap fun (h : Nat) =>
    (List.range headDim).map fun (d : Nat) => (h * buffer.headStride + t * buffer.rowStride + d,
      cachedAt buffer.kv pool blockTableRow numKvHeads headDim h t d)

theorem poolRowBase_words (hdvd : hp ∣ headDim) (block kv head slot : Int) (n : Nat) :
    poolRowBase block kv head slot n headDim / hp * hp = poolRowBase block kv head slot n headDim := by
  refine Int.ediv_mul_cancel ?_
  unfold poolRowBase
  exact Dvd.dvd.mul_left (Int.natCast_dvd_natCast.mpr hdvd) _

/-- the word of a head and of a word in its row -/
theorem kvGatherWord_eq (hdvd : hp ∣ headDim) {kv h dw t : Nat} (hkv : kv < 2)
    (hh : h < numKvHeads) (hdw : dw < headDim / hp) :
    kvGatherWord hp buffer pool blockTableRow numKvHeads headDim t
        (kv * (numKvHeads * (headDim / hp)) + (h * (headDim / hp) + dw))
      = (List.range hp).flatMap fun e => if kv = buffer.kv then
          [(h * buffer.headStride + t * buffer.rowStride + (dw * hp + e : Nat),
            cachedAt kv pool blockTableRow numKvHeads headDim h t (dw * hp + e))] else [] := by
  obtain ⟨hside, hr, hhead, hword⟩ := Stores.word_parts hkv hh hdw
  unfold kvGatherWord cachedAt
  simp only [hside, hr, hhead, hword]
  by_cases hk : kv = buffer.kv
  · simp only [if_pos hk, ← List.map_eq_flatMap]
    refine List.map_congr_left fun e _ => ?_
    rw [Int.add_mul, poolRowBase_words hdvd]
    push_cast
    simp only [← Int.add_assoc]
  · simp only [if_neg hk]
    rw [List.flatMap_eq_nil_iff.mpr fun _ _ => rfl]

/-- **Each element is moved once**, whatever the width of the words. -/
theorem perm_gatherStores (hdvd : hp ∣ headDim) (hkv : buffer.kv < 2) :
    (gatherStores hp buffer pool blockTableRow ctxLen numKvHeads headDim).Perm
      (gatherMoves buffer pool blockTableRow ctxLen numKvHeads headDim) := by
  unfold gatherStores gatherMoves kvGatherThread
  refine List.Perm.flatMap_left _ fun t _ => ?_
  refine (BlockReduce.perm_flatMap_strided (by decide) _ _).trans (List.Perm.of_eq ?_)
  rw [Stores.flatMap_words (f := fun kv h d => if kv = buffer.kv then
      [((h * buffer.headStride + t * buffer.rowStride + d : Int),
        cachedAt kv pool blockTableRow numKvHeads headDim h t d)] else [])
    fun kv hkv h hh dw hdw => kvGatherWord_eq hdvd hkv hh hdw, Nat.div_mul_cancel hdvd]
  -- only the side of this buffer moves anything
  rcases Nat.lt_succ_iff_lt_or_eq.mp hkv with h0 | h1
  · have h0 : buffer.kv = 0 := by omega
    simp [h0, List.range_succ, List.map_eq_flatMap]
  · simp [h1, List.range_succ, List.map_eq_flatMap]

theorem mem_gatherMoves {w : Int × K} :
    w ∈ gatherMoves buffer pool blockTableRow ctxLen numKvHeads headDim ↔
      ∃ h < numKvHeads, ∃ t < ctxLen, ∃ d < headDim,
        w = (h * buffer.headStride + t * buffer.rowStride + d,
          cachedAt buffer.kv pool blockTableRow numKvHeads headDim h t d) := by
  unfold gatherMoves
  simp only [List.mem_flatMap, List.mem_map, List.mem_range]
  constructor
  · rintro ⟨t, ht, h, hh, d, hd, rfl⟩
    exact ⟨h, hh, t, ht, d, hd, rfl⟩
  · rintro ⟨h, hh, t, ht, d, hd, rfl⟩
    exact ⟨t, ht, h, hh, d, hd, rfl⟩

/-- the elements of the buffer have addresses of their own -/
def GatherBuffer.Apart (buffer : GatherBuffer) (ctxLen numKvHeads headDim : Nat) : Prop :=
  ∀ h < numKvHeads, ∀ t < ctxLen, ∀ d < headDim, ∀ h' < numKvHeads, ∀ t' < ctxLen, ∀ d' < headDim,
    (h * buffer.headStride + t * buffer.rowStride + d : Int)
      = h' * buffer.headStride + t' * buffer.rowStride + d' → h = h' ∧ t = t' ∧ d = d'

theorem apart_of_strides {rowStride headStride : Nat} (hrow : buffer.rowStride = rowStride)
    (hhead : buffer.headStride = headStride) (hrow' : headDim ≤ rowStride)
    (hhead' : ctxLen * rowStride ≤ headStride) : buffer.Apart ctxLen numKvHeads headDim := by
  intro h _ t ht d hd h' _ t' ht' d' hd' ha
  have haddr : ∀ h t d : Nat, (h : Int) * buffer.headStride + t * buffer.rowStride + d
      = ((h * headStride + (t * rowStride + d) : Nat) : Int) := by
    intro h t d
    rw [hrow, hhead]
    push_cast
    omega
  have hin : ∀ t < ctxLen, ∀ d < headDim, t * rowStride + d < headStride := fun t ht d hd =>
    Nat.lt_of_lt_of_le (Stores.row_lt (Nat.lt_of_lt_of_le hd hrow') ht) hhead'
  rw [haddr, haddr] at ha
  obtain ⟨rfl, hrest⟩ := Stores.row_inj (hin t ht d hd) (hin t' ht' d' hd') (Int.ofNat_inj.mp ha)
  obtain ⟨rfl, rfl⟩ := Stores.row_inj (Nat.lt_of_lt_of_le hd hrow') (Nat.lt_of_lt_of_le hd' hrow') hrest
  exact ⟨rfl, rfl, rfl⟩

theorem dvd_of_gatherVectorizable {khat vhat : GatherBuffer} {pointersAligned : Bool}
    (h : gatherVectorizable khat vhat headDim pointersAligned = true) : 8 ∣ headDim := by
  unfold gatherVectorizable at h
  simp only [Bool.decide_and, Bool.and_eq_true, decide_eq_true_eq] at h
  exact Nat.dvd_of_mod_eq_zero h.1

/-- both widths divide the head when the launcher picks them -/
theorem launchKvGather_stores (khat vhat buffer : GatherBuffer) (pointersAligned : Bool)
    (pool : Int → K)
    (blockTableRow : Nat → Int) (ctxLen numKvHeads headDim : Nat) : ∃ hp, hp ∣ headDim ∧
    launchKvGather khat vhat buffer pointersAligned pool blockTableRow ctxLen numKvHeads headDim
      = gatherStores hp buffer pool blockTableRow ctxLen numKvHeads headDim := by
  unfold launchKvGather
  by_cases hv : gatherVectorizable khat vhat headDim pointersAligned
  · exact ⟨8, dvd_of_gatherVectorizable hv, by simp only [hv, if_true]; rfl⟩
  · exact ⟨1, one_dvd _, by simp only [hv]; rfl⟩

/-- **The gathered buffer.**  Each element is the cached one of its head, position and channel. -/
theorem kvGather_cell {khat vhat : GatherBuffer} {pointersAligned : Bool} (hkv : buffer.kv < 2)
    (hapart : buffer.Apart ctxLen numKvHeads headDim) {h t d : Nat} (hh : h < numKvHeads)
    (ht : t < ctxLen) (hd : d < headDim) (m : Int → K) :
    Stores.store m (launchKvGather khat vhat buffer pointersAligned pool blockTableRow ctxLen numKvHeads
        headDim) (h * buffer.headStride + t * buffer.rowStride + d)
      = cachedAt buffer.kv pool blockTableRow numKvHeads headDim h t d := by
  obtain ⟨hp, hdvd, heq⟩ := launchKvGather_stores khat vhat buffer pointersAligned pool blockTableRow
    ctxLen numKvHeads headDim
  have hmem : ∀ w, w ∈ gatherStores hp buffer pool blockTableRow ctxLen numKvHeads headDim ↔
      w ∈ gatherMoves buffer pool blockTableRow ctxLen numKvHeads headDim := fun w =>
    (perm_gatherStores hdvd hkv).mem_iff
  rw [heq]
  refine Stores.store_of_all ?_ (fun v hv => ?_) m
  · exact List.mem_map.mpr ⟨_, (hmem _).mpr (mem_gatherMoves.mpr ⟨h, hh, t, ht, d, hd, rfl⟩), rfl⟩
  · obtain ⟨h', hh', t', ht', d', hd', hw⟩ := mem_gatherMoves.mp ((hmem _).mp hv)
    obtain ⟨ha, rfl⟩ := Prod.mk.inj hw
    obtain ⟨rfl, rfl, rfl⟩ := hapart h hh t ht d hd h' hh' t' ht' d' hd' ha
    rfl

/-- rows that stay apart, and planes of the heads that do -/
theorem kvGather_at {khat vhat : GatherBuffer} {pointersAligned : Bool} {rowStride headStride : Nat}
    (hkv : buffer.kv < 2) (hrow : buffer.rowStride = rowStride) (hhead : buffer.headStride = headStride)
    (hrow' : headDim ≤ rowStride) (hhead' : ctxLen * rowStride ≤ headStride) {h t d : Nat}
    (hh : h < numKvHeads) (ht : t < ctxLen) (hd : d < headDim) (m : Int → K) :
    Stores.store m (launchKvGather khat vhat buffer pointersAligned pool blockTableRow ctxLen numKvHeads
        headDim) (h * headStride + t * rowStride + d : Nat)
      = cachedAt buffer.kv pool blockTableRow numKvHeads headDim h t d := by
  have haddr : ((h * headStride + t * rowStride + d : Nat) : Int)
      = h * buffer.headStride + t * buffer.rowStride + d := by
    rw [hrow, hhead]
    push_cast
    rfl
  rw [haddr]
  exact kvGather_cell hkv (apart_of_strides hrow hhead hrow' hhead') hh ht hd m

end
end Redline

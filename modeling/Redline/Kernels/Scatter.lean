import Redline.Kernels.Gather

/-!
# kv_scatter

`kernels/kv_scatter.cu` copies the new keys and values of each token row into the paged pool, word by
word; `kernels/kv_gather.cu` reads them back.  The table of a token row is its own (decode), or one for
all rows (prefill, with row stride 0).

* `cellAddress_injective`, `cellAddress_lt`   the cells of a layer slice;
* `perm_scatterStores`                        words of 8 halves and single halves make the same moves;
* `kv_round_trip`                             what a gather returns after a scatter.
-/

namespace Redline
variable {K : Type*}

/-- the arguments of a scatter -/
structure ScatterRows (K : Type*) where
  k : Int → K
  v : Int → K
  kRowStride : Int
  vRowStride : Int
  blockTables : Int → Int
  blockTableRowStride : Int
  positions : Nat → Nat
  numTokens : Nat
  numKvHeads : Nat
  headDim : Nat

namespace ScatterRows
variable (x : ScatterRows K)

def block (t : Nat) : Int :=
  x.blockTables (t * x.blockTableRowStride + (x.positions t / kKvBlockSize : Nat))

def slot (t : Nat) : Nat := x.positions t % kKvBlockSize

/-- element `i` of row `t` of the K view, or of the V view -/
def source (kv t : Nat) (i : Int) : K :=
  if kv = 0 then x.k (t * x.kRowStride + i) else x.v (t * x.vRowStride + i)

/-- where element `d` of head `h` of token row `t` goes -/
def address (t kv h d : Nat) : Int :=
  poolRowBase (x.block t) kv h (x.slot t) x.numKvHeads x.headDim + d

end ScatterRows

/-- the stores of word `w` of the payload of token row `t` -/
def kvScatterWord (halvesPerWord : Nat) (x : ScatterRows K) (t w : Nat) : List (Int × K) :=
  let wordsPerHead := x.headDim / halvesPerWord
  let wordsPerSide := x.numKvHeads * wordsPerHead
  let kv := if w < wordsPerSide then 0 else 1
  let r := w - kv * wordsPerSide
  let h := r / wordsPerHead
  let dw := r - h * wordsPerHead
  let dst := poolRowBase (x.block t) kv h (x.slot t) x.numKvHeads x.headDim / halvesPerWord + dw
  (List.range halvesPerWord).map fun (e : Nat) =>
    (dst * halvesPerWord + e, x.source kv t (r * halvesPerWord + e : Nat))

/-- the element stores of the scatter in words of `halvesPerWord`, block by block and thread by thread -/
def scatterStores (halvesPerWord : Nat) (x : ScatterRows K) : List (Int × K) :=
  (List.range x.numTokens).flatMap fun t => (List.range 128).flatMap fun tid =>
    (BlockReduce.strided 128 (2 * (x.numKvHeads * (x.headDim / halvesPerWord))) tid).flatMap
      (kvScatterWord halvesPerWord x t)

def scatterVectorizable (x : ScatterRows K) (pointersAligned : Bool) : Bool :=
  x.headDim % 8 = 0 ∧ x.kRowStride % 8 = 0 ∧ x.vRowStride % 8 = 0 ∧ pointersAligned

def launchKvScatter (x : ScatterRows K) (pointersAligned : Bool) : List (Int × K) :=
  scatterStores (if scatterVectorizable x pointersAligned then 8 else 1) x

/-! ## the cells of a layer slice -/

/-- block, plane, head, slot and channel -/
abbrev PoolCell (numBlocks numKvHeads headDim : Nat) : Type :=
  Fin numBlocks × Fin 2 × Fin numKvHeads × Fin kKvBlockSize × Fin headDim

def cellAddress {numBlocks numKvHeads headDim : Nat}
    (c : PoolCell numBlocks numKvHeads headDim) : Int :=
  poolRowBase c.1.val c.2.1.val c.2.2.1.val c.2.2.2.1.val numKvHeads headDim + c.2.2.2.2.val

section
variable {numKvHeads headDim : Nat}

theorem row_inj_int {n : Nat} {a a' : Int} {b b' : Nat} (hb : b < n) (hb' : b' < n)
    (h : a * n + b = a' * n + b') : a = a' ∧ b = b' := by
  have hn : (n : Int) ≠ 0 := by omega
  have hdiv := congrArg (· / (n : Int)) h
  have hsmall : ∀ c : Nat, c < n → ((c : Int) / n) = 0 := fun c hc =>
    Int.ediv_eq_zero_of_lt (Int.natCast_nonneg c) (by omega)
  simp only [Int.add_comm _ (b : Int), Int.add_comm _ (b' : Int), Int.add_mul_ediv_right _ _ hn,
    hsmall b hb, hsmall b' hb', Int.zero_add] at hdiv
  subst hdiv
  exact ⟨rfl, by omega⟩

/-- the rows of the pool, and the elements in them, are told apart -/
theorem pool_inj {block block' : Int} {kv kv' h h' s s' d d' : Nat} (hkv : kv < 2) (hkv' : kv' < 2)
    (hh : h < numKvHeads) (hh' : h' < numKvHeads) (hs : s < kKvBlockSize) (hs' : s' < kKvBlockSize)
    (hd : d < headDim) (hd' : d' < headDim)
    (ha : poolRowBase block kv h s numKvHeads headDim + d
      = poolRowBase block' kv' h' s' numKvHeads headDim + d') :
    (block = block' ∧ s = s') ∧ kv = kv' ∧ h = h' ∧ d = d' := by
  unfold poolRowBase at ha
  obtain ⟨hslot, rfl⟩ := row_inj_int hd hd' ha
  obtain ⟨hhead, rfl⟩ := row_inj_int hs hs' hslot
  obtain ⟨hplane, rfl⟩ := row_inj_int hh hh' hhead
  obtain ⟨rfl, rfl⟩ := row_inj_int (n := 2) hkv hkv' hplane
  exact ⟨⟨rfl, rfl⟩, rfl, rfl, rfl⟩

theorem cellAddress_injective (numBlocks : Nat) :
    Function.Injective (cellAddress : PoolCell numBlocks numKvHeads headDim → Int) := by
  rintro ⟨b, kv, h, s, d⟩ ⟨b', kv', h', s', d'⟩ ha
  obtain ⟨⟨hb, hs⟩, hkv, hh, hd⟩ :=
    pool_inj kv.isLt kv'.isLt h.isLt h'.isLt s.isLt s'.isLt d.isLt d'.isLt ha
  obtain rfl := Fin.ext (Int.ofNat_inj.mp hb)
  obtain rfl := Fin.ext hs
  obtain rfl := Fin.ext hkv
  obtain rfl := Fin.ext hh
  obtain rfl := Fin.ext hd
  rfl

theorem cellAddress_lt {numBlocks : Nat} (c : PoolCell numBlocks numKvHeads headDim) :
    0 ≤ cellAddress c ∧ cellAddress c
      < (numBlocks * 2 * numKvHeads * kKvBlockSize * headDim : Nat) := by
  obtain ⟨b, kv, h, s, d⟩ := c
  have haddr : cellAddress (b, kv, h, s, d)
      = ((((b.val * 2 + kv.val) * numKvHeads + h.val) * kKvBlockSize + s.val) * headDim + d.val : Nat) := by
    unfold cellAddress poolRowBase
    push_cast
    rfl
  rw [haddr]
  have hplane : b.val * 2 + kv.val < numBlocks * 2 := Stores.row_lt kv.isLt b.isLt
  have hhead : _ < numBlocks * 2 * numKvHeads := Stores.row_lt h.isLt hplane
  have hslot : _ < numBlocks * 2 * numKvHeads * kKvBlockSize := Stores.row_lt s.isLt hhead
  exact ⟨Int.natCast_nonneg _, Int.ofNat_lt.mpr (Stores.row_lt d.isLt hslot)⟩

end

/-! ## the moves -/

section
variable (x : ScatterRows K)

/-- the element moves of the scatter, one for each token row, side, head and channel -/
def scatterMoves : List (Int × K) :=
  (List.range x.numTokens).flatMap fun t => (List.range 2).flatMap fun (kv : Nat) =>
    (List.range x.numKvHeads).flatMap fun (h : Nat) => (List.range x.headDim).map fun (d : Nat) =>
      (x.address t kv h d, x.source kv t (h * x.headDim + d : Nat))

variable {x}

theorem kvScatterWord_eq {hp : Nat} (hdvd : hp ∣ x.headDim) {kv h dw t : Nat} (hkv : kv < 2)
    (hh : h < x.numKvHeads) (hdw : dw < x.headDim / hp) :
    kvScatterWord hp x t (kv * (x.numKvHeads * (x.headDim / hp)) + (h * (x.headDim / hp) + dw))
      = (List.range hp).flatMap fun (e : Nat) =>
        [(x.address t kv h (dw * hp + e), x.source kv t (h * x.headDim + (dw * hp + e) : Nat))] := by
  obtain ⟨hside, hr, hhead, hword⟩ := Stores.word_parts hkv hh hdw
  have hsource : ∀ e, (h * (x.headDim / hp) + dw) * hp + e = h * x.headDim + (dw * hp + e) := by
    intro e
    rw [Nat.add_mul, Nat.mul_assoc, Nat.div_mul_cancel hdvd, Nat.add_assoc]
  unfold kvScatterWord ScatterRows.address
  simp only [hside, hr, hhead, hword, ← List.map_eq_flatMap]
  refine List.map_congr_left fun e _ => ?_
  rw [Int.add_mul, poolRowBase_words hdvd, hsource, Int.add_assoc]
  push_cast
  rfl

/-- **Each element is moved once**, whatever the width of the words. -/
theorem perm_scatterStores {hp : Nat} (hdvd : hp ∣ x.headDim) :
    (scatterStores hp x).Perm (scatterMoves x) := by
  unfold scatterStores scatterMoves
  refine List.Perm.flatMap_left _ fun t _ => ?_
  refine (BlockReduce.perm_flatMap_strided (by decide) _ _).trans (List.Perm.of_eq ?_)
  rw [Stores.flatMap_words (f := fun (kv h d : Nat) =>
      [(x.address t kv h d, x.source kv t (h * x.headDim + d : Nat))])
    fun kv hkv h hh dw hdw => kvScatterWord_eq hdvd hkv hh hdw, Nat.div_mul_cancel hdvd]
  simp only [List.map_eq_flatMap]

theorem mem_scatterMoves {w : Int × K} : w ∈ scatterMoves x ↔
    ∃ t < x.numTokens, ∃ kv < 2, ∃ h < x.numKvHeads, ∃ d < x.headDim,
      w = (x.address t kv h d, x.source kv t (h * x.headDim + d : Nat)) := by
  unfold scatterMoves
  simp only [List.mem_flatMap, List.mem_map, List.mem_range]
  constructor
  · rintro ⟨t, ht, kv, hkv, h, hh, d, hd, rfl⟩
    exact ⟨t, ht, kv, hkv, h, hh, d, hd, rfl⟩
  · rintro ⟨t, ht, kv, hkv, h, hh, d, hd, rfl⟩
    exact ⟨t, ht, kv, hkv, h, hh, d, hd, rfl⟩

theorem dvd_of_scatterVectorizable {pointersAligned : Bool}
    (h : scatterVectorizable x pointersAligned = true) : 8 ∣ x.headDim := by
  unfold scatterVectorizable at h
  simp only [Bool.decide_and, Bool.and_eq_true, decide_eq_true_eq] at h
  exact Nat.dvd_of_mod_eq_zero h.1

theorem mem_launchKvScatter {pointersAligned : Bool} {w : Int × K} :
    w ∈ launchKvScatter x pointersAligned ↔ w ∈ scatterMoves x := by
  obtain ⟨hp, hdvd, heq⟩ : ∃ hp, hp ∣ x.headDim ∧
      launchKvScatter x pointersAligned = scatterStores hp x := by
    unfold launchKvScatter
    by_cases hv : scatterVectorizable x pointersAligned
    · exact ⟨8, dvd_of_scatterVectorizable hv, by rw [if_pos hv]⟩
    · exact ⟨1, one_dvd _, by rw [if_neg hv]⟩
  rw [heq]
  exact (perm_scatterStores hdvd).mem_iff

/-! ## the round trip -/

/-- the block and the slot that a token row is written to are its own -/
def ScatterRows.Distinct (x : ScatterRows K) : Prop :=
  ∀ t < x.numTokens, ∀ t' < x.numTokens, x.block t = x.block t' → x.slot t = x.slot t' → t = t'

/-- a cell that is written -/
theorem scatter_cell (hx : x.Distinct) {pointersAligned : Bool} {t kv h d : Nat} (ht : t < x.numTokens)
    (hkv : kv < 2) (hh : h < x.numKvHeads) (hd : d < x.headDim) (pool : Int → K) :
    Stores.store pool (launchKvScatter x pointersAligned) (x.address t kv h d)
      = x.source kv t (h * x.headDim + d : Nat) := by
  have hslot : ∀ t, x.slot t < kKvBlockSize := fun t => Nat.mod_lt _ (by decide)
  refine Stores.store_of_all ?_ (fun v hv => ?_) pool
  · refine List.mem_map.mpr ⟨(_, x.source kv t (h * x.headDim + d : Nat)), ?_, rfl⟩
    exact mem_launchKvScatter.mpr (mem_scatterMoves.mpr ⟨t, ht, kv, hkv, h, hh, d, hd, rfl⟩)
  · obtain ⟨t', ht', kv', hkv', h', hh', d', hd', hw⟩ :=
      mem_scatterMoves.mp (mem_launchKvScatter.mp hv)
    obtain ⟨ha, rfl⟩ := Prod.mk.inj hw
    obtain ⟨⟨hblock, hs⟩, rfl, rfl, rfl⟩ :=
      pool_inj hkv hkv' hh hh' (hslot t) (hslot t') hd hd' ha
    obtain rfl := hx t ht t' ht' hblock hs
    rfl

/-- a cell that is not a target -/
theorem scatter_other {pointersAligned : Bool} {a : Int}
    (ha : ∀ t < x.numTokens, ∀ kv < 2, ∀ h < x.numKvHeads, ∀ d < x.headDim,
      a ≠ x.address t kv h d) (pool : Int → K) :
    Stores.store pool (launchKvScatter x pointersAligned) a = pool a := by
  refine Stores.store_of_not_mem (fun hmem => ?_) pool
  obtain ⟨w, hw, rfl⟩ := List.mem_map.mp hmem
  obtain ⟨t, ht, kv, hkv, h, hh, d, hd, rfl⟩ := mem_scatterMoves.mp (mem_launchKvScatter.mp hw)
  exact ha t ht kv hkv h hh d hd rfl

/-- what a gather finds at a position whose cell a token row was written to -/
theorem gather_after_scatter (hx : x.Distinct) (pool m : Int → K)
    (pointersAligned pointersAligned' : Bool)
    (khat vhat : GatherBuffer) {buffer : GatherBuffer} {ctxLen : Nat} {blockTableRow : Nat → Int}
    (hkv : buffer.kv < 2) (hapart : buffer.Apart ctxLen x.numKvHeads x.headDim) {h p t d : Nat}
    (hh : h < x.numKvHeads) (hp : p < ctxLen) (ht : t < x.numTokens)
    (hblock : x.block t = blockTableRow (p / kKvBlockSize)) (hslot : x.slot t = p % kKvBlockSize)
    (hd : d < x.headDim) :
    Stores.store m (launchKvGather khat vhat buffer pointersAligned'
        (Stores.store pool (launchKvScatter x pointersAligned)) blockTableRow ctxLen x.numKvHeads x.headDim)
        (h * buffer.headStride + p * buffer.rowStride + d)
      = x.source buffer.kv t (h * x.headDim + d : Nat) := by
  rw [kvGather_cell hkv hapart hh hp hd]
  unfold cachedAt
  rw [← hblock, ← hslot]
  exact scatter_cell hx ht hkv hh hd pool

/-- what a gather after a scatter returns, and what the scatter leaves alone -/
structure RoundTrip (x : ScatterRows K) (pool : Int → K) (pointersAligned : Bool) : Prop where
  frame : ∀ a, (∀ t < x.numTokens, ∀ kv < 2, ∀ h < x.numKvHeads, ∀ d < x.headDim,
      a ≠ x.address t kv h d) →
    Stores.store pool (launchKvScatter x pointersAligned) a = pool a
  /-- position `p` is in the cell of token row `t`; the planes of the buffers do not overlap -/
  back : ∀ (khat vhat : GatherBuffer) (pointersAligned' : Bool) (blockTableRow : Nat → Int)
    (ctxLen : Nat)
      (m : Int → K), khat.kv = 0 → vhat.kv = 1 → khat.Apart ctxLen x.numKvHeads x.headDim →
    vhat.Apart ctxLen x.numKvHeads x.headDim →
    ∀ p < ctxLen, ∀ t < x.numTokens, x.block t = blockTableRow (p / kKvBlockSize) →
      x.slot t = p % kKvBlockSize → ∀ h < x.numKvHeads, ∀ d < x.headDim,
      let gather := fun buffer => Stores.store m (launchKvGather khat vhat buffer pointersAligned'
        (Stores.store pool (launchKvScatter x pointersAligned)) blockTableRow ctxLen x.numKvHeads x.headDim)
      gather khat (h * khat.headStride + p * khat.rowStride + d)
          = x.k (t * x.kRowStride + (h * x.headDim + d : Nat)) ∧
        gather vhat (h * vhat.headStride + p * vhat.rowStride + d)
          = x.v (t * x.vRowStride + (h * x.headDim + d : Nat))

theorem roundTrip (hx : x.Distinct) (pool : Int → K) (pointersAligned : Bool) :
    RoundTrip x pool pointersAligned := by
  refine ⟨fun a ha => scatter_other ha pool, ?_⟩
  intro khat vhat pointersAligned' blockTableRow ctxLen m hk hv hkapart hvapart p hp t ht hblock hslot
    h hh d hd
  have hkhat := gather_after_scatter hx pool m pointersAligned pointersAligned' khat vhat
    (by omega) hkapart hh hp ht hblock hslot hd
  have hvhat := gather_after_scatter hx pool m pointersAligned pointersAligned' khat vhat
    (by omega) hvapart hh hp ht hblock hslot hd
  rw [hk] at hkhat
  rw [hv] at hvhat
  exact ⟨hkhat, hvhat⟩

end

/-- **The KV cache.**  The cells of a layer slice have addresses of their own inside it; a scatter to
distinct targets and a gather of positions among them give back the rows that were written, and nothing
else in the pool changes; and where the launchers pick the vector kernels, these make the moves of the
scalar ones, each of them once. -/
theorem kv_round_trip (K : Type*) :
    (∀ numBlocks numKvHeads headDim : Nat,
      Function.Injective (cellAddress : PoolCell numBlocks numKvHeads headDim → Int) ∧
      ∀ c : PoolCell numBlocks numKvHeads headDim, 0 ≤ cellAddress c ∧
        cellAddress c < (numBlocks * 2 * numKvHeads * kKvBlockSize * headDim : Nat)) ∧
    (∀ (x : ScatterRows K) (pool : Int → K) (pointersAligned : Bool), x.Distinct →
      RoundTrip x pool pointersAligned) ∧
    (∀ (x : ScatterRows K) (pointersAligned : Bool), scatterVectorizable x pointersAligned = true →
      (scatterStores 8 x).Perm (scatterMoves x) ∧ (scatterStores 1 x).Perm (scatterMoves x)) ∧
    ∀ (khat vhat buffer : GatherBuffer) (pointersAligned : Bool) (pool : Int → K)
      (blockTableRow : Nat → Int) (ctxLen numKvHeads headDim : Nat), buffer.kv < 2 →
      gatherVectorizable khat vhat headDim pointersAligned = true →
      (gatherStores 8 buffer pool blockTableRow ctxLen numKvHeads headDim).Perm
        (gatherMoves buffer pool blockTableRow ctxLen numKvHeads headDim) ∧
      (gatherStores 1 buffer pool blockTableRow ctxLen numKvHeads headDim).Perm
        (gatherMoves buffer pool blockTableRow ctxLen numKvHeads headDim) := by
  refine ⟨fun numBlocks numKvHeads headDim => ⟨cellAddress_injective numBlocks, cellAddress_lt⟩,
    fun x pool pointersAligned hx => roundTrip hx pool pointersAligned, ?_, ?_⟩
  · intro x pointersAligned hv
    exact ⟨perm_scatterStores (dvd_of_scatterVectorizable hv), perm_scatterStores (one_dvd _)⟩
  · intro khat vhat buffer pointersAligned pool blockTableRow ctxLen numKvHeads headDim hkv hv
    exact ⟨perm_gatherStores (dvd_of_gatherVectorizable hv) hkv, perm_gatherStores (one_dvd _) hkv⟩

/-- a prefill chunk of three tokens over a block boundary: positions 15, 16 and 17 of one table -/
def chunkRows : ScatterRows Nat where
  k i := i.toNat
  v i := 1000 + i.toNat
  kRowStride := 8
  vRowStride := 8
  blockTables j := if j = 0 then 7 else 3
  blockTableRowStride := 0
  positions t := 15 + t
  numTokens := 3
  numKvHeads := 1
  headDim := 8

theorem kv_round_trip_chunk : RoundTrip chunkRows (fun _ => 0) true :=
  (kv_round_trip Nat).2.1 chunkRows (fun _ => 0) true (by unfold ScatterRows.Distinct; decide)

end Redline

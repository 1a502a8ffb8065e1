import Redline.Device.Forward

/-!
# Layer by layer is row by row

The forward pass writes the keys and values of all rows of a layer before any row attends in it; rows
in order would give each row all layers before the next one starts.  Both end alike when no row reads
or overwrites what a later one writes (`RowsApart`): with `D` the pool at the end, `AtLayer n` says
that every live row is where the transformer is after `n` layers over the cells `D` holds for it, that
the slices below `n` are those of `D` and the others untouched.  Padded rows and block 0 are left out.

* `AtLayer.layers`                          `AtLayer 0` leads to `AtLayer numLayers`;
* `AtLayer.head`                            the argmax of the rows the head runs on;
* `attendsTo_paged`, `attendsTo_prefill`    the two attentions read the positions up to the row's own.
-/

namespace Redline
open Decoding

variable {V C : Type}

/-! ## the rows of a step -/

/-- the live rows own what they read, and no row writes what an earlier one reads -/
structure RowsApart (rows : Nat) (live : Nat → Prop) (inp : Nat → DeviceRow) : Prop where
  owned : ∀ t < rows, live t → ∀ p ≤ (inp t).position, (cellOf (inp t).table p).1 ≠ kDummyBlockId
  apart : ∀ t < rows, ∀ t' < rows, live t → live t' → t ≤ t' → ∀ p ≤ (inp t).position,
    cellOf (inp t).table p = (inp t').cell → t = t' ∧ p = (inp t).position
  idle : ∀ t < rows, ¬ live t → (inp t).cell.1 = kDummyBlockId

/-- the table rows lie in the buffer a stride apart; a stride of 0 has one for all -/
def Laid (rows rowStride : Nat) (inp : Nat → DeviceRow) (tables : Nat → Int) : Prop :=
  ∀ t < rows, ∀ p, p / kKvBlockSize < (inp t).table.length →
    cellAt tables (t * rowStride) p = cellOf (inp t).table p

/-- every row writes through an entry of its table -/
def InTable (rows : Nat) (inp : Nat → DeviceRow) : Prop :=
  ∀ t < rows, (inp t).position / kKvBlockSize < (inp t).table.length

section
variable (M : RowMath V C) (numLayers rows : Nat) (live : Nat → Prop) (inp : Nat → DeviceRow)
  (tables : Nat → Int) (d D : Pool (Nat → C))

/-- the cells of the positions before row `t` -/
def pastCells (t : Nat) : List (Nat → C) :=
  (List.range (inp t).position).map fun p => D (cellOf (inp t).table p)

/-- row `t` after `n` layers -/
def rowHidden (t n : Nat) : V × V := M.hidden (inp t).inputId (inp t).position (pastCells inp D t) n

/-- `D` is `d` with the cells of the live rows, each from what `D` holds before it -/
structure Explained : Prop where
  solved : ∀ t < rows, live t → ∀ layer,
    D (inp t).cell layer = M.cell layer (inp t).position (rowHidden M inp D t layer)
  frame : ∀ c, c.1 ≠ kDummyBlockId → (∀ t < rows, live t → (inp t).cell ≠ c) → D c = d c

/-- the slab at the start of layer `n` -/
structure AtLayer (n : Nat) (s : Slab V C) : Prop where
  x : ∀ t < rows, live t → s.buf .x t = (rowHidden M inp D t n).1
  mlpOut : n ≠ 0 → ∀ t < rows, live t → s.buf .mlpOut t = (rowHidden M inp D t n).2
  done : ∀ layer < n, ∀ c, c.1 ≠ kDummyBlockId → s.pool layer c = D c layer
  todo : ∀ layer, n ≤ layer → layer < numLayers →
    ∀ c, c.1 ≠ kDummyBlockId → s.pool layer c = d c layer

/-- a launch that attends over the cells of each live row in a layer -/
structure AttendsTo (layer : Nat) (op : ForwardOp) : Prop where
  pool : ∀ s, (op.exec M inp tables s).pool = s.pool
  other : ∀ s b, b ≠ .attnOut → (op.exec M inp tables s).buf b = s.buf b
  attnOut : ∀ s, ∀ t < rows, live t → (op.exec M inp tables s).buf .attnOut t = M.attend (s.buf .qkv t)
    ((List.range ((inp t).position + 1)).map fun p => s.pool layer (cellOf (inp t).table p))

end

section
variable {M : RowMath V C} {numLayers rows n : Nat} {live : Nat → Prop} {inp : Nat → DeviceRow}
  {tables : Nat → Int} {d D : Pool (Nat → C)} {s : Slab V C} {rowStride : Nat}

/-- the scatter of a layer leaves its slice as it will be at the end -/
theorem scatter_layer (hR : RowsApart rows live inp) (hT : Laid rows rowStride inp tables)
    (hcells : InTable rows inp) (hD : Explained M rows live inp d D)
    (hpool : ∀ c, c.1 ≠ kDummyBlockId → s.pool n c = d c n)
    (hqkv : ∀ t < rows, live t →
      s.buf .qkv t = M.fused n (inp t).position (rowHidden M inp D t n)) {c : Int × Nat}
    (hc : c.1 ≠ kDummyBlockId) :
    ((ForwardOp.kvScatter n rowStride rows).exec M inp tables s).pool n c = D c n := by
  show Function.update s.pool n _ n c = _
  have hplace : ((List.range rows).map fun t => (cellAt tables (t * rowStride) (inp t).position,
        M.keyValue (s.buf .qkv t)))
      = (List.range rows).map fun t => ((inp t).cell, M.keyValue (s.buf .qkv t)) :=
    List.map_congr_left fun t ht => by
      rw [hT t (List.mem_range.mp ht) _ (hcells t (List.mem_range.mp ht))]
  rw [Function.update_self, hplace]
  by_cases h : ∃ t < rows, live t ∧ (inp t).cell = c
  · obtain ⟨t, ht, hl, rfl⟩ := h
    refine Stores.store_of_all ?_ (fun v hv => ?_) _
    · exact List.mem_map.mpr ⟨_, List.mem_map.mpr ⟨t, List.mem_range.mpr ht, rfl⟩, rfl⟩
    · obtain ⟨t', ht', he⟩ := List.mem_map.mp hv
      obtain ⟨hcell, rfl⟩ := Prod.mk.inj he
      have ht' := List.mem_range.mp ht'
      have hl' : live t' := by
        by_contra hl'
        exact hc ((congrArg Prod.fst hcell).symm.trans (hR.idle t' ht' hl'))
      have hsame : t' = t := by
        rcases Nat.le_total t t' with hle | hle
        · exact (hR.apart t ht t' ht' hl hl' hle _ (Nat.le_refl _) hcell.symm).1.symm
        · exact (hR.apart t' ht' t ht hl' hl hle _ (Nat.le_refl _) hcell).1
      subst hsame
      rw [hD.solved _ ht hl]
      exact congrArg M.keyValue (hqkv _ ht hl)
  · have hnone : ∀ t < rows, live t → (inp t).cell ≠ c := fun t ht hl e => h ⟨t, ht, hl, e⟩
    have hnot : c ∉ ((List.range rows).map fun t =>
        ((inp t).cell, M.keyValue (s.buf .qkv t))).map Prod.fst := by
      rw [List.map_map]
      intro hm
      obtain ⟨t, ht, rfl⟩ := List.mem_map.mp hm
      have ht := List.mem_range.mp ht
      by_cases hl : live t
      · exact hnone t ht hl rfl
      · exact hc (hR.idle t ht hl)
    rw [Stores.store_of_not_mem hnot, hpool c hc, hD.frame c hc hnone]

/-- what a live row finds once its layer is scattered -/
theorem cells_layer (hR : RowsApart rows live inp) (hD : Explained M rows live inp d D)
    {pool : Pool C} (hpool : ∀ c, c.1 ≠ kDummyBlockId → pool c = D c n) {t : Nat} (ht : t < rows)
    (hl : live t) :
    (List.range ((inp t).position + 1)).map (fun p => pool (cellOf (inp t).table p))
      = (pastCells inp D t).map (· n)
        ++ [M.cell n (inp t).position (rowHidden M inp D t n)] := by
  have hown := hpool _ (hR.owned t ht hl _ (Nat.le_refl _))
  rw [List.range_succ, List.map_append, List.map_singleton, hown, hD.solved t ht hl]
  unfold pastCells
  rw [List.map_map]
  congr 1
  refine List.map_congr_left fun p hp => ?_
  exact hpool _ (hR.owned t ht hl p (Nat.le_of_lt (List.mem_range.mp hp)))

/-- the norm a layer starts with -/
def inputNormOp (layer rows : Nat) : ForwardOp :=
  if layer = 0 then .rmsNorm (.inputNorm 0) rows else .rmsNormResidual (.inputNorm layer) 0 rows

theorem exec_inputNorm (h : AtLayer M numLayers rows live inp d D n s) {t : Nat} (ht : t < rows)
    (hl : live t) : ((inputNormOp n rows).exec M inp tables s).buf .x t
        = M.residual n (rowHidden M inp D t n) ∧
      ((inputNormOp n rows).exec M inp tables s).buf .normed t
        = M.rmsNorm (.inputNorm n) (M.residual n (rowHidden M inp D t n)) := by
  have hx := h.x t ht hl
  unfold inputNormOp RowMath.residual
  by_cases hn : n = 0
  · subst hn
    rw [if_pos rfl, if_pos rfl, ← hx]
    exact ⟨congrFun (Slab.setRows_other (by decide)) t, Slab.setRows_all ht⟩
  · rw [if_neg hn, if_neg hn, ← hx, ← h.mlpOut hn t ht hl]
    exact exec_rmsNormResidual _ ⟨Nat.zero_le _, by omega⟩

theorem exec_inputNorm_pool (s : Slab V C) :
    ((inputNormOp n rows).exec M inp tables s).pool = s.pool := by
  unfold inputNormOp
  split <;> rfl

/-- **One layer**: it leaves the slab at the start of the next one. -/
theorem AtLayer.step (hR : RowsApart rows live inp) (hT : Laid rows rowStride inp tables)
    (hcells : InTable rows inp) (hD : Explained M rows live inp d D)
    {attention : ForwardOp} (hatt : AttendsTo M rows live inp tables n attention)
    (hn : n < numLayers) (h : AtLayer M numLayers rows live inp d D n s) :
    AtLayer M numLayers rows live inp d D (n + 1)
      (execAll M inp tables (layerForward n rowStride rows attention) s) := by
  let s1 := (inputNormOp n rows).exec M inp tables s
  let s2 := (ForwardOp.gemm (.wQkv n) 0 rows).exec M inp tables s1
  let s3 := (ForwardOp.ropeInplace rows).exec M inp tables s2
  let s4 := (ForwardOp.kvScatter n rowStride rows).exec M inp tables s3
  let s5 := attention.exec M inp tables s4
  let s6 := (ForwardOp.gemm (.wO n) 0 rows).exec M inp tables s5
  let s7 := (ForwardOp.rmsNormResidual (.postAttnNorm n) 0 rows).exec M inp tables s6
  let s8 := (ForwardOp.gemm (.wGateup n) 0 rows).exec M inp tables s7
  let s9 := (ForwardOp.siluMul rows).exec M inp tables s8
  show AtLayer M numLayers rows live inp d D (n + 1)
    ((ForwardOp.gemm (.wDown n) 0 rows).exec M inp tables s9)
  have hpool1 : s1.pool = s.pool := exec_inputNorm_pool s
  have hqkv : ∀ t < rows, live t →
      s3.buf .qkv t = M.fused n (inp t).position (rowHidden M inp D t n) := by
    intro t ht hl
    have h2 : s2.buf .qkv t = M.gemm (.wQkv n) (s1.buf .normed (0 + t)) := exec_gemm _ ht
    rw [Nat.zero_add, (exec_inputNorm h ht hl).2] at h2
    exact (Slab.setRows_all ht).trans (congrArg (M.rope (inp t).position) h2)
  -- the slice of this layer is as it will be at the end, the others are untouched
  have hslice : ∀ c, c.1 ≠ kDummyBlockId → s4.pool n c = D c n := fun c hc =>
    scatter_layer (s := s3) hR hT hcells hD (fun c hc => (congrFun (congrFun hpool1 n) c).trans
      (h.todo n (Nat.le_refl _) hn c hc)) hqkv hc
  have hother : ∀ layer, layer ≠ n → s4.pool layer = s.pool layer := fun layer hne =>
    (Function.update_of_ne hne _ _).trans (congrFun hpool1 layer)
  have hpool : ((ForwardOp.gemm (.wDown n) 0 rows).exec M inp tables s9).pool = s4.pool := hatt.pool s4
  have hattn : ∀ t < rows, live t → s5.buf .attnOut t
      = M.attend (M.fused n (inp t).position (rowHidden M inp D t n))
        ((pastCells inp D t).map (· n)
          ++ [M.cell n (inp t).position (rowHidden M inp D t n)]) := by
    intro t ht hl
    rw [← cells_layer hR hD hslice ht hl, ← hqkv t ht hl]
    exact hatt.attnOut s4 t ht hl
  have hx6 : s6.buf .x = s1.buf .x :=
    calc s6.buf .x = s5.buf .x := exec_gemm_other (.wO n) (show Buffer.x ≠ .mlpOut by decide)
      _ = s4.buf .x := hatt.other s4 .x (by decide)
      _ = s3.buf .x := rfl
      _ = s2.buf .x := Slab.setRows_other (by decide)
      _ = s1.buf .x := exec_gemm_other (.wQkv n) (show Buffer.x ≠ .qkv by decide)
  have hx10 : ((ForwardOp.gemm (.wDown n) 0 rows).exec M inp tables s9).buf .x = s7.buf .x :=
    calc _ = s9.buf .x := exec_gemm_other (.wDown n) (show Buffer.x ≠ .mlpOut by decide)
      _ = s8.buf .x := Slab.setRows_other (by decide)
      _ = s7.buf .x := exec_gemm_other (.wGateup n) (show Buffer.x ≠ .gateup by decide)
  have hx : ∀ t < rows, live t → s7.buf .x t = (rowHidden M inp D t (n + 1)).1 ∧
      s7.buf .normed t = M.rmsNorm (.postAttnNorm n) (rowHidden M inp D t (n + 1)).1 := by
    intro t ht hl
    have h6 : s6.buf .mlpOut t = M.gemm (.wO n) (s5.buf .attnOut (0 + t)) := exec_gemm _ ht
    have h5 : s6.buf .x t = M.residual n (rowHidden M inp D t n) :=
      (congrFun hx6 t).trans (exec_inputNorm h ht hl).1
    have h7 : s7.buf .x t = M.add (s6.buf .x t) (s6.buf .mlpOut t) ∧ s7.buf .normed t
        = M.rmsNorm (.postAttnNorm n) (M.add (s6.buf .x t) (s6.buf .mlpOut t)) :=
      exec_rmsNormResidual (.postAttnNorm n) ⟨Nat.zero_le _, by omega⟩
    rw [Nat.zero_add, hattn t ht hl] at h6
    rw [h5, h6] at h7
    exact h7
  refine ⟨fun t ht hl => ?_, fun _ t ht hl => ?_, fun layer hlt c hc => ?_,
    fun layer hle hL c hc => ?_⟩
  · exact (congrFun hx10 t).trans (hx t ht hl).1
  · have h8 : s8.buf .gateup t = M.gemm (.wGateup n) (s7.buf .normed (0 + t)) := exec_gemm _ ht
    have h9 : s9.buf .gateup t = M.siluMul (s8.buf .gateup t) := Slab.setRows_all ht
    have h10 : ((ForwardOp.gemm (.wDown n) 0 rows).exec M inp tables s9).buf .mlpOut t
        = M.gemm (.wDown n) (s9.buf .gateup (0 + t)) := exec_gemm _ ht
    rw [Nat.zero_add, (hx t ht hl).2] at h8
    rw [h10, Nat.zero_add, h9, h8]
    rfl
  · rw [hpool]
    rcases Nat.lt_succ_iff_lt_or_eq.mp hlt with hlt | rfl
    · rw [hother layer (Nat.ne_of_lt hlt)]
      exact h.done layer hlt c hc
    · exact hslice c hc
  · rw [hpool, hother layer (by omega)]
    exact h.todo layer (by omega) hL c hc

theorem execAll_append (ops ops' : List ForwardOp) (s : Slab V C) :
    execAll M inp tables (ops ++ ops') s = execAll M inp tables ops' (execAll M inp tables ops s) :=
  List.foldl_append

/-- **All layers.** -/
theorem AtLayer.layers (hR : RowsApart rows live inp) (hT : Laid rows rowStride inp tables)
    (hcells : InTable rows inp) (hD : Explained M rows live inp d D) {attention : Nat → ForwardOp}
    (hatt : ∀ layer < numLayers, AttendsTo M rows live inp tables layer (attention layer))
    (h : AtLayer M numLayers rows live inp d D 0 s) : ∀ n ≤ numLayers,
    AtLayer M numLayers rows live inp d D n
      (execAll M inp tables (layersForward rowStride rows attention n) s) := by
  intro n
  induction n with
  | zero => exact fun _ => h
  | succ n ih =>
    intro hn
    unfold layersForward
    rw [List.range_succ, List.flatMap_append, List.flatMap_singleton, execAll_append]
    exact (ih (Nat.le_of_succ_le hn)).step hR hT hcells hD (hatt n hn) hn

/-- the slab behind the embeddings -/
theorem AtLayer.embedded
    (hpool : ∀ layer < numLayers, ∀ c, c.1 ≠ kDummyBlockId → s.pool layer c = d c layer) :
    AtLayer M numLayers rows live inp d D 0 ((ForwardOp.embedGather rows).exec M inp tables s) where
  x := fun _ ht _ => Slab.setRows_all ht
  mlpOut := fun h0 _ _ _ => absurd rfl h0
  done := fun _ h0 => absurd h0 (Nat.not_lt_zero _)
  todo := fun layer _ hL => hpool layer hL

/-- the head on the rows from `first` on: final norm, logits and argmax -/
theorem AtLayer.head (h : AtLayer M numLayers rows live inp d D numLayers s) (hL : 0 < numLayers)
    {first n t : Nat} (ht : t < n) (hrow : first + t < rows) (hl : live (first + t)) :
    (execAll M inp tables [.rmsNormResidual .finalNorm first n, .gemm .lmHead first n, .greedyArgmax n]
        s).argmax t = M.argmax (M.logits (rowHidden M inp D (first + t) numLayers)) := by
  let s1 := (ForwardOp.rmsNormResidual .finalNorm first n).exec M inp tables s
  let s2 := (ForwardOp.gemm .lmHead first n).exec M inp tables s1
  have h1 : s1.buf .normed (first + t)
      = M.rmsNorm .finalNorm (M.add (s.buf .x (first + t)) (s.buf .mlpOut (first + t))) :=
    (exec_rmsNormResidual .finalNorm
      ⟨Nat.le_add_right first t, Nat.add_lt_add_left ht first⟩).2
  have h2 : s2.buf .logits t = M.gemm .lmHead (s1.buf .normed (first + t)) := exec_gemm .lmHead ht
  rw [h1, h.x _ hrow hl, h.mlpOut (Nat.ne_of_gt hL) _ hrow hl] at h2
  show (if t < n then M.argmax (s2.buf .logits t) else s2.argmax t) = _
  rw [if_pos ht, h2]
  rfl

/-! ## the two attentions -/

/-- paged attention reads the positions below `seq_len` -/
theorem attendsTo_paged (layer : Nat) {maxBlocks : Nat} (hT : Laid rows maxBlocks inp tables)
    (hext : ∀ t < rows, live t → (inp t).extent = (inp t).position + 1 ∧
      (inp t).table.length = maxBlocks ∧ (inp t).extent ≤ maxBlocks * kKvBlockSize) :
    AttendsTo M rows live inp tables layer (.pagedAttentionDecode layer maxBlocks rows) where
  pool := fun s => rfl
  other := fun s b hb => Slab.setRows_other hb
  attnOut := fun s t ht hl => by
    obtain ⟨h1, hlen, h2⟩ := hext t ht hl
    refine (Slab.setRows_all ht).trans ?_
    simp only
    rw [Nat.min_eq_left h2, h1, if_neg (Nat.succ_ne_zero _)]
    refine congrArg _ (List.map_congr_left fun p hp => ?_)
    have hp := List.mem_range.mp hp
    rw [hT t ht p (by rw [hlen]; exact Nat.div_lt_of_lt_mul (by rw [Nat.mul_comm]; omega))]

/-- the prefill composite reads the positions up to the row's own -/
theorem attendsTo_prefill (layer chunkStart ctx : Nat) (mode : PrefillGemmMode)
    (hT : Laid rows 0 inp tables)
    (hrows : ∀ t < rows, live t → (inp t).position = chunkStart + t ∧ (inp t).position < ctx ∧
      ctx ≤ (inp t).table.length * kKvBlockSize) :
    AttendsTo M rows live inp tables layer (.prefillAttention layer rows chunkStart ctx mode) where
  pool := fun s => rfl
  other := fun s b hb => Slab.setRows_other hb
  attnOut := fun s t ht hl => by
    obtain ⟨hpos, hlt, hlen⟩ := hrows t ht hl
    have hlive : liveKeys ctx chunkStart t = (inp t).position + 1 := by
      unfold liveKeys
      simp only
      split <;> omega
    refine (Slab.setRows_all ht).trans ?_
    rw [hlive]
    refine congrArg _ (List.map_congr_left fun p hp => ?_)
    have hp := List.mem_range.mp hp
    have hcell := hT t ht p (Nat.div_lt_of_lt_mul (by rw [Nat.mul_comm]; omega))
    rw [Nat.mul_zero] at hcell
    rw [hcell]

end
end Redline

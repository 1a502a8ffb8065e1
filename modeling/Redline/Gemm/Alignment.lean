import Redline.Gemm.Probe

/-!
# The alignment of the GEMM pointers

The pointers of `Gemm/Calls` against the alignments of the configurations of `Gemm/Config`, for the
pinned geometry and any rows and context.

* `slabAt_dvd`, `layerWeights_dvd`    a region and a weight start at a multiple of 256;
* `AlignedAs`                         the pointers of a call, at each product of its batch;
* `gemm_pointers_aligned`             of every forward, as the plan that is run declares it.
-/

namespace Redline
open Wrap

def CudaDataType.bytes : CudaDataType → Int
  | .r16F => 2
  | .r32F => 4

/-- the pointers of the call, at every product of the batch of `config`, are as aligned as it declares -/
structure GemmCall.AlignedAs (call : GemmCall) (config : GemmConfig) : Prop where
  a : ∀ i, 0 ≤ i → i < config.batch → config.minAlignABytes ∣ call.a + i * config.strideA * 2
  b : ∀ i, 0 ≤ i → i < config.batch → config.minAlignBBytes ∣ call.b + i * config.strideB * 2
  d : ∀ i, 0 ≤ i → i < config.batch →
    config.minAlignDBytes ∣ call.d + i * config.strideD * config.typeD.bytes

namespace CublasLtGemm

section
variable {g g' : CublasLtGemm}

/-! ## the plan that is run -/

theorem launch_eq_ok {config : GemmConfig} {answers : RunAnswers} {plan plan' : Plan}
    (h : launch config answers plan = .ok plan') : plan = plan' := by
  unfold launch at h
  split at h
  · cases h
  · split at h
    · cases h
    · cases h
    · exact Except.ok.inj h

/-- found or built, it is of the configuration of the call -/
theorem Coherent.planFor_config (h : Coherent g) {config : GemmConfig} {capture : CaptureStatus}
    {tag : String} {answers : BuildAnswers} {plan : Plan}
    (hplan : (g.planFor config capture tag answers).1 = .ok plan) :
    plan.config = config := by
  unfold planFor at hplan
  cases hfind : g.findPlan config with
  | some found =>
    rw [hfind] at hplan
    cases hplan
    exact (h.findPlan_eq_some.mp hfind).2
  | none =>
    rw [hfind] at hplan
    dsimp only at hplan
    split at hplan
    · cases hplan
    cases capture with
    | failed error => cases hplan
    | active => cases hplan
    | none =>
      rcases buildPlan_cases (g := g) config tag answers with ⟨e, he⟩ | ⟨built, hbuilt, heq⟩
      · simp only [he] at hplan
        cases hplan
      · simp only [heq] at hplan
        cases hplan
        exact hbuilt

theorem Coherent.gemm_config (h : Coherent g) {call : GemmCall} {answers : RunAnswers} {plan : Plan}
    (hplan : (g.gemm call answers).1 = .ok plan) : plan.config = normalized call.config := by
  unfold gemm runImpl at hplan
  cases hrejected : call.rejected with
  | some error =>
    rw [hrejected] at hplan
    cases hplan
  | none =>
    rw [hrejected] at hplan
    dsimp only at hplan
    split at hplan
    · cases hplan
    · obtain ⟨found, hfound, hlaunch⟩ := Throw.bind_eq_ok.mp hplan
      rw [← launch_eq_ok hlaunch]
      exact h.planFor_config hfound

end
end CublasLtGemm

/-- the strides that normalization drops are those of a single product -/
theorem GemmCall.AlignedAs.normalized {call : GemmCall} {config : GemmConfig}
    (h : call.AlignedAs config) :
    call.AlignedAs (CublasLtGemm.normalized config) := by
  unfold CublasLtGemm.normalized
  split
  · rename_i hbatch
    have hfirst : ∀ {i : Int}, 0 ≤ i → i < config.batch → i = 0 := fun h0 h1 => by omega
    refine ⟨fun i h0 h1 => ?_, fun i h0 h1 => ?_, fun i h0 h1 => ?_⟩
    · obtain rfl := hfirst h0 h1
      simpa using h.a 0 h0 h1
    · obtain rfl := hfirst h0 h1
      simpa using h.b 0 h0 h1
    · obtain rfl := hfirst h0 h1
      simpa using h.d 0 h0 h1
  · exact h

namespace DeviceBuffers

/-! ## the starts of the regions -/

/-- the wrap is by a multiple of `2 ^ 64` -/
theorem dvd_int64 {d x : Int} (hd : d ∣ 2 ^ 64) (hx : d ∣ x) : d ∣ machine.int64 x := by
  have hdiff : ((2 ^ 64 : Nat) : Int) ∣ machine.int64 x - x := Int.dvd_bmod_sub_self
  exact (Int.dvd_iff_dvd_of_dvd_sub (Int.dvd_trans hd (by exact_mod_cast hdiff))).mpr hx

theorem takeAll_dvd (sizes : List Int) : ∀ {offset : Int}, 256 ∣ offset →
    ∀ o ∈ (takeAll machine 256 offset sizes).1, 256 ∣ o := by
  induction sizes with
  | nil => exact fun _ o ho => absurd ho List.not_mem_nil
  | cons bytes rest ih =>
    intro offset hoffset o ho
    unfold takeAll at ho
    rcases List.mem_cons.mp ho with rfl | ho
    · exact hoffset
    · have hsize : 256 ∣ alignUp machine bytes 256 := dvd_int64 (by decide) (Int.dvd_mul_left _ _)
      exact ih (dvd_int64 (by decide) (Int.dvd_add hoffset hsize)) o ho

section
variable {x : DeviceBuffers}

theorem slabAt_dvd (region : ScratchRegion) : 256 ∣ x.slabAt region := by
  refine Int.dvd_add x.scratchSlab.aligned ?_
  unfold computeScratchLayout
  rw [List.getD_eq_getElem?_getD]
  cases hget : (takeAll machine 256 0 (scratchRegions.map (scratchBytes machine x.config x.options))).1[
      scratchRegions.idxOf region]? with
  | none => exact Int.dvd_zero _
  | some o => exact takeAll_dvd _ (Int.dvd_zero _) o (List.mem_of_getElem? hget)

/-- a weight at a multiple of 256 -/
theorem weight_dvd {offset : Int} (h : 256 ∣ offset) : 256 ∣ x.weight offset :=
  Int.dvd_add x.weightsSlab.aligned h

theorem layerWeights_dvd (hdesign : Design x.config.toLoaderConfig) {layer : Nat}
    (hlayer : layer < 28) :
    256 ∣ (x.layerWeights layer).wQkv ∧ 256 ∣ (x.layerWeights layer).wO ∧
      256 ∣ (x.layerWeights layer).wGateup ∧
      256 ∣ (x.layerWeights layer).wDown := by
  have hplace : x.layerWeights layer = layerAt ((embedBytes : Int) + (layerBytes * layer : Nat)) :=
    layers_getD hdesign x.hasLmHead hlayer
  have hembed : (256 : Int) ∣ embedBytes := by decide
  have hlayers : (256 : Int) ∣ (layerBytes * layer : Nat) := by
    rw [Nat.cast_mul]
    exact Int.dvd_mul_of_dvd_left (by decide)
  have hbase := Int.dvd_add hembed hlayers
  rw [hplace]
  exact ⟨hbase, Int.dvd_add hbase (by decide), Int.dvd_add hbase (by decide),
    Int.dvd_add hbase (by decide)⟩

theorem lmHead_dvd (hdesign : Design x.config.toLoaderConfig) : 256 ∣ x.layout.lmHead := by
  have hembed : (256 : Int) ∣ embedBytes := by decide
  unfold layout
  rw [weightsLayout_eq hdesign]
  dsimp only
  split
  · exact Int.dvd_add (Int.dvd_add hembed (by decide)) (by decide)
  · exact Int.dvd_zero _

/-! ## the calls -/

/-- a linear product, of one batch -/
theorem linear_aligned {call : GemmCall} {rows outFeatures inFeatures actRowStride outRowStride : Int}
    {epilogue : GemmEpilogue}
    (hconfig : call.config = .linear rows outFeatures inFeatures actRowStride outRowStride epilogue)
    (ha : 16 ∣ call.a) (hb : 16 ∣ call.b) (hd : 16 ∣ call.d) : call.AlignedAs call.config := by
  have hzero : ∀ i c : Int, i * 0 * c = 0 := fun i c => by rw [Int.mul_zero, Int.zero_mul]
  rw [hconfig]
  unfold GemmConfig.linear
  refine ⟨fun i _ _ => ?_, fun i _ _ => ?_, fun i _ _ => ?_⟩
  · rwa [hzero, Int.add_zero]
  · rwa [hzero, Int.add_zero]
  · rwa [hzero, Int.add_zero]

theorem of256 {p : Int} (h : 256 ∣ p) : 16 ∣ p := Int.dvd_trans (by decide) h

/-- a multiple of 128 halves from an aligned pointer -/
theorem dvd_halves {p e : Int} (hp : 256 ∣ p) (he : 128 ∣ e) : 16 ∣ p + e * 2 := by
  omega

theorem layerCalls_aligned (hdesign : Design x.config.toLoaderConfig) {rows layer : Nat}
    (hlayer : layer < 28) {attention : List (Gemm × GemmCall)}
    (hattention : ∀ call ∈ attention, call.2.AlignedAs call.2.config) :
    ∀ call ∈ x.layerCalls rows layer attention, call.2.AlignedAs call.2.config := by
  obtain ⟨hqkv, ho, hgateup, hdown⟩ := layerWeights_dvd hdesign hlayer
  intro call hcall
  unfold layerCalls at hcall
  simp only [List.cons_append, List.mem_cons, List.mem_append, List.not_mem_nil, or_false] at hcall
  rcases hcall with rfl | hcall | rfl | rfl | rfl
  · exact linear_aligned rfl (of256 (weight_dvd hqkv)) (of256 (slabAt_dvd _)) (of256 (slabAt_dvd _))
  · exact hattention call hcall
  · exact linear_aligned rfl (of256 (weight_dvd ho)) (of256 (slabAt_dvd _)) (of256 (slabAt_dvd _))
  · exact linear_aligned rfl (of256 (weight_dvd hgateup)) (of256 (slabAt_dvd _)) (of256 (slabAt_dvd _))
  · exact linear_aligned rfl (of256 (weight_dvd hdown)) (of256 (slabAt_dvd _)) (of256 (slabAt_dvd _))

/-- the head at a row of the normed buffer -/
theorem lmHeadCall_aligned (hdesign : Design x.config.toLoaderConfig) (rows : Nat) (row : Int) :
    (x.lmHeadCall rows (row * x.config.hiddenSize)).AlignedAs
    (x.lmHeadCall rows (row * x.config.hiddenSize)).config := by
  have hhidden : (128 : Int) ∣ row * x.config.hiddenSize := by
    rw [show x.config.hiddenSize = 1536 from hdesign.hidden]
    exact Int.dvd_mul_of_dvd_right (by decide)
  exact linear_aligned rfl (of256 (weight_dvd (lmHead_dvd hdesign))) (dvd_halves (slabAt_dvd _) hhidden)
    (of256 (slabAt_dvd _))

section
variable (hdim : x.config.headDim = 128)
include hdim

theorem plane_dvd (g : Int) : 128 ∣ g * x.gatherPlaneStride := by
  unfold gatherPlaneStride
  rw [hdim]
  exact Int.dvd_mul_of_dvd_right (Int.dvd_mul_left _ _)

/-- `k` heads of 128 elements, and the stride between them -/
theorem heads_dvd (k h i : Int) : 128 ∣ h * x.config.headDim + i *
    (if 1 < k then x.config.headDim else 0) := by
  rw [hdim]
  refine Int.dvd_add (Int.dvd_mul_left _ _) (Int.dvd_mul_of_dvd_right ?_)
  split
  · exact Int.dvd_refl _
  · exact Int.dvd_zero _

/-- the scores are only aligned as single floats, at any rows and context -/
theorem scoresCall_aligned (rows ctx : Nat) (k h g : Int) :
    (x.scoresCall rows ctx k h g).AlignedAs (x.scoresCall rows ctx k h g).config := by
  unfold scoresCall GemmConfig.prefillScores
  refine ⟨fun i _ _ => ?_, fun i _ _ => ?_, fun i _ _ => ?_⟩
  · show (16 : Int) ∣ x.slabAt .khat + g * x.gatherPlaneStride * 2 + i * 0 * 2
    have hplane := dvd_halves (slabAt_dvd (x := x) .khat) (plane_dvd hdim g)
    rwa [Int.mul_zero, Int.zero_mul, Int.add_zero]
  · show (16 : Int) ∣ x.slabAt .qkv + h * x.config.headDim * 2 + i *
      (if 1 < k then x.config.headDim else 0) * 2
    have hheads := dvd_halves (slabAt_dvd (x := x) .qkv) (heads_dvd hdim k h i)
    rwa [Int.add_mul, ← Int.add_assoc] at hheads
  · have hslab : (4 : Int) ∣ x.slabAt .scores := Int.dvd_trans (by decide) (slabAt_dvd .scores)
    exact Int.dvd_add (Int.dvd_add hslab (Int.dvd_mul_left _ _)) (Int.dvd_mul_left _ _)

/-- the probs are only aligned as single halves -/
theorem pvCall_aligned (rows ctx : Nat) (k h g : Int) :
    (x.pvCall rows ctx k h g).AlignedAs (x.pvCall rows ctx k h g).config := by
  unfold pvCall GemmConfig.prefillPv
  refine ⟨fun i _ _ => ?_, fun i _ _ => ?_, fun i _ _ => ?_⟩
  · show (16 : Int) ∣ x.slabAt .vhat + g * x.gatherPlaneStride * 2 + i * 0 * 2
    have hplane := dvd_halves (slabAt_dvd (x := x) .vhat) (plane_dvd hdim g)
    rwa [Int.mul_zero, Int.zero_mul, Int.add_zero]
  · have hslab : (2 : Int) ∣ x.slabAt .probs := Int.dvd_trans (by decide) (slabAt_dvd .probs)
    exact Int.dvd_add (Int.dvd_add hslab (Int.dvd_mul_left _ _)) (Int.dvd_mul_left _ _)
  · show (16 : Int) ∣ x.slabAt .attnOut + h * x.config.headDim * 2 + i *
      (if 1 < k then x.config.headDim else 0) * 2
    have hheads := dvd_halves (slabAt_dvd (x := x) .attnOut) (heads_dvd hdim k h i)
    rwa [Int.add_mul, ← Int.add_assoc] at hheads

theorem prefillAttentionCalls_aligned (rows ctx : Nat) (mode : PrefillGemmMode) :
    ∀ call ∈ x.prefillAttentionCalls rows ctx mode, call.2.AlignedAs call.2.config := by
  have hperHead : ∀ {call : Int → Int → Int → GemmCall},
      (∀ k h g, (call k h g).AlignedAs (call k h g).config) →
      ∀ c ∈ x.perHead call mode, c.AlignedAs c.config := by
    intro call hcall c hc
    unfold perHead at hc
    cases mode with
    | kStridedBatched =>
      obtain ⟨g, _, rfl⟩ := List.mem_map.mp hc
      exact hcall _ _ _
    | kPerHead =>
      obtain ⟨h, _, rfl⟩ := List.mem_map.mp hc
      exact hcall _ _ _
  intro call hcall
  unfold prefillAttentionCalls at hcall
  rcases List.mem_append.mp hcall with hcall | hcall
  · obtain ⟨c, hc, rfl⟩ := List.mem_map.mp hcall
    exact hperHead (scoresCall_aligned hdim rows ctx) c hc
  · obtain ⟨c, hc, rfl⟩ := List.mem_map.mp hcall
    exact hperHead (pvCall_aligned hdim rows ctx) c hc

end

/-! ## the forwards -/

theorem design_of_pinned {eosTokenIds : List Int}
    (hpinned : x.config = (CheckpointConfig.pinned eosTokenIds).toModelConfig) :
    Design x.config.toLoaderConfig := by
  rw [hpinned]
  exact ⟨rfl, rfl, rfl, rfl, rfl, rfl, rfl⟩

/-- the calls of a decode forward, a prefill chunk or the layer-0 dump -/
inductive InForward (x : DeviceBuffers) (call : GemmCall) : Prop where
  | decode (rows : Nat) (which : Gemm) (h : (which, call) ∈ x.decodeForwardCalls rows)
  | prefill (rows ctx : Nat) (finalChunk : Bool) (mode : PrefillGemmMode) (which : Gemm)
      (h : (which, call) ∈ x.prefillForwardCalls rows ctx finalChunk mode)
  | dump (rows ctx : Nat) (mode : PrefillGemmMode) (which : Gemm)
      (h : (which, call) ∈ x.dumpCalls rows ctx mode)

theorem inForward_aligned {eosTokenIds : List Int}
    (hpinned : x.config = (CheckpointConfig.pinned eosTokenIds).toModelConfig) {call : GemmCall}
    (hcall : x.InForward call) : call.AlignedAs call.config := by
  have hdesign := design_of_pinned hpinned
  have hdim : x.config.headDim = 128 := by
    rw [hpinned]
    rfl
  have hlayer : ∀ {layer : Nat}, layer ∈ List.range x.config.numLayers.toNat → layer < 28 := by
    intro layer h
    rw [show x.config.numLayers = 28 from hdesign.layers] at h
    exact List.mem_range.mp h
  rcases hcall with ⟨rows, which, h⟩ | ⟨rows, ctx, finalChunk, mode, which, h⟩ |
    ⟨rows, ctx, mode, which, h⟩
  · rcases List.mem_append.mp h with h | h
    · obtain ⟨layer, hrange, h⟩ := List.mem_flatMap.mp h
      exact layerCalls_aligned hdesign (hlayer hrange) (fun _ hnil => absurd hnil List.not_mem_nil) _ h
    · obtain ⟨rfl, rfl⟩ := Prod.mk.inj (List.mem_singleton.mp h)
      have hhead := lmHeadCall_aligned hdesign (x := x) rows 0
      rwa [Int.zero_mul] at hhead
  · rcases List.mem_append.mp h with h | h
    · obtain ⟨layer, hrange, h⟩ := List.mem_flatMap.mp h
      exact layerCalls_aligned hdesign (hlayer hrange)
        (prefillAttentionCalls_aligned hdim rows ctx mode) _ h
    · cases finalChunk with
      | false => exact absurd h List.not_mem_nil
      | true =>
        obtain ⟨rfl, rfl⟩ := Prod.mk.inj (List.mem_singleton.mp h)
        exact lmHeadCall_aligned hdesign 1 _
  · exact layerCalls_aligned hdesign (by omega) (prefillAttentionCalls_aligned hdim rows ctx mode) _ h

/-- **The pointers of every forward** have the alignment that the configuration of the call declares,
and the plan that a call runs, from any cache, was chosen for that alignment. -/
theorem gemm_pointers_aligned {eosTokenIds : List Int}
    (hpinned : x.config = (CheckpointConfig.pinned eosTokenIds).toModelConfig) {call : GemmCall}
    (hcall : x.InForward call) : call.AlignedAs call.config ∧
      ∀ (initialized : Bool) (workspaceBytes : Nat) (calls : List CublasLtGemm.Call)
        (answers : RunAnswers) (plan : Plan),
        (((CublasLtGemm.fresh initialized workspaceBytes).run calls).gemm call answers).1 = .ok plan →
          call.AlignedAs plan.config := by
  have haligned := inForward_aligned hpinned hcall
  refine ⟨haligned, fun initialized workspaceBytes calls answers plan hplan => ?_⟩
  have hcoherent :=
    CublasLtGemm.coherent_run (CublasLtGemm.coherent_fresh initialized workspaceBytes) calls
  rw [hcoherent.gemm_config hplan]
  exact haligned.normalized

end

/-- the head of a decode step of one row, and the scores of the second KV head for a chunk of 5 rows over 11
keys, each run on a plan that is built for it: the planes of the batch are 55 elements apart -/
theorem gemm_pointers_aligned_batched :
    let x : DeviceBuffers :=
      ⟨(CheckpointConfig.pinned []).toModelConfig, ⟨2 ^ 20, 1, 16, 16, true, 0, ""⟩,
      ⟨256, by decide, by decide⟩, ⟨512, by decide, by decide⟩, false⟩
    (x.lmHeadCall 1 0).AlignedAs (.linear 1 151936 1536 1536 151936 .kNone) ∧
      (x.scoresCall 5 11 6 6 1).AlignedAs (.prefillScores 5 11 128 6 2048) := by
  intro x
  have hscores : (Gemm.scores, x.scoresCall 5 11 6 6 1) ∈ x.prefillForwardCalls 5 11 false .kStridedBatched := by
    refine List.mem_append_left _ (List.mem_flatMap.mpr ⟨0, by decide, ?_⟩)
    refine List.mem_append_left _ (List.mem_cons_of_mem _ (List.mem_append_left _ (List.mem_map_of_mem ?_)))
    exact List.mem_map.mpr ⟨1, by decide, rfl⟩
  constructor
  · exact (gemm_pointers_aligned (x := x) rfl (.decode 1 .lmHead (List.mem_append_right _ List.mem_cons_self))).2
      true 0 [] ⟨.none, ⟨none, .success [⟨true, 0, 7⟩]⟩, none, none⟩
      ⟨.linear 1 151936 1536 1536 151936 .kNone, "linear", true, 7, 0⟩ (by decide)
  · exact (gemm_pointers_aligned (x := x) rfl (.prefill 5 11 false .kStridedBatched .scores hscores)).2
      true 0 [] ⟨.none, ⟨none, .success [⟨true, 0, 7⟩]⟩, none, none⟩
      ⟨.prefillScores 5 11 128 6 2048, "strided_batched_f32", true, 7, 0⟩ (by decide)

end DeviceBuffers
end Redline

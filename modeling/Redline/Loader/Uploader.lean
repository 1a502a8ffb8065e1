import Redline.Lib.AsyncCopy
import Redline.Loader.Upload

/-!
# The staged uploader

`StagedUploader` of `loader/convert.cpp`: two slots of a pinned buffer, each with an event, that the
chunks of all uploads take in turn.  The host writes bytes of the buffer; a copy moves the bytes of a
slot to the device whenever it runs.

* `stagedUploader`                  which staging sizes are accepted;
* `uploadChunk`, `uploadFrom`       one chunk and the loop over the chunks of an upload;
* `Settled`                         every copy that may be in flight is covered by the event of its slot, and
                                    the slot is pending;
* `upload_steps`                    an upload without a failed `cudaEventRecord` keeps `Settled`, and rewrites
                                    no slot under a copy.
-/

namespace Redline
open AsyncCopy

/-! ## the buffer -/

/-- a staging size that the constructor accepts -/
structure StagingSize where
  bytes : Nat
  accepted : 4096 ≤ bytes

/-- `(staging_bytes / 2) & ~1` -/
def StagingSize.slotBytes (size : StagingSize) : Nat := size.bytes / 2 / 2 * 2

def StagingSize.chunkElements (size : StagingSize) : Nat := size.slotBytes / 2

/-- the byte `j` of a slot in the buffer -/
def StagingSize.stage (size : StagingSize) (slot : Fin 2) (j : Nat) : Nat :=
  slot.val * size.slotBytes + j

/-- the slot that a byte of the buffer belongs to; past both slots it is none of them -/
def StagingSize.slotOf (size : StagingSize) (cell : Nat) : Nat := cell / size.slotBytes

section
variable (size : StagingSize)

theorem StagingSize.chunkElements_pos : 0 < size.chunkElements := by
  have := size.accepted
  unfold chunkElements slotBytes
  omega

theorem StagingSize.slotBytes_eq : size.slotBytes = 2 * size.chunkElements := by
  unfold chunkElements slotBytes
  omega

theorem StagingSize.slotBytes_pos : 0 < size.slotBytes := by
  have := size.chunkElements_pos
  rw [size.slotBytes_eq]
  omega

theorem StagingSize.slots_le : 2 * size.slotBytes ≤ size.bytes := by
  unfold slotBytes
  omega

variable {size}

theorem StagingSize.slotOf_stage (slot : Fin 2) {j : Nat} (hj : j < size.slotBytes) :
    size.slotOf (size.stage slot j) = slot.val := by
  unfold slotOf stage
  rw [Nat.mul_comm, Nat.mul_add_div size.slotBytes_pos, Nat.div_eq_of_lt hj, Nat.add_zero]

theorem StagingSize.stage_lt (slot : Fin 2) {j : Nat} (hj : j < size.slotBytes) :
    size.stage slot j < 2 * size.slotBytes := by
  have : slot.val * size.slotBytes ≤ 1 * size.slotBytes := Nat.mul_le_mul_right _ (by omega)
  unfold stage
  omega

theorem StagingSize.stage_inj {slot : Fin 2} {j k : Nat}
    (h : size.stage slot j = size.stage slot k) : j = k :=
  Nat.add_left_cancel h

end

/-! ## the uploader -/

abbrev StageAct := Act Nat Nat UInt8 Nat (Fin 2)

abbrev StageFlight := Flight Nat Nat Nat (Fin 2)

/-- `slot_pending_` and `next_slot_` -/
structure Uploader (size : StagingSize) where
  slotPending : Fin 2 → Bool := fun _ => false
  nextSlot : Fin 2 := 0

/-- what a call did to the buffer and the streams, what it left, and what it threw -/
structure StageCall (size : StagingSize) where
  acts : List StageAct
  uploader : Uploader size
  thrown : Option LoadError := none

/-- the constructor, its allocation and its events granted -/
def stagedUploader (stagingBytes : Nat) : Except LoadError ((size : StagingSize) × Uploader size) :=
  if stagingBytes = 0 then .error (.runtime "convert: pinned staging buffer size must be non-zero")
  else if h : stagingBytes < 4096 then .error (.runtime ("convert: staging buffer must be at least " ++
    toString 4096 ++ " bytes, got " ++ toString stagingBytes))
  else .ok ⟨⟨stagingBytes, Nat.le_of_not_lt h⟩, {}⟩

/-- the arguments of `Upload` -/
structure UploadCall where
  dstDevice : Nat
  src : Nat → UInt8
  count : Nat
  srcDtype : Dtype
  tensorName : String
  stream : Nat
  indexBase : Nat := 0

/-- the CUDA call of a chunk that fails, with the text of its error -/
inductive UploadFault where
  | memcpyAsync (text : String)
  | eventRecord (text : String)

/-- `CudaCheck` -/
def UploadFault.error : UploadFault → LoadError
  | .memcpyAsync text =>
    .runtime ("convert: " ++ "cudaMemcpyAsync(H2D weight chunk)" ++ " failed: " ++ text)
  | .eventRecord text => .runtime ("convert: " ++ "cudaEventRecord(slot event)" ++ " failed: " ++ text)

/-- the 16-bit element at an index of a source, little-endian -/
def elementAt (src : Nat → UInt8) (i : Nat) : UInt16 :=
  (src (2 * i)).toUInt16 ||| (src (2 * i + 1)).toUInt16 <<< 8

/-- `ConvertBf16ToFp16` from index `i` on, `n` elements: the bytes it stores, and what it throws -/
def convertBf16ToFp16 (src : Nat → UInt8) (dst : Nat) (tensorName : String) (indexBase : Nat) :
    Nat → Nat → List StageAct × Option LoadError
  | _, 0 => ([], none)
  | i, n + 1 =>
    let bf16 := elementAt src i
    if bf16OverflowsFp16 bf16 then ([], some (.overflow tensorName (indexBase + i) bf16))
    else
      let half := bf16BitsToFp16BitsRne bf16
      let rest := convertBf16ToFp16 src dst tensorName indexBase (i + 1) n
      (.write (dst + 2 * i) half.toUInt8 :: .write (dst + (2 * i + 1)) (half >>> 8).toUInt8 :: rest.1, rest.2)

/-- `std::memcpy` -/
def memcpy (dst : Nat) (src : Nat → UInt8) (bytes : Nat) : List StageAct :=
  (List.range bytes).map fun j => .write (dst + j) (src j)

/-- the stores of a chunk into its slot -/
def fillStage (c : UploadCall) (stage offset n : Nat) : List StageAct × Option LoadError :=
  let chunkSrc := fun j => c.src (2 * offset + j)
  if c.srcDtype = .kBF16 then convertBf16ToFp16 chunkSrc stage c.tensorName (c.indexBase + offset) 0 n
  else (memcpy stage chunkSrc (2 * n), none)

section
variable {size : StagingSize}

def Uploader.waitSlot (u : Uploader size) (slot : Fin 2) : List StageAct × Uploader size :=
  if u.slotPending slot then ([.wait slot],
    { u with slotPending := Function.update u.slotPending slot false })
  else ([], u)

/-- the copy of a chunk, byte by byte -/
def chunkMoves (size : StagingSize) (c : UploadCall) (slot : Fin 2) (offset n : Nat) :
    List (Nat × Nat) :=
  (List.range (2 * n)).map fun j => (c.dstDevice + 2 * offset + j, size.stage slot j)

/-- the elements of the chunk at an offset -/
def UploadCall.chunkCount (size : StagingSize) (c : UploadCall) (offset : Nat) : Nat :=
  min size.chunkElements (c.count - offset)

/-- one turn of the loop in `Upload` -/
def uploadChunk (u : Uploader size) (c : UploadCall) (fault : Option UploadFault) (offset : Nat) :
    StageCall size :=
  let n := c.chunkCount size offset
  let slot := u.nextSlot
  let waited := u.waitSlot slot
  let filled := fillStage c (size.stage slot 0) offset n
  let copy : StageAct := .copy c.stream (chunkMoves size c slot offset n)
  match filled.2, fault with
  | some e, _ => ⟨waited.1 ++ filled.1, waited.2, some e⟩
  | none, some (.memcpyAsync text) =>
    ⟨waited.1 ++ filled.1, waited.2, some (UploadFault.memcpyAsync text).error⟩
  | none, some (.eventRecord text) =>
    ⟨waited.1 ++ filled.1 ++ [copy], waited.2, some (UploadFault.eventRecord text).error⟩
  | none, none => ⟨waited.1 ++ filled.1 ++ [copy, .record slot c.stream],
      { slotPending := Function.update waited.2.slotPending slot true, nextSlot := slot ^^^ 1 }, none⟩

/-- the loop of `Upload` from an offset on; `faults` says which CUDA call of the chunk there fails -/
def uploadFrom (u : Uploader size) (c : UploadCall) (faults : Nat → Option UploadFault)
    (offset : Nat) : StageCall size :=
  if _ : offset < c.count then
    let did := uploadChunk u c (faults offset) offset
    if did.thrown.isSome then did
    else
      let rest := uploadFrom did.uploader c faults (offset + size.chunkElements)
      ⟨did.acts ++ rest.acts, rest.uploader, rest.thrown⟩
  else ⟨[], u, none⟩
termination_by c.count - offset
decreasing_by
  have := size.chunkElements_pos
  omega

def UploadCall.unsupported (c : UploadCall) : LoadError :=
  .runtime ("convert: tensor '" ++ c.tensorName ++ "' has unsupported source dtype (expected BF16 or F16); " ++
    "the checkpoint is expected to be all-BF16 (docs/MODEL_SPEC.md section 8)")

def Uploader.upload (u : Uploader size) (c : UploadCall) (faults : Nat → Option UploadFault) :
    StageCall size :=
  if c.srcDtype ≠ .kBF16 ∧ c.srcDtype ≠ .kF16 then ⟨[], u, some c.unsupported⟩
  else uploadFrom u c faults 0

def Uploader.synchronize (u : Uploader size) : StageCall size :=
  let first := u.waitSlot 0
  let second := first.2.waitSlot 1
  ⟨first.1 ++ second.1, second.2, none⟩

/-- the destructor: it waits for the pending slots, then the buffer is freed -/
def Uploader.destroy (u : Uploader size) : StageCall size :=
  ⟨((List.finRange 2).flatMap fun slot =>
    if u.slotPending slot then [.wait slot] else []) ++ [.release], u, none⟩

/-! ## calls -/

inductive UploaderCall where
  | upload (c : UploadCall) (faults : Nat → Option UploadFault)
  | synchronize
  | destroy

def Uploader.call (u : Uploader size) : UploaderCall → StageCall size
  | .upload c faults => u.upload c faults
  | .synchronize => u.synchronize
  | .destroy => u.destroy

/-- the calls one after the other; one that throws leaves the uploader as it is then -/
def Uploader.calls (u : Uploader size) : List UploaderCall → List StageAct × List (Option LoadError)
  | [] => ([], [])
  | c :: rest =>
    let did := u.call c
    let after := did.uploader.calls rest
    (did.acts ++ after.1, did.thrown :: after.2)

/-! ## what an upload should do -/

/-- a byte of a half in memory -/
def halfByte (half : UInt16) (j : Nat) : UInt8 :=
  if j % 2 = 0 then half.toUInt8 else (half >>> 8).toUInt8

/-- a byte of the source after the conversion of all its elements -/
def UploadCall.storedByte (c : UploadCall) (j : Nat) : UInt8 :=
  halfByte (fp16Of c.srcDtype (elementAt c.src (j / 2))) j

/-- what the conversion of `n` elements from `start` on throws: the first overflow -/
def UploadCall.overflowFrom (c : UploadCall) (start n : Nat) : Option LoadError :=
  if c.srcDtype = .kBF16 then
    ((List.range' start n).find? fun i => bf16OverflowsFp16 (elementAt c.src i)).map fun i =>
      .overflow c.tensorName (c.indexBase + i) (elementAt c.src i)
  else none

theorem UploadCall.overflowFrom_add (c : UploadCall) (start n m : Nat) :
    c.overflowFrom start (n + m) = (c.overflowFrom start n).or (c.overflowFrom (start + n) m) := by
  unfold overflowFrom
  split
  · rw [← List.range'_append_1, List.find?_append, Option.map_or]
  · rfl

/-! ## the stores of a chunk -/

theorem halfByte_join (lo hi : UInt8) (j : Nat) :
    halfByte (lo.toUInt16 ||| hi.toUInt16 <<< 8) j = if j % 2 = 0 then lo else hi := by
  have hlo : (lo.toUInt16 ||| hi.toUInt16 <<< 8).toUInt8 = lo := by
    apply UInt8.eq_of_toBitVec_eq
    ext i hlt
    simp
  have hhi : ((lo.toUInt16 ||| hi.toUInt16 <<< 8) >>> 8).toUInt8 = hi := by
    apply UInt8.eq_of_toBitVec_eq
    ext i hlt
    simp [show 8 + i < 16 by omega, BitVec.getLsbD_eq_getElem hlt]
  unfold halfByte
  rw [hlo, hhi]

theorem elementAt_shift (src : Nat → UInt8) (offset i : Nat) :
    elementAt (fun j => src (2 * offset + j)) i = elementAt src (offset + i) := by
  unfold elementAt
  rw [Nat.mul_add, Nat.add_assoc]

theorem convertBf16ToFp16_spec (src : Nat → UInt8) (dst : Nat) (name : String) (base : Nat) :
    ∀ n i : Nat, WritesOnly (fun cell v => ∃ j, 2 * i ≤ j ∧ j < 2 * (i + n) ∧ cell = dst + j ∧
        v = halfByte (bf16BitsToFp16BitsRne (elementAt src (j / 2))) j)
      (convertBf16ToFp16 src dst name base i n).1 ∧
    (convertBf16ToFp16 src dst name base i n).2
      = ((List.range' i n).find? fun i => bf16OverflowsFp16 (elementAt src i)).map
          (fun i => .overflow name (base + i) (elementAt src i)) ∧
    ((convertBf16ToFp16 src dst name base i n).2 = none → ∀ j, 2 * i ≤ j → j < 2 * (i + n) →
      ∃ v, Act.write (dst + j) v ∈ (convertBf16ToFp16 src dst name base i n).1) := by
  intro n
  induction n with
  | zero => exact fun i => ⟨nofun, rfl, fun _ j h h' => by omega⟩
  | succ n ih =>
    intro i
    obtain ⟨hwrites, hthrown, hall⟩ := ih (i + 1)
    rw [List.range'_succ, List.find?_cons]
    unfold convertBf16ToFp16
    by_cases hover : bf16OverflowsFp16 (elementAt src i) = true
    · simp only [hover, if_true]
      exact ⟨nofun, rfl, nofun⟩
    · simp only [hover, Bool.false_eq_true, if_false]
      refine ⟨?_, hthrown, ?_⟩
      · intro a ha
        rcases List.mem_cons.mp ha with rfl | ha
        · refine ⟨_, _, rfl, 2 * i, le_refl _, by omega, rfl, ?_⟩
          simp [halfByte]
        rcases List.mem_cons.mp ha with rfl | ha
        · refine ⟨_, _, rfl, 2 * i + 1, by omega, by omega, rfl, ?_⟩
          simp [halfByte, show (2 * i + 1) / 2 = i by omega, show (2 * i + 1) % 2 = 1 by omega]
        · obtain ⟨cell, v, rfl, j, hlo, hhi, heq⟩ := hwrites a ha
          exact ⟨cell, v, rfl, j, by omega, by omega, heq⟩
      · intro hnone j hlo hhi
        obtain rfl | rfl | hlt : j = 2 * i ∨ j = 2 * i + 1 ∨ 2 * (i + 1) ≤ j := by omega
        · exact ⟨_, List.mem_cons_self⟩
        · exact ⟨_, List.mem_cons_of_mem _ List.mem_cons_self⟩
        · obtain ⟨v, hv⟩ := hall hnone j hlt (by omega)
          exact ⟨v, List.mem_cons_of_mem _ (List.mem_cons_of_mem _ hv)⟩

/-- a chunk stores the bytes of the conversion, all of them if it does not overflow -/
theorem fillStage_spec (c : UploadCall) (stage offset n : Nat) :
    WritesOnly (fun cell v => ∃ j < 2 * n, cell = stage + j ∧ v = c.storedByte (2 * offset + j))
      (fillStage c stage offset n).1 ∧
    (fillStage c stage offset n).2 = c.overflowFrom offset n ∧
    ((fillStage c stage offset n).2 = none → ∀ j < 2 * n, ∃ v,
      Act.write (stage + j) v ∈ (fillStage c stage offset n).1)
    := by
  have hhalf : ∀ j, (2 * offset + j) / 2 = offset + j / 2 := fun j => by omega
  have hmod : ∀ (half : UInt16) j, halfByte half (2 * offset + j) = halfByte half j := fun half j => by
    unfold halfByte
    rw [Nat.mul_add_mod]
  unfold fillStage UploadCall.overflowFrom UploadCall.storedByte
  by_cases hbf : c.srcDtype = .kBF16
  · simp only [hbf, if_true, hhalf, hmod]
    obtain ⟨hwrites, hthrown, hall⟩ :=
      convertBf16ToFp16_spec (fun j => c.src (2 * offset + j)) stage c.tensorName
      (c.indexBase + offset) n 0
    simp only [elementAt_shift] at hwrites hthrown
    refine ⟨?_, ?_, fun h j hj => hall h j (by omega) (by omega)⟩
    · intro a ha
      obtain ⟨cell, v, rfl, j, _, hj, rfl, rfl⟩ := hwrites a ha
      exact ⟨_, _, rfl, j, by omega, rfl, rfl⟩
    · rw [hthrown, show List.range' offset n = (List.range' 0 n).map (offset + ·) by simp [List.map_add_range'],
        List.find?_map, Option.map_map]
      simp only [Function.comp_def, Nat.add_assoc]
  · simp only [hbf, if_false, hhalf, hmod]
    refine ⟨?_, trivial, fun _ j hj => ⟨_, List.mem_map_of_mem (List.mem_range.mpr hj)⟩⟩
    intro a ha
    obtain ⟨j, hj, rfl⟩ := List.mem_map.mp ha
    refine ⟨_, _, rfl, j, List.mem_range.mp hj, rfl, ?_⟩
    unfold fp16Of elementAt
    rw [if_neg hbf, halfByte_join]
    split
    · exact congrArg c.src (by omega)
    · exact congrArg c.src (by omega)

/-! ## what may be in flight -/

/-- the copy is out of one slot, which is pending, and the event of the slot covers it -/
def Uploader.Guards (u : Uploader size) (slot : Fin 2) (c : Copy Nat Nat Nat (Fin 2)) : Prop :=
  (∀ m ∈ c.moves, size.slotOf m.2 = slot.val) ∧ c.covered slot = true ∧ u.slotPending slot = true

def Uploader.Settled (u : Uploader size) (f : StageFlight) : Prop :=
  ∀ c ∈ f.copies, ∃ slot, u.Guards slot c

theorem settled_fresh (u : Uploader size) : u.Settled {} := nofun

theorem Uploader.waitSlot_nextSlot (u : Uploader size) (slot : Fin 2) :
    (u.waitSlot slot).2.nextSlot = u.nextSlot := by
  unfold waitSlot
  split <;> rfl

theorem Uploader.waitSlot_free (u : Uploader size) (slot : Fin 2) :
    (u.waitSlot slot).2.slotPending slot = false := by
  unfold waitSlot
  split
  · exact Function.update_self _ _ _
  · exact Bool.eq_false_iff.mpr ‹_›

theorem Uploader.waitSlot_other (u : Uploader size) {slot other : Fin 2} (hne : other ≠ slot) :
    (u.waitSlot slot).2.slotPending other = u.slotPending other := by
  unfold waitSlot
  split
  · exact Function.update_of_ne hne _ _
  · rfl

theorem Uploader.waitSlot_safe (u : Uploader size) (f : StageFlight) (slot : Fin 2) :
    SafeActs size.slotOf f (u.waitSlot slot).1 := by
  unfold waitSlot
  split
  · exact ⟨trivial, trivial⟩
  · trivial

/-- after the wait every copy is out of the other slot -/
theorem Uploader.Settled.waitSlot {u : Uploader size} {f : StageFlight} (h : u.Settled f)
    (slot : Fin 2) :
    ∀ c ∈ (f.after (u.waitSlot slot).1).copies, ∃ other ≠ slot, (u.waitSlot slot).2.Guards other c := by
  unfold Uploader.waitSlot
  intro c hc
  split at hc
  · obtain ⟨hc, hcov⟩ := List.mem_filter.mp hc
    obtain ⟨other, hmoves, hcovered, hpending⟩ := h c hc
    have hne : other ≠ slot := by
      rintro rfl
      rw [hcovered] at hcov
      exact absurd hcov (by decide)
    rw [if_pos ‹_›]
    exact ⟨other, hne, hmoves, hcovered, (Function.update_of_ne hne _ _).trans hpending⟩
  · obtain ⟨other, hguards⟩ := h c hc
    rw [if_neg ‹_›]
    refine ⟨other, ?_, hguards⟩
    rintro rfl
    exact absurd hguards.2.2 ‹_›

theorem Uploader.Settled.waited {u : Uploader size} {f : StageFlight} (h : u.Settled f) (slot : Fin 2) :
    (u.waitSlot slot).2.Settled (f.after (u.waitSlot slot).1) := fun c hc => by
  obtain ⟨other, _, hguards⟩ := h.waitSlot slot c hc
  exact ⟨other, hguards⟩

/-! ## one chunk -/

/-- the acts of a chunk before its copy -/
def chunkFill (u : Uploader size) (c : UploadCall) (offset : Nat) : List StageAct × Option LoadError :=
  let filled := fillStage c (size.stage u.nextSlot 0) offset (c.chunkCount size offset)
  ((u.waitSlot u.nextSlot).1 ++ filled.1, filled.2)

def chunkCopy (u : Uploader size) (c : UploadCall) (offset : Nat) : StageAct :=
  .copy c.stream (chunkMoves size c u.nextSlot offset (c.chunkCount size offset))

/-- how a chunk ends -/
theorem uploadChunk_cases (u : Uploader size) (c : UploadCall) (fault : Option UploadFault)
    (offset : Nat) :
    ((uploadChunk u c fault offset).acts = (chunkFill u c offset).1 ∧
      (uploadChunk u c fault offset).uploader = (u.waitSlot u.nextSlot).2 ∧
      ((chunkFill u c offset).2.isSome ∨ ∃ text, fault = some (.memcpyAsync text))) ∨
    ((uploadChunk u c fault offset).acts = (chunkFill u c offset).1 ++ [chunkCopy u c offset] ∧
      (uploadChunk u c fault offset).uploader = (u.waitSlot u.nextSlot).2 ∧
      (chunkFill u c offset).2 = none ∧ ∃ text, fault = some (.eventRecord text)) ∨
    ((uploadChunk u c fault offset).acts
        = (chunkFill u c offset).1 ++ [chunkCopy u c offset] ++ [.record u.nextSlot c.stream] ∧
      (uploadChunk u c fault offset).uploader =
        { slotPending := Function.update (u.waitSlot u.nextSlot).2.slotPending u.nextSlot true,
          nextSlot := u.nextSlot ^^^ 1 } ∧
      (chunkFill u c offset).2 = none ∧ fault = none) := by
  unfold uploadChunk chunkFill chunkCopy
  cases hfilled : (fillStage c (size.stage u.nextSlot 0) offset (c.chunkCount size offset)).2 with
  | some e =>
    refine .inl ⟨?_, ?_, .inl rfl⟩
    · simp only [hfilled]
    · simp only [hfilled]
  | none =>
    cases fault with
    | none =>
      refine .inr (.inr ⟨?_, ?_, rfl, rfl⟩)
      · simp only [hfilled, List.append_assoc, List.cons_append, List.nil_append]
      · simp only [hfilled]
    | some fault =>
      cases fault with
      | memcpyAsync text =>
        refine .inl ⟨?_, ?_, .inr ⟨text, rfl⟩⟩
        · simp only [hfilled]
        · simp only [hfilled]
      | eventRecord text =>
        refine .inr (.inl ⟨?_, ?_, rfl, text, rfl⟩)
        · simp only [hfilled]
        · simp only [hfilled]

theorem uploadChunk_thrown (u : Uploader size) (c : UploadCall) (fault : Option UploadFault)
    (offset : Nat) :
    (uploadChunk u c fault offset).thrown
      = (c.overflowFrom offset (c.chunkCount size offset)).or (fault.map UploadFault.error) := by
  rw [← (fillStage_spec c (size.stage u.nextSlot 0) offset _).2.1]
  unfold uploadChunk
  cases hfilled : (fillStage c (size.stage u.nextSlot 0) offset (c.chunkCount size offset)).2 with
  | some e => simp only [hfilled, Option.some_or]
  | none =>
    cases fault with
    | none => simp only [hfilled, Option.map_none, Option.or_none]
    | some fault => cases fault <;> simp only [hfilled, Option.map_some, Option.none_or]

section
variable {u : Uploader size} {f : StageFlight} {c : UploadCall} {offset : Nat}

theorem chunkCount_bytes (size : StagingSize) (c : UploadCall) (offset : Nat) :
    2 * c.chunkCount size offset ≤ size.slotBytes := by
  rw [size.slotBytes_eq]
  exact Nat.mul_le_mul_left 2 (min_le_left _ _)

theorem chunkFill_writes (u : Uploader size) (c : UploadCall) (offset : Nat) :
    WritesOnly (fun cell v => ∃ j < 2 * c.chunkCount size offset, cell = size.stage u.nextSlot j ∧
        v = c.storedByte (2 * offset + j))
      (fillStage c (size.stage u.nextSlot 0) offset (c.chunkCount size offset)).1 :=
  (fillStage_spec c (size.stage u.nextSlot 0) offset _).1

theorem chunkFill_after : f.after (chunkFill u c offset).1 = f.after (u.waitSlot u.nextSlot).1 := by
  unfold chunkFill
  rw [Flight.after_append]
  exact (chunkFill_writes u c offset).after _

/-- the stores of a chunk go to a slot that no copy reads -/
theorem chunkFill_safe (h : u.Settled f) : SafeActs size.slotOf f (chunkFill u c offset).1 := by
  unfold chunkFill
  refine (safeActs_append _ _ _).mpr ⟨u.waitSlot_safe f _, (chunkFill_writes u c offset).safe ?_⟩
  rintro copy hcopy m hm cell v ⟨j, hj, rfl, rfl⟩
  obtain ⟨other, hne, hmoves, _⟩ := h.waitSlot u.nextSlot copy hcopy
  rw [hmoves m hm, size.slotOf_stage u.nextSlot (hj.trans_le (chunkCount_bytes size c offset))]
  exact fun heq => hne (Fin.ext heq)

theorem chunkFill_sends (Q : Nat → UInt8 → Prop) (h : Nat → UInt8) :
    Sends Q h (chunkFill u c offset).1 := by
  unfold chunkFill
  refine (sends_append _ _ _).mpr ⟨?_, (chunkFill_writes u c offset).sends Q _⟩
  unfold Uploader.waitSlot
  split <;> trivial

theorem chunkFill_host (hnone : (chunkFill u c offset).2 = none) (h : Nat → UInt8) {j : Nat}
    (hj : j < 2 * c.chunkCount size offset) :
    hostAfter h (chunkFill u c offset).1 (size.stage u.nextSlot j) = c.storedByte (2 * offset + j) := by
  unfold chunkFill
  rw [hostAfter_append]
  obtain ⟨k, _, heq, hv⟩ :=
    (chunkFill_writes u c offset).host (h := hostAfter h (u.waitSlot u.nextSlot).1)
    (.inr ((fillStage_spec c (size.stage u.nextSlot 0) offset _).2.2 hnone j hj))
  have heq : size.stage u.nextSlot j = size.stage u.nextSlot k := heq
  rw [size.stage_inj heq]
  rw [size.stage_inj heq] at hv
  exact hv

/-- what is stored keeps inside the slots, what is copied inside the destination -/
def Within (size : StagingSize) (c : UploadCall) : StageAct → Prop
  | .write cell _ => cell < 2 * size.slotBytes
  | .copy _ moves => ∀ m ∈ moves, ∃ j < 2 * c.count, m.1 = c.dstDevice + j
  | _ => True

theorem mem_chunkMoves {slot : Fin 2} {n : Nat} {m : Nat × Nat} : m ∈ chunkMoves size c slot offset n ↔
    ∃ j < 2 * n, (c.dstDevice + 2 * offset + j, size.stage slot j) = m := by
  unfold chunkMoves
  simp only [List.mem_map, List.mem_range]

theorem uploadChunk_safe (h : u.Settled f) (fault : Option UploadFault) :
    SafeActs size.slotOf f (uploadChunk u c fault offset).acts := by
  have hfill : SafeActs size.slotOf f (chunkFill u c offset).1 := chunkFill_safe h
  rcases uploadChunk_cases u c fault offset with ⟨hacts, _⟩ | ⟨hacts, _⟩ | ⟨hacts, _⟩
  · rw [hacts]
    exact hfill
  · rw [hacts]
    exact safeActs_snoc.mpr ⟨hfill, trivial⟩
  · rw [hacts]
    exact safeActs_snoc.mpr ⟨safeActs_snoc.mpr ⟨hfill, trivial⟩, trivial⟩

theorem uploadChunk_within (u : Uploader size) (c : UploadCall) (fault : Option UploadFault)
    (offset : Nat)  :
    ∀ a ∈ (uploadChunk u c fault offset).acts, Within size c a := by
  have hfill : ∀ a ∈ (chunkFill u c offset).1, Within size c a := by
    intro a ha
    rcases List.mem_append.mp ha with ha | ha
    · unfold Uploader.waitSlot at ha
      split at ha
      · rw [List.mem_singleton.mp ha]
        trivial
      · cases ha
    · obtain ⟨_, _, rfl, j, hj, rfl, rfl⟩ := chunkFill_writes u c offset a ha
      exact size.stage_lt _ (hj.trans_le (chunkCount_bytes size c offset))
  have hcopy : Within size c (chunkCopy u c offset) := by
    intro m hm
    obtain ⟨j, hj, rfl⟩ := mem_chunkMoves.mp hm
    refine ⟨2 * offset + j, ?_, Nat.add_assoc _ _ _⟩
    unfold UploadCall.chunkCount at hj
    omega
  rcases uploadChunk_cases u c fault offset with ⟨hacts, _⟩ | ⟨hacts, _⟩ | ⟨hacts, _⟩
  · rw [hacts]
    exact hfill
  · rw [hacts]
    exact List.forall_mem_append.mpr ⟨hfill, List.forall_mem_singleton.mpr hcopy⟩
  · rw [hacts]
    exact List.forall_mem_append.mpr
      ⟨List.forall_mem_append.mpr ⟨hfill, List.forall_mem_singleton.mpr hcopy⟩,
      List.forall_mem_singleton.mpr trivial⟩

theorem chunkFill_thrown (u : Uploader size) (c : UploadCall) (offset : Nat) :
    (chunkFill u c offset).2 = c.overflowFrom offset (c.chunkCount size offset) :=
  (fillStage_spec c (size.stage u.nextSlot 0) offset _).2.1

/-- a chunk sends the bytes of the conversion -/
theorem uploadChunk_sends {P : Nat → UInt8 → Prop}
    (hP : ∀ j < 2 * c.count, P (c.dstDevice + j) (c.storedByte j))
    (u : Uploader size) (fault : Option UploadFault) (offset : Nat) (h : Nat → UInt8) :
    Sends P h (uploadChunk u c fault offset).acts := by
  have hfill : Sends P h (chunkFill u c offset).1 := chunkFill_sends P h
  have hcopy : (chunkFill u c offset).2 = none →
      Sends P h ((chunkFill u c offset).1 ++ [chunkCopy u c offset]) := by
    intro hnone
    refine (sends_append _ _ _).mpr ⟨hfill, fun m hm => ?_, trivial⟩
    obtain ⟨j, hj, rfl⟩ := mem_chunkMoves.mp hm
    show P (c.dstDevice + 2 * offset + j) _
    rw [chunkFill_host hnone h hj, Nat.add_assoc]
    refine hP _ ?_
    unfold UploadCall.chunkCount at hj
    omega
  rcases uploadChunk_cases u c fault offset with ⟨hacts, _⟩ | ⟨hacts, _, hnone, _⟩ |
    ⟨hacts, _, hnone, _⟩
  · rw [hacts]
    exact hfill
  · rw [hacts]
    exact hcopy hnone
  · rw [hacts]
    exact (sends_append _ _ _).mpr ⟨hcopy hnone, trivial⟩

theorem uploadChunk_targets {fault : Option UploadFault}
    (hdone : (uploadChunk u c fault offset).thrown = none)
    {j : Nat} (hlo : 2 * offset ≤ j) (hhi : j < 2 * (offset + c.chunkCount size offset)) :
    Targets (c.dstDevice + j) (uploadChunk u c fault offset).acts := by
  rw [uploadChunk_thrown, Option.or_eq_none_iff] at hdone
  rcases uploadChunk_cases u c fault offset with ⟨_, _, hsome⟩ | ⟨_, _, _, _, rfl⟩ | ⟨hacts, _⟩
  · rw [chunkFill_thrown, hdone.1] at hsome
    rcases hsome with hsome | ⟨_, rfl⟩
    · cases hsome
    · cases hdone.2
  · cases hdone.2
  · rw [hacts]
    refine ⟨c.stream, chunkMoves size c u.nextSlot offset (c.chunkCount size offset), ?_, _,
      mem_chunkMoves.mpr ⟨j - 2 * offset, by omega, Prod.ext ?_ rfl⟩⟩
    · exact List.mem_append_left _ (List.mem_append_right _ (List.mem_singleton.mpr rfl))
    · show c.dstDevice + 2 * offset + (j - 2 * offset) = c.dstDevice + j
      omega

/-- **A chunk keeps the slots settled**, unless its copy is accepted and its event is not recorded. -/
theorem uploadChunk_settled (h : u.Settled f) {fault : Option UploadFault}
    (hrecord : c.overflowFrom offset (c.chunkCount size offset) = none → ∀ text,
      fault ≠ some (.eventRecord text)) :
    (uploadChunk u c fault offset).uploader.Settled (f.after (uploadChunk u c fault offset).acts) := by
  rcases uploadChunk_cases u c fault offset with ⟨hacts, hleft, _⟩ | ⟨_, _, hnone, text, hfault⟩ |
    ⟨hacts, hleft, _⟩
  · rw [hacts, hleft, chunkFill_after]
    exact h.waited _
  · exact absurd hfault (hrecord (chunkFill_thrown u c offset ▸ hnone) text)
  · rw [hacts, hleft, Flight.after_append, Flight.after_append, chunkFill_after]
    intro copy hcopy
    obtain ⟨before, hbefore, rfl⟩ := List.mem_map.mp hcopy
    rcases List.mem_append.mp hbefore with hbefore | hbefore
    · obtain ⟨other, hne, hmoves, hcovered, hpending⟩ := h.waitSlot u.nextSlot before hbefore
      exact ⟨other, hmoves, (Function.update_of_ne hne _ _).trans hcovered,
        (Function.update_of_ne hne _ _).trans hpending⟩
    · rw [List.mem_singleton.mp hbefore]
      refine ⟨u.nextSlot, fun m hm => ?_, ?_, Function.update_self _ _ _⟩
      · obtain ⟨j, hj, rfl⟩ := mem_chunkMoves.mp hm
        exact size.slotOf_stage _ (hj.trans_le (chunkCount_bytes size c offset))
      · exact (Function.update_self _ _ _).trans (decide_eq_true rfl)

theorem uploadChunk_next (h : u.Settled f) {fault : Option UploadFault}
    (hdone : (uploadChunk u c fault offset).thrown = none) :
    (uploadChunk u c fault offset).uploader.Settled (f.after (uploadChunk u c fault offset).acts) := by
  refine uploadChunk_settled h fun _ text hfault => ?_
  rw [uploadChunk_thrown, Option.or_eq_none_iff, hfault] at hdone
  cases hdone.2

/-! ## one upload -/

/-- the loop, one turn at a time -/
theorem uploadFrom_eq (u : Uploader size) (c : UploadCall) (faults : Nat → Option UploadFault)
    {offset : Nat} (hoff : offset < c.count) :
    ((uploadChunk u c (faults offset) offset).thrown = none ∧
      (uploadFrom u c faults offset).acts = (uploadChunk u c (faults offset) offset).acts ++
        (uploadFrom (uploadChunk u c (faults offset) offset).uploader c faults (offset + size.chunkElements)).acts ∧
      (uploadFrom u c faults offset).uploader =
        (uploadFrom (uploadChunk u c (faults offset) offset).uploader c faults
          (offset + size.chunkElements)).uploader ∧
      (uploadFrom u c faults offset).thrown =
        (uploadFrom (uploadChunk u c (faults offset) offset).uploader c faults
          (offset + size.chunkElements)).thrown) ∨
    ((uploadChunk u c (faults offset) offset).thrown ≠ none ∧
      uploadFrom u c faults offset = uploadChunk u c (faults offset) offset) := by
  rw [uploadFrom, dif_pos hoff]
  cases hthrown : (uploadChunk u c (faults offset) offset).thrown with
  | none =>
    refine .inl ⟨rfl, ?_⟩
    simp only [hthrown, Option.isSome_none, Bool.false_eq_true, if_false, and_self]
  | some e =>
    refine .inr ⟨nofun, ?_⟩
    simp only [hthrown, Option.isSome_some, if_true]

theorem uploadFrom_end (u : Uploader size) (c : UploadCall) (faults : Nat → Option UploadFault)
    {offset : Nat} (hoff : ¬ offset < c.count) : uploadFrom u c faults offset = ⟨[], u, none⟩ := by
  rw [uploadFrom, dif_neg hoff]

/-- an induction over the turns of the loop -/
theorem upload_induction {motive : Uploader size → Nat → Prop}
    (stop : ∀ u offset, ¬ offset < c.count → motive u offset)
    (turn : ∀ u offset, offset < c.count → (∀ u', motive u' (offset + size.chunkElements)) →
      motive u offset)
    (u : Uploader size) (offset : Nat) : motive u offset := by
  generalize hn : c.count - offset = n
  induction n using Nat.strongRecOn generalizing u offset with
  | ind n ih =>
    by_cases hoff : offset < c.count
    · refine turn u offset hoff fun u' => ih _ ?_ u' _ rfl
      have := size.chunkElements_pos
      omega
    · exact stop u offset hoff

theorem uploadFrom_safe (faults : Nat → Option UploadFault) (u : Uploader size) (offset : Nat) :
    ∀ f, u.Settled f → SafeActs size.slotOf f (uploadFrom u c faults offset).acts := by
  refine upload_induction (c := c) (motive := fun u offset => ∀ f, u.Settled f →
    SafeActs size.slotOf f (uploadFrom u c faults offset).acts) (fun u offset hoff f _ => ?_)
    (fun u offset hoff ih f h => ?_) u offset
  · rw [uploadFrom_end u c faults hoff]
    trivial
  · rcases uploadFrom_eq u c faults hoff with ⟨hdone, hacts, _⟩ | ⟨_, heq⟩
    · rw [hacts]
      exact (safeActs_append _ _ _).mpr ⟨uploadChunk_safe h _, ih _ _ (uploadChunk_next h hdone)⟩
    · rw [heq]
      exact uploadChunk_safe h _

theorem uploadFrom_within (faults : Nat → Option UploadFault) (u : Uploader size) (offset : Nat) :
    ∀ a ∈ (uploadFrom u c faults offset).acts, Within size c a := by
  refine upload_induction (c := c) (motive := fun u offset =>
    ∀ a ∈ (uploadFrom u c faults offset).acts, Within size c a) (fun u offset hoff => ?_)
    (fun u offset hoff ih => ?_) u offset
  · rw [uploadFrom_end u c faults hoff]
    nofun
  · rcases uploadFrom_eq u c faults hoff with ⟨_, hacts, _⟩ | ⟨_, heq⟩
    · rw [hacts]
      exact List.forall_mem_append.mpr ⟨uploadChunk_within u c _ _, ih _⟩
    · rw [heq]
      exact uploadChunk_within u c _ _

theorem uploadFrom_sends {P : Nat → UInt8 → Prop}
    (hP : ∀ j < 2 * c.count, P (c.dstDevice + j) (c.storedByte j))
    (faults : Nat → Option UploadFault) (u : Uploader size) (offset : Nat) :
    ∀ h, Sends P h (uploadFrom u c faults offset).acts := by
  refine upload_induction (c := c) (motive := fun u offset =>
    ∀ h, Sends P h (uploadFrom u c faults offset).acts) (fun u offset hoff h => ?_)
    (fun u offset hoff ih h => ?_) u offset
  · rw [uploadFrom_end u c faults hoff]
    trivial
  · rcases uploadFrom_eq u c faults hoff with ⟨_, hacts, _⟩ | ⟨_, heq⟩
    · rw [hacts]
      exact (sends_append _ _ _).mpr ⟨uploadChunk_sends hP u _ _ h, ih _ _⟩
    · rw [heq]
      exact uploadChunk_sends hP u _ _ h

theorem uploadFrom_targets (faults : Nat → Option UploadFault) (u : Uploader size) (offset : Nat) :
    (uploadFrom u c faults offset).thrown = none → ∀ j, 2 * offset ≤ j → j < 2 * c.count →
      Targets (c.dstDevice + j) (uploadFrom u c faults offset).acts := by
  refine upload_induction (c := c)
    (motive := fun u offset => (uploadFrom u c faults offset).thrown = none →
    ∀ j, 2 * offset ≤ j → j < 2 * c.count →
      Targets (c.dstDevice + j) (uploadFrom u c faults offset).acts)
    (fun u offset hoff _ j hlo hhi => ?_) (fun u offset hoff ih hdone j hlo hhi => ?_) u offset
  · omega
  · rcases uploadFrom_eq u c faults hoff with ⟨hchunk, hacts, _, hrest⟩ | ⟨hchunk, heq⟩
    · rw [hacts]
      by_cases hj : j < 2 * (offset + c.chunkCount size offset)
      · exact (uploadChunk_targets hchunk hlo hj).append_left _
      · refine (ih _ (hrest ▸ hdone) j ?_ hhi).append_right
        unfold UploadCall.chunkCount at hj
        omega
    · rw [heq] at hdone
      exact absurd hdone hchunk

theorem uploadFrom_settled (faults : Nat → Option UploadFault) (hnone : ∀ offset, faults offset = none)
    (u : Uploader size) (offset : Nat) : ∀ f, u.Settled f →
    (uploadFrom u c faults offset).uploader.Settled (f.after (uploadFrom u c faults offset).acts) := by
  refine upload_induction (c := c) (motive := fun u offset => ∀ f, u.Settled f →
    (uploadFrom u c faults offset).uploader.Settled (f.after (uploadFrom u c faults offset).acts))
    (fun u offset hoff f h => ?_) (fun u offset hoff ih f h => ?_) u offset
  · rw [uploadFrom_end u c faults hoff]
    exact h
  · rcases uploadFrom_eq u c faults hoff with ⟨hdone, hacts, hleft, _⟩ | ⟨_, heq⟩
    · rw [hacts, hleft, Flight.after_append]
      exact ih _ _ (uploadChunk_next h hdone)
    · rw [heq]
      exact uploadChunk_settled h fun _ text => by rw [hnone]; nofun

/-- without a fault the loop throws what the one-shot conversion throws -/
theorem uploadFrom_thrown (faults : Nat → Option UploadFault) (hnone : ∀ offset, faults offset = none)
    (u : Uploader size) (offset : Nat) :
    (uploadFrom u c faults offset).thrown = c.overflowFrom offset (c.count - offset) := by
  refine upload_induction (c := c) (motive := fun u offset =>
    (uploadFrom u c faults offset).thrown = c.overflowFrom offset (c.count - offset))
    (fun u offset hoff => ?_) (fun u offset hoff ih => ?_) u offset
  · rw [uploadFrom_end u c faults hoff, Nat.sub_eq_zero_of_le (Nat.le_of_not_lt hoff)]
    unfold UploadCall.overflowFrom
    split <;> rfl
  · have hchunk := uploadChunk_thrown u c (faults offset) offset
    rw [hnone, Option.map_none, Option.or_none] at hchunk
    have hsplit : c.count - offset = c.chunkCount size offset +
        (c.count - (offset + size.chunkElements)) := by
      unfold UploadCall.chunkCount
      omega
    rw [hsplit, c.overflowFrom_add, ← hchunk]
    rcases uploadFrom_eq u c faults hoff with ⟨hdone, _, _, hrest⟩ | ⟨hthrown, heq⟩
    · rw [hrest, ih, hnone] at *
      rw [hdone, Option.none_or]
      by_cases hlast : offset + size.chunkElements ≤ c.count
      · have hfull : c.chunkCount size offset = size.chunkElements := by
          unfold UploadCall.chunkCount
          omega
        rw [hfull]
      · rw [Nat.sub_eq_zero_of_le (by omega)]
        unfold UploadCall.overflowFrom
        split <;> rfl
    · rw [heq, hnone] at *
      obtain ⟨e, he⟩ := Option.ne_none_iff_exists'.mp hthrown
      rw [he, Option.some_or]

end

end
end Redline

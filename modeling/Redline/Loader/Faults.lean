import Redline.Loader.Chunked

/-!
# The uploader after a failed upload

`StagedUploader` keeps a slot pending only once the event after its copy is recorded.  When that
`cudaEventRecord` fails, the copy is in flight, no event covers it, and its slot is taken for free.

* `Stray`                 a copy out of the next slot that no event covers;
* `Strays`, `Touches`     the calls that leave one, and the calls that it harms;
* `settled_calls`         from a settled uploader calls are safe exactly if no call that leaves a stray copy is
                          followed by one that it harms.
-/

namespace Redline
open AsyncCopy

/-! ## safe calls -/

section
variable {size : StagingSize}

/-- no slot is rewritten under a copy that may be in flight, the buffer is freed with none in flight, and
none is when `Synchronize` returns -/
def SafeCalls (u : Uploader size) (f : StageFlight) : List UploaderCall → Prop
  | [] => True
  | c :: rest => SafeActs size.slotOf f (u.call c).acts ∧
      (c = .synchronize → (f.after (u.call c).acts).copies = []) ∧
      SafeCalls (u.call c).uploader (f.after (u.call c).acts) rest

/-- the upload reaches a chunk, from an offset on, whose `cudaEventRecord` fails -/
def StraysFrom (size : StagingSize) (c : UploadCall) (faults : Nat → Option UploadFault)
    (offset : Nat) : Prop :=
  ∃ k, offset + k * size.chunkElements < c.count ∧
    (∃ text, faults (offset + k * size.chunkElements) = some (.eventRecord text)) ∧
    (∀ k' < k, faults (offset + k' * size.chunkElements) = none) ∧
    (c.srcDtype = .kBF16 → ∀ i, offset ≤ i → i < offset + (k + 1) * size.chunkElements → i < c.count →
      bf16OverflowsFp16 (elementAt c.src i) = false)

/-- the call leaves a copy that no event covers -/
def UploaderCall.Strays (size : StagingSize) : UploaderCall → Prop
  | .upload c faults => (c.srcDtype = .kBF16 ∨ c.srcDtype = .kF16) ∧ StraysFrom size c faults 0
  | _ => False

/-- the call stores into the next slot, waits for all copies or frees the buffer -/
def UploaderCall.Touches : UploaderCall → Prop
  | .upload c _ => 0 < c.count ∧
      (c.srcDtype = .kF16 ∨ c.srcDtype = .kBF16 ∧ bf16OverflowsFp16 (elementAt c.src 0) = false)
  | _ => True

/-- a copy out of the next slot that no event covers, the slot not pending -/
def Stray (u : Uploader size) (f : StageFlight) : Prop :=
  u.slotPending u.nextSlot = false ∧ ∃ copy ∈ f.copies, (∀ e, copy.covered e = false) ∧
    ∃ m ∈ copy.moves, size.slotOf m.2 = u.nextSlot.val

/-! ## what an upload leaves -/

theorem overflowFrom_eq_none {c : UploadCall} {start n : Nat} : c.overflowFrom start n = none ↔
    (c.srcDtype = .kBF16 → ∀ i, start ≤ i → i < start + n →
      bf16OverflowsFp16 (elementAt c.src i) = false) := by
  unfold UploadCall.overflowFrom
  split
  · rw [Option.map_eq_none_iff, List.find?_eq_none]
    simp only [List.mem_range'_1, Bool.not_eq_true, and_imp]
    exact ⟨fun h _ => h, fun h => h ‹_›⟩
  · exact iff_of_true rfl fun h => absurd h ‹_›

theorem straysFrom_step {c : UploadCall} {faults : Nat → Option UploadFault} {offset : Nat}
    (hoff : offset < c.count) :
    StraysFrom size c faults offset ↔ c.overflowFrom offset (c.chunkCount size offset) = none ∧
      ((∃ text, faults offset = some (.eventRecord text)) ∨
        faults offset = none ∧ StraysFrom size c faults (offset + size.chunkElements)) := by
  have hpos := size.chunkElements_pos
  have hnext : ∀ k, offset + (k + 1) * size.chunkElements
      = offset + size.chunkElements + k * size.chunkElements :=
    fun k => by rw [Nat.add_mul]; omega
  have hcount : offset + c.chunkCount size offset = min (offset + size.chunkElements) c.count := by
    unfold UploadCall.chunkCount
    omega
  rw [overflowFrom_eq_none, hcount]
  constructor
  · rintro ⟨k, hk, hfault, hbefore, hover⟩
    refine ⟨fun hb i hlo hhi => hover hb i hlo ?_ (by omega), ?_⟩
    · rw [hnext]
      omega
    · cases k with
      | zero => exact .inl (by simpa using hfault)
      | succ k =>
        refine .inr ⟨by simpa using hbefore 0 (Nat.succ_pos k), k, ?_, ?_, fun k' hk' => ?_, fun hb i hlo hhi => ?_⟩
        · rwa [← hnext]
        · rwa [← hnext]
        · rw [← hnext]
          exact hbefore (k' + 1) (by omega)
        · rw [← hnext] at hhi
          exact hover hb i (by omega) hhi
  · rintro ⟨hover, hfault | ⟨hnone, k, hk, hfault, hbefore, hrest⟩⟩
    · refine ⟨0, by omega, by simpa using hfault, nofun, fun hb i hlo hhi hi => hover hb i hlo ?_⟩
      omega
    · refine ⟨k + 1, by rwa [hnext], by rwa [hnext], fun k' hk' => ?_, fun hb i hlo hhi hi => ?_⟩
      · cases k' with
        | zero => simpa using hnone
        | succ k' =>
          rw [hnext]
          exact hbefore k' (by omega)
      · by_cases hfirst : i < offset + size.chunkElements
        · exact hover hb i hlo (by omega)
        · rw [hnext] at hhi
          exact hrest hb i (by omega) hhi hi

section
variable {u : Uploader size} {f : StageFlight} {c : UploadCall} {offset : Nat}

theorem uploadChunk_stray {fault : Option UploadFault} (hoff : offset < c.count)
    (hover : c.overflowFrom offset (c.chunkCount size offset) = none) {text : String}
    (hfault : fault = some (.eventRecord text)) :
    Stray (uploadChunk u c fault offset).uploader (f.after (uploadChunk u c fault offset).acts) := by
  rcases uploadChunk_cases u c fault offset with ⟨_, _, hsome⟩ | ⟨hacts, hleft, _⟩ | ⟨_, _, _, hno⟩
  · rw [chunkFill_thrown, hover, hfault] at hsome
    rcases hsome with hsome | ⟨_, hsome⟩
    · cases hsome
    · cases hsome
  · rw [hacts, hleft, Flight.after_append]
    unfold Stray
    rw [u.waitSlot_nextSlot]
    refine ⟨u.waitSlot_free _, _, List.mem_append_right _ (List.mem_singleton.mpr rfl),
      fun _ => rfl, ?_⟩
    have hcount : 0 < 2 * c.chunkCount size offset := by
      have := size.chunkElements_pos
      unfold UploadCall.chunkCount
      omega
    refine ⟨_, mem_chunkMoves.mpr ⟨0, hcount, rfl⟩, size.slotOf_stage _ ?_⟩
    exact size.slotBytes_pos
  · rw [hfault] at hno
    cases hno

theorem uploadFrom_left (faults : Nat → Option UploadFault) (u : Uploader size) (offset : Nat) :
    ∀ f, u.Settled f →
    (StraysFrom size c faults offset ∧
        Stray (uploadFrom u c faults offset).uploader (f.after (uploadFrom u c faults offset).acts)) ∨
      (¬ StraysFrom size c faults offset ∧
        (uploadFrom u c faults offset).uploader.Settled
          (f.after (uploadFrom u c faults offset).acts)) := by
  refine upload_induction (c := c) (motive := fun u offset => ∀ f, u.Settled f →
    (StraysFrom size c faults offset ∧
        Stray (uploadFrom u c faults offset).uploader (f.after (uploadFrom u c faults offset).acts)) ∨
      (¬ StraysFrom size c faults offset ∧
        (uploadFrom u c faults offset).uploader.Settled (f.after (uploadFrom u c faults offset).acts)))
    (fun u offset hoff f h => ?_) (fun u offset hoff ih f h => ?_) u offset
  · rw [uploadFrom_end u c faults hoff]
    refine .inr ⟨?_, h⟩
    rintro ⟨k, hk, _⟩
    omega
  · rw [straysFrom_step hoff]
    have hthrown := uploadChunk_thrown u c (faults offset) offset
    rcases uploadFrom_eq u c faults hoff with ⟨hdone, hacts, hleft, _⟩ | ⟨hsome, heq⟩
    · rw [hdone, eq_comm, Option.or_eq_none_iff, Option.map_eq_none_iff] at hthrown
      rw [hacts, hleft, Flight.after_append]
      rcases ih _ _ (uploadChunk_next h hdone) with ⟨hstrays, hstray⟩ | ⟨hstrays, hsettled⟩
      · exact .inl ⟨⟨hthrown.1, .inr ⟨hthrown.2, hstrays⟩⟩, hstray⟩
      · refine .inr ⟨?_, hsettled⟩
        rintro ⟨_, ⟨text, hfault⟩ | ⟨_, hrest⟩⟩
        · rw [hthrown.2] at hfault
          cases hfault
        · exact hstrays hrest
    · rw [heq]
      by_cases hrecord : c.overflowFrom offset (c.chunkCount size offset) = none ∧
          ∃ text, faults offset = some (.eventRecord text)
      · obtain ⟨hover, text, hfault⟩ := hrecord
        exact .inl ⟨⟨hover, .inl ⟨text, hfault⟩⟩, uploadChunk_stray hoff hover hfault⟩
      · refine .inr ⟨?_, uploadChunk_settled h fun hover text hfault => hrecord ⟨hover, text, hfault⟩⟩
        rintro ⟨hover, hfault | ⟨hnone, _⟩⟩
        · exact hrecord ⟨hover, hfault⟩
        · rw [hover, hnone] at hthrown
          exact hsome (hnone ▸ hthrown)

theorem upload_unsupported {faults : Nat → Option UploadFault}
    (h : c.srcDtype ≠ .kBF16 ∧ c.srcDtype ≠ .kF16) :
    u.upload c faults = ⟨[], u, some c.unsupported⟩ := if_pos h

theorem upload_supported {faults : Nat → Option UploadFault}
    (h : ¬ (c.srcDtype ≠ .kBF16 ∧ c.srcDtype ≠ .kF16)) :
    u.upload c faults = uploadFrom u c faults 0 := if_neg h

/-- **An upload leaves a stray copy or a settled uploader.** -/
theorem upload_left (h : u.Settled f) (faults : Nat → Option UploadFault) :
    ((UploaderCall.upload c faults).Strays size ∧
        Stray (u.upload c faults).uploader (f.after (u.upload c faults).acts)) ∨
      (¬ (UploaderCall.upload c faults).Strays size ∧
        (u.upload c faults).uploader.Settled (f.after (u.upload c faults).acts)) := by
  by_cases hno : c.srcDtype ≠ .kBF16 ∧ c.srcDtype ≠ .kF16
  · rw [upload_unsupported hno]
    exact .inr ⟨fun ⟨hsupported, _⟩ => hsupported.elim hno.1 hno.2, h⟩
  · rw [upload_supported hno]
    rcases uploadFrom_left (c := c) faults u 0 f h with ⟨hstrays, hstray⟩ | ⟨hstrays, hsettled⟩
    · exact .inl ⟨⟨by_contra fun h => hno (not_or.mp h), hstrays⟩, hstray⟩
    · exact .inr ⟨fun h => hstrays h.2, hsettled⟩

/-! ## calls on a stray copy -/

theorem waitSlot_of_free {slot : Fin 2} (h : u.slotPending slot = false) :
    u.waitSlot slot = ([], u) := by
  unfold Uploader.waitSlot
  rw [if_neg (by rw [h]; decide)]

/-- the first store of a chunk -/
theorem fillStage_first {stage n : Nat} (hn : 0 < n)
    (h : c.srcDtype ≠ .kBF16 ∨ bf16OverflowsFp16 (elementAt c.src offset) = false) :
    ∃ v, Act.write stage v ∈ (fillStage c stage offset n).1 := by
  obtain ⟨n, rfl⟩ := Nat.exists_eq_succ_of_ne_zero (Nat.ne_of_gt hn)
  unfold fillStage
  by_cases hb : c.srcDtype = .kBF16
  · have hfirst := h.resolve_left fun hne => hne hb
    rw [if_pos hb]
    unfold convertBf16ToFp16
    simp only [elementAt_shift, Nat.add_zero, hfirst, Bool.false_eq_true, if_false]
    exact ⟨_, List.mem_cons_self⟩
  · rw [if_neg hb]
    exact ⟨_, List.mem_map.mpr ⟨0, List.mem_range.mpr (by omega), rfl⟩⟩

theorem uploadFrom_prefix (u : Uploader size) (c : UploadCall) (faults : Nat → Option UploadFault)
    (hoff : offset < c.count) : ∃ rest, (uploadFrom u c faults offset).acts
      = (chunkFill u c offset).1 ++ rest := by
  have hchunk : ∃ rest, (uploadChunk u c (faults offset) offset).acts
      = (chunkFill u c offset).1 ++ rest := by
    rcases uploadChunk_cases u c (faults offset) offset with ⟨hacts, _⟩ | ⟨hacts, _⟩ | ⟨hacts, _⟩
    · exact ⟨[], by rw [hacts, List.append_nil]⟩
    · exact ⟨_, hacts⟩
    · exact ⟨_, by rw [hacts, List.append_assoc]⟩
  obtain ⟨rest, hrest⟩ := hchunk
  rcases uploadFrom_eq u c faults hoff with ⟨_, hacts, _⟩ | ⟨_, heq⟩
  · exact ⟨_, by rw [hacts, hrest, List.append_assoc]⟩
  · exact ⟨rest, by rw [heq, hrest]⟩

/-- an upload that stores into the slot of a stray copy -/
theorem upload_harms (h : Stray u f) {faults : Nat → Option UploadFault}
    (htouches : (UploaderCall.upload c faults).Touches) :
    ¬ SafeActs size.slotOf f (u.upload c faults).acts := by
  obtain ⟨hfree, copy, hcopy, _, m, hm, hslot⟩ := h
  obtain ⟨hcount, hdtype⟩ := htouches
  have hsupported : ¬ (c.srcDtype ≠ .kBF16 ∧ c.srcDtype ≠ .kF16) := fun hno =>
    hdtype.elim hno.2 fun hb => hno.1 hb.1
  rw [upload_supported hsupported]
  intro hsafe
  obtain ⟨rest, hrest⟩ := uploadFrom_prefix u c faults hcount
  rw [hrest] at hsafe
  have hfill := ((safeActs_append _ _ _).mp hsafe).1
  have hacts : (chunkFill u c 0).1
      = (fillStage c (size.stage u.nextSlot 0) 0 (c.chunkCount size 0)).1 := by
    show (u.waitSlot u.nextSlot).1 ++ _ = _
    rw [waitSlot_of_free hfree, List.nil_append]
  rw [hacts] at hfill
  obtain ⟨v, hv⟩ : ∃ v, Act.write (size.stage u.nextSlot 0) v ∈
      (fillStage c (size.stage u.nextSlot 0) 0 (c.chunkCount size 0)).1 := by
    refine fillStage_first ?_ ?_
    · have := size.chunkElements_pos
      unfold UploadCall.chunkCount
      omega
    · refine hdtype.imp (fun hf hb => ?_) And.right
      rw [hf] at hb
      cases hb
  refine hfill.of_write (chunkFill_writes u c 0) hv copy hcopy m hm ?_
  rw [hslot, size.slotOf_stage u.nextSlot size.slotBytes_pos]

/-- an upload that stores nothing leaves a stray copy as it is -/
theorem upload_spares (h : u.slotPending u.nextSlot = false) {faults : Nat → Option UploadFault}
    (htouches : ¬ (UploaderCall.upload c faults).Touches) :
    (u.upload c faults).acts = [] ∧ (u.upload c faults).uploader = u := by
  by_cases hno : c.srcDtype ≠ .kBF16 ∧ c.srcDtype ≠ .kF16
  · rw [upload_unsupported hno]
    exact ⟨rfl, rfl⟩
  rw [upload_supported hno]
  by_cases hcount : 0 < c.count
  · have hfirst : c.srcDtype = .kBF16 ∧ bf16OverflowsFp16 (elementAt c.src 0) = true := by
      by_contra hother
      refine htouches ⟨hcount, ?_⟩
      rw [not_and_or, not_not, not_not] at hno
      rcases hno with hb | hf
      · exact .inr ⟨hb, Bool.eq_false_iff.mpr fun hover => hother ⟨hb, hover⟩⟩
      · exact .inl hf
    have hpos : c.chunkCount size 0 = (c.chunkCount size 0 - 1) + 1 := by
      have := size.chunkElements_pos
      unfold UploadCall.chunkCount
      omega
    have hfilled : fillStage c (size.stage u.nextSlot 0) 0 (c.chunkCount size 0)
        = ([], some (.overflow c.tensorName (c.indexBase + 0 + 0) (elementAt c.src 0))) := by
      unfold fillStage
      rw [if_pos hfirst.1, hpos]
      unfold convertBf16ToFp16
      rw [elementAt_shift, Nat.add_zero, if_pos hfirst.2]
    have hchunk : uploadChunk u c (faults 0) 0
        = ⟨[], u, some (.overflow c.tensorName (c.indexBase + 0 + 0) (elementAt c.src 0))⟩ := by
      simp only [uploadChunk, hfilled, waitSlot_of_free h, List.append_nil]
    rcases uploadFrom_eq u c faults hcount with ⟨hdone, _⟩ | ⟨_, heq⟩
    · rw [hchunk] at hdone
      cases hdone
    · rw [heq, hchunk]
      exact ⟨rfl, rfl⟩
  · rw [uploadFrom_end u c faults hcount]
    exact ⟨rfl, rfl⟩

theorem synchronize_stray (h : Stray u f) : (f.after u.synchronize.acts).copies ≠ [] := by
  obtain ⟨_, copy, hcopy, hcovered, _⟩ := h
  exact List.ne_nil_of_mem ((mem_after_waits (synchronize_waits u)).mpr ⟨hcopy, fun e _ => hcovered e⟩)

/-- the waits of the destructor -/
def destroyWaits (u : Uploader size) : List StageAct :=
  (List.finRange 2).flatMap fun slot => if u.slotPending slot then [.wait slot] else []

theorem mem_destroyWaits {a : StageAct} : a ∈ destroyWaits u ↔ ∃ slot, u.slotPending slot = true ∧
    a = .wait slot := by
  unfold destroyWaits
  rw [List.mem_flatMap]
  refine exists_congr fun slot => ?_
  rw [and_iff_right (List.mem_finRange slot)]
  split
  · rw [List.mem_singleton, and_iff_right ‹_›]
  · exact iff_of_false List.not_mem_nil fun h => ‹¬ _› h.1

theorem destroyWaits_waits : ∀ a ∈ destroyWaits u, ∃ slot, a = .wait slot := fun _ ha => by
  obtain ⟨slot, _, heq⟩ := mem_destroyWaits.mp ha
  exact ⟨slot, heq⟩

theorem destroy_safe_iff : SafeActs size.slotOf f u.destroy.acts ↔
    (f.after (destroyWaits u)).copies = [] := by
  show SafeActs size.slotOf f (destroyWaits u ++ [.release]) ↔ _
  rw [safeActs_snoc, and_iff_right (safeActs_waits destroyWaits_waits f)]
  exact Iff.rfl

theorem destroy_settled (h : u.Settled f) : (f.after (destroyWaits u)).copies = [] := by
  rw [List.eq_nil_iff_forall_not_mem]
  intro copy hcopy
  obtain ⟨hcopy, hwaits⟩ := (mem_after_waits destroyWaits_waits).mp hcopy
  obtain ⟨slot, _, hcovered, hpending⟩ := h copy hcopy
  rw [hwaits slot (mem_destroyWaits.mpr ⟨slot, hpending, rfl⟩)] at hcovered
  cases hcovered

theorem destroy_stray (h : Stray u f) : (f.after (destroyWaits u)).copies ≠ [] := by
  obtain ⟨_, copy, hcopy, hcovered, _⟩ := h
  exact List.ne_nil_of_mem ((mem_after_waits destroyWaits_waits).mpr ⟨hcopy, fun e _ => hcovered e⟩)

/-! ## lists of calls -/

theorem synchronize_keeps (h : u.Settled f) :
    u.synchronize.uploader.Settled (f.after u.synchronize.acts) := by
  intro copy hcopy
  rw [synchronize_settled h] at hcopy
  cases hcopy

theorem destroy_keeps (h : u.Settled f) : u.destroy.uploader.Settled (f.after u.destroy.acts) := by
  intro copy hcopy
  have hempty : (f.after u.destroy.acts).copies = [] := by
    show (f.after (destroyWaits u ++ [.release])).copies = []
    rw [Flight.after_append]
    exact destroy_settled h
  rw [hempty] at hcopy
  cases hcopy

/-- from a settled uploader a call is safe -/
theorem call_safe (h : u.Settled f) (d : UploaderCall) : SafeActs size.slotOf f (u.call d).acts ∧
    (d = .synchronize → (f.after (u.call d).acts).copies = []) := by
  cases d with
  | upload c faults => exact ⟨upload_safe h faults, nofun⟩
  | synchronize => exact ⟨synchronize_safe u f, fun _ => synchronize_settled h⟩
  | destroy => exact ⟨destroy_safe_iff.mpr (destroy_settled h), nofun⟩

theorem call_left (h : u.Settled f) (d : UploaderCall) :
    (d.Strays size ∧ Stray (u.call d).uploader (f.after (u.call d).acts)) ∨
      (¬ d.Strays size ∧ (u.call d).uploader.Settled (f.after (u.call d).acts)) := by
  cases d with
  | upload c faults => exact upload_left h faults
  | synchronize => exact .inr ⟨nofun, synchronize_keeps h⟩
  | destroy => exact .inr ⟨nofun, destroy_keeps h⟩

/-- a call after a stray copy is safe only if it touches nothing -/
theorem call_stray (h : Stray u f) (d : UploaderCall) (hsafe : SafeActs size.slotOf f (u.call d).acts)
    (hsync : d = .synchronize → (f.after (u.call d).acts).copies = []) : ¬ d.Touches := by
  cases d with
  | upload c faults => exact fun htouches => upload_harms h htouches hsafe
  | synchronize => exact absurd (hsync rfl) (synchronize_stray h)
  | destroy => exact absurd (destroy_safe_iff.mp hsafe) (destroy_stray h)

theorem call_spares (h : u.slotPending u.nextSlot = false) {d : UploaderCall} (htouches : ¬ d.Touches) :
    (u.call d).acts = [] ∧ (u.call d).uploader = u ∧ d ≠ .synchronize := by
  cases d with
  | upload c faults =>
    obtain ⟨hacts, hleft⟩ := upload_spares h htouches
    exact ⟨hacts, hleft, nofun⟩
  | synchronize => exact absurd trivial htouches
  | destroy => exact absurd trivial htouches

theorem stray_calls (calls : List UploaderCall) (h : Stray u f) :
    SafeCalls u f calls ↔ ∀ d ∈ calls, ¬ d.Touches := by
  induction calls with
  | nil => exact iff_of_true trivial nofun
  | cons d calls ih =>
    rw [List.forall_mem_cons]
    constructor
    · rintro ⟨hsafe, hsync, hrest⟩
      have htouches := call_stray h d hsafe hsync
      obtain ⟨hacts, hleft, _⟩ := call_spares h.1 htouches
      rw [hacts, hleft] at hrest
      exact ⟨htouches, ih.mp hrest⟩
    · rintro ⟨htouches, hrest⟩
      obtain ⟨hacts, hleft, hne⟩ := call_spares h.1 htouches
      refine ⟨?_, fun heq => absurd heq hne, ?_⟩
      · rw [hacts]
        trivial
      · rw [hacts, hleft]
        exact ih.mpr hrest

theorem settled_calls (calls : List UploaderCall) :
    ∀ {u : Uploader size} {f : StageFlight}, u.Settled f →
    (SafeCalls u f calls ↔ calls.Pairwise fun c d => c.Strays size → ¬ d.Touches) := by
  induction calls with
  | nil => exact fun _ => iff_of_true trivial .nil
  | cons d calls ih =>
    intro u f h
    obtain ⟨hsafe, hsync⟩ := call_safe h d
    have hcall : SafeCalls u f (d :: calls) ↔
        SafeCalls (u.call d).uploader (f.after (u.call d).acts) calls :=
      ⟨fun h => h.2.2, fun h => ⟨hsafe, hsync, h⟩⟩
    rw [hcall, List.pairwise_cons]
    rcases call_left h d with ⟨hstrays, hstray⟩ | ⟨hstrays, hsettled⟩
    · rw [stray_calls calls hstray]
      refine ⟨fun hall => ⟨fun d' hd' _ => hall d' hd', ?_⟩, fun h d' hd' => h.1 d' hd' hstrays⟩
      exact List.pairwise_of_forall_mem_list fun _ _ d' hd' _ => hall d' hd'
    · rw [ih hsettled]
      exact ⟨fun h => ⟨fun _ _ hs => absurd hs hstrays, h⟩, And.right⟩

end

/-- **When calls are safe**: no upload that leaves a copy without its event is followed by a call that stores
into the next slot, waits for all copies or frees the buffer. -/
theorem safe_calls_iff (size : StagingSize) (calls : List UploaderCall) :
    SafeCalls ({} : Uploader size) {} calls ↔ calls.Pairwise fun c d => c.Strays size → ¬ d.Touches :=
  settled_calls calls (settled_fresh {})

/-- the event of a one-element upload fails, and the uploader is destroyed -/
theorem unsafe_after_failed_record :
    ¬ ∀ (size : StagingSize) (calls : List UploaderCall), SafeCalls ({} : Uploader size) {} calls := by
  intro h
  let c : UploadCall := ⟨0, fun _ => 0, 1, .kF16, "w", 0, 0⟩
  have hcalls := h ⟨4096, by decide⟩ [.upload c fun _ => some (.eventRecord "unknown error"), .destroy]
  have hpair := (settled_calls _ (settled_fresh _)).mp hcalls
  refine (List.pairwise_cons.mp hpair).1 .destroy List.mem_cons_self ?_ trivial
  exact ⟨.inr rfl, 0, by decide, ⟨_, rfl⟩, nofun, nofun⟩

end
end Redline

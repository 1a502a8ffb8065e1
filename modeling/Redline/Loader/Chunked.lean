import Redline.Loader.Uploader

/-!
# Chunked upload

A sequence of uploads that CUDA grants, and `Synchronize` at its end, over every order in which the
copies run.

* `uploads_safe`, `uploads_settled`   no slot is rewritten under a copy, in any upload;
* `uploads_sends`                     every byte that is sent is a byte of the one-shot conversion;
* `chunked_upload`                    the destinations hold the conversions when `Synchronize` returns.
-/

namespace Redline
open AsyncCopy

/-- an upload whose CUDA calls succeed -/
def UploadCall.granted (c : UploadCall) : UploaderCall := .upload c fun _ => none

/-- an address in the destination of an upload -/
def UploadCall.Covers (c : UploadCall) (d : Nat) : Prop :=
  c.dstDevice ≤ d ∧ d < c.dstDevice + 2 * c.count

/-- how a granted upload ends: what the conversion of the whole source in one go would throw -/
structure UploadCall.Ends (c : UploadCall) (thrown : Option LoadError) : Prop where
  f16 : c.srcDtype = .kF16 → thrown = none
  bf16 : c.srcDtype = .kBF16 → (∀ i < c.count, bf16OverflowsFp16 (elementAt c.src i) = false) →
    thrown = none
  /-- the first element that overflows, its index offset by `index_base` -/
  overflow : c.srcDtype = .kBF16 → ∀ i < c.count, bf16OverflowsFp16 (elementAt c.src i) = true →
    (∀ k < i, bf16OverflowsFp16 (elementAt c.src k) = false) →
    thrown = some (.overflow c.tensorName (c.indexBase + i) (elementAt c.src i))
  unsupported : c.srcDtype ≠ .kBF16 → c.srcDtype ≠ .kF16 → thrown = some c.unsupported

/-! ## one upload -/

section
variable {size : StagingSize} {u : Uploader size} {f : StageFlight} {c : UploadCall}

theorem upload_safe (h : u.Settled f) (faults : Nat → Option UploadFault) :
    SafeActs size.slotOf f (u.upload c faults).acts := by
  unfold Uploader.upload
  split
  · trivial
  · exact uploadFrom_safe faults u 0 f h

theorem upload_stays (u : Uploader size) (c : UploadCall) (faults : Nat → Option UploadFault) :
    ∀ a ∈ (u.upload c faults).acts, Within size c a := by
  unfold Uploader.upload
  split
  · nofun
  · exact uploadFrom_within faults u 0

theorem upload_sends {P : Nat → UInt8 → Prop}
    (hP : ∀ j < 2 * c.count, P (c.dstDevice + j) (c.storedByte j))
    (u : Uploader size) (faults : Nat → Option UploadFault) (h : Nat → UInt8) :
    Sends P h (u.upload c faults).acts := by
  unfold Uploader.upload
  split
  · trivial
  · exact uploadFrom_sends hP faults u 0 h

theorem upload_targets {faults : Nat → Option UploadFault}
    (hdone : (u.upload c faults).thrown = none) {j : Nat}
    (hj : j < 2 * c.count) : Targets (c.dstDevice + j) (u.upload c faults).acts := by
  unfold Uploader.upload at *
  split at hdone
  · cases hdone
  · rw [if_neg ‹_›]
    exact uploadFrom_targets faults u 0 hdone j (Nat.zero_le j) hj

theorem upload_settled (h : u.Settled f) (faults : Nat → Option UploadFault)
    (hnone : ∀ offset, faults offset = none) :
    (u.upload c faults).uploader.Settled (f.after (u.upload c faults).acts) := by
  unfold Uploader.upload
  split
  · exact h
  · exact uploadFrom_settled faults hnone u 0 f h

theorem overflowFrom_none (hall : c.srcDtype = .kBF16 → ∀ i < c.count,
    bf16OverflowsFp16 (elementAt c.src i) = false) :
    c.overflowFrom 0 c.count = none := by
  unfold UploadCall.overflowFrom
  split
  · rw [Option.map_eq_none_iff, List.find?_eq_none]
    intro i hi
    rw [hall ‹_› i (by rw [List.mem_range'_1] at hi; omega)]
    decide
  · rfl

theorem upload_ends (u : Uploader size) (c : UploadCall) {faults : Nat → Option UploadFault}
    (hnone : ∀ offset, faults offset = none) : c.Ends (u.upload c faults).thrown := by
  have hsupported : c.srcDtype = .kBF16 ∨ c.srcDtype = .kF16 →
      (u.upload c faults).thrown = c.overflowFrom 0 c.count := by
    intro h
    unfold Uploader.upload
    rw [if_neg (by rintro ⟨hb, hf⟩; exact h.elim hb hf)]
    exact uploadFrom_thrown faults hnone u 0
  constructor
  · intro hf
    rw [hsupported (.inr hf)]
    exact overflowFrom_none fun hb => by rw [hf] at hb; cases hb
  · intro hb hall
    rw [hsupported (.inl hb)]
    exact overflowFrom_none fun _ => hall
  · intro hb i hi hover hfirst
    rw [hsupported (.inl hb)]
    have hfind : (List.range' 0 c.count).find? (fun i => bf16OverflowsFp16 (elementAt c.src i))
        = some i := by
      rw [List.find?_range'_eq_some]
      refine ⟨hover, ?_, fun k _ hk => by rw [hfirst k hk]; rfl⟩
      rw [List.mem_range'_1]
      omega
    unfold UploadCall.overflowFrom
    rw [if_pos hb, hfind, Option.map_some]
  · intro hb hf
    unfold Uploader.upload
    rw [if_pos ⟨hb, hf⟩]

/-- after `Synchronize` nothing is in flight -/
theorem synchronize_settled (h : u.Settled f) : (f.after u.synchronize.acts).copies = [] := by
  unfold Uploader.synchronize
  rw [Flight.after_append, List.eq_nil_iff_forall_not_mem]
  intro copy hcopy
  obtain ⟨slot, hne, hguards⟩ := (h.waited 0).waitSlot 1 copy hcopy
  obtain rfl : slot = 0 := (Fin.exists_fin_two.mp ⟨slot, rfl⟩).resolve_right hne
  have hfree : ((u.waitSlot 0).2.waitSlot 1).2.slotPending 0 = false := by
    rw [(u.waitSlot 0).2.waitSlot_other (show (0 : Fin 2) ≠ 1 by decide)]
    exact u.waitSlot_free 0
  have hpending := hguards.2.2
  rw [hfree] at hpending
  cases hpending

theorem synchronize_safe (u : Uploader size) (f : StageFlight) :
    SafeActs size.slotOf f u.synchronize.acts :=
  (safeActs_append _ _ _).mpr ⟨u.waitSlot_safe f 0, (u.waitSlot 0).2.waitSlot_safe _ 1⟩

theorem waitSlot_sends (u : Uploader size) (slot : Fin 2) (P : Nat → UInt8 → Prop) (h : Nat → UInt8) :
    Sends P h (u.waitSlot slot).1 := by
  unfold Uploader.waitSlot
  split <;> trivial

theorem synchronize_sends (u : Uploader size) (P : Nat → UInt8 → Prop) (h : Nat → UInt8) :
    Sends P h u.synchronize.acts :=
  (sends_append _ _ _).mpr ⟨waitSlot_sends u 0 P h, waitSlot_sends _ 1 P _⟩

theorem synchronize_waits (u : Uploader size) : ∀ a ∈ u.synchronize.acts, ∃ slot, a = .wait slot := by
  have hwait : ∀ (v : Uploader size) slot, ∀ a ∈ (v.waitSlot slot).1, ∃ slot, a = .wait slot := by
    intro v slot a ha
    unfold Uploader.waitSlot at ha
    split at ha
    · exact ⟨slot, List.mem_singleton.mp ha⟩
    · cases ha
  exact List.forall_mem_append.mpr ⟨hwait u 0, hwait _ 1⟩

theorem stagedUploader_accepts {stagingBytes : Nat} (h : stagedUploader stagingBytes = .ok ⟨size, u⟩) :
    size.bytes = stagingBytes ∧ u = {} := by
  unfold stagedUploader at h
  split at h
  · cases h
  · split at h
    · cases h
    · cases h
      exact ⟨rfl, rfl⟩

/-! ## a sequence of uploads -/

/-- the acts of granted uploads and of the `Synchronize` that ends them -/
def Uploader.uploadAll (u : Uploader size) (uploads : List UploadCall) :
    List StageAct × List (Option LoadError) :=
  u.calls (uploads.map UploadCall.granted ++ [.synchronize])

theorem uploadAll_nil (u : Uploader size) : u.uploadAll [] = (u.synchronize.acts ++ [], [none]) := rfl

theorem uploadAll_cons (u : Uploader size) (c : UploadCall) (uploads : List UploadCall) :
    u.uploadAll (c :: uploads) =
      ((u.upload c fun _ => none).acts ++ ((u.upload c fun _ => none).uploader.uploadAll uploads).1,
        (u.upload c fun _ => none).thrown ::
          ((u.upload c fun _ => none).uploader.uploadAll uploads).2) := rfl

theorem uploads_safe (uploads : List UploadCall) :
    ∀ {u : Uploader size} {f : StageFlight}, u.Settled f →
    SafeActs size.slotOf f (u.uploadAll uploads).1 ∧ (f.after (u.uploadAll uploads).1).copies = [] := by
  induction uploads with
  | nil =>
    intro u f h
    rw [uploadAll_nil, List.append_nil]
    exact ⟨synchronize_safe u f, synchronize_settled h⟩
  | cons c uploads ih =>
    intro u f h
    obtain ⟨hsafe, hdone⟩ := ih (upload_settled (c := c) h (fun _ => none) fun _ => rfl)
    rw [uploadAll_cons, Flight.after_append]
    exact ⟨(safeActs_append _ _ _).mpr ⟨upload_safe h _, hsafe⟩, hdone⟩

theorem uploads_sends {P : Nat → UInt8 → Prop} (uploads : List UploadCall) :
    ∀ {u : Uploader size} {h : Nat → UInt8},
    (∀ c ∈ uploads, ∀ j < 2 * c.count, P (c.dstDevice + j) (c.storedByte j)) →
    Sends P h (u.uploadAll uploads).1 := by
  induction uploads with
  | nil =>
    intro u h _
    rw [uploadAll_nil, List.append_nil]
    exact synchronize_sends u P h
  | cons c uploads ih =>
    intro u h hP
    rw [List.forall_mem_cons] at hP
    exact (sends_append _ _ _).mpr ⟨upload_sends hP.1 u _ h, ih hP.2⟩

theorem uploads_ends (uploads : List UploadCall) : ∀ {u : Uploader size},
    ∃ ends, (u.uploadAll uploads).2 = ends ++ [none] ∧ List.Forall₂ UploadCall.Ends uploads ends := by
  induction uploads with
  | nil => exact ⟨[], rfl, .nil⟩
  | cons c uploads ih =>
    intro u
    obtain ⟨ends, heq, hall⟩ := ih (u := (u.upload c fun _ => none).uploader)
    refine ⟨_ :: ends, ?_, .cons (upload_ends u c fun _ => rfl) hall⟩
    rw [uploadAll_cons, heq]
    rfl

/-- a destination byte of an upload that returned is copied to -/
theorem uploads_targets {c : UploadCall} {j : Nat} (hj : j < 2 * c.count) (uploads : List UploadCall) :
    ∀ {u : Uploader size} {ends} {i : Nat}, (u.uploadAll uploads).2 = ends ++ [none] →
      uploads[i]? = some c →
    ends[i]? = some none → Targets (c.dstDevice + j) (u.uploadAll uploads).1 := by
  induction uploads with
  | nil => exact fun _ h => by cases h
  | cons c' uploads ih =>
    intro u ends i hends hc hi
    rw [uploadAll_cons] at hends ⊢
    cases ends with
    | nil => cases hi
    | cons first ends =>
      obtain ⟨hfirst, hends⟩ := List.cons.inj hends
      cases i with
      | zero =>
        obtain rfl : c' = c := Option.some.inj hc
        exact (upload_targets (hfirst.trans (Option.some.inj hi)) hj).append_left _
      | succ i => exact (ih hends hc hi).append_right

theorem uploads_within (uploads : List UploadCall) : ∀ {u : Uploader size},
    ∀ a ∈ (u.uploadAll uploads).1, (∀ cell v, a = .write cell v → cell < 2 * size.slotBytes) ∧
      ∀ stream moves, a = .copy stream moves → ∀ m ∈ moves, ∃ c ∈ uploads, c.Covers m.1 := by
  induction uploads with
  | nil =>
    intro u a ha
    rw [uploadAll_nil, List.append_nil] at ha
    obtain ⟨slot, rfl⟩ := synchronize_waits u a ha
    exact ⟨nofun, nofun⟩
  | cons c uploads ih =>
    intro u a ha
    rw [uploadAll_cons] at ha
    rcases List.mem_append.mp ha with ha | ha
    · have hwithin := upload_stays u c _ a ha
      refine ⟨fun cell v h => by subst h; exact hwithin, fun stream moves h m hm => ?_⟩
      subst h
      obtain ⟨j, hj, heq⟩ := hwithin m hm
      exact ⟨c, List.mem_cons_self, by rw [heq]; exact ⟨by omega, by omega⟩⟩
    · obtain ⟨hwrite, hcopy⟩ := ih a ha
      refine ⟨hwrite, fun stream moves h m hm => ?_⟩
      obtain ⟨c', hc', hcovers⟩ := hcopy stream moves h m hm
      exact ⟨c', List.mem_cons_of_mem _ hc', hcovers⟩

/-- **Chunked upload equals one-shot conversion.** -/
theorem chunked_upload {stagingBytes : Nat} (haccepted : stagedUploader stagingBytes = .ok ⟨size, u⟩)
    (uploads : List UploadCall) :
    -- how each call ends
    (∃ ends, (u.uploadAll uploads).2 = ends ++ [none] ∧ List.Forall₂ UploadCall.Ends uploads ends) ∧
    -- no slot is overwritten while a copy out of it may be pending; the slots are parts of the buffer
    SafeActs size.slotOf {} (u.uploadAll uploads).1 ∧ 2 * size.slotBytes ≤ stagingBytes ∧
    -- the copies can run
    (∀ s : State Nat Nat UInt8, s.pending = [] → ∃ t, Run s (u.uploadAll uploads).1 t) ∧
    -- however they run
    ∀ s t : State Nat Nat UInt8, s.pending = [] → Run s (u.uploadAll uploads).1 t →
      t.pending = [] ∧
      (∀ (i : Nat) (c : UploadCall),
        uploads[i]? = some c → (u.uploadAll uploads).2[i]? = some none → ∀ e < c.count,
        (∀ (k : Nat) (c' : UploadCall), uploads[k]? = some c' → k ≠ i →
          ¬ c'.Covers (c.dstDevice + 2 * e) ∧ ¬ c'.Covers (c.dstDevice + (2 * e + 1))) →
        halfAt t.device (c.dstDevice + 2 * e) = fp16Of c.srcDtype (elementAt c.src e)) ∧
      (∀ d, (∀ c ∈ uploads, ¬ c.Covers d) → t.device d = s.device d) ∧
      ∀ cell, 2 * size.slotBytes ≤ cell → t.host cell = s.host cell := by
  obtain ⟨rfl, _⟩ : size.bytes = stagingBytes ∧ u = {} := stagedUploader_accepts haccepted
  obtain ⟨hsafe, hdone⟩ := uploads_safe uploads (settled_fresh u)
  obtain ⟨ends, hends, hall⟩ := uploads_ends uploads (u := u)
  refine ⟨⟨ends, hends, hall⟩, hsafe, size.slots_le, fun s hs => ?_, fun s t hs hrun => ?_⟩
  · obtain ⟨t, hrun, _⟩ := exists_run s hs (u.uploadAll uploads).1
    exact ⟨t, hrun⟩
  · refine ⟨hrun.pending_nil hs hdone, fun i c hc hi e he hother => ?_, fun d hd => ?_,
      fun cell hcell => ?_⟩
    · have hbyte : ∀ j < 2 * c.count, (∀ (k : Nat) (c' : UploadCall), uploads[k]? = some c' →
          k ≠ i → ¬ c'.Covers (c.dstDevice + j)) → t.device (c.dstDevice + j) = c.storedByte j := by
        intro j hj hfree
        refine hrun.value hs hsafe (uploads_sends uploads fun c' hc' j' hj' heq => ?_)
          (uploads_targets hj uploads hends hc ?_) hdone
        · obtain ⟨k, hk⟩ := List.getElem?_of_mem hc'
          by_cases hki : k = i
          · subst hki
            obtain rfl : c' = c := Option.some.inj (hk.symm.trans hc)
            rw [Nat.add_left_cancel heq]
          · exact absurd ⟨by omega, by omega⟩ (hfree k c' hk hki)
        · have hlen : i < ends.length := by
            rw [← hall.length_eq]
            exact (List.getElem?_eq_some_iff.mp hc).1
          rwa [hends, List.getElem?_append_left hlen] at hi
      have hlo := hbyte (2 * e) (by omega) fun k c' hk hne => (hother k c' hk hne).1
      have hhi := hbyte (2 * e + 1) (by omega) fun k c' hk hne => (hother k c' hk hne).2
      unfold halfAt
      rw [hlo, Nat.add_assoc, hhi]
      unfold UploadCall.storedByte halfByte
      rw [if_pos (by omega), if_neg (by omega),
        show (2 * e) / 2 = e by omega, show (2 * e + 1) / 2 = e by omega]
      exact halfBytes_join _
    · refine (hrun.untouched hs fun htarget => ?_).1
      obtain ⟨stream, moves, hmem, k, hk⟩ := htarget
      obtain ⟨c, hc, hcovers⟩ := (uploads_within uploads _ hmem).2 stream moves rfl _ hk
      exact hd c hc hcovers
    · rw [hrun.host]
      refine hostAfter_of_not_written fun v hmem => ?_
      have := (uploads_within uploads _ hmem).1 cell v rfl
      omega

/-- BF16 elements `1.0` and `-1.0` in turn -/
def signedOnes (j : Nat) : UInt8 := if j % 2 = 0 then 0x80 else if j % 4 = 1 then 0x3F else 0xBF

theorem elementAt_signedOnes (e : Nat) :
    elementAt signedOnes e = if e % 2 = 0 then 0x3F80 else 0xBF80 := by
  unfold elementAt signedOnes
  rw [if_pos (by omega), if_neg (by omega)]
  by_cases he : e % 2 = 0
  · rw [if_pos he, if_pos (by omega)]
    decide
  · rw [if_neg he, if_neg (by omega)]
    decide

/-- FP16 elements `2.0` -/
def twos (j : Nat) : UInt8 := if j % 2 = 0 then 0 else 0x40

theorem elementAt_twos (e : Nat) : elementAt twos e = 0x4000 := by
  unfold elementAt twos
  rw [if_pos (by omega), if_neg (by omega)]
  decide

def onesUpload : UploadCall := ⟨0, signedOnes, 3000, .kBF16, "w", 0, 0⟩

/-- to the place behind those -/
def twosUpload : UploadCall := ⟨6000, twos, 1500, .kF16, "b", 0, 0⟩

/-- an odd staging size, so that a slot has room for 1024 elements: the first upload takes the slots 0, 1
and 0, and the second the slots 1 and 0 -/
theorem chunked_upload_slots :
    let size : StagingSize := ⟨4097, by decide⟩
    let s : State Nat Nat UInt8 := ⟨fun _ => 0, fun _ => 0, []⟩
    ∃ t, Run s ((({} : Uploader size).uploadAll [onesUpload, twosUpload]).1) t ∧ t.pending = [] ∧
      (∀ e < 3000, halfAt t.device (0 + 2 * e) = if e % 2 = 0 then 0x3C00 else 0xBC00) ∧
      (∀ e < 1500, halfAt t.device (6000 + 2 * e) = 0x4000) ∧ ∀ d, 9000 ≤ d → t.device d = 0 := by
  intro size s
  obtain ⟨⟨ends, hends, hall⟩, _, _, hexists, hrun⟩ :=
    @chunked_upload size {} 4097 rfl [onesUpload, twosUpload]
  obtain ⟨t, ht⟩ := hexists s rfl
  obtain ⟨hdone, hvalue, huntouched, _⟩ := hrun s t rfl ht
  obtain ⟨first, _, hfirst, hrest, rfl⟩ := List.forall₂_cons_left_iff.mp hall
  obtain ⟨second, _, hsecond, hnil, rfl⟩ := List.forall₂_cons_left_iff.mp hrest
  obtain rfl := List.forall₂_nil_left_iff.mp hnil
  have hones : ∀ e, bf16OverflowsFp16 (elementAt signedOnes e) = false := by
    intro e
    rw [elementAt_signedOnes]
    split <;> decide
  rw [hfirst.bf16 rfl fun e _ => hones e, hsecond.f16 rfl] at hends
  have hcall : ∀ k c', [onesUpload, twosUpload][k]? = some c' → k = 0 ∧ c' = onesUpload ∨ k = 1 ∧
      c' = twosUpload := by
    intro k c' hk
    cases k with
    | zero => exact .inl ⟨rfl, (Option.some.inj hk).symm⟩
    | succ k =>
      cases k with
      | zero => exact .inr ⟨rfl, (Option.some.inj hk).symm⟩
      | succ k => cases hk
  refine ⟨t, ht, hdone, fun e he => ?_, fun e he => ?_, fun d hd => huntouched d fun c hc => ?_⟩
  · refine (hvalue 0 onesUpload rfl (by rw [hends]; rfl) e he fun k c' hk hne => ?_).trans ?_
    · obtain ⟨rfl, _⟩ | ⟨_, rfl⟩ := hcall k c' hk
      · exact absurd rfl hne
      · have hbehind : ∀ d < 6000, ¬ twosUpload.Covers d :=
          fun d hd h => absurd h.1 (Nat.not_le_of_lt hd)
        exact ⟨hbehind _ (show 0 + 2 * e < 6000 by omega),
          hbehind _ (show 0 + (2 * e + 1) < 6000 by omega)⟩
    · show fp16Of .kBF16 (elementAt signedOnes e) = _
      rw [elementAt_signedOnes]
      split <;> decide
  · refine (hvalue 1 twosUpload rfl (by rw [hends]; rfl) e he fun k c' hk hne => ?_).trans ?_
    · obtain ⟨_, rfl⟩ | ⟨rfl, _⟩ := hcall k c' hk
      · have hbefore : ∀ d, 6000 ≤ d → ¬ onesUpload.Covers d :=
          fun d hd h => absurd h.2 (Nat.not_lt_of_le hd)
        exact ⟨hbefore _ (Nat.le_add_right 6000 _), hbefore _ (Nat.le_add_right 6000 _)⟩
      · exact absurd rfl hne
    · show fp16Of .kF16 (elementAt twos e) = _
      rw [elementAt_twos]
      decide
  · rcases List.mem_pair.mp hc with rfl | rfl
    · exact fun h => absurd h.2 (Nat.not_lt_of_le (show 6000 ≤ d by omega))
    · exact fun h => absurd h.2 (Nat.not_lt_of_le hd)

end
end Redline

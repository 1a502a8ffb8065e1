import Mathlib.Data.Nat.Cast.Order.Ring
import Redline.Sched.Blocks

/-!
# Admissions and prefill chunks

What the two loops of a prefill plan do, from a state with `Inv`:

* `admitLoop_spec`   ends, at a head that cannot be admitted; `Admissions T o s s' k` says that
                     the first `k` waiting requests moved to the prefill queue, in order;
* `coverChunk_spec`  the head of the prefill queue owns exactly the blocks of its chunk, and
                     nothing else changed (`ChunkCovered`).
-/

namespace Redline
open Prog Ledger

/-- the request after its admission -/
def admittedReq (o : SchedulerOptions) (q : Request) (slot : Int) : Request :=
  { q with reservedBlocks := promised o q, slot, state := .kPrefill }

namespace Scheduler

section
variable {T : Nat} {o : SchedulerOptions} {s : Scheduler}

/-! ## admission -/

/-- the head passes `CanAdmit`: its blocks can be promised -/
theorem canAdmit_reserve (h : Inv T o s) {q : Request} (hc : s.canAdmit q = true) :
    (s.reservationFor q : Int) ≤ s.allocator.freeBlocks - s.allocator.reserved := by
  unfold canAdmit at hc
  unfold reservationFor
  cases hp : s.options.admissionPolicy with
  | kReserveFull =>
    rw [hp] at hc
    simpa [BlockAllocator.canReserve] using hc
  | kWatermark =>
    rw [hp] at hc
    have hfl : 0 ≤ s.floor := by
      unfold floor
      rw [h.options]
      exact mul_nonneg h.tuned.fraction_nonneg (Nat.cast_nonneg _)
    have h1 := hfl.trans (of_decide_eq_true hc)
    have h2 : (0 : Int) ≤ (s.allocator.freeBlocks - s.allocator.reserved) - promptBlocks q := by
      exact_mod_cast h1
    show (promptBlocks q : Int) ≤ _
    omega

theorem admitHead_spec (h : Inv T o s) (ha : s.admitsHead = true) :
    ∃ r w slot fs al, s.waiting = r :: w ∧ s.freeSlots = slot :: fs ∧
      s.admitHead = some { s with
        heap := Function.update s.heap r (admittedReq o (s.heap r) slot)
        allocator := al
        waiting := w
        freeSlots := fs
        prefillQueue := s.prefillQueue ++ [r] } ∧
      Inv T o { s with
        heap := Function.update s.heap r (admittedReq o (s.heap r) slot)
        allocator := al
        waiting := w
        freeSlots := fs
        prefillQueue := s.prefillQueue ++ [r] } := by
  unfold admitsHead at ha
  cases hw : s.waiting with
  | nil => rw [hw] at ha; cases ha
  | cons r w =>
    rw [hw] at ha
    simp only [Bool.and_eq_true, decide_eq_true_eq] at ha
    obtain ⟨hroom, hcan⟩ := ha
    have hcount := h.count
    have hadm : s.admitted.length = s.numRunning := by
      unfold admitted numRunning; rw [List.length_append]; omega
    rw [h.options] at hroom
    cases hf : s.freeSlots with
    | nil => rw [hf, List.length_nil] at hcount; omega
    | cons slot fs =>
      have hwr := h.waiting r (by rw [hw]; exact List.mem_cons_self)
      have hv := h.valid r (h.lt_nextPtr (Or.inl (by rw [hw]; exact List.mem_cons_self)))
      have hres := canAdmit_reserve h hcan
      have hpro : s.reservationFor (s.heap r) = promised o (s.heap r) := by
        unfold reservationFor promised
        cases hp : o.admissionPolicy <;> simp only [h.options, hp]
      rw [hpro] at hres
      obtain ⟨h1, hi⟩ := BlockAllocator.reserve_spec h.alloc (Int.natCast_nonneg _) hres
      have hvq : Valid s.allocator.usableBlocks o (admittedReq o (s.heap r) slot) :=
        ⟨hv.prompt_pos, hv.maxNew_pos, hv.fits_seq, hv.fits_pool⟩
      have hslot : 0 ≤ slot := by
        have hm : slot ∈ (s.freeSlots : Multiset Int) + s.slotsHeld s.admitted := by
          rw [hf]; exact Multiset.mem_add.mpr (Or.inl List.mem_cons_self)
        rw [h.slots, Multiset.mem_coe] at hm
        obtain ⟨n, _, rfl⟩ := List.mem_map.mp hm
        exact Int.natCast_nonneg n
      have hnum : (s.heap r).blockTable.numBlocks = 0 := by
        unfold BlockTable.numBlocks; rw [hwr.blocks]; rfl
      have hq : PrefillReq o (admittedReq o (s.heap r) slot) := by
        refine ⟨rfl, hwr.reason, hwr.outputs, hslot, ?_, ?_, ?_, ?_⟩
        · show (s.heap r).prefillProgress < (s.heap r).numPromptTokens
          rw [hwr.progress]; exact hv.prompt_pos
        · show blocksForTokens (s.heap r).prefillProgress ≤ _
          rw [hwr.progress, blocksForTokens_zero]; exact Nat.zero_le _
        · show (s.heap r).blockTable.numBlocks ≤ _
          rw [hnum]; exact Nat.zero_le _
        · show (promised o (s.heap r) : Int) = promised o (s.heap r) - (s.heap r).blockTable.numBlocks
          rw [hnum]; simp
      refine ⟨r, w, slot, fs, _, rfl, rfl, ?_,
        Inv.admitted_head (A := { s.allocator with
          reserved := s.allocator.reserved + promised o (s.heap r) })
          h hw hf hq rfl hwr.blocks hvq rfl hi rfl⟩
      unfold admitHead
      rw [hw, hf]
      simp only [hpro, h1, Option.bind_eq_bind, Option.bind_some]
      rfl

/-- what the admissions of one step change -/
structure Admissions (T : Nat) (o : SchedulerOptions) (s s' : Scheduler) (k : Nat) : Prop where
  inv : Inv T o s'
  waiting : s'.waiting = s.waiting.drop k
  prefill : s'.prefillQueue = s.prefillQueue ++ s.waiting.take k
  count : k ≤ s.waiting.length
  running : s'.running = s.running
  nextPtr : s'.nextPtr = s.nextPtr
  taken : ∀ x ∈ s.waiting.take k, ∃ slot, s'.heap x = admittedReq o (s.heap x) slot
  frame : ∀ x, x ∉ s.waiting.take k → s'.heap x = s.heap x
  /-- nothing admitted, nothing changed -/
  idle : k = 0 → s' = s
  head : 0 < k → s.admitsHead = true

theorem Admissions.refl (h : Inv T o s) : Admissions T o s s 0 where
  inv := h
  waiting := rfl
  prefill := by simp
  count := Nat.zero_le _
  running := rfl
  nextPtr := rfl
  taken := by simp
  frame := fun _ _ => rfl
  idle := fun _ => rfl
  head := fun h0 => absurd h0 (Nat.lt_irrefl 0)

/-- an empty prefill queue: nothing was admitted -/
theorem Admissions.idle_of_nil {s1 : Scheduler} {k : Nat} (hA : Admissions T o s s1 k)
    (hq : s1.prefillQueue = []) : s1 = s := by
  apply hA.idle
  have hp := hA.prefill
  rw [hq] at hp
  have := congrArg List.length (List.append_eq_nil_iff.mp hp.symm).2
  rw [List.length_take, List.length_nil] at this
  have := hA.count
  omega

theorem Admissions.step {s1 : Scheduler} {k : Nat} (h : Inv T o s) (hA : Admissions T o s s1 k)
    (ha : s1.admitsHead = true) :
    ∃ s2, s1.admitHead = some s2 ∧ Admissions T o s s2 (k + 1) ∧
      s2.waiting.length < s1.waiting.length := by
  obtain ⟨r, w, slot, fs, al, hw, hf, hadm, hi⟩ := admitHead_spec hA.inv ha
  have hwd : s.waiting.drop k = r :: w := hA.waiting.symm.trans hw
  have hk : k < s.waiting.length := by
    by_contra hc
    rw [List.drop_eq_nil_of_le (by omega)] at hwd
    cases hwd
  have hget : s.waiting[k] = r := by
    have := List.drop_eq_getElem_cons hk
    rw [hwd, List.cons.injEq] at this
    exact this.1.symm
  have htake : s.waiting.take (k + 1) = s.waiting.take k ++ [r] := by
    rw [List.take_add_one, List.getElem?_eq_getElem hk, hget]; rfl
  have hnodup : s.waiting.Nodup := by
    obtain ⟨m, _, hm, _⟩ := h.arrival
    rw [hm]; exact List.nodup_range' ..
  have hnew : r ∉ s.waiting.take k := by
    have hs : s.waiting = s.waiting.take k ++ r :: w := by rw [← hwd, List.take_append_drop]
    rw [hs, List.nodup_append] at hnodup
    exact fun hm => hnodup.2.2 r hm r List.mem_cons_self rfl
  refine ⟨_, hadm, ⟨hi, ?_, ?_, by omega, hA.running, hA.nextPtr, ?_, ?_,
    fun h0 => absurd h0 (Nat.succ_ne_zero k), fun _ => ?_⟩, ?_⟩
  · show w = s.waiting.drop (k + 1)
    rw [← List.drop_drop, hwd]; rfl
  · show s1.prefillQueue ++ [r] = _
    rw [hA.prefill, htake, List.append_assoc]
  · intro x hx
    rw [htake, List.mem_append, List.mem_singleton] at hx
    show ∃ sl, Function.update s1.heap r _ x = _
    by_cases hxr : x = r
    · subst hxr
      refine ⟨slot, ?_⟩
      rw [Function.update_self, hA.frame x hnew]
    · rw [Function.update_of_ne hxr]
      exact hA.taken x (hx.resolve_right hxr)
  · intro x hx
    rw [htake, List.mem_append, List.mem_singleton, not_or] at hx
    show Function.update s1.heap r _ x = _
    rw [Function.update_of_ne hx.2]
    exact hA.frame x hx.1
  · rcases Nat.eq_zero_or_pos k with h0 | h0
    · exact hA.idle h0 ▸ ha
    · exact hA.head h0
  · show w.length < s1.waiting.length
    rw [hw]; exact Nat.lt_succ_self _

/-- admission ends, at a head that cannot be admitted or at an empty queue -/
theorem admitLoop_spec (h : Inv T o s) :
    ∃ s' k, s.admitLoop = some s' ∧ Admissions T o s s' k ∧ s'.admitsHead = false := by
  obtain ⟨s', hl, ⟨k, hA⟩, hc⟩ := loop_total admitsHead admitHead
    (fun s' => ∃ k, Admissions T o s s' k) (fun s' => s'.waiting.length)
    (by
      rintro s1 ⟨k, hA⟩ ha
      obtain ⟨s2, h2, hA2, hlt⟩ := hA.step h ha
      exact ⟨s2, h2, ⟨k + 1, hA2⟩, hlt⟩)
    (s.waiting.length + 1) s ⟨0, Admissions.refl h⟩ (Nat.lt_succ_self _)
  exact ⟨s', k, hl, hA, hc⟩

/-! ## a prefill chunk -/

/-- the blocks of a chunk: only the head of the prefill queue changes, and it only grows -/
structure ChunkCovered (T : Nat) (o : SchedulerOptions) (s s' : Scheduler) (r : Nat) : Prop where
  inv : Inv T o s'
  waiting : s'.waiting = s.waiting
  prefill : s'.prefillQueue = s.prefillQueue
  running : s'.running = s.running
  nextPtr : s'.nextPtr = s.nextPtr
  grown : Grown (s.heap r) (s'.heap r)
  frame : ∀ x, x ≠ r → s'.heap x = s.heap x

theorem ChunkCovered.refl (h : Inv T o s) (r : Nat) : ChunkCovered T o s s r :=
  ⟨h, rfl, rfl, rfl, rfl, Grown.refl _, fun _ _ => rfl⟩

/-- one turn of the covering loop -/
theorem ChunkCovered.step {s1 : Scheduler} {r : Nat} {rest : List Nat}
    (hp : s.prefillQueue = r :: rest) (hC : ChunkCovered T o s s1 r)
    (hlt : (s1.heap r).blockTable.tokenCapacity < chunkEnd o (s.heap r)) :
    ∃ s2, s1.appendReserved r = some s2 ∧ ChunkCovered T o s s2 r ∧
      (s2.heap r).blockTable.numBlocks = (s1.heap r).blockTable.numBlocks + 1 := by
  have h1 := hC.inv
  have hq1 : s1.prefillQueue = r :: rest := hC.prefill.trans hp
  have e : s1.admitted = s1.running ++ r :: rest := by unfold admitted; rw [hq1]
  have hmem : r ∈ s1.prefillQueue := by rw [hq1]; exact List.mem_cons_self
  have hpre := h1.prefill r hmem
  have hv := h1.valid r (h1.lt_nextPtr (Or.inr (by rw [e]; simp)))
  have hce : chunkEnd o (s1.heap r) = chunkEnd o (s.heap r) := by
    obtain ⟨bs, n, hb⟩ := hC.grown
    rw [hb]; rfl
  rw [← hce, ← Nat.not_le, BlockTable.le_tokenCapacity, Nat.not_le] at hlt
  have hle := promptBlocks_le_promised (o := o) (q := s1.heap r)
  have hmono : blocksForTokens (chunkEnd o (s1.heap r)) ≤ promptBlocks (s1.heap r) :=
    blocksForTokens_mono chunkEnd_le_prompt
  have hpos : 0 < (s1.heap r).reservedBlocks := by rw [hpre.reserved]; omega
  obtain ⟨hr0, hr1⟩ := h1.reservedHeld_le e
  obtain ⟨b, al, hap, hi, ht, hr⟩ :=
    appendReserved_spec rfl (alloc_split h1 e) hpos (by omega)
  refine ⟨_, hap, ⟨?_, hC.waiting, hC.prefill, hC.running, hC.nextPtr, ?_, ?_⟩, ?_⟩
  · refine h1.exchange e rfl (fun x hx _ => hx) (fun x hx _ => hx) ?_ ?_ rfl
      ⟨hv.prompt_pos, hv.maxNew_pos, hv.fits_seq, hv.fits_pool⟩ ht hi ?_
    · intro hr2
      have hn := h1.nodup
      rw [e, List.nodup_append] at hn
      exact absurd rfl (hn.2.2 r hr2 r List.mem_cons_self)
    · intro _
      refine ⟨hpre.state, hpre.reason, hpre.outputs, hpre.slot, hpre.progress, ?_, ?_, ?_⟩
      · rw [BlockTable.append_numBlocks]; exact hpre.covers.trans (Nat.le_succ _)
      · rw [BlockTable.append_numBlocks]; exact hlt
      · show (s1.heap r).reservedBlocks - 1
          = (promised o (s1.heap r) : Int) - ((s1.heap r).blockTable.append b).numBlocks
        rw [BlockTable.append_numBlocks, hpre.reserved]; push_cast; omega
    · rw [hr]
      show s1.allocator.reserved - 1 = (s1.heap r).reservedBlocks - 1 + _
      omega
  · refine hC.grown.trans ?_
    show Grown (s1.heap r) (Function.update s1.heap r _ r)
    rw [Function.update_self]
    exact ⟨[b], _, rfl⟩
  · intro x hx
    show Function.update s1.heap r _ x = _
    rw [Function.update_of_ne hx]
    exact hC.frame x hx
  · show (Function.update s1.heap r _ r).blockTable.numBlocks = _
    rw [Function.update_self, BlockTable.append_numBlocks]

theorem coverChunk_spec (h : Inv T o s) {r : Nat} {rest : List Nat}
    (hp : s.prefillQueue = r :: rest) :
    ∃ s', s.coverChunk r (chunkEnd o (s.heap r)) = some s' ∧ ChunkCovered T o s s' r ∧
      (s'.heap r).blockTable.numBlocks = blocksForTokens (chunkEnd o (s.heap r)) := by
  obtain ⟨s', hl, hC, hc⟩ := loop_total
    (fun s' => decide ((s'.heap r).blockTable.tokenCapacity < chunkEnd o (s.heap r)))
    (appendReserved r)
    (fun s' => ChunkCovered T o s s' r)
    (fun s' => chunkEnd o (s.heap r) - (s'.heap r).blockTable.tokenCapacity)
    (by
      intro s1 hC hlt
      have hlt' := of_decide_eq_true hlt
      obtain ⟨s2, h2, hC2, hn⟩ := hC.step hp hlt'
      refine ⟨s2, h2, hC2, ?_⟩
      unfold BlockTable.tokenCapacity at hlt' ⊢
      rw [hn]
      unfold kKvBlockSize at hlt' ⊢
      omega)
    (chunkEnd o (s.heap r) + 1) s (ChunkCovered.refl h r) (by omega)
  refine ⟨s', hl, hC, ?_⟩
  have hc' := of_decide_eq_false hc
  rw [Nat.not_lt, BlockTable.le_tokenCapacity] at hc'
  have hw := (hC.inv.prefill r (by rw [hC.prefill, hp]; exact List.mem_cons_self)).within
  have hce : chunkEnd o (s'.heap r) = chunkEnd o (s.heap r) := by
    obtain ⟨bs, n, hb⟩ := hC.grown
    rw [hb]; rfl
  rw [hce] at hw
  omega

end
end Scheduler
end Redline

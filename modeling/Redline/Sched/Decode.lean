import Redline.Sched.Ensure

/-!
# Planning a decode batch

`planDecode_spec`: the loop over `running` ends; it cuts the running list into the decode rows
and, youngest first, the aborted sequences (`DecodePlan`).  Something is aborted exactly when more
rows stand at a block boundary than blocks are uncommitted (`aborts`, `serves`).

`DecodeInv s st` is the loop invariant: the running list of the start is the rows batched so far,
then the rows still to look at, then the victims in reverse order.
-/

namespace Redline
open Prog Ledger

theorem RunningReq.boundary {o : SchedulerOptions} {q : Request} (h : RunningReq o q) :
    Scheduler.needsBlock q ↔ q.blockTable.tokenCapacity + 1 = q.seqLen := by
  have hc := (BlockTable.le_tokenCapacity _ _).mpr h.covers
  have hp := h.seqLen_pos
  unfold Scheduler.needsBlock
  omega

/-- a running request owns the blocks of its positions, but for the next one at a boundary -/
theorem RunningReq.blocks_eq {o : SchedulerOptions} {q : Request} (h : RunningReq o q) :
    blocksForTokens q.seqLen
      = q.blockTable.numBlocks + (if Scheduler.needsBlock q then 1 else 0) := by
  have hb := h.boundary
  have hw := h.within
  by_cases hn : Scheduler.needsBlock q
  · rw [if_pos hn]
    have hf := hb.mp hn
    have h1 : ¬ blocksForTokens q.seqLen ≤ q.blockTable.numBlocks := by
      rw [← BlockTable.le_tokenCapacity]; omega
    have h2 : blocksForTokens q.seqLen ≤ q.blockTable.numBlocks + 1 := by
      rw [blocksForTokens_le]
      unfold BlockTable.tokenCapacity kKvBlockSize at hf
      unfold kKvBlockSize
      omega
    omega
  · rw [if_neg hn]
    have h1 : blocksForTokens q.seqLen ≤ q.blockTable.numBlocks := by
      rw [← BlockTable.le_tokenCapacity]
      unfold Scheduler.needsBlock at hn
      omega
    omega

/-- a batched row: it only grew, and its blocks cover its next position and no more -/
def Batched (q q' : Request) : Prop :=
  Grown q q' ∧ q'.blockTable.numBlocks = blocksForTokens q.seqLen

namespace Scheduler

/-- the rows among `l` that stand at a block boundary -/
def boundary (s : Scheduler) (l : List Nat) : Nat := l.countP fun r => decide (needsBlock (s.heap r))

section
variable {T : Nat} {o : SchedulerOptions} {s : Scheduler}

structure DecodeInv (T : Nat) (o : SchedulerOptions) (s : Scheduler) (st : DecodeLoop) : Prop where
  inv : Inv T o st.sched
  index : st.i = st.plan.decode.length
  shape : st.plan = { decode := st.plan.decode, aborted := st.plan.aborted }
  waiting : st.sched.waiting = s.waiting
  prefill : st.sched.prefillQueue = s.prefillQueue
  nextPtr : st.sched.nextPtr = s.nextPtr
  ahead : ∃ rest, st.sched.running = st.plan.decode ++ rest
  cut : s.running = st.sched.running ++ st.plan.aborted.reverse
  rows : ∀ r ∈ st.plan.decode, Batched (s.heap r) (st.sched.heap r)
  evictions : ∀ r ∈ st.plan.aborted, st.sched.heap r = evicted (s.heap r)
  frame : ∀ r, r ∉ st.plan.decode → r ∉ st.plan.aborted → st.sched.heap r = s.heap r
  aborts : st.plan.aborted ≠ [] → o.admissionPolicy = .kWatermark ∧
    s.uncommitted < s.boundary s.running

theorem DecodeInv.init (h : Inv T o s) : DecodeInv T o s { i := 0, plan := {}, sched := s } where
  inv := h
  index := rfl
  shape := rfl
  waiting := rfl
  prefill := rfl
  nextPtr := rfl
  ahead := ⟨s.running, rfl⟩
  cut := (List.append_nil _).symm
  rows := fun _ hr => absurd hr List.not_mem_nil
  evictions := fun _ hr => absurd hr List.not_mem_nil
  frame := fun _ _ _ => rfl
  aborts := fun hne => absurd rfl hne

/-- what the batched rows cost under the watermark policy: a block for each at a boundary -/
theorem batched_cost (h : Inv T o s) (hp : o.admissionPolicy = .kWatermark) {s' : Scheduler}
    (h' : Inv T o s') : ∀ l : List Nat, (∀ r ∈ l, r ∈ s.running ∧ r ∈ s'.running) →
      (∀ r ∈ l, Batched (s.heap r) (s'.heap r)) →
      held commitment s'.heap l = held commitment s.heap l + s.boundary l := by
  intro l
  induction l with
  | nil => intro _ _; rfl
  | cons r l ih =>
    intro hm hB
    have hih := ih (fun x hx => hm x (List.mem_cons_of_mem _ hx))
      (fun x hx => hB x (List.mem_cons_of_mem _ hx))
    have hg : ∀ q : Request, growthLeft o q = 0 := by
      intro q; unfold growthLeft; rw [hp]
    have hr := h.running r (hm r List.mem_cons_self).1
    have hr' := h'.running r (hm r List.mem_cons_self).2
    have h1 : (s.heap r).reservedBlocks = 0 := by rw [hr.reserved, hg]
    have h2 : (s'.heap r).reservedBlocks = 0 := by rw [hr'.reserved, hg]
    have h3 := (hB r List.mem_cons_self).2
    rw [hr.blocks_eq] at h3
    unfold boundary at hih ⊢
    rw [held_cons, held_cons, hih, List.countP_cons]
    unfold commitment
    rw [h1, h2, h3]
    by_cases hn : needsBlock (s.heap r)
    · simp only [hn, decide_true, if_true]; push_cast; omega
    · simp only [hn, decide_false, if_false, Bool.false_eq_true]; push_cast; omega

/-- while nothing is aborted, what is uncommitted pays for the batched rows -/
theorem DecodeInv.spent {st : DecodeLoop} (h : Inv T o s) (hD : DecodeInv T o s st)
    (hp : o.admissionPolicy = .kWatermark) (ha : st.plan.aborted = []) :
    s.uncommitted = st.sched.uncommitted + s.boundary st.plan.decode := by
  obtain ⟨rest, hrest⟩ := hD.ahead
  have hrun : s.running = st.plan.decode ++ rest := by
    rw [hD.cut, ha, List.reverse_nil, List.append_nil, hrest]
  have hadm : s.admitted = st.plan.decode ++ (rest ++ s.prefillQueue) := by
    unfold admitted; rw [hrun, List.append_assoc]
  have hadm' : st.sched.admitted = st.plan.decode ++ (rest ++ s.prefillQueue) := by
    unfold admitted; rw [hrest, hD.prefill, List.append_assoc]
  have hcost := batched_cost h hp hD.inv st.plan.decode
    (fun r hr => by rw [hrun, hrest]; exact ⟨List.mem_append_left _ hr, List.mem_append_left _ hr⟩)
    hD.rows
  have hsame : held commitment st.sched.heap (rest ++ s.prefillQueue)
      = held commitment s.heap (rest ++ s.prefillQueue) := by
    apply held_congr
    intro r hr
    have hn := h.nodup
    rw [hadm, List.nodup_append] at hn
    rw [hD.frame r (fun hd => hn.2.2 r hd r hr rfl) (by rw [ha]; exact List.not_mem_nil)]
  have h1 := h.uncommitted_add
  have h2 := hD.inv.uncommitted_add
  rw [hadm, held_append] at h1
  rw [hadm', held_append, hcost, hsame] at h2
  have hu : st.sched.allocator.usableBlocks = s.allocator.usableBlocks := by
    unfold BlockAllocator.usableBlocks; rw [hD.inv.total, h.total]
  omega

/-- the first abort: more rows stand at a boundary than there are blocks -/
theorem DecodeInv.first_abort {st : DecodeLoop} {r : Nat} {rest : List Nat} (h : Inv T o s)
    (hD : DecodeInv T o s st) (hp : o.admissionPolicy = .kWatermark)
    (hc : st.sched.allocator.canReserve 1 = false) (hR : st.sched.running = st.plan.decode ++ r :: rest)
    (hn : needsBlock (st.sched.heap r)) (ha : st.plan.aborted = []) :
    s.uncommitted < s.boundary s.running := by
  have hspent := hD.spent h hp ha
  have hrun : s.running = st.plan.decode ++ r :: rest := by
    rw [hD.cut, ha, List.reverse_nil, List.append_nil, hR]
  have hr : r ∉ st.plan.decode := by
    have hnd := (List.nodup_append.mp h.nodup).1
    rw [hrun, List.nodup_append] at hnd
    exact fun hm => hnd.2.2 r hm r List.mem_cons_self rfl
  rw [hD.frame r hr (by rw [ha]; exact List.not_mem_nil)] at hn
  have hc' : ¬ (1 : Int) ≤ st.sched.uncommitted := of_decide_eq_false hc
  have hb : s.boundary s.running = s.boundary st.plan.decode + (s.boundary rest + 1) := by
    unfold boundary
    rw [hrun, List.countP_append, List.countP_cons]
    simp only [hn, decide_true, if_true]
  omega

/-- a row with room for its next position is batched as it is -/
theorem DecodeInv.push {st : DecodeLoop} {r : Nat} {rest : List Nat} (h : Inv T o s)
    (hD : DecodeInv T o s st) (hR : st.sched.running = st.plan.decode ++ r :: rest)
    (hn : ¬ needsBlock (st.sched.heap r)) :
    DecodeInv T o s { st with
      i := st.i + 1
      plan := { st.plan with decode := st.plan.decode ++ [r] } } := by
  have hmem : r ∈ st.sched.running := by rw [hR]; simp
  have hnd := (List.nodup_append.mp h.nodup).1
  rw [hD.cut, hR, List.nodup_append, List.nodup_append] at hnd
  have hr : r ∉ st.plan.decode := fun hm => hnd.1.2.2 r hm r List.mem_cons_self rfl
  have hra : r ∉ st.plan.aborted :=
    fun hm => hnd.2.2 r (by simp) r (List.mem_reverse.mpr hm) rfl
  have hsame := hD.frame r hr hra
  have hrow : Batched (s.heap r) (st.sched.heap r) := by
    have hb := (hD.inv.running r hmem).blocks_eq
    rw [if_neg hn] at hb
    rw [hsame] at hb ⊢
    exact ⟨Grown.refl _, hb.symm⟩
  refine ⟨hD.inv, ?_, ?_, hD.waiting, hD.prefill, hD.nextPtr, ⟨rest, ?_⟩, hD.cut, ?_,
    hD.evictions, ?_, hD.aborts⟩
  · show st.i + 1 = (st.plan.decode ++ [r]).length
    rw [List.length_append, hD.index]; rfl
  · show { st.plan with decode := st.plan.decode ++ [r] } = _
    rw [hD.shape]
  · show st.sched.running = (st.plan.decode ++ [r]) ++ rest
    rw [hR, List.append_assoc]; rfl
  · intro x hx
    rcases List.mem_append.mp hx with hx | hx
    · exact hD.rows x hx
    · rw [List.mem_singleton.mp hx]; exact hrow
  · intro x hx hxa
    exact hD.frame x (fun hm => hx (List.mem_append_left _ hm)) hxa

/-- a row at a boundary is batched with its new block, or it leaves the running list -/
theorem DecodeInv.ensured {st : DecodeLoop} {r : Nat} {rest ab : List Nat} {covered : Bool}
    {s' : Scheduler} (h : Inv T o s) (hD : DecodeInv T o s st)
    (hR : st.sched.running = st.plan.decode ++ r :: rest) (hn : needsBlock (st.sched.heap r))
    (hE : Ensured T o st.sched st.plan.decode r covered ab s') :
    DecodeInv T o s { i := if covered then st.i + 1 else st.i
                      plan := { st.plan with
                        decode := if covered then st.plan.decode ++ [r] else st.plan.decode
                        aborted := st.plan.aborted ++ ab }
                      sched := s' } := by
  have hmem : r ∈ st.sched.running := by rw [hR]; simp
  have hnd := (List.nodup_append.mp h.nodup).1
  rw [hD.cut, List.nodup_append] at hnd
  have hnd1 := hnd.1
  rw [hR, List.nodup_append] at hnd1
  have hr : r ∉ st.plan.decode := fun hm => hnd1.2.2 r hm r List.mem_cons_self rfl
  have hold : ∀ x ∈ st.plan.aborted, x ∉ st.sched.running :=
    fun x hx hm => hnd.2.2 x hm x (List.mem_reverse.mpr hx) rfl
  have hab : ∀ x ∈ ab, x ∈ st.sched.running := by
    intro x hx
    rw [hE.running]; exact List.mem_append_right _ hx
  have hdec : ∀ x ∈ st.plan.decode, x ∉ ab := by
    intro x hx hxa
    have hnd2 := hnd.1
    rw [hE.running, List.nodup_append] at hnd2
    refine hnd2.2.2 x ?_ x hxa rfl
    cases covered with
    | true =>
      obtain ⟨post, hp⟩ := (hE.grown rfl).1
      rw [hp]; exact List.mem_append_left _ hx
    | false => rw [(hE.victim rfl).1]; exact hx
  have hsame : st.sched.heap r = s.heap r := hD.frame r hr fun hm => hold r hm hmem
  refine ⟨hE.inv, ?_, ?_, hE.waiting.trans hD.waiting, hE.prefill.trans hD.prefill,
    hE.nextPtr.trans hD.nextPtr, ?_, ?_, ?_, ?_, ?_, ?_⟩
  · cases covered with
    | true =>
      show st.i + 1 = (st.plan.decode ++ [r]).length
      rw [List.length_append, hD.index]; rfl
    | false => exact hD.index
  · show { st.plan with
      decode := if covered then st.plan.decode ++ [r] else st.plan.decode
      aborted := st.plan.aborted ++ ab } = _
    rw [hD.shape]
  · cases covered with
    | true =>
      obtain ⟨post, hp⟩ := (hE.grown rfl).1
      exact ⟨post, by show s'.running = (st.plan.decode ++ [r]) ++ post; rw [hp]; simp⟩
    | false => exact ⟨[], by rw [List.append_nil]; exact (hE.victim rfl).1⟩
  · show s.running = s'.running ++ (st.plan.aborted ++ ab).reverse
    have hrev : ab.reverse = ab := by
      have hone := hE.once
      match ab, hone with
      | [], _ => rfl
      | [_], _ => rfl
    rw [hD.cut, hE.running, List.reverse_append, hrev, List.append_assoc]
  · intro x hx
    have hx' : x ∈ if covered then st.plan.decode ++ [r] else st.plan.decode := hx
    have hkeep : x ∈ st.plan.decode → Batched (s.heap x) (s'.heap x) := by
      intro hm
      rw [hE.frame x (fun e => hr (e ▸ hm)) (hdec x hm)]
      exact hD.rows x hm
    cases covered with
    | false => exact hkeep hx'
    | true =>
      rcases List.mem_append.mp hx' with hm | hm
      · exact hkeep hm
      · rw [List.mem_singleton.mp hm]
        obtain ⟨_, hg, hb⟩ := hE.grown rfl
        have heq := (hD.inv.running r hmem).blocks_eq
        rw [if_pos hn] at heq
        rw [hsame] at hg hb heq
        exact ⟨hg, hb.trans heq.symm⟩
  · intro x hx
    rcases List.mem_append.mp hx with hm | hm
    · have hxr := hold x hm
      rw [← hD.evictions x hm]
      exact hE.frame x (fun e => hxr (e ▸ hmem)) (fun ha => hxr (hab x ha))
    · rw [← hD.frame x (fun hd => hdec x hd hm) (fun ha => hold x ha (hab x hm))]
      exact hE.evictions x hm
  · intro x hx hxa
    have hx' : x ∉ if covered then st.plan.decode ++ [r] else st.plan.decode := hx
    have hxa' : x ∉ st.plan.aborted ++ ab := hxa
    rw [List.mem_append, not_or] at hxa'
    have hne : x ≠ r ∧ x ∉ st.plan.decode := by
      cases covered with
      | true =>
        rw [if_pos rfl, List.mem_append, List.mem_singleton, not_or] at hx'
        exact ⟨hx'.2, hx'.1⟩
      | false =>
        refine ⟨fun e => hxa'.2 ?_, hx'⟩
        rw [(hE.victim rfl).2, e]; exact List.mem_singleton_self r
    exact (hE.frame x hne.1 hxa'.2).trans (hD.frame x hne.2 hxa'.1)
  · intro hne
    by_cases ha : st.plan.aborted = []
    · have hab' : ab ≠ [] := by
        intro e
        apply hne
        show st.plan.aborted ++ ab = []
        rw [ha, e]; rfl
      obtain ⟨hp, hc⟩ := hE.exhausted hab'
      exact ⟨hp, hD.first_abort h hp hc hR hn ha⟩
    · exact hD.aborts ha

/-- one turn of the loop over the running list -/
theorem DecodeInv.step {st : DecodeLoop} (h : Inv T o s) (hD : DecodeInv T o s st)
    (hc : decodeCond st = true) :
    ∃ st', decodeBody st = some st' ∧ DecodeInv T o s st' ∧
      st'.sched.running.length - st'.i < st.sched.running.length - st.i := by
  obtain ⟨hlt, _⟩ := of_decide_eq_true hc
  obtain ⟨rest0, hrest⟩ := hD.ahead
  rcases rest0 with _ | ⟨r, rest⟩
  · rw [hrest, List.append_nil, hD.index] at hlt
    exact absurd hlt (Nat.lt_irrefl _)
  · have hget : st.sched.running[st.i]? = some r := by rw [hrest, hD.index]; simp
    by_cases hn : needsBlock (st.sched.heap r)
    · have hrun := hD.inv.running r (by rw [hrest]; simp)
      have hfull := hrun.boundary.mp hn
      have hpos := hrun.seqLen_pos
      have hck : ((st.sched.heap r).seqLen : Int) - 1 = (st.sched.heap r).blockTable.tokenCapacity := by
        omega
      obtain ⟨covered, ab, s', hs, hE⟩ :=
        ensureDecodeBlockCapacity_spec hD.inv hrest hfull st.plan
      refine ⟨_, ?_, hD.ensured h hrest hn hE, ?_⟩
      · unfold decodeBody
        simp only [hget, Option.bind_eq_bind, Option.bind_some, if_pos hn, check_pos hck, hs]
        cases covered <;> rfl
      · have hl : st.sched.running.length = s'.running.length + ab.length := by
          rw [hE.running, List.length_append]
        cases covered with
        | true =>
          show s'.running.length - (st.i + 1) < _
          omega
        | false =>
          show s'.running.length - st.i < _
          have h1 : ab.length = 1 := by rw [(hE.victim rfl).2]; rfl
          omega
    · refine ⟨_, ?_, hD.push h hrest hn, ?_⟩
      · unfold decodeBody
        simp only [hget, Option.bind_eq_bind, Option.bind_some, if_neg hn]
        rfl
      · show st.sched.running.length - (st.i + 1) < _
        omega

/-- what a decode plan does.  See the file header. -/
structure DecodePlan (T : Nat) (o : SchedulerOptions) (s : Scheduler) (plan : StepPlan)
    (s' : Scheduler) : Prop where
  inv : Inv T o s'
  shape : plan = { decode := plan.decode, aborted := plan.aborted }
  queue : s.prefillQueue = []
  waiting : s'.waiting = s.waiting
  prefill : s'.prefillQueue = []
  nextPtr : s'.nextPtr = s.nextPtr
  running : s'.running = plan.decode
  cut : s.running = plan.decode ++ plan.aborted.reverse
  rows : ∀ r ∈ plan.decode, Batched (s.heap r) (s'.heap r)
  evictions : ∀ r ∈ plan.aborted, s'.heap r = evicted (s.heap r)
  frame : ∀ r, r ∉ s.running → s'.heap r = s.heap r
  aborts : plan.aborted ≠ [] → o.admissionPolicy = .kWatermark ∧
    s.uncommitted < s.boundary s.running
  serves : plan.aborted = [] → o.admissionPolicy = .kWatermark →
    (s.boundary s.running : Int) ≤ s.uncommitted

/-- **Planning a decode batch returns.** -/
theorem planDecode_spec (h : Inv T o s) (hq : s.prefillQueue = []) :
    ∃ plan s', s.planDecode = some (plan, s') ∧ DecodePlan T o s plan s' := by
  obtain ⟨st, hl, hD, hc⟩ := loop_total decodeCond decodeBody (DecodeInv T o s)
    (fun st => st.sched.running.length - st.i) (fun _ hD hc => hD.step h hc)
    (s.running.length + 1) { i := 0, plan := {}, sched := s } (DecodeInv.init h)
    (Nat.lt_succ_of_le (Nat.sub_le _ _))
  obtain ⟨rest, hrest⟩ := hD.ahead
  -- the cap of `max_batch` rows never cuts the batch short
  have hnil : rest = [] := by
    have hcount := hD.inv.count
    have hadm : st.sched.admitted.length = st.sched.running.length + st.sched.prefillQueue.length :=
      List.length_append
    have hlen : st.sched.running.length = st.plan.decode.length + rest.length := by
      rw [hrest, List.length_append]
    have hc' := of_decide_eq_false hc
    rw [hD.inv.options, hD.index] at hc'
    apply List.eq_nil_of_length_eq_zero
    omega
  rw [hnil, List.append_nil] at hrest
  refine ⟨st.plan, st.sched, ?_, ⟨hD.inv, hD.shape, hq, hD.waiting, hD.prefill.trans hq, hD.nextPtr,
    hrest, by rw [hD.cut, hrest], hD.rows, hD.evictions, ?_, hD.aborts, ?_⟩⟩
  · unfold planDecode
    simp only [hl, Option.bind_eq_bind, Option.bind_some, Option.pure_def]
  · intro r hr
    rw [hD.cut, hrest, List.mem_append, List.mem_reverse, not_or] at hr
    exact hD.frame r hr.1 hr.2
  · intro ha hp
    have hspent := hD.spent h hp ha
    have hle := hD.inv.alloc.reserved_le
    have hrun : s.running = st.plan.decode := by
      rw [hD.cut, ha, List.reverse_nil, List.append_nil, hrest]
    rw [hrun]
    unfold uncommitted at hspent ⊢
    omega

end
end Scheduler
end Redline

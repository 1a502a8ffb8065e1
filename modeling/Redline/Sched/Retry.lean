import Redline.Sched.Plan

/-!
# Planning twice

Under `reserve_full` planning commits blocks that were promised before, so that what is uncommitted
stays (`uncommitted_of_carried`): after a plan the waiting head is blocked where it was.  The chunk
that was covered is covered, and no decode row is at a boundary any more.  So a second `PlanStep`
makes the same plan and changes nothing (`planStep_twice`).
-/

namespace Redline
open Prog Ledger

namespace Scheduler

section
variable {T : Nat} {o : SchedulerOptions} {s s1 s' : Scheduler} {plan : StepPlan}

/-- what is committed to a request under `reserve_full` -/
theorem commitment_eq (h : Inv T o s) (hp : o.admissionPolicy = .kReserveFull) {r : Nat}
    (hr : r ∈ s.admitted) : commitment (s.heap r) = worstCaseBlocks (s.heap r) := by
  unfold commitment
  rcases List.mem_append.mp hr with hr | hr
  · rw [(h.running r hr).reserved]
    unfold growthLeft
    rw [hp]
    simp only
    omega
  · rw [(h.prefill r hr).reserved]
    unfold promised
    rw [hp]
    simp only
    omega

/-- requests that only grow leave what is uncommitted -/
theorem uncommitted_of_grown (h : Inv T o s) (h' : Inv T o s')
    (hp : o.admissionPolicy = .kReserveFull) (hadm : s'.admitted = s.admitted)
    (hg : ∀ r ∈ s.admitted, Grown (s.heap r) (s'.heap r)) : s'.uncommitted = s.uncommitted := by
  have hsame : held commitment s'.heap s.admitted = held commitment s.heap s.admitted := by
    apply held_congr
    intro r hr
    rw [commitment_eq h hp hr, commitment_eq h' hp (hadm ▸ hr)]
    obtain ⟨bs, n, hb⟩ := hg r hr
    rw [hb]
    rfl
  have h1 := h.uncommitted_add
  have h2 := h'.uncommitted_add
  have hu : s'.allocator.usableBlocks = s.allocator.usableBlocks := by
    unfold BlockAllocator.usableBlocks
    rw [h'.total, h.total]
  rw [hadm, hsame, hu] at h2
  omega

/-- the waiting head is blocked where it was -/
theorem admitsHead_of_grown (h : Inv T o s) (h' : Inv T o s')
    (hp : o.admissionPolicy = .kReserveFull) (hadm : s'.admitted = s.admitted)
    (hw : s'.waiting = s.waiting) (hheap : ∀ r ∈ s.waiting, s'.heap r = s.heap r)
    (hg : ∀ r ∈ s.admitted, Grown (s.heap r) (s'.heap r)) : s'.admitsHead = s.admitsHead := by
  have hun := uncommitted_of_grown h h' hp hadm hg
  have hnum : s'.numRunning = s.numRunning := by
    have hlen := congrArg List.length hadm
    unfold admitted at hlen
    rw [List.length_append, List.length_append] at hlen
    unfold numRunning
    omega
  unfold admitsHead
  rw [hw]
  cases hq : s.waiting with
  | nil => rfl
  | cons r w =>
    have hr := hheap r (by rw [hq]; exact List.mem_cons_self)
    have hcan : s'.canAdmit (s.heap r) = s.canAdmit (s.heap r) := by
      unfold canAdmit
      rw [h'.options, h.options, hp]
      show decide (_ ≤ s'.uncommitted) = decide (_ ≤ s.uncommitted)
      rw [hun]
    simp only [hnum, h'.options, h.options, hr, hcan]

/-- nothing to admit -/
theorem admitLoop_blocked (hb : s.admitsHead = false) : s.admitLoop = some s := by
  unfold admitLoop loop
  rw [hb]
  rfl

/-- nothing to cover -/
theorem coverChunk_covered {r e : Nat} (hc : e ≤ (s.heap r).blockTable.tokenCapacity) :
    s.coverChunk r e = some s := by
  unfold coverChunk loop
  rw [decide_eq_false (Nat.not_lt.mpr hc)]
  rfl

/-- no row at a boundary: the batch is the running list, and nothing changes -/
theorem decodeLoop_covered (hmax : s.running.length ≤ s.options.maxBatch) (rest : List Nat) :
    ∀ pre, s.running = pre ++ rest → (∀ r ∈ rest, ¬ needsBlock (s.heap r)) →
      loop decodeCond decodeBody (rest.length + 1)
        { i := pre.length, plan := { decode := pre }, sched := s }
        = some { i := s.running.length, plan := { decode := s.running }, sched := s } := by
  induction rest with
  | nil =>
    intro pre hrun _
    rw [List.append_nil] at hrun
    have hc : decodeCond { i := pre.length, plan := { decode := pre }, sched := s } = false := by
      refine decide_eq_false fun hc => ?_
      rw [← hrun] at hc
      exact Nat.lt_irrefl _ hc.1
    unfold loop
    rw [hc, hrun]
    rfl
  | cons r rest ih =>
    intro pre hrun hn
    have hlen : s.running.length = pre.length + (rest.length + 1) := by
      rw [hrun, List.length_append, List.length_cons]
    have hc : decodeCond { i := pre.length, plan := { decode := pre }, sched := s } = true :=
      decide_eq_true ⟨by show pre.length < s.running.length; omega,
        by show pre.length < s.options.maxBatch; omega⟩
    have hget : s.running[pre.length]? = some r := by
      rw [hrun, List.getElem?_append_right (Nat.le_refl _), Nat.sub_self]
      rfl
    have hbody : decodeBody { i := pre.length, plan := { decode := pre }, sched := s }
        = some { i := (pre ++ [r]).length, plan := { decode := pre ++ [r] }, sched := s } := by
      unfold decodeBody
      simp only [hget, Option.bind_eq_bind, Option.bind_some,
        if_neg (hn r List.mem_cons_self), List.length_append, List.length_singleton]
      rfl
    have hrest := ih (pre ++ [r]) (by rw [hrun, List.append_assoc]; rfl)
      fun x hx => hn x (List.mem_cons_of_mem _ hx)
    unfold loop
    rw [hc, if_pos rfl, hbody, Option.bind_some]
    exact hrest

theorem planDecode_covered (hmax : s.running.length ≤ s.options.maxBatch)
    (hn : ∀ r ∈ s.running, ¬ needsBlock (s.heap r)) :
    s.planDecode = some ({ decode := s.running }, s) := by
  have hl := decodeLoop_covered hmax s.running [] rfl hn
  unfold planDecode
  simp only [List.length_nil] at hl
  simp only [hl, Option.bind_eq_bind, Option.bind_some, Option.pure_def]

/-- **Planning twice is planning once.** -/
theorem planStep_twice (h : Inv T o s) (hp : o.admissionPolicy = .kReserveFull)
    (hs : s.planStep = some (plan, s')) : s'.planStep = some (plan, s') := by
  cases planned_of_planStep h hs with
  | prefill s1 k r rest hP =>
    have hC := hP.chunk
    have h1 := hP.admissions.inv
    have hq' : s'.prefillQueue = r :: rest := hC.prefill.trans hP.queue
    have hmem : r ∈ s1.prefillQueue := by rw [hP.queue]; exact List.mem_cons_self
    have hadm : s'.admitted = s1.admitted := by
      unfold admitted
      rw [hC.running, hC.prefill]
    have hout : ∀ x ∈ s1.waiting, x ≠ r := fun x hx e =>
      absurd (h1.admitted_lt_waiting (List.mem_append_right _ hmem) hx) (by omega)
    have hblocked : s'.admitsHead = false := by
      rw [← hP.blocked]
      refine admitsHead_of_grown h1 hC.inv hp hadm hC.waiting
        (fun x hx => hC.frame x (hout x hx)) fun x _ => ?_
      by_cases hx : x = r
      · rw [hx]; exact hC.grown
      · rw [hC.frame x hx]; exact Grown.refl _
    obtain ⟨bs, n, hg⟩ := hC.grown
    have hend : chunkEnd o (s'.heap r) = chunkEnd o (s1.heap r) := by rw [hg]; rfl
    have hcover : s'.coverChunk r (chunkEnd o (s'.heap r)) = some s' := by
      refine coverChunk_covered ?_
      rw [hend, BlockTable.le_tokenCapacity, hP.blocks]
    have hplan : plan = chunkPlan o s' r := by
      rw [hP.shape]
      unfold chunkPlan
      rw [hend, hg]
    unfold planStep
    simp only [admitLoop_blocked hblocked, hq', Option.bind_eq_bind, Option.bind_some]
    rw [planPrefill_eq hC.inv (by rw [hq']; exact List.mem_cons_self) hcover, hplan]
  | decode blocked hD =>
    have hab : plan.aborted = [] := by
      by_contra hne
      have := (hD.aborts hne).1
      rw [hp] at this
      cases this
    have hrun : s.running = plan.decode := by
      rw [hD.cut, hab, List.reverse_nil, List.append_nil]
    have hadm : s'.admitted = s.admitted := by
      unfold admitted
      rw [hD.running, hD.prefill, hrun, hD.queue]
    have hout : ∀ x ∈ s.waiting, x ∉ s.running := fun x hx hr =>
      absurd (h.admitted_lt_waiting (List.mem_append_left _ hr) hx) (Nat.lt_irrefl _)
    have hblocked : s'.admitsHead = false := by
      rw [← blocked]
      refine admitsHead_of_grown h hD.inv hp hadm hD.waiting
        (fun x hx => hD.frame x (hout x hx)) fun x hx => ?_
      rcases List.mem_append.mp hx with hx | hx
      · exact (hD.rows x (hrun ▸ hx)).1
      · rw [hD.queue] at hx
        exact absurd hx List.not_mem_nil
    have hneeds : ∀ r ∈ s'.running, ¬ needsBlock (s'.heap r) := by
      intro r hr hn
      have heq := (hD.inv.running r hr).blocks_eq
      obtain ⟨⟨bs, n, hg⟩, hblocks⟩ := hD.rows r (hD.running ▸ hr)
      have hseq : (s'.heap r).seqLen = (s.heap r).seqLen := by rw [hg]; rfl
      rw [if_pos hn, hseq] at heq
      omega
    have hmax : s'.running.length ≤ s'.options.maxBatch := by
      have hcount := hD.inv.count
      have hlen : s'.admitted.length = s'.running.length + s'.prefillQueue.length :=
        List.length_append
      rw [hD.inv.options]
      omega
    have hshape : plan = { decode := s'.running } := by
      rw [hD.running]
      have hsh := hD.shape
      rw [hab] at hsh
      exact hsh
    unfold planStep
    simp only [admitLoop_blocked hblocked, hD.prefill, Option.bind_eq_bind, Option.bind_some]
    rw [planDecode_covered hmax hneeds, hshape]

end
end Scheduler
end Redline

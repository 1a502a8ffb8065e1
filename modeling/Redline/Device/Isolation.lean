import Redline.Device.Run

/-!
# Isolation of the paged KV

The pool of one layer, with a stamp in each cell for whom it was last written, for which position
and from which token.  The stamp of a cell is forgotten when its block is handed out (`forget`), so
a stamp of `r` was made since `r` has the block.  During a step the device writes the cells of all
rows, or those of any of them before it throws (`DeviceStep`).

`kv_isolation`: whatever was called before, and however those calls ended, each row of the next
launch reads stamps of its own request at its own positions, from the tokens it holds there, and the
padded rows write the dummy block, which is in no table.
-/

namespace Redline
open Prog

/-- who wrote a cell, for which position, from which token; padded rows have no request -/
structure Stamp where
  request : Option Nat
  position : Nat
  token : Int
  deriving DecidableEq, Repr

abbrev Touched := Pool (Option Stamp)

def stampRow (r : Option Nat) (row : DeviceRow) (_ : Touched) : Option Stamp × Int :=
  (some ⟨r, row.position, row.inputId⟩, 0)

/-- what becomes of an executor call on the device; `written` tells the rows that were scattered -/
inductive DeviceStep where
  | samples (argmax : Nat → Int)
  | throws (err : ExecutorError) (written : Nat → Bool)

def writtenItems (written : Nat → Bool) (items : List (Option Nat × DeviceRow)) :
    List (Option Nat × DeviceRow) :=
  (items.zipIdx.filter fun i => written i.2).map Prod.fst

def stamping : DeviceStep → Device Touched
  | .samples argmax, l, d => (.ok argmax, (runRows stampRow l.items d).2)
  | .throws err written, l, d => (.error err, (runRows stampRow (writtenItems written l.items) d).2)

/-- the blocks that planning gave to `r` -/
def granted (s s' : Scheduler) (r : Nat) : List Int :=
  (s'.heap r).blockTable.blocks.drop (s.heap r).blockTable.blocks.length

/-- a block that is handed out holds nothing of its new owner -/
def forget (s s' : Scheduler) (d : Touched) : Touched := fun c =>
  if (List.range s'.nextPtr).any fun r => (granted s s' r).contains c.1 then none else d c

def touched : Environment DeviceStep Touched := ⟨stamping, forget⟩

/-- the stamp a position should have -/
def stamped : Expect (Option Stamp) := fun tokens r p =>
  (tokens[p]?).map fun t => (some ⟨some r, p, t⟩, 0)

theorem stamped_stable : stamped.Stable := by
  intro tokens t r p hp
  unfold stamped
  rw [List.getElem?_append_left hp]

theorem computes_stampRow (x : Executor) (s : Scheduler) : Computes stamped x s stampRow := by
  intro len d r row _ _ hrow
  unfold stamped stampRow
  rw [hrow.token, hrow.position]
  rfl

theorem runsRows_stamping (k : DeviceStep) : RunsRows stampRow (stamping k) := by
  cases k with
  | samples argmax =>
    exact ⟨fun l d _ d' h => (congrArg Prod.snd h).symm, fun l d err d' h => nomatch h⟩
  | throws err written =>
    refine ⟨fun l d argmax d' h => (nomatch h), fun l d err' d' h =>
      ⟨writtenItems written l.items, fun i hi => ?_, (congrArg Prod.snd h).symm⟩⟩
    obtain ⟨⟨j, n⟩, hj, rfl⟩ := List.mem_map.mp hi
    exact (List.mem_zipIdx' (List.mem_filter.mp hj).1).2 ▸ List.getElem_mem _

section
variable {T : Nat} {o : SchedulerOptions} {s : Scheduler}

/-- only admitted requests have blocks -/
theorem Inv.blocks_nil (h : Inv T o s) {r : Nat} (hr : r < s.nextPtr) (hn : r ∉ s.admitted) :
    (s.heap r).blockTable.blocks = [] := by
  by_cases hw : r ∈ s.waiting
  · exact (h.waiting r hw).blocks
  · exact (h.finished r hr hw hn).blocks

/-- **What is forgotten** was free, or belonged to a request that is gone. -/
theorem touched_keepsOld : touched.KeepsOld T o := by
  intro s plan s' d h hP r hr hr' b hb slot
  have hmine : ∃ bs, (s'.heap r).blockTable.blocks = (s.heap r).blockTable.blocks ++ bs := by
    rcases Planned.cases hP r with ⟨hv, he⟩ | ⟨_, _, hbs⟩
    · have hnil := hP.inv.unfinished hr'
      rw [he] at hnil
      cases hnil
    · exact hbs
  obtain ⟨bs, hbs⟩ := hmine
  have hO := hP.inv.owned
  have hfree : ∀ r' < s'.nextPtr, b ∉ granted s s' r' := by
    intro r' hlt hg
    have hmem : b ∈ (s'.heap r').blockTable.blocks := List.mem_of_mem_drop hg
    have hadm : r' ∈ s'.admitted := by
      by_contra hn
      rw [hP.inv.blocks_nil hlt hn] at hmem
      exact List.not_mem_nil hmem
    obtain rfl : r' = r := hO.apart r' r hadm hr' b hmem (by
      rw [hbs]; exact List.mem_append_left _ hb)
    have hn := hO.nodup r' hr'
    unfold granted at hg
    rw [hbs, List.drop_left] at hg
    rw [hbs, List.nodup_append] at hn
    exact hn.2.2 b hb b hg rfl
  have hno : ¬ ((List.range s'.nextPtr).any fun r' => (granted s s' r').contains b) = true := by
    intro hany
    obtain ⟨r', hr1, hc⟩ := List.any_eq_true.mp hany
    exact hfree r' (List.mem_range.mp hr1) (List.contains_iff_mem.mp hc)
  exact if_neg hno

end

/-! ## what a launch reads -/

/-- each row reads its own request, and padded rows touch nobody's blocks -/
structure Isolated (s : Scheduler) (plan : StepPlan) (l : Launch) (d : Touched) : Prop where
  extent : ∀ r row, (some r, row) ∈ l.items →
    row.extent = if plan.prefill = none then (s.heap r).seqLen else plan.prefillEnd
  reads : ∀ r row, (some r, row) ∈ l.items → ∀ p < row.extent, ∃ t,
    (s.heap r).tokens[p]? = some t ∧ d (cellOf row.table p) = some ⟨some r, p, t⟩
  padded : ∀ row, (none, row) ∈ l.items →
    row.extent = 0 ∧ (cellOf row.table row.position).1 = kDummyBlockId
  dummy : ∀ r < s.nextPtr, kDummyBlockId ∉ (s.heap r).blockTable.blocks

section
variable {T : Nat} {o : SchedulerOptions} {e : Engine} {plan : StepPlan} {l : Launch} {d : Touched}

theorem Inv.dummy_nowhere {s : Scheduler} (h : Inv T o s) {r : Nat} (hr : r < s.nextPtr) :
    kDummyBlockId ∉ (s.heap r).blockTable.blocks := by
  by_cases hm : r ∈ s.admitted
  · exact h.dummy_free hm
  · rw [h.blocks_nil hr hm]
    exact List.not_mem_nil

theorem Launched.isolated (hE : EngineInv T o e) (hP : Scheduler.PlanOk o e.sched plan)
    (hL : Launched e.executor o e.sched plan l) (hB : BackedNow stamped e.sched d) :
    Isolated e.sched plan l (runRows stampRow l.items d).2 := by
  obtain ⟨hfeeds, hheld⟩ := hL.feeds hE.sched hP
  have hrun := (hfeeds.run hE.sched (computes_stampRow _ _) d hB).1
  rw [hheld] at hrun
  refine ⟨fun r row hm => (hL.extent hE.sched hP hm).2.2.1, fun r row hm p hp => ?_,
    fun row hm => ?_, fun r hr => hE.sched.dummy_nowhere hr⟩
  · obtain ⟨hadm, hext, _, _, hrow⟩ := hL.extent hE.sched hP hm
    have hc := hrun.content r hadm p (hext ▸ hp)
    rw [← hrow.cell hp] at hc
    unfold stamped at hc
    cases ht : (e.sched.heap r).tokens[p]? with
    | none => rw [ht] at hc; cases hc
    | some t =>
      rw [ht] at hc
      exact ⟨t, rfl, (Option.some.inj hc).symm⟩
  · have hpad := hfeeds.harmless _ hm
    exact ⟨hpad.extent, hpad.block⟩

/-- a plan without rows launches nothing -/
theorem items_of_idle (hp : plan.prefill = none) (hd : plan.decode = []) {done : Executed}
    {x : Executor} (hl : e.launch plan = some (.ok (done, l), x)) : l.items = [] := by
  have hcall : (if e.replaysGraph plan.decode.length then
      e.executor.decodeGraph (plan.decode.map e.sched.heap)
      else e.executor.decodeEager (plan.decode.map e.sched.heap)) = some ([], .ok {}) := by
    rw [hd]
    split <;> rfl
  unfold Engine.launch at hl
  rw [hp] at hl
  simp only [hcall] at hl
  obtain ⟨h1, _⟩ := Prod.mk.inj (Option.some.inj hl)
  obtain ⟨_, rfl⟩ := Prod.mk.inj (Except.ok.inj h1)
  rw [hd]
  rfl

end

/-- **Isolation of the paged KV.** -/
theorem kv_isolation (config : ModelConfig) (options : EngineOptions) (captured : Bool)
    (probe : Nat → Nat → Option PrefillGemmMode) (e : Engine)
    (he : Engine.make config options captured probe = .ok e) (d0 : Touched)
    (cs : List (EngineCall DeviceStep)) :
    ∃ w, run (EngineRun.step touched) (.init e d0) cs = some w ∧
      ∀ plan s done l x, w.engine.sched.planStep = some (plan, s) →
        ({ w.engine with sched := s } : Engine).launch plan = some (.ok (done, l), x) →
        Isolated s plan l
          (runRows stampRow l.items (forget w.engine.sched s w.device)).2 := by
  have h0 : BackedNow stamped (EngineRun.init e d0).engine.sched (EngineRun.init e d0).device := by
    obtain ⟨x, _, rfl⟩ := Engine.make_eq he
    exact ⟨fun r hr => absurd hr List.not_mem_nil, fun r hr => absurd hr List.not_mem_nil⟩
  obtain ⟨w, hw, hE, hB⟩ := EngineRun.run_keeps
    (fun w => BackedNow stamped w.engine.sched w.device)
    (fun w c w' hE hB h => Backed.stepped stamped_stable computes_stampRow runsRows_stamping
      touched_keepsOld hE h hB)
    (EngineInv.make he) h0 cs
  refine ⟨w, hw, fun plan s done l x hs hl => ?_⟩
  have hP := Scheduler.planned_of_planStep hE.sched hs
  have hE1 := Engine.EngineInv.planned hE hP
  have hok := hP.planOk hE.sched
  have hB1 := Backed.planned hE.sched hP hB (touched_keepsOld _ plan s w.device hE.sched hP)
  by_cases hne : plan.prefill = none → plan.decode ≠ []
  · obtain ⟨out, m, hl1, hL⟩ := launch_spec hE1.sched hE1.fits hok hne hE1.prompts
    obtain ⟨h1, _⟩ := Prod.mk.inj (Option.some.inj (hl.symm.trans hl1))
    exact Launched.isolated hE1 hok (hL done l h1.symm) hB1
  · obtain ⟨hp, hd⟩ : plan.prefill = none ∧ plan.decode = [] := by
      by_contra hc
      exact hne fun hp hd => hc ⟨hp, hd⟩
    have hnil := items_of_idle hp hd hl
    have hout : ∀ i, i ∉ l.items := fun i hi => by rw [hnil] at hi; exact List.not_mem_nil hi
    exact ⟨fun r row hm => absurd hm (hout _), fun r row hm => absurd hm (hout _),
      fun row hm => absurd hm (hout _), fun r hr => hE1.sched.dummy_nowhere hr⟩

/-- a chunk of five rows is scattered in part, then fails; the next step runs it again -/
def failedChunk : List (EngineCall DeviceStep) :=
  [.addRequest { promptTokens := [1, 2, 3, 4, 5], maxNewTokens := 2 },
    .step (.throws (.device "") fun i => i % 2 == 0)]

theorem kv_isolation_example : ∃ w plan s done l x,
    run (EngineRun.step touched) (.init (tinyEngine .kWatermark) fun _ => none) failedChunk = some w ∧
      w.engine.sched.planStep = some (plan, s) ∧
      ({ w.engine with sched := s } : Engine).launch plan = some (.ok (done, l), x) ∧
      l.items.length = 5 ∧
      Isolated s plan l (runRows stampRow l.items (forget w.engine.sched s w.device)).2 := by
  obtain ⟨w, hw, h⟩ := kv_isolation tinyConfig (tinyOptions .kWatermark) true tinyProbe
    (tinyEngine .kWatermark) (tinyEngine_make .kWatermark) (fun _ => none) failedChunk
  have hrows : ((run (EngineRun.step touched) (.init (tinyEngine .kWatermark) fun _ => none)
      failedChunk).bind fun w => w.engine.sched.planStep.bind fun p =>
        (({ w.engine with sched := p.2 } : Engine).launch p.1).map fun out =>
          out.1.toOption.map fun l => l.2.items.length) = some (some 5) := by decide +kernel
  rw [hw, Option.bind_some, Option.bind_eq_some_iff] at hrows
  obtain ⟨⟨plan, s⟩, hs, hrows⟩ := hrows
  obtain ⟨⟨out, x⟩, hl, hout⟩ := Option.map_eq_some_iff.mp hrows
  obtain ⟨⟨done, l⟩, hok, hlen⟩ := Option.map_eq_some_iff.mp hout
  cases out with
  | error err => cases hok
  | ok p =>
    obtain rfl := Option.some.inj hok
    exact ⟨w, plan, s, done, l, x, hw, hs, hl, hlen, h plan s done l x hs hl⟩

end Redline

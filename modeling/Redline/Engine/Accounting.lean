import Redline.Engine.Emission

/-!
# The counters of the engine

A run in which no call of the executor throws, on a device that keeps the launches it was given.

* `launch_did`          what an executor call reports is what it launched;
* `Accounted`           the counters against the reports, the plans, the requests and the launches;
* `engine_accounting`   after every run.
-/

namespace Redline
open Prog Script Ledger

/-! ## what a call reports -/

namespace Executor

section
variable {x : Executor}

theorem bucketForRows_eq_some {rows bucket : Nat} :
    x.bucketForRows rows = some bucket ↔ bucket = rows ∧ rows ∈ x.buckets := by
  unfold bucketForRows
  constructor
  · intro h
    obtain rfl : bucket = rows := by simpa using List.find?_some h
    exact ⟨rfl, List.mem_of_find?_eq_some h⟩
  · rintro ⟨rfl, hmem⟩
    cases hfind : x.buckets.find? (· == bucket) with
    | none => exact absurd (List.find?_eq_none.mp hfind bucket hmem) (by simp)
    | some found =>
      obtain rfl : found = bucket := by simpa using List.find?_some hfind
      rfl

theorem decodeEager_bucket {batch : List Request} (hne : batch ≠ []) :
    Ensures (fun shape => shape.bucket = x.bucketForRows shape.rows) (x.decodeEager batch) := by
  unfold decodeEager
  rw [if_neg hne]
  refine (ensures_true _).bind fun _ _ => (ensures_true _).bind fun rows _ => ?_
  exact (ensures_true _).bind fun _ _ => ensures_pure rfl

theorem decodeGraph_bucket {batch : List Request} (hne : batch ≠ []) :
    Ensures (fun shape => shape.bucket = x.bucketForRows shape.rows ∧ shape.rows ∈ x.buckets)
      (x.decodeGraph batch) := by
  intro log shape h
  obtain ⟨_, bucket, _, hb, rfl, _⟩ := decodeGraph_inv hne h
  have hmem := (selectBucket_some hb).2.2
  exact ⟨(bucketForRows_eq_some.mpr ⟨rfl, hmem⟩).symm, hmem⟩

theorem prefillChunk_rows {dump : Bool} {q : Request} {chunkBegin chunkEnd : Nat} :
    Ensures (fun shape => shape.rows = chunkEnd - chunkBegin)
      (x.prefillChunk dump q chunkBegin chunkEnd) := by
  have hfill : Ensures (fun rows => rows = chunkEnd - chunkBegin)
      (x.fillPrefillMirrors q chunkBegin chunkEnd) := by
    unfold fillPrefillMirrors
    refine (ensures_true _).bind fun _ _ => (ensures_true _).bind fun _ _ =>
      (ensures_true _).bind fun _ _ => ?_
    refine (ensures_true _).bind fun _ _ => (ensures_true _).bind fun _ _ =>
      (ensures_true _).bind fun _ _ => ?_
    exact (ensures_true _).bind fun _ _ => ensures_pure rfl
  unfold prefillChunk
  refine hfill.bind fun rows hrows => (ensures_true _).bind fun _ _ => ?_
  cases x.probe rows chunkEnd with
  | none =>
    intro log shape h
    cases h
  | some mode => exact (ensures_true _).bind fun _ _ => ensures_pure hrows

end
end Executor

/-- what an executor call reports, against what it launched -/
structure Did (e : Engine) (plan : StepPlan) (done : Executed) (l : Launch) : Prop where
  prefill : l.prefill = plan.prefill.isSome
  prefillRows : done.prefillRows
    = if plan.prefill.isSome then plan.prefillEnd - plan.prefillBegin else 0
  decodeRows : done.decodeRows = if plan.prefill.isSome then 0 else plan.decode.length
  bucket : plan.prefill = none → done.executedBucket = e.executor.bucketForRows l.rows.length
  replayed : plan.prefill = none → done.replayedGraph = true → l.rows.length ∈ e.executor.buckets

theorem launch_did {e : Engine} {plan : StepPlan} {done : Executed} {l : Launch} {x : Executor}
    {o : SchedulerOptions} (hbusy : plan.prefill = none → plan.decode ≠ [])
    (h : e.launch plan = some (.ok (done, l), x)) (hL : Launched e.executor o e.sched plan l)
    (hlayers : 0 < e.executor.config.numLayers.toNat) : Did e plan done l := by
  unfold Engine.launch at h
  cases hp : plan.prefill with
  | some r =>
    rw [hp] at h
    dsimp only at h
    split at h
    · cases h
    · rename_i log out hcall
      cases out with
      | error err => cases h
      | ok shape =>
        obtain ⟨hdone, _⟩ := Prod.mk.inj (Except.ok.inj (Prod.mk.inj (Option.some.inj h)).1)
        have hsome : plan.prefill ≠ none := by rw [hp]; exact Option.some_ne_none r
        have hprefill : l.prefill = true := by
          cases hL with
          | chunk => rfl
          | batch rows prefill => exact absurd prefill hsome
        rw [← hdone]
        refine ⟨by rw [hprefill, hp]; rfl, ?_, by rw [hp]; rfl, fun h => absurd h hsome, fun h => absurd h hsome⟩
        rw [hp]
        exact Executor.prefillChunk_rows log shape hcall
  | none =>
    have hne : plan.decode.map e.sched.heap ≠ [] := by simpa using hbusy hp
    rw [hp] at h
    dsimp only at h
    split at h
    · cases h
    · rename_i log out hcall
      cases out with
      | error err => cases h
      | ok shape =>
        obtain ⟨hdone, hl⟩ := Prod.mk.inj (Except.ok.inj (Prod.mk.inj (Option.some.inj h)).1)
        have hreturned : Script.Returns
            (e.executor.decodeEager (plan.decode.map e.sched.heap)) log shape ∨
            Script.Returns (e.executor.decodeGraph (plan.decode.map e.sched.heap)) log shape := by
          split at hcall
          · exact Or.inr hcall
          · exact Or.inl hcall
        obtain ⟨fill, work, rfl, hfill, hwork⟩ := Executor.decode_split hne hreturned
        rw [Executor.launchOf_decode hlayers hfill hwork] at hl
        have hrows : l.rows.length = shape.rows := by
          rw [← hl]
          exact (List.length_map _).trans List.length_range
        rw [← hdone]
        refine ⟨by rw [← hl, hp]; rfl, by rw [hp]; rfl, by rw [hp]; rfl, fun _ => ?_, fun _ hreplayed => ?_⟩
        · rw [hrows]
          cases hreplays : e.replaysGraph plan.decode.length with
          | true =>
            rw [hreplays] at hcall
            exact (Executor.decodeGraph_bucket hne _ shape hcall).1
          | false =>
            rw [hreplays] at hcall
            exact Executor.decodeEager_bucket hne _ shape hcall
        · rw [hrows]
          rw [show e.replaysGraph plan.decode.length = true from hreplayed] at hcall
          exact (Executor.decodeGraph_bucket hne _ shape hcall).2

/-! ## the counters -/

section
variable (e : Engine) (plan : StepPlan) (done : Executed)

theorem steps_count : (e.count plan done).steps = e.stats.steps + 1 := by
  unfold Engine.count
  simp only
  split
  · rfl
  · cases done.executedBucket <;> cases done.replayedGraph <;> rfl

theorem prefillTokens_count : (e.count plan done).prefillTokens
    = e.stats.prefillTokens + done.prefillRows := by
  unfold Engine.count
  simp only
  split
  · rfl
  · cases done.executedBucket <;> cases done.replayedGraph <;> rfl

theorem decodeTokens_count : (e.count plan done).decodeTokens
    = e.stats.decodeTokens + done.decodeRows := by
  unfold Engine.count
  simp only
  split
  · rename_i h
    rw [h]
    rfl
  · cases done.executedBucket <;> cases done.replayedGraph <;> rfl

/-- a step with decode rows is a replay or an eager step -/
theorem decodes_count : (e.count plan done).graphReplays + (e.count plan done).eagerDecodes
    = e.stats.graphReplays + e.stats.eagerDecodes + if done.decodeRows = 0 then 0 else 1 := by
  unfold Engine.count
  simp only
  split
  · rfl
  · cases done.executedBucket <;> cases done.replayedGraph <;>
      simp only [if_true, Bool.false_eq_true, if_false] <;> omega

theorem graphReplays_count : (e.count plan done).graphReplays
    = e.stats.graphReplays + if done.decodeRows ≠ 0 ∧ done.replayedGraph = true then 1 else 0 := by
  unfold Engine.count
  simp only
  split
  · rename_i h
    rw [if_neg fun hand => hand.1 h]
    rfl
  · rename_i h
    cases done.executedBucket <;> cases done.replayedGraph <;> simp [h]

variable {e plan done}

theorem length_bumpBucket (buckets counts : List Nat) (bucket : Nat) :
    (Engine.bumpBucket buckets bucket counts).length = counts.length := List.length_modify ..

theorem sum_bumpBucket {buckets counts : List Nat} {bucket : Nat} (hmem : bucket ∈ buckets)
    (hlen : counts.length = buckets.length) :
    (Engine.bumpBucket buckets bucket counts).sum = counts.sum + 1 := by
  have hlt : buckets.idxOf bucket < counts.length := hlen ▸ List.idxOf_lt_length_iff.mpr hmem
  have hsum := congrArg List.sum (List.take_append_drop (buckets.idxOf bucket) counts)
  rw [List.drop_eq_getElem_cons hlt, List.sum_append, List.sum_cons] at hsum
  unfold Engine.bumpBucket
  rw [List.modify_eq_take_cons_drop hlt, List.sum_append, List.sum_cons]
  omega

/-- the histogram keeps a count for each bucket -/
theorem length_histogram : (e.count plan done).bucketDecodeSteps.length
    = e.stats.bucketDecodeSteps.length := by
  unfold Engine.count
  simp only
  split
  · rfl
  · cases done.executedBucket with
    | none => cases done.replayedGraph <;> rfl
    | some bucket => cases done.replayedGraph <;> exact length_bumpBucket _ _ _

theorem sum_histogram (hlen : e.stats.bucketDecodeSteps.length = e.executor.buckets.length)
    (hmem : done.decodeRows ≠ 0 → ∀ bucket,
      done.executedBucket = some bucket → bucket ∈ e.executor.buckets) :
    (e.count plan done).bucketDecodeSteps.sum
      = e.stats.bucketDecodeSteps.sum + if done.decodeRows ≠ 0 ∧
        done.executedBucket.isSome then 1 else 0 := by
  unfold Engine.count
  simp only
  split
  · rename_i h
    rw [if_neg fun hand => hand.1 h]
    rfl
  · rename_i h
    cases hbucket : done.executedBucket with
    | none =>
      have hzero : (if done.decodeRows ≠ 0 ∧ (none : Option Nat).isSome = true then 1 else 0) = 0 :=
        if_neg fun hand => Bool.false_ne_true hand.2
      rw [hzero]
      cases done.replayedGraph <;> rfl
    | some bucket =>
      have hone : (if done.decodeRows ≠ 0 ∧ (some bucket).isSome = true then 1 else 0) = 1 :=
        if_pos ⟨h, rfl⟩
      rw [hone]
      cases done.replayedGraph <;> exact sum_bumpBucket (hmem h bucket hbucket) hlen

end

/-! ## the requests -/

/-- the prompt tokens in the cache, over all requests that were accepted -/
def Scheduler.progress (s : Scheduler) : Nat := (s.requests.map fun r => (s.heap r).prefillProgress).sum

/-- how many prompts were prefilled -/
def Scheduler.numPrefilled (s : Scheduler) : Nat := s.requests.countP fun r => (s.heap r).prefillDone

/-- the reports of a token, and of an eviction -/
def emitted (results : List StepResult) : Nat :=
  results.countP fun x => decide (x.finishReason ≠ .kAborted)

def evictions (results : List StepResult) : Nat :=
  results.countP fun x => decide (x.finishReason = .kAborted)

section
variable {T : Nat} {o : SchedulerOptions} {s s1 s' : Scheduler} {plan : StepPlan}

theorem emitted_append (a b : List StepResult) : emitted (a ++ b) = emitted a + emitted b :=
  List.countP_append

theorem evictions_append (a b : List StepResult) : evictions (a ++ b) = evictions a + evictions b :=
  List.countP_append

/-- a report is a token or an eviction -/
theorem emitted_add_evictions (results : List StepResult) :
    emitted results + evictions results = results.length := by
  have hsplit :=
    List.length_eq_countP_add_countP (l := results) fun x => decide (x.finishReason = .kAborted)
  have hnot : emitted results = results.countP fun x => !decide (x.finishReason = .kAborted) :=
    List.countP_congr fun x _ => by simp
  rw [hnot, hsplit, Nat.add_comm]
  simp [evictions]

theorem evictions_sampled {α : Type} (l : List α) (q : α → Request) (token : α → Int) :
    evictions (l.map fun a => sampledResult o (q a) (token a)) = 0 := by
  refine List.countP_eq_zero.mpr fun x hx => ?_
  obtain ⟨a, _, rfl⟩ := List.mem_map.mp hx
  exact fun h => reasonOf_ne_aborted o (q a) (token a) (of_decide_eq_true h)

theorem evictions_evicted (l : List Nat) (heap : Nat → Request) :
    evictions (l.map fun r => evictionResult (heap r)) = l.length := by
  refine (List.countP_eq_length.mpr fun x hx => ?_).trans (List.length_map _)
  obtain ⟨r, _, rfl⟩ := List.mem_map.mp hx
  rfl

theorem numPromptTokens_of_asked {q q' : Request} (h : q'.asked = q.asked) :
    q'.numPromptTokens = q.numPromptTokens :=
  congrArg (fun n : NewRequest => n.promptTokens.length) h

theorem prefillDone_congr {q q' : Request} (h : q'.asked = q.asked)
    (hp : q'.prefillProgress = q.prefillProgress) :
    q'.prefillDone = q.prefillDone := by
  unfold Request.prefillDone
  rw [numPromptTokens_of_asked h, hp]

theorem Planned.progress (hP : Scheduler.Planned T o s plan s1) :
    s1.progress = s.progress ∧ s1.numPrefilled = s.numPrefilled := by
  have hreq : s1.requests = s.requests := congrArg List.range (Planned.nextPtr hP)
  unfold Scheduler.progress Scheduler.numPrefilled
  rw [hreq]
  constructor
  · rw [List.map_congr_left fun r _ => (Planned.carried hP r).progress]
  · refine List.countP_congr fun r _ => ?_
    rw [prefillDone_congr (Planned.carried hP r).asked (Planned.carried hP r).progress]

theorem prefillProgress_sampledReq (q : Request) (token : Int) :
    (sampledReq o q token).prefillProgress = q.prefillProgress := by
  unfold sampledReq
  split <;> rfl

/-- a request that is not prefilled keeps its progress -/
theorem Moved.progress {sampled : List Int} {r : Nat} (h : Moved o s plan sampled r s')
    (hr : plan.prefill ≠ some r) : (s'.heap r).prefillProgress = (s.heap r).prefillProgress := by
  cases h with
  | same out eq => rw [eq]
  | chunk prefill more eq => exact absurd prefill hr
  | first prefill token tokens last eq => exact absurd prefill hr
  | row i token row tokens eq => rw [eq, prefillProgress_sampledReq]

/-- a prefilled request has the end of its chunk for progress -/
theorem Moved.prefilled {sampled : List Int} {r : Nat} (h : Moved o s plan sampled r s')
    (hr : plan.prefill = some r)
    (hdecode : plan.decode = []) : (s'.heap r).prefillProgress = chunkEnd o (s.heap r) := by
  cases h with
  | same out eq => exact absurd (Or.inl hr) out
  | chunk prefill more eq => rw [eq]; rfl
  | first prefill token tokens last eq => rw [eq, prefillProgress_sampledReq, last]; rfl
  | row i token row tokens eq =>
    rw [hdecode] at row
    cases row

theorem Completed.progress (h : Inv T o s) {sampled : List Int} {results : List StepResult}
    (hC : Scheduler.Completed T o s plan sampled results s') : s'.progress
      = s.progress + if plan.prefill.isSome then plan.prefillEnd - plan.prefillBegin else 0 := by
  have hreq : s'.requests = s.requests := congrArg List.range (Completed.nextPtr hC)
  have hmoved := Completed.cases hC
  have hchunk : ∀ x rest, s.prefillQueue = x :: rest → plan = Scheduler.chunkPlan o s x → s'.progress
      = s.progress + if plan.prefill.isSome then plan.prefillEnd - plan.prefillBegin else 0 := by
    rintro x rest queue shape
    have hmem : x ∈ s.prefillQueue := by rw [queue]; exact List.mem_cons_self
    have hx : x ∈ s.requests :=
      List.mem_range.mpr (h.lt_nextPtr (Or.inr (List.mem_append_right _ hmem)))
    have hp : plan.prefill = some x := by rw [shape]; rfl
    have hend : (s'.heap x).prefillProgress = chunkEnd o (s.heap x) :=
      (hmoved x).prefilled hp (by rw [shape]; rfl)
    have hle : (s.heap x).prefillProgress ≤ chunkEnd o (s.heap x) :=
      Nat.le_min.mpr ⟨Nat.le_add_right _ _, Nat.le_of_lt (h.prefill x hmem).progress⟩
    have hsum : held Request.prefillProgress s'.heap s.requests + (s.heap x).prefillProgress
        = held Request.prefillProgress s.heap s.requests + (s'.heap x).prefillProgress :=
      held_change List.nodup_range hx fun r _ hr => (hmoved r).progress fun hpr =>
        hr (Option.some.inj (hpr.symm.trans hp))
    rw [hp, shape]
    show held Request.prefillProgress s'.heap s'.requests
      = held Request.prefillProgress s.heap s.requests
      + (chunkEnd o (s.heap x) - (s.heap x).prefillProgress)
    rw [hreq]
    omega
  cases hC with
  | chunk x rest queue shape more none state inv => exact hchunk x rest queue shape
  | first x rest token queue shape last tokens emits applied => exact hchunk x rest queue shape
  | rows shape running tokens emits applied =>
    have hnone : plan.prefill = none := by rw [shape]
    rw [hnone]
    show held Request.prefillProgress s'.heap s'.requests
      = held Request.prefillProgress s.heap s.requests + 0
    rw [hreq, Nat.add_zero]
    exact held_congr fun r _ => (hmoved r).progress (by rw [hnone]; exact (Option.some_ne_none r).symm)

/-- the evictions of a plan are reported -/
theorem Completed.evicts {sampled : List Int} {results : List StepResult}
    (hC : Scheduler.Completed T o s plan sampled results s') :
    evictions results = plan.aborted.length := by
  cases hC with
  | chunk x rest queue shape more none state inv =>
    rw [none, shape]
    rfl
  | first x rest token queue shape last tokens emits applied =>
    rw [emits, shape]
    exact evictions_sampled [token] (fun _ => progressed (s.heap x) (s.heap x).numPromptTokens) id
  | rows shape running tokens emits applied =>
    rw [emits, evictions_append, evictions_evicted, evictions_sampled, Nat.add_zero]

/-- the tokens of a step are one for each row, and one for a prompt that it completes -/
theorem Completed.tokens (h : Inv T o s) {sampled : List Int} {results : List StepResult}
    (hC : Scheduler.Completed T o s plan sampled results s') : emitted results + s.numPrefilled
      = (if plan.prefill.isSome then 0 else plan.decode.length) + s'.numPrefilled := by
  have hreq : s'.requests = s.requests := congrArg List.range (Completed.nextPtr hC)
  have hmoved := Completed.cases hC
  have hsplit := emitted_add_evictions results
  rw [Completed.evicts hC] at hsplit
  have hsame : ∀ r, plan.prefill ≠ some r →
    (s'.heap r).prefillDone = (s.heap r).prefillDone := fun r hr =>
    prefillDone_congr (hmoved r).asked ((hmoved r).progress hr)
  unfold Scheduler.numPrefilled
  rw [hreq]
  cases hC with
  | chunk x rest queue shape more none state inv =>
    have hp : plan.prefill = some x := by rw [shape]; rfl
    have hmem : x ∈ s.prefillQueue := by rw [queue]; exact List.mem_cons_self
    have hcount : s.requests.countP (fun r => (s'.heap r).prefillDone)
        = s.requests.countP fun r => (s.heap r).prefillDone := by
      refine List.countP_congr fun r _ => ?_
      by_cases hr : r = x
      · subst hr
        have hprogress := (h.prefill r hmem).progress
        unfold Request.prefillDone
        rw [numPromptTokens_of_asked (hmoved r).asked, (hmoved r).prefilled hp (by rw [shape]; rfl)]
        simp only [decide_eq_true_eq]
        omega
      · rw [hsame r fun hpr => hr (Option.some.inj (hpr.symm.trans hp))]
    rw [none, hp, hcount]
    rfl
  | first x rest token queue shape last tokens emits applied =>
    have hp : plan.prefill = some x := by rw [shape]; rfl
    have hmem : x ∈ s.prefillQueue := by rw [queue]; exact List.mem_cons_self
    have hx : x < s.nextPtr := h.lt_nextPtr (Or.inr (List.mem_append_right _ hmem))
    have hbefore : (s.heap x).prefillDone = false :=
      decide_eq_false (Nat.not_le.mpr (h.prefill x hmem).progress)
    have hafter : (s'.heap x).prefillDone = true := by
      unfold Request.prefillDone
      rw [numPromptTokens_of_asked (hmoved x).asked, (hmoved x).prefilled hp (by rw [shape]; rfl), last]
      exact decide_eq_true (Nat.le_refl _)
    have hcount : (List.range s.nextPtr).countP (fun r => (s'.heap r).prefillDone)
        = (List.range s.nextPtr).countP (fun r => (s.heap r).prefillDone) + [x].length := by
      refine countP_union (List.nodup_singleton x) (fun r hr => ?_) fun r _ => ?_
      · rw [List.mem_singleton.mp hr]
        exact ⟨hx, hbefore⟩
      · rw [List.mem_singleton]
        by_cases hr : r = x
        · rw [hr]
          exact iff_of_true hafter (Or.inl rfl)
        · rw [hsame r fun hpr => hr (Option.some.inj (hpr.symm.trans hp))]
          exact (or_iff_right hr).symm
    have htoken : emitted results = 1 := by
      rw [show plan.aborted = [] by rw [shape]; rfl, emits] at hsplit
      rw [emits]
      exact hsplit
    rw [htoken, hp]
    show 1 + (List.range s.nextPtr).countP _ = 0 + (List.range s.nextPtr).countP _
    rw [hcount]
    exact (Nat.add_comm _ _).trans (Nat.zero_add _).symm
  | rows shape running tokens emits applied =>
    have hnone : plan.prefill = none := by rw [shape]
    have hcount : s.requests.countP (fun r => (s'.heap r).prefillDone)
        = s.requests.countP fun r => (s.heap r).prefillDone :=
      List.countP_congr fun r _ => by rw [hsame r (by rw [hnone]; exact (Option.some_ne_none r).symm)]
    have htokens : emitted results = plan.decode.length := by
      have hlen : results.length = plan.aborted.length + plan.decode.length := by
        rw [emits, List.length_append, List.length_map, List.length_map, List.length_zip, tokens,
          Nat.min_self]
      omega
    rw [hcount, htokens, hnone]
    rfl

/-- a completed plan with a prefill has no decode rows -/
theorem Completed.alone {sampled : List Int} {results : List StepResult}
    (hC : Scheduler.Completed T o s plan sampled results s') (hp : plan.prefill ≠ none) :
    plan.decode = [] := by
  cases hC with
  | chunk x rest queue shape more none state inv => rw [shape]; rfl
  | first x rest token queue shape last tokens emits applied => rw [shape]; rfl
  | rows shape running tokens emits applied => exact absurd (by rw [shape]) hp

end

/-! ## runs -/

/-- the plan of a step -/
def Event.plan : Event → Option StepPlan
  | .stepped plan _ => some plan
  | _ => none

def plans (events : List Event) : List StepPlan := events.filterMap Event.plan

def StepPlan.hasDecode (plan : StepPlan) : Bool := !plan.decode.isEmpty

/-- the rows a decode step was executed at are a bucket of the ladder -/
def Launch.onLadder (buckets : List Nat) (l : Launch) : Bool :=
  !l.prefill && decide (l.rows.length ∈ buckets)

/-- a device that keeps the launches it was given -/
def recording : Environment (Except ExecutorError (Nat → Int)) (List Launch) where
  dev := fun k l d => (k, d ++ [l])

/-- no call of the executor throws -/
def Quiet (w : EngineRun (List Launch)) : EngineCall (Except ExecutorError (Nat → Int)) → Prop
  | .addRequest _ => True
  | .step k => ¬ w.engine.CallThrows k

/-- the counters of the engine are what happened -/
structure Accounted (w : EngineRun (List Launch)) : Prop where
  tokens : emitted (reports w.events) = w.engine.stats.decodeTokens + w.engine.sched.numPrefilled
  prefill : w.engine.stats.prefillTokens = w.engine.sched.progress
  decodes : w.engine.stats.graphReplays + w.engine.stats.eagerDecodes
    = (plans w.events).countP StepPlan.hasDecode
  histogram : w.engine.stats.bucketDecodeSteps.sum
    = w.device.countP (Launch.onLadder w.engine.executor.buckets)
  /-- each step with decode rows launched once -/
  launches : (w.device.countP fun l => !l.prefill) = (plans w.events).countP StepPlan.hasDecode
  replays : w.engine.stats.graphReplays ≤ w.engine.stats.bucketDecodeSteps.sum
  aborts : w.engine.stats.aborts = evictions (reports w.events)
  steps : w.engine.stats.steps = (plans w.events).countP fun plan => !plan.empty
  /-- the map holds the unfinished requests -/
  live : ∀ id r, w.engine.requests id = some r ↔ r < w.engine.sched.nextPtr ∧
    (w.engine.sched.heap r).id = id ∧ (w.engine.sched.heap r).state ≠ .kFinished

/-- what the counters are charged for one plan, against the launches it made -/
structure Charged (x : Executor) (plan : StepPlan) (done : Executed) (ls : List Launch) : Prop where
  prefillRows : done.prefillRows
    = if plan.prefill.isSome then plan.prefillEnd - plan.prefillBegin else 0
  decodeRows : done.decodeRows = if plan.prefill.isSome then 0 else plan.decode.length
  ladder : ls.countP (Launch.onLadder x.buckets)
    = if done.decodeRows ≠ 0 ∧ done.executedBucket.isSome then 1 else 0
  launches : (ls.countP fun l => !l.prefill) = if done.decodeRows = 0 then 0 else 1
  bucket : done.decodeRows ≠ 0 → ∀ bucket, done.executedBucket = some bucket → bucket ∈ x.buckets
  replayed : done.decodeRows ≠ 0 → done.replayedGraph = true → done.executedBucket.isSome

namespace EngineRun

section
variable {δ : Type} {T : Nat} {o : SchedulerOptions}

/-- the host side of a run -/
def forget (w : EngineRun δ) : EngineRun Unit := ⟨w.engine, (), w.events⟩

theorem forget_ended {d : List Launch} {e e' : Engine} {k : Except ExecutorError (Nat → Int)}
    {plan : StepPlan} {res : Except ExecutorError (List StepResult)} {d' : List Launch}
    (h : Engine.Ended T o (recording.dev k) d e plan res e' d') :
    Engine.Ended T o (hostOnly.dev k) () e plan res e' () := by
  cases h with
  | idle empty => exact .idle empty
  | evictions prefill decode results s completed => exact .evictions prefill decode results s completed
  | refused m err launch busy => exact .refused m err launch busy
  | threw m done l err _ launch launched device busy =>
    exact .threw m done l err () launch launched (Prod.ext (Prod.mk.inj device).1 rfl) busy
  | done m done l argmax _ results s launch launched device completed =>
    exact .done m done l argmax () results s launch launched
      (Prod.ext (Prod.mk.inj device).1 rfl) completed

theorem forget_stepped {w w' : EngineRun (List Launch)}
    {c : EngineCall (Except ExecutorError (Nat → Int))}
    (h : Stepped T o recording w c w') : Stepped T o hostOnly (forget w) c (forget w') := by
  cases h with
  | refused a err => exact .refused a err
  | added a accepted => exact .added a accepted
  | stepped k plan s out e d plans planned ended =>
    exact .stepped k plan s out e () plans planned (forget_ended ended)

end
end EngineRun

section
variable {T : Nat} {o : SchedulerOptions} {s s' : Scheduler} {plan : StepPlan}
    {w : EngineRun (List Launch)}

theorem Did.charged {e : Engine} {done : Executed} {l : Launch} (h : Did e plan done l)
    (hbusy : plan.prefill = none → plan.decode ≠ []) : Charged e.executor plan done [l] := by
  cases hp : plan.prefill with
  | some r =>
    have hsome : plan.prefill.isSome = true := by rw [hp]; rfl
    have hzero : done.decodeRows = 0 := by rw [h.decodeRows, if_pos hsome]
    have hl : l.prefill = true := h.prefill.trans hsome
    refine ⟨h.prefillRows, h.decodeRows, ?_, ?_, fun hne => absurd hzero hne,
      fun hne => absurd hzero hne⟩
    · rw [if_neg fun hand => hand.1 hzero, List.countP_singleton, Launch.onLadder, hl]
      rfl
    · rw [if_pos hzero, List.countP_singleton, hl]
      rfl
  | none =>
    have hnone : plan.prefill.isSome = false := by rw [hp]; rfl
    have hrows : done.decodeRows ≠ 0 := by
      rw [h.decodeRows, hnone]
      exact fun h0 => hbusy hp (List.eq_nil_of_length_eq_zero h0)
    have hl : l.prefill = false := h.prefill.trans hnone
    have hbucket : done.executedBucket.isSome ↔ l.rows.length ∈ e.executor.buckets := by
      rw [h.bucket hp, Option.isSome_iff_exists]
      constructor
      · rintro ⟨bucket, hb⟩
        exact (Executor.bucketForRows_eq_some.mp hb).2
      · exact fun hmem => ⟨_, Executor.bucketForRows_eq_some.mpr ⟨rfl, hmem⟩⟩
    refine ⟨h.prefillRows, h.decodeRows, ?_, ?_, fun _ bucket hb => ?_, fun _ hr =>
      hbucket.mpr (h.replayed hp hr)⟩
    · rw [List.countP_singleton, Launch.onLadder, hl]
      by_cases hmem : l.rows.length ∈ e.executor.buckets
      · rw [decide_eq_true hmem]
        exact (if_pos ⟨hrows, hbucket.mpr hmem⟩).symm
      · rw [decide_eq_false hmem]
        exact (if_neg fun hand : _ ∧ _ => hmem (hbucket.mp hand.2)).symm
    · rw [if_neg hrows, List.countP_singleton, hl]
      rfl
    · obtain ⟨rfl, hmem⟩ := Executor.bucketForRows_eq_some.mp ((h.bucket hp).symm.trans hb)
      exact hmem

/-- a plan that only evicts is charged no rows -/
theorem charged_evictions {x : Executor} (hp : plan.prefill = none) (hd : plan.decode = []) :
    Charged x plan {} [] := by
  have hnone : plan.prefill.isSome = false := by rw [hp]; rfl
  refine ⟨by rw [hnone]; rfl, by rw [hnone, hd]; rfl, ?_, ?_, fun h => absurd rfl h, fun h => absurd rfl h⟩
  · rw [if_neg fun hand => hand.1 rfl]
    rfl
  · rw [if_pos rfl]
    rfl

theorem plans_append (events : List Event) (event : Event) :
    plans (events ++ [event]) = plans events ++ event.plan.toList := by
  unfold plans
  rw [List.filterMap_append]
  cases hplan : event.plan <;> simp [hplan]

/-- **One completed plan.** -/
theorem Accounted.completed (hA : Accounted w)
    (hlen : w.engine.stats.bucketDecodeSteps.length = w.engine.executor.buckets.length)
    (hP : Scheduler.Planned T o w.engine.sched plan s) {m : Mirrors} {done : Executed} {sampled : List Int}
    {results : List StepResult} (hC : Scheduler.Completed T o s plan sampled results s')
    (hfull : plan.empty = false) {ls : List Launch} (hch : Charged w.engine.executor plan done ls)
    {w' : EngineRun (List Launch)}
    (hw' : w' = { engine := Engine.finish { w.engine with sched := s, executor.mirrors := m } plan done results s'
                  device := w.device ++ ls
                  events := w.events ++ [.stepped plan (.ok results)] })
    (hS : Settled (EngineRun.forget w')) : Accounted w' := by
  have hreports : reports w'.events = reports w.events ++ results := by rw [hw', reports_append]; rfl
  have hplans : plans w'.events = plans w.events ++ [plan] := by rw [hw', plans_append]; rfl
  have hdevice : w'.device = w.device ++ ls := by rw [hw']
  have hdecode : ((if plan.hasDecode = true then 1 else 0 : Nat)) = if done.decodeRows
      = 0 then 0 else 1 := by
    rw [hch.decodeRows]
    cases hp : plan.prefill with
    | some r =>
      rw [StepPlan.hasDecode, Completed.alone hC (by rw [hp]; exact Option.some_ne_none r)]
      rfl
    | none =>
      rw [StepPlan.hasDecode]
      cases plan.decode <;> rfl
  obtain ⟨hprogress, hprefilled⟩ := Planned.progress hP
  have hstats : w'.engine.stats = Engine.count w.engine plan done := by rw [hw']; rfl
  have hsched : w'.engine.sched = s' := by rw [hw']; rfl
  have hx : w'.engine.executor.buckets = w.engine.executor.buckets := by rw [hw']; rfl
  have hsum : (w.engine.count plan done).bucketDecodeSteps.sum = _ := sum_histogram hlen hch.bucket
  refine ⟨?_, ?_, ?_, ?_, ?_, ?_, ?_, ?_, hS.live⟩
  · have htokens := Completed.tokens hP.inv hC
    rw [← hch.decodeRows] at htokens
    rw [hreports, emitted_append, hA.tokens, hstats, decodeTokens_count, hsched, ← hprefilled]
    omega
  · rw [hstats, prefillTokens_count, hA.prefill, hsched, Completed.progress hP.inv hC,
      hch.prefillRows, hprogress]
  · rw [hstats, decodes_count, hA.decodes, hplans, List.countP_append, List.countP_singleton, hdecode]
  · rw [hstats, hsum, hA.histogram, hx, hdevice, List.countP_append, hch.ladder]
  · rw [hdevice, List.countP_append, hA.launches, hplans, List.countP_append,
      List.countP_singleton, hdecode, hch.launches]
  · have hreplays := hA.replays
    rw [hstats, hsum, graphReplays_count]
    by_cases hr : done.decodeRows ≠ 0 ∧ done.replayedGraph = true
    · rw [if_pos hr, if_pos ⟨hr.1, hch.replayed hr.1 hr.2⟩]
      omega
    · rw [if_neg hr]
      omega
  · rw [hstats, aborts_count, hA.aborts, hreports, evictions_append, Completed.evicts hC]
  · rw [hstats, steps_count, hA.steps, hplans, List.countP_append, List.countP_singleton, hfull]
    rfl

/-- an event without a report and without work changes no counter -/
theorem Accounted.idle (hA : Accounted w) {event : Event} (hresults : event.results = [])
    (hplan : ∀ plan ∈ event.plan, plan.empty = true) {w' : EngineRun (List Launch)}
    (hdevice : w'.device = w.device)
    (hevents : w'.events = w.events ++ [event]) (hstats : w'.engine.stats = w.engine.stats)
    (hexecutor : w'.engine.executor = w.engine.executor)
    (hprogress : w'.engine.sched.progress = w.engine.sched.progress)
    (hprefilled : w'.engine.sched.numPrefilled = w.engine.sched.numPrefilled)
    (hS : Settled (EngineRun.forget w')) : Accounted w' := by
  have hreports : reports w'.events = reports w.events := by
    rw [hevents, reports_append, hresults, List.append_nil]
  have hcount : ∀ p : StepPlan → Bool, (∀ plan, plan.empty = true → p plan = false) →
      (plans w'.events).countP p = (plans w.events).countP p := by
    intro p hp
    have hnone : event.plan.toList.countP p = 0 :=
      List.countP_eq_zero.mpr fun plan hmem => by
        rw [hp plan (hplan plan (Option.mem_toList.mp hmem))]
        exact Bool.false_ne_true
    rw [hevents, plans_append, List.countP_append, hnone, Nat.add_zero]
  have hdecode := hcount StepPlan.hasDecode fun plan hempty => by
    rw [StepPlan.hasDecode, (Bool.and_eq_true_iff.mp (Bool.and_eq_true_iff.mp hempty).1).2]
    rfl
  have hsteps := hcount (fun plan => !plan.empty) fun plan hempty => by rw [hempty]; rfl
  refine ⟨?_, ?_, ?_, ?_, ?_, ?_, ?_, ?_, hS.live⟩
  · rw [hreports, hstats, hprefilled]
    exact hA.tokens
  · rw [hstats, hprogress]
    exact hA.prefill
  · rw [hstats, hdecode]
    exact hA.decodes
  · rw [hstats, hdevice, hexecutor]
    exact hA.histogram
  · rw [hdevice, hdecode]
    exact hA.launches
  · rw [hstats]
    exact hA.replays
  · rw [hstats, hreports]
    exact hA.aborts
  · rw [hstats, hsteps]
    exact hA.steps

/-- a new request has no progress, and a prompt to prefill -/
theorem added_progress {e : Engine} {a : RequestArgs} (ha : a.promptTokens ≠ []) :
    (e.added a).sched.progress = e.sched.progress ∧
    (e.added a).sched.numPrefilled = e.sched.numPrefilled := by
  have hnew : (e.added a).sched.heap e.sched.nextPtr = a.request e.nextRequestId :=
    Function.update_self ..
  have hold : ∀ r ∈ e.sched.requests, (e.added a).sched.heap r = e.sched.heap r := fun r hr =>
    Function.update_of_ne (Nat.ne_of_lt (List.mem_range.mp hr)) _ _
  have hrequests : (e.added a).sched.requests = e.sched.requests ++ [e.sched.nextPtr] := List.range_succ
  unfold Scheduler.progress Scheduler.numPrefilled
  rw [hrequests]
  constructor
  · rw [List.map_append, List.sum_append, List.map_singleton, hnew,
      List.map_congr_left fun r hr => by rw [hold r hr]]
    rfl
  · have hpending : (a.request e.nextRequestId).prefillDone = false :=
      decide_eq_false (Nat.not_le.mpr (List.length_pos_iff.mpr ha))
    rw [List.countP_append, List.countP_singleton, hnew, hpending]
    exact List.countP_congr fun r hr => by rw [hold r hr]

/-- what a step does when no call of the executor throws -/
inductive Worked (T : Nat) (o : SchedulerOptions) (w : EngineRun (List Launch)) :
    EngineRun (List Launch) → Prop where
  | idle (plan : StepPlan) (s : Scheduler) (planned : Scheduler.Planned T o w.engine.sched plan s)
      (empty : plan.empty = true) : Worked T o w
        { engine := { w.engine with sched := s }
          device := w.device
          events := w.events ++ [.stepped plan (.ok [])] }
  | completed (plan : StepPlan) (s s' : Scheduler) (m : Mirrors) (done : Executed) (ls : List Launch)
      (sampled : List Int) (results : List StepResult)
      (planned : Scheduler.Planned T o w.engine.sched plan s) (full : plan.empty = false)
      (completed : Scheduler.Completed T o s plan sampled results s') (charged : Charged w.engine.executor plan done ls) :
      Worked T o w
        { engine := Engine.finish { w.engine with sched := s, executor.mirrors := m } plan done results s'
          device := w.device ++ ls
          events := w.events ++ [.stepped plan (.ok results)] }

/-- **A quiet step** returns early, completes its evictions, or launches and completes. -/
theorem quiet_step (hE : EngineInv T o w.engine) {k : Except ExecutorError (Nat → Int)}
    (hquiet : ¬ w.engine.CallThrows k) :
    ∃ w', EngineRun.step recording w (.step k) = some w' ∧ Worked T o w w' := by
  obtain ⟨plan, s, hs, hP⟩ := Scheduler.planStep_spec hE.sched
  have hE1 := Engine.EngineInv.planned hE hP
  by_cases hempty : plan.empty = true
  · refine ⟨_, EngineRun.step_eq hs ?_, .idle plan s hP hempty⟩
    unfold Engine.step
    simp only [hs, Option.bind_eq_bind, Option.bind_some]
    exact if_pos hempty
  · have hfull : plan.empty = false := Bool.not_eq_true _ ▸ hempty
    have hstep : w.engine.step (recording.dev k) w.device
        = Engine.execute (recording.dev k) w.device plan { w.engine with sched := s } := by
      unfold Engine.step
      simp only [hs, Option.bind_eq_bind, Option.bind_some]
      exact if_neg hempty
    by_cases hnone : plan.prefill = none ∧ plan.decode = []
    · obtain ⟨hp, hd⟩ := hnone
      have hdue : ([] : List Int).length = s.tokensDue plan := by
        unfold Scheduler.tokensDue
        rw [hp, hd]
        rfl
      obtain ⟨results, s', hs', hC⟩ := Scheduler.completeStep_spec hE1.sched (hP.planOk hE.sched) hdue
      have hevict : Engine.execute (recording.dev k) w.device plan { w.engine with sched := s }
          = some (.ok results, Engine.finish { w.engine with sched := s } plan {} results s',
            w.device) := by
        unfold Engine.execute
        rw [hp, hd]
        refine (if_pos rfl).trans ?_
        simp only [Engine.complete, hs', Option.bind_eq_bind, Option.bind_some]
        rfl
      have hnow : EngineRun.step recording w (.step k) = _ := EngineRun.step_eq hs (hstep.trans hevict)
      rw [← List.append_nil w.device] at hnow
      exact ⟨_, hnow, .completed plan s s' w.engine.executor.mirrors {} [] [] results hP hfull hC
        (charged_evictions hp hd)⟩
    · have hbusy : plan.prefill = none → plan.decode ≠ [] := fun hp hd => hnone ⟨hp, hd⟩
      obtain ⟨res, e', d', hx, hend⟩ :=
        Engine.execute_spec hE1 (hP.planOk hE.sched) (recording.dev k) w.device
      cases hend with
      | idle h => exact absurd h hempty
      | evictions prefill decode results s' completed => exact absurd decode (hbusy prefill)
      | refused m err launch busy => exact absurd ⟨plan, s, hs, busy, Or.inr ⟨err, _, launch⟩⟩ hquiet
      | threw m done l err d' launch launched device busy =>
        exact absurd ⟨plan, s, hs, busy, Or.inl ⟨err, (Prod.mk.inj device).1⟩⟩ hquiet
      | done m done l argmax d' results s' launch launched device completed =>
        obtain rfl := (Prod.mk.inj device).2
        exact ⟨_, EngineRun.step_eq hs (hstep.trans hx),
          .completed plan s s' m done [l] _ results hP hfull completed
            ((launch_did hbusy launch launched hE.fits.layers).charged hbusy)⟩

/-- what a quiet run keeps -/
structure Balanced (w : EngineRun (List Launch)) : Prop where
  accounted : Accounted w
  settled : Settled (EngineRun.forget w)
  /-- the histogram has a count for each bucket -/
  ladder : w.engine.stats.bucketDecodeSteps.length = w.engine.executor.buckets.length

/-- **One call** -/
theorem Balanced.step (hB : Balanced w) (hE : EngineInv T o w.engine)
    {c : EngineCall (Except ExecutorError (Nat → Int))} (hquiet : Quiet w c) :
    ∃ w', EngineRun.step recording w c = some w' ∧ EngineInv T o w'.engine ∧ Balanced w' := by
  obtain ⟨w', hstep, hE', hs⟩ := EngineRun.step_spec recording hE c
  refine ⟨w', hstep, hE', ?_⟩
  have hsteady : Steady (EngineRun.forget w) c := by
    cases c with
    | addRequest a => trivial
    | step k => exact fun hthrows => absurd hthrows hquiet
  have hS : Settled (EngineRun.forget w') :=
    (hB.settled.step_iff hE hE' (EngineRun.forget_stepped hs)).mpr hsteady
  cases c with
  | addRequest a =>
    cases hs with
    | refused a err =>
      have hnone : ∀ plan ∈ (Event.refused err).plan, plan.empty = true := fun _ h => by cases h
      exact ⟨hB.accounted.idle rfl hnone rfl rfl rfl rfl rfl rfl hS, hS, hB.ladder⟩
    | added a accepted =>
      have hprompt : a.promptTokens ≠ [] := List.length_pos_iff.mp accepted.valid.prompt_pos
      have hnone : ∀ plan ∈ (Event.added w.engine.nextRequestId a).plan, plan.empty = true :=
        fun _ h => by cases h
      exact ⟨hB.accounted.idle rfl hnone rfl rfl rfl rfl (added_progress hprompt).1 (added_progress hprompt).2 hS, hS,
        hB.ladder⟩
  | step k =>
    obtain ⟨w1, hw1, hworked⟩ := quiet_step hE hquiet
    obtain rfl : w' = w1 := Option.some.inj (hstep.symm.trans hw1)
    cases hworked with
    | idle plan s planned empty =>
      obtain ⟨hprogress, hprefilled⟩ := Planned.progress planned
      have hnone : ∀ p ∈ (Event.stepped plan (.ok [])).plan, p.empty = true := fun p hp => by
        rw [← Option.some.inj hp]
        exact empty
      exact ⟨hB.accounted.idle rfl hnone rfl rfl rfl rfl hprogress hprefilled hS, hS, hB.ladder⟩
    | completed plan s s' m done ls sampled results planned full completed charged =>
      exact ⟨hB.accounted.completed hB.ladder planned completed full charged rfl hS, hS,
        length_histogram.trans hB.ladder⟩

theorem Balanced.make {config : ModelConfig} {options : EngineOptions} {captured : Bool}
    {probe : Nat → Nat → Option PrefillGemmMode} {e : Engine}
    (he : Engine.make config options captured probe = .ok e) : Balanced (.init e []) := by
  obtain ⟨x, _, rfl⟩ := Engine.make_eq he
  have hzero : (x.buckets.map fun _ => 0).sum = 0 := List.sum_eq_zero fun n hn => by
    obtain ⟨_, _, rfl⟩ := List.mem_map.mp hn
    rfl
  have hS : Settled (EngineRun.forget (EngineRun.init _ ([] : List Launch))) := Settled.init
    { executor := x
      sched := .make x.numKvBlocks.toNat (Engine.schedulerOptions config options)
      nextRequestId := 1
      requests := fun _ => none
      stats := { bucketDecodeSteps := x.buckets.map fun _ => 0 } } rfl rfl rfl
  exact ⟨⟨rfl, rfl, rfl, hzero, rfl, Nat.zero_le _, rfl, rfl, hS.live⟩, hS, List.length_map _⟩

end

/-- **Engine accounting**: in a run in which no call of the executor throws, the counters are what happened. -/
theorem engine_accounting (config : ModelConfig) (options : EngineOptions) (captured : Bool)
    (probe : Nat → Nat → Option PrefillGemmMode) (e : Engine)
    (he : Engine.make config options captured probe = .ok e)
    (cs : List (EngineCall (Except ExecutorError (Nat → Int))))
    (hcs : Legal (EngineRun.step recording) Quiet (.init e []) cs) :
    ∃ w, run (EngineRun.step recording) (.init e []) cs = some w ∧ Accounted w := by
  obtain ⟨w, hw, _, hB⟩ := run_total
    (fun w => EngineInv e.totalBlocks (Engine.schedulerOptions config options) w.engine ∧ Balanced w)
    (fun w c ⟨hE, hB⟩ hquiet => hB.step hE hquiet) cs (.init e []) ⟨EngineInv.make he, .make he⟩ hcs
  exact ⟨w, hw, hB.accounted⟩

/-! ## quiet runs -/

def Event.raised : Event → Bool
  | .stepped _ (.error _) => true
  | _ => false

/-- a step that returned made no call that threw -/
theorem not_callThrows {e e' : Engine} {k : Except ExecutorError (Nat → Int)} {d d' : List Launch}
    {results : List StepResult} (h : e.step (recording.dev k) d = some (.ok results, e', d')) :
    ¬ e.CallThrows k := by
  rintro ⟨plan, s, hs, hbusy, hthrows⟩
  have hcall : (plan.prefill.isNone && plan.decode.isEmpty) = false := by
    cases hp : plan.prefill with
    | some r => rfl
    | none => simpa using hbusy hp
  have hempty : ¬ plan.empty = true := by
    unfold StepPlan.empty
    rw [hcall]
    exact Bool.false_ne_true
  unfold Engine.step Engine.execute at h
  simp only [hs, Option.bind_eq_bind, Option.bind_some, if_neg hempty, hcall, Bool.false_eq_true,
    if_false] at h
  rcases hthrows with ⟨err, rfl⟩ | ⟨err, x, hlaunch⟩
  · obtain ⟨⟨out, x⟩, _, h⟩ := Option.bind_eq_some_iff.mp h
    cases out with
    | error err' => cases h
    | ok p => cases h
  · rw [hlaunch] at h
    cases h

/-- a call adds one event to the log; it is quiet if that is no exception of a step -/
theorem step_logs {w w' : EngineRun (List Launch)} {c : EngineCall (Except ExecutorError (Nat → Int))}
    (h : EngineRun.step recording w c = some w') :
    ∃ event, w'.events = w.events ++ [event] ∧ (event.raised = false → Quiet w c) := by
  cases c with
  | addRequest a =>
    obtain ⟨out, _, h⟩ := Option.bind_eq_some_iff.mp h
    cases out with
    | error err =>
      obtain rfl := Option.some.inj h
      exact ⟨.refused err, rfl, fun _ => trivial⟩
    | ok p =>
      obtain rfl := Option.some.inj h
      exact ⟨.added p.1 a, rfl, fun _ => trivial⟩
  | step k =>
    obtain ⟨⟨plan, s⟩, _, h⟩ := Option.bind_eq_some_iff.mp h
    obtain ⟨⟨out, e, d⟩, hstep, h⟩ := Option.bind_eq_some_iff.mp h
    obtain rfl := Option.some.inj h
    refine ⟨.stepped plan out, rfl, fun hraised => ?_⟩
    cases out with
    | error err => cases hraised
    | ok results => exact not_callThrows hstep

/-- a run whose log has no exception of a step is quiet -/
theorem legal_of_log (cs : List (EngineCall (Except ExecutorError (Nat → Int)))) :
    ∀ w w' : EngineRun (List Launch), run (EngineRun.step recording) w cs = some w' →
      (∀ event ∈ w'.events, event.raised = false) →
      (∀ event ∈ w.events, event ∈ w'.events) ∧ Legal (EngineRun.step recording) Quiet w cs := by
  induction cs with
  | nil =>
    intro w w' h _
    obtain rfl := Option.some.inj h
    exact ⟨fun _ h => h, trivial⟩
  | cons c cs ih =>
    intro w w' h hlog
    rw [run_cons] at h
    obtain ⟨w1, h1, h⟩ := Option.bind_eq_some_iff.mp h
    obtain ⟨hsub, hlegal⟩ := ih w1 w' h hlog
    obtain ⟨event, hevents, hquiet⟩ := step_logs h1
    have hevent : event ∈ w1.events := by rw [hevents]; exact List.mem_append_right _ List.mem_cons_self
    refine ⟨fun x hx => hsub x (by rw [hevents]; exact List.mem_append_left _ hx),
      hquiet (hlog event (hsub event hevent)), fun w2 h2 => ?_⟩
    obtain rfl : w1 = w2 := Option.some.inj (h1.symm.trans h2)
    exact hlegal

/-- two requests whose prompts fill a block each; the first decode step evicts the second one -/
def quietCalls : List (EngineCall (Except ExecutorError (Nat → Int))) :=
  [.addRequest { promptTokens := List.replicate 16 1, maxNewTokens := 8 },
    .addRequest { promptTokens := List.replicate 16 2, maxNewTokens := 8 },
    .step (.ok fun _ => 4), .step (.ok fun _ => 4), .step (.ok fun _ => 4), .step (.ok fun _ => 7)]

theorem engine_accounting_tiny :
    ∃ w, run (EngineRun.step recording) (.init (tinyEngine .kWatermark) []) quietCalls = some w ∧
      Accounted w := by
  have hlog : ∀ w ∈ run (EngineRun.step recording) (.init (tinyEngine .kWatermark) []) quietCalls,
      ∀ event ∈ w.events, event.raised = false := by decide +kernel
  cases hw : run (EngineRun.step recording) (.init (tinyEngine .kWatermark) []) quietCalls with
  | none =>
    have hsome : (run (EngineRun.step recording) (.init (tinyEngine .kWatermark) []) quietCalls).isSome = true := by
      decide +kernel
    rw [hw] at hsome
    cases hsome
  | some w =>
    rw [← hw]
    exact engine_accounting tinyConfig (tinyOptions .kWatermark) true tinyProbe (tinyEngine .kWatermark)
      (tinyEngine_make .kWatermark) quietCalls (legal_of_log quietCalls _ w hw (hlog w hw)).2

end Redline

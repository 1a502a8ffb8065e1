import Redline.Engine.Reports

/-!
# Terminal reports

`Settled w`: every finished request was reported by exactly one terminal report, no other request
by any; the map holds the unfinished requests; the abort counter counts the evicted ones.

`PlanStep` evicts before the executor runs, and `CompleteStep` tells after it.  A step that evicts
and then throws forgets its plan, and with it the evictions (`emission_counterexample`).  That is
the only way to lose a report: `exactly_once_emission` says that a run stays settled exactly if no
step whose executor call throws starts in a state that evicts.  `Scheduler.Evicts` is that state
(`aborted_iff`).
-/

namespace Redline
open Prog

/-- the terminal reports about the request `id` -/
def terminals (id : Nat) (results : List StepResult) : List StepResult :=
  (about id results).filter fun x => x.finished

theorem terminals_append (id : Nat) (a b : List StepResult) :
    terminals id (a ++ b) = terminals id a ++ terminals id b := by
  unfold terminals
  rw [about_append, List.filter_append]

theorem terminals_nil {id : Nat} {l : List StepResult} (h : ∀ x ∈ l, x.requestId ≠ id) :
    terminals id l = [] := by
  unfold terminals
  rw [about_nil h]
  rfl

theorem terminals_single {id : Nat} {x : StepResult} (h : x.requestId = id) :
    terminals id [x] = if x.finished then [x] else [] := by
  unfold terminals
  rw [about_single h, List.filter_cons, List.filter_nil]

/-- a request leaves the map with its terminal report -/
theorem dropFinished_apply (results : List StepResult) : ∀ (m : Nat → Option Nat) (id : Nat),
    Engine.dropFinished m results id = if terminals id results = [] then m id else none := by
  induction results with
  | nil => intro m id; rfl
  | cons x results ih =>
    intro m id
    show Engine.dropFinished (if x.finished then Function.update m x.requestId none else m) results id
      = _
    rw [ih, ← List.singleton_append, terminals_append]
    by_cases hx : x.requestId = id
    · rw [terminals_single hx, hx]
      cases x.finished with
      | false => rfl
      | true => simp
    · have h1 : terminals id [x] = [] := terminals_nil (by simpa using hx)
      have h2 : (if x.finished then Function.update m x.requestId none else m) id = m id := by
        split
        · exact Function.update_of_ne (Ne.symm hx) _ _
        · rfl
      rw [h1, h2, List.nil_append]

/-! ## what a step reports about one request -/

/-- a request is evicted, stops with its last token, or does not finish; `l` are its terminal
reports -/
inductive Fate (q q' : Request) (victim : Prop) : List StepResult → Prop where
  | evicted (chosen : victim) (before : q.finishReason = .kNone)
      (after : q'.finishReason = .kAborted) : Fate q q' victim [⟨q'.id, 0, true, .kAborted⟩]
  | quiet (out : ¬ victim) (same : q'.finishReason = q.finishReason) : Fate q q' victim []
  | stopped (out : ¬ victim) (token : Int) (before : q.finishReason = .kNone)
      (after : q'.finishReason ≠ .kNone) (natural : q'.finishReason ≠ .kAborted) :
      Fate q q' victim [⟨q'.id, token, true, q'.finishReason⟩]

section
variable {T : Nat} {o : SchedulerOptions} {s s1 s' : Scheduler} {plan : StepPlan}

theorem reasonOf_ne_aborted (o : SchedulerOptions) (q : Request) (token : Int) :
    reasonOf o q token ≠ .kAborted := by
  unfold reasonOf
  split
  · nofun
  · split <;> nofun

theorem finishReason_sampledReq {q : Request} (h : q.finishReason = .kNone) (token : Int) :
    (sampledReq o q token).finishReason = reasonOf o q token := by
  by_cases hn : reasonOf o q token = .kNone
  · rw [sampledReq_next hn, hn]
    exact h
  · rw [sampledReq_stop hn]
    rfl

/-- one token: a terminal report if it was the last one -/
theorem Fate.sampled {q q1 q' : Request} {victim : Prop} {token : Int} (hv : ¬ victim)
    (h : q.finishReason = .kNone) (h1 : q1.finishReason = q.finishReason)
    (eq : q' = sampledReq o q1 token) : Fate q q' victim
      (if (sampledResult o q1 token).finished then [sampledResult o q1 token] else []) := by
  have hf := finishReason_sampledReq (o := o) (h1.trans h) token
  rw [← eq] at hf
  by_cases hn : reasonOf o q1 token = .kNone
  · rw [if_neg (by simp [sampledResult, hn])]
    exact .quiet hv (by rw [hf, hn, h])
  · have hid : q'.id = q1.id := by
      rw [eq]; exact congrArg NewRequest.id (asked_sampledReq o q1 token)
    have hx : sampledResult o q1 token = ⟨q'.id, token, true, q'.finishReason⟩ := by
      rw [hid, hf]; simp [sampledResult, hn]
    rw [if_pos (by rw [hx]), hx]
    exact .stopped hv token h (hf ▸ hn) (hf ▸ reasonOf_ne_aborted o q1 token)

/-- **Completing tells each request its fate.** -/
theorem Answer.fate (h : Inv T o s) (h1 : Inv T o s1) (hV : Victims s s1 plan)
    {sampled : List Int} {r : Nat} {l : List StepResult} (hA : Answer o s1 plan sampled r s' l)
    (hwait : ∀ x, plan.prefill = some x → x ∈ s1.prefillQueue ∧ plan.aborted = [])
    (hrun : ∀ x ∈ plan.decode, x ∈ s1.running) :
    Fate (s.heap r) (s'.heap r) (r ∈ plan.aborted) (l.filter fun x => x.finished) := by
  cases hA with
  | evicted victim eq =>
    obtain ⟨hmem, _, hev⟩ := hV.mem r victim
    have hreason : (s'.heap r).finishReason = .kAborted := by rw [eq, hev]; rfl
    have hid : (s'.heap r).id = (s1.heap r).id := by rw [eq]
    have : Fate (s.heap r) (s'.heap r) _ [⟨(s'.heap r).id, 0, true, .kAborted⟩] :=
      .evicted victim (h.running r hmem).reason hreason
    rw [hid] at this
    exact this
  | none victim out eq =>
    rw [eq]
    exact .quiet victim (hV.others r victim)
  | chunk prefill more eq =>
    have hab : r ∉ plan.aborted := by rw [(hwait r prefill).2]; exact List.not_mem_nil
    rw [eq]
    exact .quiet hab (hV.others r hab)
  | first prefill token tokens last eq =>
    have hab : r ∉ plan.aborted := by rw [(hwait r prefill).2]; exact List.not_mem_nil
    have hnone := (h1.prefill r (hwait r prefill).1).reason
    rw [List.filter_cons, List.filter_nil]
    exact .sampled hab ((hV.others r hab).symm.trans hnone) (hV.others r hab) eq
  | row i token row tokens eq =>
    have hd := List.mem_of_getElem? row
    have hab : r ∉ plan.aborted := fun ha => (hV.mem r ha).2.1 hd
    have hnone := (h1.running r (hrun r hd)).reason
    rw [List.filter_cons, List.filter_nil]
    exact .sampled hab ((hV.others r hab).symm.trans hnone) (hV.others r hab) eq

/-! ## when planning evicts -/

/-- under the watermark policy nothing prefills and nothing can be admitted, and more running rows
stand at a block boundary than blocks are uncommitted -/
def Scheduler.Evicts (s : Scheduler) : Prop :=
  s.options.admissionPolicy = .kWatermark ∧ s.prefillQueue = [] ∧ s.admitsHead = false ∧
    s.uncommitted < s.boundary s.running

/-- **The state before tells whether planning evicts.** -/
theorem Planned.aborted_iff (h : Inv T o s) (hP : Scheduler.Planned T o s plan s1) :
    plan.aborted ≠ [] ↔ s.Evicts := by
  unfold Scheduler.Evicts
  rw [h.options]
  cases hP with
  | prefill s1 k x rest hP =>
    have hab : plan.aborted = [] := by rw [hP.shape]; rfl
    refine iff_of_false (fun hne => hne hab) fun he => ?_
    rcases Nat.eq_zero_or_pos k with h0 | h0
    · have hq := hP.queue
      rw [hP.admissions.idle h0, he.2.1] at hq
      cases hq
    · rw [hP.admissions.head h0] at he
      cases he.2.2.1
  | decode blocked hD =>
    constructor
    · intro hne
      exact ⟨(hD.aborts hne).1, hD.queue, blocked, (hD.aborts hne).2⟩
    · intro he hab
      have := hD.serves hab he.1
      omega

/-- a request is finished when it has a reason -/
theorem Inv.finished_iff (h : Inv T o s) {r : Nat} (hr : r < s.nextPtr) :
    (s.heap r).state = .kFinished ↔ (s.heap r).finishReason ≠ .kNone := by
  by_cases hw : r ∈ s.waiting
  · rw [(h.waiting r hw).state, (h.waiting r hw).reason]
    decide
  · by_cases ha : r ∈ s.admitted
    · rcases List.mem_append.mp ha with ha | ha
      · rw [(h.running r ha).state, (h.running r ha).reason]
        decide
      · rw [(h.prefill r ha).state, (h.prefill r ha).reason]
        decide
    · exact iff_of_true (h.finished r hr hw ha).state (h.finished r hr hw ha).reason

end

/-! ## settled runs -/

def Scheduler.numAborted (s : Scheduler) : Nat :=
  s.requests.countP fun r => decide ((s.heap r).finishReason = .kAborted)

theorem aborts_count (e : Engine) (plan : StepPlan) (done : Executed) :
    (e.count plan done).aborts = e.stats.aborts + plan.aborted.length := by
  unfold Engine.count
  simp only
  split
  · rfl
  · cases done.executedBucket with
    | none => cases done.replayedGraph <;> rfl
    | some b => cases done.replayedGraph <;> rfl

/-- what was reported about a request: one terminal report when it is finished, none before -/
def Told (q : Request) (l : List StepResult) : Prop :=
  (q.state = .kFinished → ∃ token, l = [⟨q.id, token, true, q.finishReason⟩]) ∧
    (q.state ≠ .kFinished → l = [])

structure Settled (w : EngineRun Unit) : Prop where
  told : ∀ r < w.engine.sched.nextPtr,
    Told (w.engine.sched.heap r) (terminals (w.engine.sched.heap r).id (reports w.events))
  /-- only requests that were accepted are reported -/
  known : ∀ x ∈ reports w.events, x.requestId < w.engine.nextRequestId
  /-- the map holds the unfinished requests -/
  live : ∀ id r, w.engine.requests id = some r ↔ r < w.engine.sched.nextPtr ∧
    (w.engine.sched.heap r).id = id ∧ (w.engine.sched.heap r).state ≠ .kFinished
  aborts : w.engine.stats.aborts = w.engine.sched.numAborted

section
variable {T : Nat} {o : SchedulerOptions} {s s' : Scheduler} {plan : StepPlan} {w : EngineRun Unit}

theorem Told.congr {q q' : Request} {l : List StepResult} (hid : q'.id = q.id)
    (hr : q'.finishReason = q.finishReason) (hs : q'.state = .kFinished ↔ q.state = .kFinished)
    (h : Told q l) : Told q' l := by
  refine ⟨fun hf => ?_, fun hf => h.2 (mt hs.mpr hf)⟩
  obtain ⟨token, ht⟩ := h.1 (hs.mp hf)
  exact ⟨token, by rw [ht, hid, hr]⟩

/-- the victims of a plan are the new aborted requests -/
theorem countP_union {n : Nat} {l : List Nat} {p p' : Nat → Bool} (hn : l.Nodup)
    (hl : ∀ r ∈ l, r < n ∧ p r = false) (hp : ∀ r < n, p' r = true ↔ r ∈ l ∨ p r = true) :
    (List.range n).countP p' = (List.range n).countP p + l.length := by
  have hperm : ((List.range n).filter p').Perm ((List.range n).filter p ++ l) := by
    refine (List.perm_ext_iff_of_nodup (List.nodup_range.filter _) ?_).mpr fun r => ?_
    · refine List.nodup_append.mpr ⟨List.nodup_range.filter _, hn, fun x hx y hy e => ?_⟩
      rw [List.mem_filter, e, (hl y hy).2] at hx
      cases hx.2
    · rw [List.mem_append, List.mem_filter, List.mem_filter, List.mem_range]
      constructor
      · rintro ⟨hr, hpr⟩
        exact ((hp r hr).mp hpr).symm.imp_left fun h => ⟨hr, h⟩
      · rintro (⟨hr, hpr⟩ | hr)
        · exact ⟨hr, (hp r hr).mpr (Or.inr hpr)⟩
        · exact ⟨(hl r hr).1, (hp r (hl r hr).1).mpr (Or.inl hr)⟩
  rw [List.countP_eq_length_filter, List.countP_eq_length_filter, hperm.length_eq,
    List.length_append]

theorem Fate.of_nil {q q' : Request} {victim : Prop} (h : Fate q q' victim []) :
    q'.finishReason = q.finishReason := by
  cases h with
  | quiet out same => exact same

theorem Fate.nil_of {q q' : Request} {victim : Prop} {l : List StepResult}
    (h : Fate q q' victim l) (hn : q'.finishReason = .kNone) : l = [] := by
  cases h with
  | evicted chosen before after => rw [after] at hn; cases hn
  | quiet out same => rfl
  | stopped out token before after natural => exact absurd hn after

theorem Fate.unfinished {q q' : Request} {victim : Prop} {l : List StepResult}
    (h : Fate q q' victim l) (hv : victim) : q.finishReason = .kNone := by
  cases h with
  | evicted chosen before after => exact before
  | quiet out same => exact absurd hv out
  | stopped out token before after natural => exact before

theorem Fate.aborted_iff {q q' : Request} {victim : Prop} {l : List StepResult}
    (h : Fate q q' victim l) :
    q'.finishReason = .kAborted ↔ victim ∨ q.finishReason = .kAborted := by
  cases h with
  | evicted chosen before after => exact iff_of_true after (Or.inl chosen)
  | quiet out same => rw [same]; exact (or_iff_right out).symm
  | stopped out token before after natural =>
    exact iff_of_false natural fun hc => hc.elim out fun hc => by rw [before] at hc; cases hc

/-- the fate of a request, after what was told before -/
theorem Told.fate {q q' : Request} {victim : Prop} {l l' : List StepResult} (h : Told q l)
    (hf : q.state = .kFinished ↔ q.finishReason ≠ .kNone)
    (hf' : q'.state = .kFinished ↔ q'.finishReason ≠ .kNone) (hid : q'.id = q.id)
    (hl : Fate q q' victim l') : Told q' (l ++ l') := by
  cases hl with
  | evicted chosen before after =>
    refine ⟨fun _ => ⟨0, ?_⟩, fun hu => absurd (hf'.mpr (by rw [after]; nofun)) hu⟩
    rw [h.2 (mt hf.mp (not_not.mpr before)), after, List.nil_append]
  | quiet out same =>
    rw [List.append_nil]
    exact h.congr hid same (by rw [hf, hf', same])
  | stopped out token before after natural =>
    refine ⟨fun _ => ⟨token, ?_⟩, fun hu => absurd (hf'.mpr after) hu⟩
    rw [h.2 (mt hf.mp (not_not.mpr before)), List.nil_append]

/-- **One step that loses nothing.**  `results` is what it reported. -/
theorem Settled.step (hS : Settled w) (hE : EngineInv T o w.engine) {w' : EngineRun Unit}
    (hE' : EngineInv T o w'.engine) (plan : StepPlan) (results : List StepResult)
    (hn : w'.engine.sched.nextPtr = w.engine.sched.nextPtr) (hnd : plan.aborted.Nodup)
    (hlt : ∀ r ∈ plan.aborted, r < w.engine.sched.nextPtr)
    (hfate : ∀ r < w.engine.sched.nextPtr, Fate (w.engine.sched.heap r) (w'.engine.sched.heap r)
      (r ∈ plan.aborted) (terminals (r + 1) results))
    (hknown : ∀ x ∈ results, x.requestId < w.engine.nextRequestId)
    (hreq : w'.engine.requests = Engine.dropFinished w.engine.requests results)
    (hst : w'.engine.stats.aborts = w.engine.stats.aborts + plan.aborted.length)
    (hrep : reports w'.events = reports w.events ++ results) : Settled w' := by
  have hid : ∀ r < w.engine.sched.nextPtr, (w.engine.sched.heap r).id = r + 1 := hE.ids
  have hid' : ∀ r < w.engine.sched.nextPtr, (w'.engine.sched.heap r).id = r + 1 :=
    fun r hr => hE'.ids r (hn ▸ hr)
  have hfin := fun r (hr : r < w.engine.sched.nextPtr) => hE.sched.finished_iff hr
  have hfin' := fun r (hr : r < w.engine.sched.nextPtr) => hE'.sched.finished_iff (hn ▸ hr)
  refine ⟨fun r hr => ?_, fun x hx => ?_, fun id r => ?_, ?_⟩
  · rw [hn] at hr
    have hold := hS.told r hr
    rw [hid r hr] at hold
    rw [hid' r hr, hrep, terminals_append]
    exact hold.fate (hfin r hr) (hfin' r hr) ((hid' r hr).trans (hid r hr).symm) (hfate r hr)
  · rw [hrep, List.mem_append] at hx
    rw [hE'.nextId, hn, ← hE.nextId]
    exact hx.elim (hS.known x) (hknown x)
  · rw [hreq, dropFinished_apply]
    constructor
    · intro hm
      by_cases ht : terminals id results = []
      · rw [if_pos ht] at hm
        obtain ⟨h1, h2, h3⟩ := (hS.live id r).mp hm
        have hto := hfate r h1
        rw [← hid r h1, h2, ht] at hto
        refine ⟨hn ▸ h1, ((hid' r h1).trans (hid r h1).symm).trans h2, ?_⟩
        rw [Ne, hfin' r h1, hto.of_nil, ← hfin r h1]
        exact h3
      · rw [if_neg ht] at hm
        cases hm
    · rintro ⟨h1, h2, h3⟩
      rw [hn] at h1
      have hidr : r + 1 = id := (hid' r h1).symm.trans h2
      have hto := hfate r h1
      have hnil := hto.nil_of (not_not.mp (mt (hfin' r h1).mpr h3))
      rw [hidr] at hnil
      rw [hidr, hnil] at hto
      rw [if_pos hnil]
      refine (hS.live id r).mpr ⟨h1, (hid r h1).trans hidr, ?_⟩
      rw [Ne, hfin r h1, ← hto.of_nil, ← hfin' r h1]
      exact h3
  · rw [hst, hS.aborts]
    unfold Scheduler.numAborted Scheduler.requests
    rw [hn]
    refine (countP_union hnd (fun r hr => ⟨hlt r hr, ?_⟩) fun r hr => ?_).symm
    · rw [(hfate r (hlt r hr)).unfinished hr]
      rfl
    · rw [decide_eq_true_eq, decide_eq_true_eq]
      exact (hfate r hr).aborted_iff

theorem Settled.added (hS : Settled w) (hE : EngineInv T o w.engine) {a : RequestArgs} :
    Settled { w with
      engine := w.engine.added a
      events := w.events ++ [.added w.engine.nextRequestId a] } := by
  have hrep : reports (w.events ++ [.added w.engine.nextRequestId a]) = reports w.events := by
    rw [reports_append]
    exact List.append_nil _
  have hnew : (w.engine.added a).sched.heap w.engine.sched.nextPtr
      = a.request w.engine.nextRequestId := Function.update_self ..
  have hold : ∀ r < w.engine.sched.nextPtr,
      (w.engine.added a).sched.heap r = w.engine.sched.heap r :=
    fun r hr => Function.update_of_ne (Nat.ne_of_lt hr) _ _
  refine ⟨fun r hr => ?_, fun x hx => ?_, fun id r => ?_, ?_⟩
  · show Told ((w.engine.added a).sched.heap r) (terminals ((w.engine.added a).sched.heap r).id
      (reports (w.events ++ [.added w.engine.nextRequestId a])))
    rw [hrep]
    rcases Nat.lt_succ_iff_lt_or_eq.mp hr with hr | rfl
    · rw [hold r hr]
      exact hS.told r hr
    · rw [hnew]
      refine ⟨nofun, fun _ => terminals_nil fun x hx => ?_⟩
      exact Nat.ne_of_lt (hS.known x hx)
  · rw [hrep] at hx
    exact Nat.lt_succ_of_lt (hS.known x hx)
  · show Function.update w.engine.requests w.engine.nextRequestId (some w.engine.sched.nextPtr) id
      = some r ↔ r < w.engine.sched.nextPtr + 1 ∧ ((w.engine.added a).sched.heap r).id = id ∧
        ((w.engine.added a).sched.heap r).state ≠ .kFinished
    by_cases hid : id = w.engine.nextRequestId
    · rw [hid, Function.update_self, Option.some.injEq]
      constructor
      · rintro rfl
        rw [hnew]
        exact ⟨Nat.lt_succ_self _, rfl, nofun⟩
      · rintro ⟨h1, h2, _⟩
        rcases Nat.lt_succ_iff_lt_or_eq.mp h1 with hr | rfl
        · rw [hold r hr, hE.ids r hr, hE.nextId] at h2
          omega
        · rfl
    · rw [Function.update_of_ne hid, hS.live id r]
      constructor
      · rintro ⟨h1, h2, h3⟩
        rw [hold r h1]
        exact ⟨Nat.lt_succ_of_lt h1, h2, h3⟩
      · rintro ⟨h1, h2, h3⟩
        rcases Nat.lt_succ_iff_lt_or_eq.mp h1 with hr | rfl
        · rw [hold r hr] at h2 h3
          exact ⟨hr, h2, h3⟩
        · rw [hnew] at h2
          exact absurd h2.symm hid
  · show w.engine.stats.aborts = (w.engine.added a).sched.numAborted
    rw [hS.aborts]
    unfold Scheduler.numAborted Scheduler.requests
    show _ = (List.range (w.engine.sched.nextPtr + 1)).countP _
    rw [List.range_succ, List.countP_append, List.countP_singleton, hnew]
    refine (List.countP_congr fun r hr => ?_).trans (Nat.add_zero _).symm
    rw [hold r (List.mem_range.mp hr)]

/-! ## runs -/

/-- the executor call of a step from `e` throws, when the device does `k` -/
def Engine.CallThrows (e : Engine) (k : Except ExecutorError (Nat → Int)) : Prop :=
  ∃ plan s, e.sched.planStep = some (plan, s) ∧ (plan.prefill = none → plan.decode ≠ []) ∧
    ((∃ err, k = .error err) ∨
      ∃ err x, Engine.launch { e with sched := s } plan = some (.error err, x))

/-- no call of the executor throws in a state that evicts -/
def Steady (w : EngineRun Unit) : EngineCall (Except ExecutorError (Nat → Int)) → Prop
  | .addRequest _ => True
  | .step k => w.engine.CallThrows k → ¬ w.engine.sched.Evicts

theorem Settled.refused (hS : Settled w) (event : Event) (h : event.results = []) :
    Settled { w with events := w.events ++ [event] } := by
  have hrep : reports (w.events ++ [event]) = reports w.events := by
    rw [reports_append, h, List.append_nil]
  refine ⟨fun r hr => ?_, fun x hx => hS.known x (hrep ▸ hx), hS.live, hS.aborts⟩
  have := hS.told r hr
  rw [← hrep] at this
  exact this

/-- a step that is not completed keeps a settled run settled exactly when it evicted nobody -/
theorem Settled.dropped_iff (hS : Settled w) (hE : EngineInv T o w.engine)
    (hP : Scheduler.Planned T o w.engine.sched plan s) {x : Executor} {d : Unit}
    {out : Except ExecutorError (List StepResult)} (hout : (Event.stepped plan out).results = [])
    {w' : EngineRun Unit} (hw' : w' = { engine := { w.engine with sched := s, executor := x }
                                        device := d
                                        events := w.events ++ [.stepped plan out] })
    (hE' : EngineInv T o w'.engine) : Settled w' ↔ plan.aborted = [] := by
  have hV := Planned.finishes hE.sched hP
  have hn := Planned.nextPtr hP
  have hrep : reports w'.events = reports w.events := by
    rw [hw', reports_append, hout, List.append_nil]
  constructor
  · intro h
    have hold : w.engine.stats.aborts = s.numAborted := by
      have := h.aborts
      rw [hw'] at this
      exact this
    have hcount : s.numAborted = w.engine.sched.numAborted + plan.aborted.length := by
      unfold Scheduler.numAborted Scheduler.requests
      rw [hn]
      refine countP_union hV.nodup (fun r hr => ?_) fun r _ => ?_
      · have hrun := (hV.mem r hr).1
        refine ⟨hE.sched.lt_nextPtr (Or.inr (List.mem_append_left _ hrun)), ?_⟩
        rw [(hE.sched.running r hrun).reason]
        rfl
      · rw [decide_eq_true_eq, decide_eq_true_eq]
        by_cases hr : r ∈ plan.aborted
        · rw [(hV.mem r hr).2.2]
          exact iff_of_true rfl (Or.inl hr)
        · rw [hV.others r hr]
          exact (or_iff_right hr).symm
    rw [hS.aborts, hcount] at hold
    exact List.eq_nil_of_length_eq_zero (by omega)
  · intro hab
    have hnot : ∀ r, r ∉ plan.aborted := fun r => by rw [hab]; exact List.not_mem_nil
    refine hS.step hE hE' plan [] ?_ hV.nodup (fun r hr => absurd hr (hnot r))
      (fun r _ => ?_) (fun x hx => absurd hx List.not_mem_nil) ?_ ?_ ?_
    · rw [hw']; exact hn
    · rw [hw']; exact .quiet (hnot r) (hV.others r (hnot r))
    · rw [hw']; rfl
    · rw [hw', hab]; rfl
    · rw [hrep, List.append_nil]

/-- completing keeps a settled run settled -/
theorem Settled.completed (hS : Settled w) (hE : EngineInv T o w.engine)
    (hP : Scheduler.Planned T o w.engine.sched plan s) {x : Executor} {d : Unit} {done : Executed}
    {sampled : List Int} {results : List StepResult}
    (hC : Scheduler.Completed T o s plan sampled results s') {w' : EngineRun Unit}
    (hw' : w' = { engine := Engine.finish { w.engine with sched := s, executor := x } plan done results s'
                  device := d
                  events := w.events ++ [.stepped plan (.ok results)] })
    (hE' : EngineInv T o w'.engine) : Settled w' := by
  have hV := Planned.finishes hE.sched hP
  have hn := Planned.nextPtr hP
  have hE1 := Engine.EngineInv.planned hE hP
  have hids : ∀ r < s.nextPtr, (s.heap r).id = r + 1 := hE1.ids
  have hlt : ∀ r ∈ w.engine.sched.running, r < w.engine.sched.nextPtr := fun r hr =>
    hE.sched.lt_nextPtr (Or.inr (List.mem_append_left _ hr))
  refine hS.step hE hE' plan results ?_ hV.nodup
    (fun r hr => hlt r (hV.mem r hr).1) (fun r hr => ?_) (fun x hx => ?_) ?_ ?_ ?_
  · rw [hw']
    exact (Completed.nextPtr hC).trans hn
  · rw [hw']
    have hA := Completed.answer hP.inv hids hV.nodup
      (fun r hr => ⟨hn ▸ hlt r (hV.mem r hr).1, (hV.mem r hr).2.1⟩) hC r
    exact hA.fate hE.sched hP.inv hV (Completed.scheduled hC).1 (Completed.scheduled hC).2
  · rw [hE.nextId, ← hn]
    exact Completed.known hP.inv hC hids (fun r hr => hn ▸ hlt r (hV.mem r hr).1) x hx
  · rw [hw']; rfl
  · rw [hw']
    exact aborts_count _ plan done
  · rw [hw', reports_append]
    rfl

/-- **One call**: settled before, the run is settled after it exactly if the call is steady. -/
theorem Settled.step_iff (hS : Settled w) (hE : EngineInv T o w.engine)
    {c : EngineCall (Except ExecutorError (Nat → Int))} {w' : EngineRun Unit}
    (hE' : EngineInv T o w'.engine) (hs : EngineRun.Stepped T o hostOnly w c w') :
    Settled w' ↔ Steady w c := by
  cases hs with
  | refused a err => exact iff_of_true (hS.refused (.refused err) rfl) trivial
  | added a accepted => exact iff_of_true (hS.added hE) trivial
  | stepped k plan s out e d plans planned ended =>
    have hab := Planned.aborted_iff hE.sched planned
    have hsame : ∀ plan' s', w.engine.sched.planStep = some (plan', s') → plan' = plan ∧ s' = s := by
      intro plan' s' h
      rw [plans, Option.some.injEq, Prod.mk.injEq] at h
      exact ⟨h.1.symm, h.2.symm⟩
    have hthrows : w.engine.CallThrows k → plan.prefill = none → plan.decode ≠ [] := by
      rintro ⟨plan', s', h1, h2, _⟩
      obtain ⟨rfl, rfl⟩ := hsame plan' s' h1
      exact h2
    have hsteady : plan.aborted = [] → Steady w (.step k) := fun h0 _ he => hab.mpr he h0
    cases ended with
    | idle empty =>
      have hnil : plan.aborted = [] := by
        have h3 := (Bool.and_eq_true_iff.mp empty).2
        exact List.isEmpty_iff.mp h3
      exact iff_of_true ((hS.dropped_iff hE planned rfl rfl hE').mpr hnil) (hsteady hnil)
    | evictions prefill decode results s' completed =>
      exact iff_of_true (hS.completed hE planned completed rfl hE') fun ht =>
        absurd decode (hthrows ht prefill)
    | refused m err launch busy =>
      rw [hS.dropped_iff hE planned rfl rfl hE']
      refine ⟨hsteady, fun h => not_not.mp fun hne => h ⟨plan, s, plans, busy, ?_⟩ (hab.mp hne)⟩
      exact Or.inr ⟨err, _, launch⟩
    | threw m done l err d' launch launched device busy =>
      rw [hS.dropped_iff hE planned rfl rfl hE']
      refine ⟨hsteady, fun h => not_not.mp fun hne => h ⟨plan, s, plans, busy, ?_⟩ (hab.mp hne)⟩
      exact Or.inl ⟨err, (Prod.mk.inj device).1⟩
    | done m done l argmax d' results s' launch launched device completed =>
      refine iff_of_true (hS.completed hE planned completed rfl hE') fun ht => ?_
      obtain ⟨plan', s1, h1, _, h3⟩ := ht
      obtain ⟨rfl, rfl⟩ := hsame plan' s1 h1
      rcases h3 with ⟨err, he⟩ | ⟨err, x, hx⟩
      · rw [(Prod.mk.inj device).1] at he
        cases he
      · rw [launch] at hx
        cases hx

theorem Settled.init (e : Engine) (hn : e.sched.nextPtr = 0) (hr : e.requests = fun _ => none)
    (ha : e.stats.aborts = 0) : Settled (.init e ()) := by
  refine ⟨fun r h => ?_, fun x hx => absurd hx List.not_mem_nil, fun id r => ?_, ?_⟩
  · have h' : r < e.sched.nextPtr := h
    omega
  · show e.requests id = some r ↔ r < e.sched.nextPtr ∧ _
    rw [hr, hn]
    exact iff_of_false nofun fun h => absurd h.1 (Nat.not_lt_zero r)
  · show e.stats.aborts = (List.range e.sched.nextPtr).countP _
    rw [ha, hn]
    rfl

end

/-- **Exactly one terminal report for each finished request**: a run is settled after every call
exactly when no call of the executor throws in a state that evicts. -/
theorem exactly_once_emission (config : ModelConfig) (options : EngineOptions) (captured : Bool)
    (probe : Nat → Nat → Option PrefillGemmMode) (e : Engine)
    (he : Engine.make config options captured probe = .ok e)
    (cs : List (EngineCall (Except ExecutorError (Nat → Int)))) :
    (∀ n, ∃ w, run (EngineRun.step hostOnly) (.init e ()) (cs.take n) = some w ∧ Settled w) ↔
      Legal (EngineRun.step hostOnly) Steady (.init e ()) cs := by
  have hE := EngineInv.make he
  have h0 : Settled (.init e ()) := by
    obtain ⟨x, _, rfl⟩ := Engine.make_eq he
    exact Settled.init _ rfl rfl rfl
  refine legal_iff (fun w => EngineInv e.totalBlocks (Engine.schedulerOptions config options) w.engine)
    Settled (fun w c hE hS => ?_) cs _ hE h0
  obtain ⟨w', hs, hE', hstep⟩ := EngineRun.step_spec hostOnly hE c
  exact ⟨w', hs, hE', hS.step_iff hE hE' hstep⟩

/-- under `reserve_full` every run is steady -/
theorem steady_of_reserveFull {T : Nat} {o : SchedulerOptions} (hp : o.admissionPolicy = .kReserveFull)
    {w : EngineRun Unit} (hE : EngineInv T o w.engine)
    (cs : List (EngineCall (Except ExecutorError (Nat → Int)))) :
    Legal (EngineRun.step hostOnly) Steady w cs := by
  refine legal_of_inv (fun w => EngineInv T o w.engine) (fun w c hE => ?_) (fun w c w' hE hs => ?_)
    cs w hE
  · cases c with
    | addRequest a => trivial
    | step k =>
      intro _ he
      rw [Scheduler.Evicts, hE.sched.options, hp] at he
      cases he.1
  · obtain ⟨w1, h1, hE1, _⟩ := EngineRun.step_spec hostOnly hE c
    rw [hs, Option.some.injEq] at h1
    exact h1 ▸ hE1

/-- a throwing step under `reserve_full` loses nothing -/
theorem exactly_once_emission_example :
    ∃ w, run (EngineRun.step hostOnly) (.init (tinyEngine .kReserveFull) ())
      (([.addRequest { promptTokens := [1], maxNewTokens := 1 },
        .step (.error (.device "cudaStreamSynchronize")), .step (.ok fun _ => 4)] : List _).take 3)
      = some w ∧ Settled w :=
  (exactly_once_emission tinyConfig (tinyOptions .kReserveFull) true tinyProbe
    (tinyEngine .kReserveFull) (tinyEngine_make .kReserveFull) _).mpr
    (steady_of_reserveFull rfl (EngineInv.make (tinyEngine_make .kReserveFull)) _) 3

/-! ## a lost eviction -/

/-- two requests whose prompts fill a block each; the step that evicts the second one throws, and
the next one returns -/
def lostEviction : List (EngineCall (Except ExecutorError (Nat → Int))) :=
  [.addRequest { promptTokens := List.replicate 16 1, maxNewTokens := 8 },
    .addRequest { promptTokens := List.replicate 16 2, maxNewTokens := 8 },
    .step (.ok fun _ => 4), .step (.ok fun _ => 4),
    .step (.error (.device "cudaStreamSynchronize")), .step (.ok fun _ => 4)]

/-- what is left of the second request: finished, never reported, still in the map, not counted -/
theorem emission_counterexample :
    ∃ w ∈ run (EngineRun.step hostOnly) (.init (tinyEngine .kWatermark) ()) lostEviction,
      w.events.getLast?.map Event.results = some [⟨1, 4, false, .kNone⟩] ∧
      (w.engine.sched.heap 1).state = .kFinished ∧
      (w.engine.sched.heap 1).finishReason = .kAborted ∧
      terminals 2 (reports w.events) = [] ∧ w.engine.requests 2 = some 1 ∧
      w.engine.stats.aborts = 0 := by
  decide +kernel

end Redline

import Redline.Adapter.Routing
import Redline.Client.Pump

/-!
# No emission is lost, duplicated or misrouted
-/

namespace Redline
namespace RedlineAdapter
open Prog RunBench

section
variable {κ δ : Type} {T : Nat} {o : SchedulerOptions} {env : Environment κ δ} {first : Nat}
  {requests : List WorkloadRequest} {G : Ghost} {t : Trial δ}

/-! ## `_run_async` -/

/-- when every client has returned, every end was delivered -/
theorem Streams.all_ended {U : List StepResult} (h : Streams first requests G t U)
    (hall : ∀ i < requests.length, (t.clients i).task = .returned) :
    t.finished = requests.length := by
  rw [h.finished]
  have : (List.range requests.length).countP G.ended = (List.range requests.length).length := by
    refine List.countP_eq_length.mpr fun i hi => ?_
    have hlt := List.mem_range.mp hi
    obtain ⟨l, x, hl, hx, _⟩ := (h.client i hlt).done (by rw [hall i hlt]; rfl)
    unfold Ghost.ended Ghost.delivered
    rw [hl, List.any_append, List.any_append]
    simp [hx]
  rw [this, List.length_range]

theorem returnedTask_iff {task : ClientTask} :
    Trial.returnedTask task = true ↔ task = .returned := by
  cases task <;> simp [Trial.returnedTask]

/-- **A trial fails.** -/
theorem Routed.fail (h : Routed T o first requests G t) {e : TrialError} (hfault : t.Fault e)
    (begun : Bool) : Broken T o (t.fail begun e) := by
  have hclients : ∀ t' : Trial δ, (∀ i, (t'.clients i).task = Trial.cancelTask (t.clients i).task) →
      ∀ i, Trial.cancelTask (t'.clients i).task = (t'.clients i).task := fun t' ht i => by
    rw [ht i, cancelTask_idem]
  unfold Trial.fail Trial.cancelPump
  cases hp : t.pump with
  | resting =>
    refine ⟨h.served.inv, rfl, ⟨e, ?_, Or.inl rfl⟩, rfl, hclients _ fun i => rfl⟩
    exact hfault.of_unfailed (by rw [hp]; rfl) _
  | stepping =>
    refine ⟨h.served.inv, rfl, ⟨e, ?_, Or.inl rfl⟩, rfl, hclients _ fun i => rfl⟩
    exact hfault.of_unfailed (by rw [hp]; rfl) _
  | exited =>
    refine ⟨h.served.inv, rfl, ⟨e, ?_, Or.inl rfl⟩, rfl, hclients _ fun i => rfl⟩
    exact hfault.of_unfailed (by rw [hp]; rfl) _
  | raised e' =>
    refine ⟨h.served.inv, rfl, ⟨e, ?_, Or.inl rfl⟩, rfl, hclients _ fun i => rfl⟩
    rcases hfault with ⟨x, rfl⟩ | ⟨rfl, x, hx⟩
    · exact Or.inl ⟨x, rfl⟩
    · exact Or.inr ⟨rfl, x, hp.symm.trans hx⟩

/-- **`_run_async` goes on.** -/
theorem Routed.mainOn (h : Routed T o first requests G t) (begun : Bool) :
    Routed T o first requests G (t.mainOn requests.length begun) ∨
      Broken T o (t.mainOn requests.length begun) := by
  -- only where it awaits changes
  have hmoved : ∀ main, Trial.MainOk requests.length { t with main } →
      Routed T o first requests G { t with main } := fun main hm =>
    { served := h.served
      wired := h.wired.retask rfl rfl rfl (fun x _ => by cases x <;> rfl) fun _ hi => hi
      streams := h.streams.frame rfl rfl rfl fun _ _ hs => hs
      tasks := { h.tasks with main := hm } }
  have hok := h.tasks.main
  unfold Trial.MainOk at hok
  unfold Trial.mainOn
  cases hm : t.main with
  | gathering =>
    cases hg : t.gathered with
    | some e => exact Or.inr (h.fail (h.tasks.gathered e hg) begun)
    | none =>
      simp only
      by_cases hall : ((List.range requests.length).all fun i =>
          Trial.returnedTask (t.clients i).task) = true
      · rw [if_pos hall]
        have hnext := hmoved .awaitingPump fun i hi =>
          returnedTask_iff.mp (List.all_eq_true.mp hall i (List.mem_range.mpr hi))
        rw [hg] at hnext
        exact Or.inl hnext
      · rw [if_neg hall]
        exact Or.inl h
  | awaitingPump =>
    rw [hm] at hok
    have hpump := h.tasks.pump
    unfold Trial.PumpOk at hpump
    have hfinished := h.streams.all_ended hok
    cases hp : t.pump with
    | exited =>
      have hnext := hmoved (.returned ((List.range requests.length).map fun i => (t.clients i).trace))
        ⟨hok, hp, rfl⟩
      rw [hp] at hnext
      exact Or.inl hnext
    | raised e =>
      rw [hp] at hpump
      exact absurd hpump.1 (by rw [hfinished]; exact Nat.lt_irrefl _)
    | resting => exact Or.inl h
    | stepping => exact Or.inl h
  | failing e => rw [hm] at hok; exact hok.elim
  | returned traces => exact Or.inl h
  | raised e => rw [hm] at hok; exact hok.elim

/-- **One action**, of whichever task or of the engine thread. -/
theorem Routed.act (h : Routed T o first requests G t) (env : Environment κ δ) (a : Action κ) :
    ∃ t', t.act env requests a = some t' ∧
      ((∃ G', Routed T o first requests G' t') ∨ Broken T o t') := by
  cases a with
  | client i now => exact ⟨_, rfl, Or.inl (h.client i now)⟩
  | pump =>
    unfold Trial.act
    cases hp : t.pump with
    | resting =>
      exact ⟨_, rfl, Or.inl ⟨G, (h.ready hp).pumpOn fun hclear =>
        h.tasks.calm (by rw [hp]; rfl) hclear⟩⟩
    | _ => exact ⟨_, rfl, Or.inl ⟨G, h⟩⟩
  | deliver => exact ⟨_, rfl, Or.inl h.delivered⟩
  | worker k =>
    obtain ⟨G', t', hw, h'⟩ := h.work env k
    exact ⟨t', hw, Or.inl ⟨G', h'⟩⟩
  | main begun => exact ⟨_, rfl, (h.mainOn begun).imp_left fun h' => ⟨G, h'⟩⟩

/-- **Any actions.** -/
theorem Routed.run (env : Environment κ δ) (actions : List (Action κ)) : ∀ t : Trial δ,
    ((∃ G, Routed T o first requests G t) ∨ Broken T o t) →
    ∃ t', run (Trial.act env requests) t actions = some t' ∧
      ((∃ G, Routed T o first requests G t') ∨ Broken T o t') := by
  induction actions with
  | nil => exact fun t h => ⟨t, rfl, h⟩
  | cons a actions ih =>
    intro t h
    obtain ⟨t1, ha, h1⟩ : ∃ t1, t.act env requests a = some t1 ∧
        ((∃ G, Routed T o first requests G t1) ∨ Broken T o t1) := by
      rcases h with ⟨G, h⟩ | h
      · exact h.act env a
      · obtain ⟨t1, ha, h1⟩ := h.act env requests a
        exact ⟨t1, ha, Or.inr h1⟩
    obtain ⟨t2, hr, h2⟩ := ih t1 h1
    refine ⟨t2, ?_, h2⟩
    rw [run_cons, ha]
    exact hr

/-! ## what holds of a trial -/

/-- the engine accepted the request of the `i`-th task as `id`: the adapter knows it, or the reply to
`add_request` is on its way -/
def Trial.Accepted (requests : List WorkloadRequest) (t : Trial δ) (i id : Nat) : Prop :=
  t.engineToRequest id = some (requestId requests i) ∨ .added i (.ok id) ∈ t.replies

/-- the reports about `id`, in order: the client of the `i`-th task took some, its queue holds some, and
the others are in the replies that the pump did not get yet -/
def Trial.Hears (requests : List WorkloadRequest) (t : Trial δ) (i id : Nat) : Prop :=
  ∃ consumed queued,
    about id (reports t.w.events)
      = consumed ++ queued ++ about id (t.replies.flatMap Reply.results) ∧
    (t.clients i).trace.tokenIds = heardTokens consumed ∧
    t.queues (requestId requests i)
      = queued.map Item.of ++ sentinel t.pump.failed (t.clients i).task.gaveUp

/-- a trial that has not failed -/
structure Trial.Going (first : Nat) (requests : List WorkloadRequest) (t : Trial δ) : Prop where
  sound : t.poisoned = false
  known : ∀ id, t.pump ≠ .raised (.unknownId id)
  /-- nothing is lost, duplicated or misrouted -/
  hears : ∀ i < requests.length, ∀ id, t.Accepted requests i id →
    .added id (requestArgs requests i) ∈ t.w.events ∧ t.Hears requests i id
  /-- before that there is nothing to hear -/
  unheard : ∀ i < requests.length, (∀ id, ¬ t.Accepted requests i id) →
    (t.clients i).trace.tokenIds = [] ∧
    t.queues (requestId requests i) = sentinel t.pump.failed (t.clients i).task.gaveUp
  /-- a request has one id -/
  once : ∀ i < requests.length, ∀ j < requests.length, ∀ id id',
    t.Accepted requests i id → t.Accepted requests j id' → (i = j ↔ id = id')
  /-- every report is about a request of the workload -/
  told : ∀ x ∈ reports t.w.events, ∃ i < requests.length, t.Accepted requests i x.requestId
  /-- the pump exits when all requests are finished -/
  exits : t.pump = .exited → t.w.engine.sched.nextPtr = first + requests.length ∧
    ∀ r < t.w.engine.sched.nextPtr, (t.w.engine.sched.heap r).state = .kFinished

/-- what `run` returns: a trace for each request, with all the tokens that were reported -/
def Trial.Returns (requests : List WorkloadRequest) (t : Trial δ) (traces : List RequestTrace) : Prop :=
  t.pump = .exited ∧ traces.length = requests.length ∧
  ∀ i < requests.length, ∃ r trace, traces[i]? = some trace ∧
    t.engineToRequest (r + 1) = some (requestId requests i) ∧
      .added (r + 1) (requestArgs requests i) ∈ t.w.events ∧
    trace.requestId = requestId requests i ∧
    trace.tokenIds = heardTokens (about (r + 1) (reports t.w.events)) ∧
    trace.tokenTimes.length = trace.tokenIds.length ∧
    trace.finishReason = (t.w.engine.sched.heap r).finishReason.name ∧
    (t.w.engine.sched.heap r).finishReason ≠ .kNone

def Trial.Sound (first : Nat) (requests : List WorkloadRequest) (t : Trial δ) : Prop :=
  match t.main with
  | .failing e => t.poisoned = true ∧ t.Fault e
  | .raised e => t.poisoned = true ∧ t.Fault e
  | .returned traces => t.Going first requests ∧ t.Returns requests traces
  | _ => t.Going first requests

/-- the accepted requests are those of the order -/
theorem Routed.accepted_iff (h : Routed T o first requests G t) {i : Nat} (hi : i < requests.length)
    {id : Nat} : t.Accepted requests i id ↔ i ∈ G.order ∧ id = idOf first G.order i := by
  constructor
  · rintro (hm | hm)
    · obtain ⟨j, hj, hname, hid, _⟩ := h.wired.mapped _ _ hm
      obtain rfl := h.streams.distinct.inj hi (h.served.lt j hj) hname
      exact ⟨hj, hid⟩
    · exact (h.wired.reply _ hm).2
  · rintro ⟨hplace, rfl⟩
    exact h.wired.complete i hplace

theorem Routed.hears (h : Routed T o first requests G t) {i : Nat} (hi : i < requests.length) :
    t.Hears requests i (idOf first G.order i) :=
  ⟨G.consumed i, G.queued i, h.streams.all i hi, (h.streams.client i hi).tokens,
    (h.streams.client i hi).queue⟩

/-- a request that the engine has not accepted has no reports -/
theorem Routed.undelivered (h : Routed T o first requests G t) {i : Nat} (hi : i < requests.length)
    (hnew : i ∉ G.order) : G.delivered i = [] := by
  have hunknown : ∀ x ∈ reports t.w.events, x.requestId < first + G.order.length + 1 := fun x hx => by
    have := (h.served.known x hx).2
    rwa [h.served.count] at this
  have hnil := h.streams.all i hi
  rw [about_unplaced hunknown (by unfold idOf; rw [List.idxOf_eq_length hnew])] at hnil
  exact (List.append_eq_nil_iff.mp hnil.symm).1

/-- no step is on its way when the pump has exited -/
theorem Routed.calm (h : Routed T o first requests G t) (hp : t.pump = .exited) :
    Calm t.w.events ∧ t.replies.flatMap Reply.results = [] := by
  have hnone : ∀ r ∈ t.replies, ∀ out, r ≠ .stepped out := by
    rintro r hr out rfl
    have hstep : t.pump = .stepping := h.wired.reply _ hr
    rw [hp] at hstep
    cases hstep
  refine ⟨h.tasks.calm (by rw [hp]; rfl) fun r hr err => hnone r hr _, ?_⟩
  refine List.flatMap_eq_nil_iff.mpr fun r hr => ?_
  cases r with
  | stepped out => exact absurd rfl (hnone _ hr out)
  | _ => rfl

/-- once the pump has exited every end was reported -/
theorem Routed.exited (h : Routed T o first requests G t) (hp : t.pump = .exited) :
    (∀ i < requests.length, i ∈ G.order ∧ G.ended i = true) ∧
      G.order.length = requests.length := by
  have hfinished := h.tasks.pump
  unfold Trial.PumpOk at hfinished
  rw [hp] at hfinished
  have hcount := h.streams.finished
  rw [hfinished] at hcount
  have hall : ∀ i ∈ List.range requests.length, G.ended i = true := by
    refine List.countP_eq_length.mp ?_
    rw [← hcount, List.length_range]
  have hplaced : ∀ i < requests.length, i ∈ G.order := by
    intro i hi
    by_contra hnew
    have hended := hall i (List.mem_range.mpr hi)
    unfold Ghost.ended at hended
    rw [h.undelivered hi hnew] at hended
    cases hended
  refine ⟨fun i hi => ⟨hplaced i hi, hall i (List.mem_range.mpr hi)⟩, ?_⟩
  have hperm : G.order.Perm (List.range requests.length) :=
    (List.perm_ext_iff_of_nodup h.served.nodup List.nodup_range).mpr fun i =>
      ⟨fun hi => List.mem_range.mpr (h.served.lt i hi), fun hi => hplaced i (List.mem_range.mp hi)⟩
  rw [hperm.length_eq, List.length_range]

theorem Routed.reasons (h : Routed T o first requests G t) (hp : t.pump = .exited) {r : Nat}
    (hr : r < t.w.engine.sched.nextPtr) : (t.w.engine.sched.heap r).finishReason ≠ .kNone := by
  by_cases hfirst : r < first
  · exact h.served.old r hfirst
  · obtain ⟨i, hi, hid⟩ : ∃ i ∈ G.order, idOf first G.order i = r + 1 :=
      idOf_surj h.served.nodup (by omega) (by rw [← h.served.count]; omega)
    obtain ⟨hcalm, hnil⟩ := h.calm hp
    have hlt := h.served.lt i hi
    have hall := h.streams.all i hlt
    rw [hnil, hid] at hall
    have hstory := h.served.story hcalm r hr (Nat.not_lt.mp hfirst)
    rw [hall] at hstory
    refine hstory.reason ?_
    rw [List.any_append]
    have := ((h.exited hp).1 i hlt).2
    unfold Ghost.ended at this
    rw [this]
    rfl

theorem Routed.going (h : Routed T o first requests G t) : t.Going first requests where
  sound := h.tasks.sound
  known := fun id hp => by
    have hok := h.tasks.pump
    unfold Trial.PumpOk at hok
    rw [hp] at hok
    obtain ⟨_, y, hy⟩ := hok
    cases hy
  hears := fun i hi id hid => by
    obtain ⟨hplace, rfl⟩ := (h.accepted_iff hi).mp hid
    exact ⟨h.served.asked i hplace, h.hears hi⟩
  unheard := fun i hi hnone => by
    have hnew : i ∉ G.order := fun hplace => hnone _ ((h.accepted_iff hi).mpr ⟨hplace, rfl⟩)
    obtain ⟨hconsumed, hqueued⟩ := List.append_eq_nil_iff.mp (h.undelivered hi hnew)
    have hs := h.streams.client i hi
    rw [hconsumed, hqueued] at hs
    exact ⟨hs.tokens, hs.queue⟩
  once := fun i hi j hj id id' hid hid' => by
    obtain ⟨hplace, rfl⟩ := (h.accepted_iff hi).mp hid
    obtain ⟨_, rfl⟩ := (h.accepted_iff hj).mp hid'
    exact ⟨fun e => by rw [e], fun e => (idOf_inj hplace e.symm).symm⟩
  told := fun x hx => by
    obtain ⟨h1, h2⟩ := h.served.known x hx
    rw [h.served.count] at h2
    obtain ⟨i, hi, hid⟩ := idOf_surj h.served.nodup h1 h2
    exact ⟨i, h.served.lt i hi, (h.accepted_iff (h.served.lt i hi)).mpr ⟨hi, hid.symm⟩⟩
  exits := fun hp => ⟨by rw [h.served.count, (h.exited hp).2], fun r hr =>
    (h.served.inv.sched.finished_iff hr).mpr (h.reasons hp hr)⟩

theorem Routed.returns (h : Routed T o first requests G t) (hp : t.pump = .exited)
    (hall : ∀ i < requests.length, (t.clients i).task = .returned) :
    t.Returns requests ((List.range requests.length).map fun i => (t.clients i).trace) := by
  obtain ⟨hcalm, hnil⟩ := h.calm hp
  refine ⟨hp, by rw [List.length_map, List.length_range], fun i hi => ?_⟩
  have hs := h.streams.client i hi
  obtain ⟨l, x, hl, hx, hreason⟩ := hs.done (by rw [hall i hi]; rfl)
  obtain ⟨hplace, _⟩ := (h.exited hp).1 i hi
  have hidx := List.idxOf_lt_length_of_mem hplace
  have hr : first + G.order.idxOf i < t.w.engine.sched.nextPtr := by rw [h.served.count]; omega
  have hstory := h.served.story hcalm _ hr (Nat.le_add_right _ _)
  have hids : first + G.order.idxOf i + 1 = idOf first G.order i := rfl
  -- nothing follows what the client took
  have hstream := h.streams.all i hi
  rw [hnil] at hstream
  unfold Ghost.delivered at hstream
  have hqueued : G.queued i = [] := by
    cases hq : G.queued i with
    | nil => rfl
    | cons y queued =>
      rw [hids, hstream, hq, List.append_assoc, List.cons_append] at hstory
      have := hstory.split x (by rw [hl]; exact List.mem_append_right _ List.mem_cons_self)
      rw [hx] at this
      cases this
  rw [hqueued, List.append_nil] at hstream
  have hconsumed : about (idOf first G.order i) (reports t.w.events) = G.consumed i :=
    hstream.trans (List.append_nil _)
  refine ⟨first + G.order.idxOf i, (t.clients i).trace, ?_, ?_, h.served.asked i hplace, hs.named,
    ?_, hs.times, ?_, h.reasons hp hr⟩
  · rw [List.getElem?_map, List.getElem?_range hi]
    rfl
  · refine (h.wired.complete i hplace).resolve_right fun hm => ?_
    have hadding := (h.wired.reply _ hm).1.2
    rw [hall i hi] at hadding
    cases hadding
  · rw [hids, hconsumed]
    exact hs.tokens
  · rw [hreason]
    rw [hids, hconsumed, hl] at hstory
    exact congrArg FinishReason.name (hstory.last hx)

theorem Routed.sound (h : Routed T o first requests G t) : t.Sound first requests := by
  have hok := h.tasks.main
  unfold Trial.MainOk at hok
  unfold Trial.Sound
  cases hm : t.main with
  | returned traces =>
    rw [hm] at hok
    obtain ⟨hall, hp, rfl⟩ := hok
    exact ⟨h.going, h.returns hp hall⟩
  | failing e => rw [hm] at hok; exact hok.elim
  | raised e => rw [hm] at hok; exact hok.elim
  | gathering => exact h.going
  | awaitingPump => exact h.going

theorem Broken.sound (h : Broken T o t) : t.Sound first requests := by
  obtain ⟨e, hfault, hm | hm⟩ := h.fault
  · unfold Trial.Sound
    rw [hm]
    exact ⟨h.poisoned, hfault⟩
  · unfold Trial.Sound
    rw [hm]
    exact ⟨h.poisoned, hfault⟩

/-- a trial on an idle engine, as it starts -/
theorem Routed.start {e : Engine} (hE : EngineInv T o e)
    (hidle : ∀ r < e.sched.nextPtr, (e.sched.heap r).state = .kFinished) (d : δ)
    (requests : List WorkloadRequest) (hdistinct : Distinct requests) :
    ∃ t0, Trial.start false (EngineRun.init e d) requests = .ok t0 ∧
      Routed T o e.sched.nextPtr requests ⟨[], fun _ => [], fun _ => []⟩ t0 := by
  refine ⟨_, rfl, ⟨hE, fun r hr => (hE.sched.finished_iff hr).mp (hidle r hr), rfl, List.nodup_nil,
      nofun, fun _ r hr hr' => absurd hr (Nat.not_lt.mpr hr'), nofun, nofun⟩,
    ⟨List.nodup_nil, nofun, nofun, nofun, nofun, List.Pairwise.nil, nofun⟩, ⟨hdistinct, fun i hi => ?_,
      fun i hi => rfl, ?_⟩, ⟨fun x hx => ?_, ?_, fun i => trivial, nofun, trivial, rfl,
      fun _ _ => nofun⟩⟩
  · exact ⟨rfl, rfl, rfl, rfl, fun _ => ⟨nofun, rfl⟩, nofun⟩
  · exact (List.countP_eq_zero.mpr nofun).symm
  · cases x with
    | none => cases hx
    | some i => rcases hx with hx | hx <;> cases hx
  · rcases Nat.eq_zero_or_pos requests.length with h0 | hpos
    · exact Or.inr h0
    · exact Or.inl hpos

end

/-- **No emission is lost, duplicated or misrouted.**  A trial on any idle engine, with any workload,
whatever the device does and in whichever order the clients, the pump, the engine thread and the loop
run: what a client has recorded, its queue and the replies that the pump did not get yet make up the
reports about its request, until the trial fails.  The pump never sees an unknown id, a returned trial
has every token of every request, and a trial only fails with an exception of the engine, which poisons
the adapter.  The adapter keeps its queues under the ids of the requests, so these are different. -/
theorem adapter_routes (κ δ : Type) (config : ModelConfig) (options : EngineOptions)
    (captured : Bool) (probe : Nat → Nat → Option PrefillGemmMode) (e : Engine)
    (he : Engine.make config options captured probe = .ok e) (env : Environment κ δ) (d0 : δ)
    (calls : List (EngineCall κ)) (w : EngineRun δ)
    (hw : run (EngineRun.step env) (.init e d0) calls = some w)
    (hidle : ∀ r < w.engine.sched.nextPtr, (w.engine.sched.heap r).state = .kFinished)
    (requests : List WorkloadRequest) (hdistinct : Distinct requests) (actions : List (Action κ)) :
    ∃ t0 t, Trial.start false (EngineRun.init w.engine w.device) requests = .ok t0 ∧
      run (Trial.act env requests) t0 actions = some t ∧
      t.Sound w.engine.sched.nextPtr requests := by
  have hE0 : EngineInv e.totalBlocks (Engine.schedulerOptions config options)
      (EngineRun.init e d0).engine := EngineInv.make he
  obtain ⟨w1, hw1, hE, _⟩ : ∃ w1, run (EngineRun.step env) (.init e d0) calls = some w1 ∧
      EngineInv e.totalBlocks (Engine.schedulerOptions config options) w1.engine ∧ True :=
    EngineRun.run_keeps (fun _ => True) (fun _ _ _ _ _ _ => trivial) hE0 trivial calls
  obtain rfl : w1 = w := Option.some.inj (hw1.symm.trans hw)
  obtain ⟨t0, ht0, h0⟩ := Routed.start hE hidle w1.device requests hdistinct
  obtain ⟨t, ht, h⟩ := Routed.run env actions t0 (Or.inl ⟨_, h0⟩)
  refine ⟨t0, t, ht0, ht, ?_⟩
  rcases h with ⟨G, h⟩ | h
  · exact h.sound
  · exact h.sound

/-- one turn of everybody, the device answering 5 -/
def turn : List (Action (Except ExecutorError (Nat → Int))) :=
  [.pump, .client 0 1, .client 1 2, .worker (.ok fun _ => 5), .worker (.ok fun _ => 5), .deliver,
    .worker (.ok fun _ => 5), .deliver, .deliver, .main false]

def twoRequests : List WorkloadRequest := [⟨7, [1, 2, 3], 2, 0⟩, ⟨8, [4], 1, 1⟩]

/-- the tokens and the reasons of a trial that returned -/
def Trial.recorded {δ : Type} (t : Trial δ) : Option (List (Int × List Int × String)) :=
  match t.main with
  | .returned traces => some (traces.map fun trace =>
      (trace.requestId, trace.tokenIds, trace.finishReason))
  | _ => none

theorem adapter_routes_example : ∃ t0 t traces,
    Trial.start false (EngineRun.init servedRun.engine servedRun.device) twoRequests = .ok t0 ∧
    run (Trial.act hostOnly twoRequests) t0 (List.replicate 9 turn).flatten = some t ∧
    t.recorded = some [(7, [5, 5], "length"), (8, [5], "length")] ∧
    t.Returns twoRequests traces := by
  obtain ⟨t0, t, ht0, ht, hsound⟩ := adapter_routes (Except ExecutorError (Nat → Int)) Unit tinyConfig
    (tinyOptions .kReserveFull) true tinyProbe (tinyEngine .kReserveFull)
    (tinyEngine_make .kReserveFull) hostOnly () _ servedRun (Option.some_get _).symm
    (by decide) twoRequests (by decide) (List.replicate 9 turn).flatten
  have hran : (run (Trial.act hostOnly twoRequests) t0 (List.replicate 9 turn).flatten).bind
      Trial.recorded = some [(7, [5, 5], "length"), (8, [5], "length")] := by
    obtain rfl := Except.ok.inj ht0
    decide
  rw [ht, Option.bind_some] at hran
  unfold Trial.Sound at hsound
  cases hm : t.main with
  | returned traces =>
    rw [hm] at hsound
    exact ⟨t0, t, traces, ht0, ht, hran, hsound.2⟩
  | _ =>
    unfold Trial.recorded at hran
    rw [hm] at hran
    cases hran

end RedlineAdapter
end Redline

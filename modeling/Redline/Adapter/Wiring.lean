import Redline.Adapter.Streams
import Redline.Device.Refine
import Redline.Engine.Lockstep

/-!
# The engine under the adapter, and the calls in flight

`Served`: the engine of a trial, after it accepted the requests of `order`; nothing but the requests
of the trial is reported.

`Wired`: each task has at most one call in flight and awaits it; the map of the adapter knows a
request, or the reply that introduces it is on its way, before any reply that tells of it (`fifo`).
One lemma for each way in which the calls in flight change.
-/

namespace Redline
namespace RedlineAdapter
open Prog RunBench

section
variable {κ δ : Type} {T : Nat} {o : SchedulerOptions} {env : Environment κ δ} {first : Nat}
  {requests : List WorkloadRequest} {order : List Nat} {w w' : EngineRun δ}

/-! ## the engine under the adapter -/

/-- the engine after it accepted the requests of `order` -/
structure Served (T : Nat) (o : SchedulerOptions) (first : Nat) (requests : List WorkloadRequest)
    (order : List Nat) (w : EngineRun δ) : Prop where
  inv : EngineInv T o w.engine
  old : ∀ r < first, (w.engine.sched.heap r).finishReason ≠ .kNone
  count : w.engine.sched.nextPtr = first + order.length
  nodup : order.Nodup
  lt : ∀ i ∈ order, i < requests.length
  story : Calm w.events → ∀ r < w.engine.sched.nextPtr, first ≤ r →
    Story (w.engine.sched.heap r) (about (r + 1) (reports w.events))
  known : ∀ x ∈ reports w.events, first < x.requestId ∧ x.requestId < w.engine.sched.nextPtr + 1
  asked : ∀ i ∈ order, .added (idOf first order i) (requestArgs requests i) ∈ w.events

theorem calm_append {events : List Event} {event : Event} (h : Calm (events ++ [event])) :
    Calm events ∧ event.threw = false :=
  ⟨fun x hx => h x (List.mem_append_left _ hx), h event (List.mem_append_right _ List.mem_cons_self)⟩

/-- what has ended stays so in a step -/
theorem Ended.keeps_finished {dev : Device δ} {e e' : Engine} {s : Scheduler} {plan : StepPlan}
    {out : Except ExecutorError (List StepResult)} {d d' : δ} (hE : EngineInv T o e)
    (hP : Scheduler.Planned T o e.sched plan s)
    (hend : Engine.Ended T o dev d { e with sched := s } plan out e' d') {r : Nat}
    (hr : (e.sched.heap r).finishReason ≠ .kNone) : (e'.sched.heap r).finishReason ≠ .kNone := by
  have hV := Planned.finishes hE.sched hP
  have hab : r ∉ plan.aborted := fun h => hr (hE.sched.running r (hV.mem r h).1).reason
  have hs : (s.heap r).finishReason ≠ .kNone := by
    rw [hV.others r hab]
    exact hr
  cases out with
  | ok results =>
    have hN := (Ended.tells hE hP hend).notice r
    generalize about (r + 1) results = l at hN
    cases hN with
    | silent same => rw [same]; exact hr
    | evicted before after => exact absurd before hr
    | told token before natural => exact absurd before hr
  | error err =>
    cases hend with
    | refused m err launch busy => exact hs
    | threw m done l err d' launch launched device busy => exact hs

/-- **A step under the adapter.** -/
theorem Served.stepped (h : Served T o first requests order w) (env : Environment κ δ) (k : κ) :
    ∃ w' plan out, EngineRun.step env w (.step k) = some w' ∧ w'.returned = out ∧
      Served T o first requests order w' ∧ w'.events = w.events ++ [.stepped plan out] ∧
      ∀ x ∈ (Event.stepped plan out).results,
        first < x.requestId ∧ x.requestId < w.engine.sched.nextPtr + 1 := by
  obtain ⟨w', hstep, hE', hstepped⟩ := EngineRun.step_spec env h.inv (.step k)
  cases hstepped with
  | stepped k plan s out e d plans planned ended =>
    have hn : e.sched.nextPtr = w.engine.sched.nextPtr :=
      ended.asked.1.trans (Planned.nextPtr planned)
    have hreturned : EngineRun.returned { engine := e, device := d, events := w.events ++
        [.stepped plan out] } = out := by
      unfold EngineRun.returned
      rw [List.getLast?_append]
      rfl
    have hids : ∀ x ∈ (Event.stepped plan out).results,
        first < x.requestId ∧ x.requestId < w.engine.sched.nextPtr + 1 := by
      intro x hx
      cases out with
      | error err => exact absurd hx List.not_mem_nil
      | ok results =>
        have htells := Ended.tells h.inv planned ended
        obtain ⟨r, hr, hid⟩ := htells.known x hx
        refine ⟨?_, by omega⟩
        by_contra hle
        have hmem : x ∈ about (r + 1) results := List.mem_filter.mpr ⟨hx, beq_iff_eq.mpr hid⟩
        have hN := htells.notice r
        have hold := h.old r (by omega)
        generalize about (r + 1) results = l at hN hmem
        cases hN with
        | silent same => exact List.not_mem_nil hmem
        | evicted before after => exact hold before
        | told token before natural => exact hold before
    refine ⟨_, plan, out, hstep, hreturned, ?_, rfl, hids⟩
    refine ⟨hE', fun r hr => Ended.keeps_finished h.inv planned ended (h.old r hr),
      hn.trans h.count, h.nodup, h.lt, fun hcalm r hr hfirst => ?_, fun x hx => ?_, fun i hi =>
        List.mem_append_left _ (h.asked i hi)⟩
    · obtain ⟨hcalm0, hthrew⟩ := calm_append hcalm
      cases out with
      | error err => cases hthrew
      | ok results =>
        have hN := (Ended.tells h.inv planned ended).notice r
        show Story (e.sched.heap r) (about (r + 1) (reports (w.events ++ _)))
        rw [reports_append, about_append]
        exact hN.story (h.story hcalm0 r (hn ▸ hr) hfirst)
    · have hx' : x ∈ reports (w.events ++ [.stepped plan out]) := hx
      rw [reports_append, List.mem_append] at hx'
      show _ ∧ x.requestId < e.sched.nextPtr + 1
      rw [hn]
      rcases hx' with hx' | hx'
      · exact h.known x hx'
      · exact hids x hx'

theorem idOf_append {i j : Nat} (hj : j ∈ order) :
    idOf first (order ++ [i]) j = idOf first order j := by
  unfold idOf
  rw [List.idxOf_append_of_mem hj]

theorem idOf_new {i : Nat} (hi : i ∉ order) :
    idOf first (order ++ [i]) i = first + order.length + 1 := by
  unfold idOf
  rw [List.idxOf_append_of_notMem hi]
  simp

/-- **A request more.** -/
theorem Served.added (h : Served T o first requests order w) (env : Environment κ δ) {i : Nat}
    (hi : i < requests.length) (hnew : i ∉ order) :
    (∃ err w', w.engine.addRequest (requestArgs requests i) = some (.error err) ∧
      EngineRun.step env w (.addRequest (requestArgs requests i)) = some w' ∧
      w'.events = w.events ++ [.refused err] ∧ Served T o first requests order w') ∨
    (∃ e w', w.engine.addRequest (requestArgs requests i)
        = some (.ok (idOf first (order ++ [i]) i, e)) ∧
      EngineRun.step env w (.addRequest (requestArgs requests i)) = some w' ∧
      w'.events = w.events ++ [.added (idOf first (order ++ [i]) i) (requestArgs requests i)] ∧
      Served T o first requests (order ++ [i]) w') := by
  rcases Engine.addRequest_spec h.inv (requestArgs requests i) with ⟨err, ha⟩ | ⟨ha, hA⟩
  · refine Or.inl ⟨err, _, ha, EngineRun.step_refused env ha, rfl, ?_⟩
    have hrep : reports (w.events ++ [.refused err]) = reports w.events := by
      rw [reports_append]
      exact List.append_nil _
    refine ⟨h.inv, h.old, h.count, h.nodup, h.lt, fun hcalm r hr hfirst => ?_, fun x hx => ?_,
      fun j hj => List.mem_append_left _ (h.asked j hj)⟩
    · show Story _ (about (r + 1) (reports (w.events ++ _)))
      rw [hrep]
      exact h.story (calm_append hcalm).1 r hr hfirst
    · exact h.known x (hrep ▸ hx)
  · have hid : w.engine.nextRequestId = idOf first (order ++ [i]) i := by
      rw [idOf_new hnew, h.inv.nextId, h.count]
    have hstep := EngineRun.step_added env ha
    rw [hid] at ha hstep
    refine Or.inr ⟨_, _, ha, hstep, rfl, ?_⟩
    have hrep : reports (w.events ++ [.added (idOf first (order ++ [i]) i) (requestArgs requests i)])
        = reports w.events := by
      rw [reports_append]
      exact List.append_nil _
    have hheap : ∀ r, r ≠ w.engine.sched.nextPtr →
        (w.engine.added (requestArgs requests i)).sched.heap r = w.engine.sched.heap r :=
      fun r hr => Function.update_of_ne hr _ _
    refine ⟨Engine.EngineInv.added h.inv hA, fun r hr => ?_, ?_, ?_, fun j hj => ?_,
      fun hcalm r hr hfirst => ?_, fun x hx => ?_, fun j hj => ?_⟩
    · show ((w.engine.added _).sched.heap r).finishReason ≠ .kNone
      rw [hheap r (by rw [h.count]; omega)]
      exact h.old r hr
    · show w.engine.sched.nextPtr + 1 = first + (order ++ [i]).length
      rw [h.count, List.length_append]
      rfl
    · refine List.nodup_append.mpr ⟨h.nodup, List.nodup_singleton i, fun x hx y hy e => ?_⟩
      rw [List.mem_singleton.mp hy] at e
      exact hnew (e ▸ hx)
    · rcases List.mem_append.mp hj with hj | hj
      · exact h.lt j hj
      · rw [List.mem_singleton.mp hj]
        exact hi
    · show Story ((w.engine.added _).sched.heap r) (about (r + 1) (reports (w.events ++ _)))
      rw [hrep]
      rcases Nat.lt_succ_iff_lt_or_eq.mp hr with hr | rfl
      · rw [hheap r (Nat.ne_of_lt hr)]
        exact h.story (calm_append hcalm).1 r hr hfirst
      · rw [about_nil fun x hx => Nat.ne_of_lt (h.known x hx).2]
        have hnewReq : (w.engine.added (requestArgs requests i)).sched.heap w.engine.sched.nextPtr
            = (requestArgs requests i).request w.engine.nextRequestId := Function.update_self ..
        rw [hnewReq]
        exact .going rfl [] fun x hx => absurd hx List.not_mem_nil
    · rw [hrep] at hx
      exact ⟨(h.known x hx).1, Nat.lt_succ_of_lt (h.known x hx).2⟩
    · rcases List.mem_append.mp hj with hj | hj
      · rw [idOf_append hj]
        exact List.mem_append_left _ (h.asked j hj)
      · rw [List.mem_singleton.mp hj]
        exact List.mem_append_right _ List.mem_cons_self

end

/-! ## calls in flight -/

/-- the emissions of a reply -/
def Reply.results : Reply → List StepResult
  | .stepped (.ok results) => results
  | _ => []

/-- it is told of no request that a later reply introduces -/
def Reply.Before (r r' : Reply) : Prop :=
  ∀ i id, r' = .added i (.ok id) → ∀ x ∈ r.results, x.requestId < id

/-- it has its id -/
def ClientTask.registered : ClientTask → Bool
  | .streaming => true
  | .returned => true
  | .raised .pumpFailed => true
  | _ => false

section
variable {δ : Type} {first total : Nat} {requests : List WorkloadRequest} {order : List Nat}
  {t t' : Trial δ}

/-- the tasks with a call in flight -/
def Trial.outstanding (t : Trial δ) : List (Option Nat) :=
  t.replies.map Reply.task ++ t.calls.map Call.task

/-- a call is awaited where it was made -/
def CallOk (total : Nat) (t : Trial δ) : Call → Prop
  | .hasCapacity i => i < total ∧ (t.clients i).task = .asking
  | .addRequest i => i < total ∧ (t.clients i).task = .adding
  | .step => t.pump = .stepping

def ReplyOk (first total : Nat) (order : List Nat) (t : Trial δ) : Reply → Prop
  | .capacity i _ => i < total ∧ (t.clients i).task = .asking
  | .added i (.ok id) =>
    (i < total ∧ (t.clients i).task = .adding) ∧ i ∈ order ∧ id = idOf first order i
  | .added i (.error _) => i < total ∧ (t.clients i).task = .adding
  | .stepped _ => t.pump = .stepping

/-- a task stays where it is -/
def Kept (t t' : Trial δ) : Option Nat → Prop
  | some i => (t'.clients i).task = (t.clients i).task
  | none => t'.pump = t.pump

theorem CallOk.kept {c : Call} (h : CallOk total t c) (hk : Kept t t' c.task) : CallOk total t' c := by
  cases c with
  | hasCapacity i => exact ⟨h.1, hk.trans h.2⟩
  | addRequest i => exact ⟨h.1, hk.trans h.2⟩
  | step => exact hk.trans h

theorem ReplyOk.kept {r : Reply} (h : ReplyOk first total order t r) (hk : Kept t t' r.task) :
    ReplyOk first total order t' r := by
  cases r with
  | capacity i free => exact ⟨h.1, hk.trans h.2⟩
  | added i out =>
    cases out with
    | ok id => exact ⟨⟨h.1.1, hk.trans h.1.2⟩, h.2⟩
    | error err => exact ⟨h.1, hk.trans h.2⟩
  | stepped out => exact hk.trans h

/-- the calls in flight and the requests the adapter knows -/
structure Wired (first : Nat) (requests : List WorkloadRequest) (order : List Nat) (t : Trial δ) :
    Prop where
  once : t.outstanding.Nodup
  call : ∀ c ∈ t.calls, CallOk requests.length t c
  reply : ∀ r ∈ t.replies, ReplyOk first requests.length order t r
  mapped : ∀ id name, t.engineToRequest id = some name → ∃ i ∈ order, name = requestId requests i ∧
    id = idOf first order i ∧ (t.clients i).task.registered = true
  complete : ∀ i ∈ order,
    t.engineToRequest (idOf first order i) = some (requestId requests i) ∨
      .added i (.ok (idOf first order i)) ∈ t.replies
  fifo : t.replies.Pairwise Reply.Before
  ids : ∀ r ∈ t.replies, ∀ x ∈ r.results,
    first < x.requestId ∧ x.requestId < first + order.length + 1

theorem Wired.awaits (h : Wired first requests order t) {i : Nat} (hi : some i ∈ t.outstanding) :
    (t.clients i).task = .asking ∨ (t.clients i).task = .adding := by
  rcases List.mem_append.mp hi with hi | hi
  · obtain ⟨r, hr, htask⟩ := List.mem_map.mp hi
    have hok := h.reply r hr
    cases r with
    | capacity j free =>
      obtain rfl := Option.some.inj htask
      exact Or.inl hok.2
    | added j out =>
      obtain rfl := Option.some.inj htask
      cases out with
      | ok id => exact Or.inr hok.1.2
      | error err => exact Or.inr hok.2
    | stepped out => cases htask
  · obtain ⟨c, hc, htask⟩ := List.mem_map.mp hi
    have hok := h.call c hc
    cases c with
    | hasCapacity j =>
      obtain rfl := Option.some.inj htask
      exact Or.inl hok.2
    | addRequest j =>
      obtain rfl := Option.some.inj htask
      exact Or.inr hok.2
    | step => cases htask

theorem Wired.steps (h : Wired first requests order t) (hp : none ∈ t.outstanding) :
    t.pump = .stepping := by
  rcases List.mem_append.mp hp with hp | hp
  · obtain ⟨r, hr, htask⟩ := List.mem_map.mp hp
    cases r with
    | capacity i free => cases htask
    | added i out => cases htask
    | stepped out => exact h.reply _ hr
  · obtain ⟨c, hc, htask⟩ := List.mem_map.mp hp
    cases c with
    | hasCapacity i => cases htask
    | addRequest i => cases htask
    | step => exact h.call _ hc

/-- a task without a call in flight goes on -/
theorem Wired.retask (h : Wired first requests order t) (hcalls : t'.calls = t.calls)
    (hreplies : t'.replies = t.replies) (hmap : t'.engineToRequest = t.engineToRequest)
    (hkept : ∀ x ∈ t.outstanding, Kept t t' x)
    (hregistered : ∀ i, (t.clients i).task.registered = true →
      (t'.clients i).task.registered = true) : Wired first requests order t' := by
  have hout : t'.outstanding = t.outstanding := by
    unfold Trial.outstanding
    rw [hcalls, hreplies]
  refine ⟨hout ▸ h.once, fun c hc => ?_, fun r hr => ?_, fun id i hi => ?_, fun i hi => ?_,
    hreplies ▸ h.fifo, hreplies ▸ h.ids⟩
  · rw [hcalls] at hc
    exact (h.call c hc).kept (hkept _ (List.mem_append_right _ (List.mem_map_of_mem hc)))
  · rw [hreplies] at hr
    exact (h.reply r hr).kept (hkept _ (List.mem_append_left _ (List.mem_map_of_mem hr)))
  · rw [hmap] at hi
    obtain ⟨j, h1, h2, h3, h4⟩ := h.mapped id i hi
    exact ⟨j, h1, h2, h3, hregistered j h4⟩
  · rw [hmap, hreplies]
    exact h.complete i hi

/-- one more call -/
theorem Wired.submit (h : Wired first requests order t) {c : Call} (hnew : c.task ∉ t.outstanding)
    (hok : CallOk requests.length t c) : Wired first requests order (t.submit c) := by
  have hout : (t.submit c).outstanding = t.outstanding ++ [c.task] := by
    unfold Trial.outstanding Trial.submit
    rw [List.map_append, ← List.append_assoc]
    rfl
  refine ⟨?_, fun c' hc => ?_, h.reply, h.mapped, h.complete, h.fifo, h.ids⟩
  · rw [hout]
    refine List.nodup_append.mpr ⟨h.once, List.nodup_singleton _, fun x hx y hy e => ?_⟩
    rw [List.mem_singleton.mp hy] at e
    exact hnew (e ▸ hx)
  · rcases List.mem_append.mp hc with hc | hc
    · exact h.call c' hc
    · rw [List.mem_singleton.mp hc]
      exact hok

/-- a reply is taken; that of an accepted request only once it is known -/
theorem Wired.drop (h : Wired first requests order t) {r : Reply} {replies : List Reply}
    (hr : t.replies = r :: replies)
    (hknown : ∀ i, r = .added i (.ok (idOf first order i)) →
      t.engineToRequest (idOf first order i) = some (requestId requests i)) :
    Wired first requests order { t with replies } ∧
      r.task ∉ Trial.outstanding { t with replies } := by
  have hout : t.outstanding = r.task :: Trial.outstanding { t with replies } := by
    unfold Trial.outstanding
    rw [hr]
    rfl
  have honce := h.once
  have hfifo := h.fifo
  rw [hout, List.nodup_cons] at honce
  rw [hr, List.pairwise_cons] at hfifo
  refine ⟨⟨honce.2, h.call, fun r' hr' => h.reply r' (hr ▸ List.mem_cons_of_mem _ hr'), h.mapped,
    fun i hi => ?_, hfifo.2, fun r' hr' => h.ids r' (hr ▸ List.mem_cons_of_mem _ hr')⟩, honce.1⟩
  rcases h.complete i hi with hm | hm
  · exact Or.inl hm
  · rw [hr, List.mem_cons] at hm
    rcases hm with hm | hm
    · exact Or.inl (hknown i hm.symm)
    · exact Or.inr hm

/-- the client of an accepted request gets its id -/
theorem Wired.register (h : Wired first requests order t) {i id : Nat} {replies : List Reply}
    (hr : t.replies = .added i (.ok id) :: replies) (hcalls : t'.calls = t.calls)
    (hreplies : t'.replies = replies)
    (hmap : t'.engineToRequest = Function.update t.engineToRequest id (some (requestId requests i)))
    (hclients : ∀ j, j ≠ i → (t'.clients j).task = (t.clients j).task)
    (htask : (t'.clients i).task.registered = true) (hpump : t'.pump = t.pump) :
    Wired first requests order t' := by
  have hok := h.reply _ (hr ▸ List.mem_cons_self)
  obtain ⟨⟨hi, hadding⟩, hplace, hid⟩ := hok
  have hout : t.outstanding = some i :: t'.outstanding := by
    unfold Trial.outstanding
    rw [hr, hcalls, hreplies]
    rfl
  have honce := h.once
  have hfifo := h.fifo
  rw [hout, List.nodup_cons] at honce
  rw [hr, List.pairwise_cons] at hfifo
  have hmem : ∀ r ∈ t'.replies, r ∈ t.replies := fun r hm => by
    rw [hr]
    exact List.mem_cons_of_mem _ (hreplies ▸ hm)
  -- what is in flight is of other tasks
  have hkept : ∀ x ∈ t'.outstanding, Kept t t' x := by
    intro x hx
    cases x with
    | none => exact hpump
    | some j => exact hclients j fun e => honce.1 (e ▸ hx)
  refine ⟨honce.2, fun c hc => ?_, fun r hm => ?_, fun id' j hj => ?_, fun j hj => ?_, ?_,
    fun r hm => h.ids r (hmem r hm)⟩
  · exact (h.call c (hcalls ▸ hc)).kept (hkept _ (List.mem_append_right _ (List.mem_map_of_mem hc)))
  · exact (h.reply r (hmem r hm)).kept (hkept _ (List.mem_append_left _ (List.mem_map_of_mem hm)))
  · rw [hmap] at hj
    by_cases hn : id' = id
    · subst hn
      rw [Function.update_self, Option.some.injEq] at hj
      exact ⟨i, hplace, hj.symm, hid, htask⟩
    · rw [Function.update_of_ne hn] at hj
      obtain ⟨k, h1, h2, h3, h4⟩ := h.mapped id' j hj
      refine ⟨k, h1, h2, h3, ?_⟩
      rw [hclients k fun e => ?_]
      · exact h4
      · rw [e, hadding] at h4
        cases h4
  · rw [hmap]
    by_cases hn : idOf first order j = id
    · rw [hn, Function.update_self]
      obtain rfl := idOf_inj hplace (hn.trans hid)
      exact Or.inl rfl
    · rw [Function.update_of_ne hn]
      refine (h.complete j hj).imp_right fun hm => ?_
      rw [hr, List.mem_cons] at hm
      rcases hm with hm | hm
      · cases hm
        exact absurd rfl hn
      · exact hreplies ▸ hm
  · rw [hreplies]
    exact hfifo.2

/-- a request that is asked for was not accepted yet -/
theorem Wired.unplaced (h : Wired first requests order t) {i : Nat} (hi : .addRequest i ∈ t.calls) :
    i ∉ order := by
  intro hplace
  rcases h.complete i hplace with hm | hm
  · obtain ⟨j, _, _, hid, h4⟩ := h.mapped _ _ hm
    obtain rfl := idOf_inj hplace hid.symm
    rw [(h.call _ hi).2] at h4
    cases h4
  · refine List.disjoint_of_nodup_append h.once (List.mem_map_of_mem hm) ?_
    exact List.mem_map_of_mem hi

/-- the engine thread does a call that places no request -/
theorem Wired.answered (h : Wired first requests order t) {c : Call} {calls : List Call} {r : Reply}
    (hc : t.calls = c :: calls) (hcalls : t'.calls = calls) (hreplies : t'.replies = t.replies ++ [r])
    (hmap : t'.engineToRequest = t.engineToRequest) (hkept : ∀ x, Kept t t' x)
    (hregistered : ∀ i, (t.clients i).task.registered = true →
      (t'.clients i).task.registered = true)
    (htask : r.task = c.task) (hok : ReplyOk first requests.length order t r)
    (hplaces : ∀ i id, r ≠ .added i (.ok id)) (hids : ∀ x ∈ r.results,
      first < x.requestId ∧ x.requestId < first + order.length + 1) :
    Wired first requests order t' := by
  have hout : t'.outstanding = t.outstanding := by
    unfold Trial.outstanding
    rw [hc, hcalls, hreplies, List.map_append, List.append_assoc, List.map_cons, List.map_nil, htask]
    rfl
  refine ⟨hout ▸ h.once, fun c' hc' => ?_, fun r' hr' => ?_, fun id i hi => ?_, fun i hi => ?_,
    ?_, fun r' hr' => ?_⟩
  · exact (h.call c' (by rw [hc]; exact List.mem_cons_of_mem _ (hcalls ▸ hc'))).kept (hkept _)
  · rw [hreplies, List.mem_append, List.mem_singleton] at hr'
    rcases hr' with hr' | rfl
    · exact (h.reply r' hr').kept (hkept _)
    · exact hok.kept (hkept _)
  · obtain ⟨j, h1, h2, h3, h4⟩ := h.mapped id i (hmap ▸ hi)
    exact ⟨j, h1, h2, h3, hregistered j h4⟩
  · rw [hmap, hreplies]
    exact (h.complete i hi).imp_right (List.mem_append_left _)
  · rw [hreplies]
    refine List.pairwise_append.mpr ⟨h.fifo, List.pairwise_singleton _ _, fun a _ b hb i id e => ?_⟩
    rw [List.mem_singleton.mp hb] at e
    exact absurd e (hplaces i id)
  · rw [hreplies, List.mem_append, List.mem_singleton] at hr'
    rcases hr' with hr' | rfl
    · exact h.ids r' hr'
    · exact hids

/-- the engine thread places a request -/
theorem Wired.placed (h : Wired first requests order t) {i : Nat} {calls : List Call}
    (hc : t.calls = .addRequest i :: calls) (hcalls : t'.calls = calls)
    (hreplies : t'.replies = t.replies ++ [.added i (.ok (idOf first (order ++ [i]) i))])
    (hmap : t'.engineToRequest = t.engineToRequest) (hkept : ∀ x, Kept t t' x)
    (hregistered : ∀ i, (t.clients i).task.registered = true →
      (t'.clients i).task.registered = true) : Wired first requests (order ++ [i]) t' := by
  have hnew := h.unplaced (i := i) (by rw [hc]; exact List.mem_cons_self)
  have hadding := h.call (.addRequest i) (by rw [hc]; exact List.mem_cons_self)
  have hout : t'.outstanding = t.outstanding := by
    unfold Trial.outstanding
    rw [hc, hcalls, hreplies, List.map_append, List.append_assoc, List.map_cons]
    rfl
  have hlen : (order ++ [i]).length = order.length + 1 := List.length_append
  -- the other replies keep their ids
  have hold : ∀ r, ReplyOk first requests.length order t r →
      ReplyOk first requests.length (order ++ [i]) t r := by
    intro r hok
    cases r with
    | capacity j free => exact hok
    | added j out =>
      cases out with
      | ok id =>
        exact ⟨hok.1, List.mem_append_left _ hok.2.1, by rw [idOf_append hok.2.1]; exact hok.2.2⟩
      | error err => exact hok
    | stepped out => exact hok
  refine ⟨hout ▸ h.once, fun c' hc' => ?_, fun r' hr' => ?_, fun id j hj => ?_, fun j hj => ?_,
    ?_, fun r' hr' => ?_⟩
  · exact (h.call c' (by rw [hc]; exact List.mem_cons_of_mem _ (hcalls ▸ hc'))).kept (hkept _)
  · rw [hreplies, List.mem_append, List.mem_singleton] at hr'
    rcases hr' with hr' | rfl
    · exact (hold r' (h.reply r' hr')).kept (hkept _)
    · exact ⟨⟨hadding.1, (hkept (some i)).trans hadding.2⟩,
        List.mem_append_right _ List.mem_cons_self, rfl⟩
  · obtain ⟨k, h1, h2, h3, h4⟩ := h.mapped id j (hmap ▸ hj)
    exact ⟨k, List.mem_append_left _ h1, h2, by rw [idOf_append h1]; exact h3, hregistered k h4⟩
  · rw [hmap, hreplies]
    rcases List.mem_append.mp hj with hj | hj
    · rw [idOf_append hj]
      exact (h.complete j hj).imp_right (List.mem_append_left _)
    · rw [List.mem_singleton.mp hj]
      exact Or.inr (List.mem_append_right _ List.mem_cons_self)
  · rw [hreplies]
    refine List.pairwise_append.mpr ⟨h.fifo, List.pairwise_singleton _ _, fun a ha b hb j id e => ?_⟩
    rw [List.mem_singleton.mp hb, idOf_new hnew] at e
    cases e
    exact fun x hx => (h.ids a ha x hx).2
  · rw [hreplies, List.mem_append, List.mem_singleton] at hr'
    rw [hlen]
    rcases hr' with hr' | rfl
    · intro x hx
      have := h.ids r' hr' x hx
      omega
    · exact fun x hx => absurd hx List.not_mem_nil

end
end RedlineAdapter
end Redline

import Redline.Adapter.Wiring

/-!
# Every emission finds its client
-/

namespace Redline
namespace RedlineAdapter
open Prog RunBench

section
variable {κ δ : Type} {T : Nat} {o : SchedulerOptions} {env : Environment κ δ} {first : Nat}
  {requests : List WorkloadRequest} {total : Nat} {G : Ghost} {t t' : Trial δ}

/-! ## the tasks -/

/-- it has a call in flight -/
def Trial.Waiting (t : Trial δ) : Option Nat → Prop
  | some i => (t.clients i).task = .asking ∨ (t.clients i).task = .adding
  | none => t.pump = .stepping

/-- an exception of the engine, or of a client after the pump had one -/
def Trial.Fault (t : Trial δ) (e : TrialError) : Prop :=
  (∃ x, e = .invalidArgument x) ∨ (e = .pumpFailed ∧ ∃ x, t.pump = .raised (.executor x))

def Trial.PumpOk (total : Nat) (t : Trial δ) : Prop :=
  match t.pump with
  | .resting => t.finished < total ∨ total = 0
  | .stepping => t.finished < total
  | .exited => t.finished = total
  | .raised e => t.finished < total ∧ ∃ x, e = .executor x

def Trial.ClientOk (t : Trial δ) (i : Nat) : Prop :=
  match (t.clients i).task with
  | .cancelled => False
  | .raised e => t.Fault e ∧ t.gathered ≠ none
  | _ => True

def Trial.MainOk (total : Nat) (t : Trial δ) : Prop :=
  match t.main with
  | .gathering => True
  | .awaitingPump => ∀ i < total, (t.clients i).task = .returned
  | .returned traces => (∀ i < total, (t.clients i).task = .returned) ∧ t.pump = .exited ∧
      traces = (List.range total).map fun i => (t.clients i).trace
  | _ => False

/-- the tasks of a trial that has not failed -/
structure Tasks (total : Nat) (t : Trial δ) : Prop where
  waiting : ∀ x, t.Waiting x → x ∈ t.outstanding
  pump : t.PumpOk total
  client : ∀ i, t.ClientOk i
  gathered : ∀ e, t.gathered = some e → t.Fault e
  main : t.MainOk total
  sound : t.poisoned = false
  calm : t.pump.failed = false → (∀ r ∈ t.replies, ∀ err, r ≠ .stepped (.error err)) →
    Calm t.w.events

/-- a trial that has not failed -/
structure Routed (T : Nat) (o : SchedulerOptions) (first : Nat) (requests : List WorkloadRequest)
    (G : Ghost) (t : Trial δ) : Prop where
  served : Served T o first requests G.order t.w
  wired : Wired first requests G.order t
  streams : Streams first requests G t (t.replies.flatMap Reply.results)
  tasks : Tasks requests.length t

/-- a trial that failed -/
structure Broken (T : Nat) (o : SchedulerOptions) (t : Trial δ) : Prop where
  inv : EngineInv T o t.w.engine
  poisoned : t.poisoned = true
  fault : ∃ e, t.Fault e ∧ (t.main = .failing e ∨ t.main = .raised e)
  pump : Trial.pumpDone t.pump = true
  clients : ∀ i, Trial.cancelTask (t.clients i).task = (t.clients i).task

theorem waiting_congr {x : Option Nat} (h : Kept t t' x) : t'.Waiting x ↔ t.Waiting x := by
  cases x with
  | none =>
    have hp : t'.pump = t.pump := h
    show t'.pump = _ ↔ t.pump = _
    rw [hp]
  | some i =>
    have ht : (t'.clients i).task = (t.clients i).task := h
    show (t'.clients i).task = _ ∨ (t'.clients i).task = _ ↔ _ ∨ _
    rw [ht]

theorem clientOk_congr {i : Nat} (h : t.ClientOk i) (htask : (t'.clients i).task = (t.clients i).task)
    (hfault : ∀ e, t.Fault e → t'.Fault e) (hgathered : t.gathered ≠ none → t'.gathered ≠ none) :
    t'.ClientOk i := by
  unfold Trial.ClientOk at h ⊢
  rw [htask]
  cases hc : (t.clients i).task with
  | raised e => rw [hc] at h; exact ⟨hfault e h.1, hgathered h.2⟩
  | cancelled => rw [hc] at h; exact h.elim
  | _ => trivial

/-! ## a failed trial -/

theorem cancelTask_idem (task : ClientTask) :
    Trial.cancelTask (Trial.cancelTask task) = Trial.cancelTask task := by
  cases task <;> rfl

/-- no client goes on -/
theorem Broken.over (h : Broken T o t) (i : Nat) : (t.clients i).task = .returned ∨
    (∃ e, (t.clients i).task = .raised e) ∨ (t.clients i).task = .cancelled := by
  have hc := h.clients i
  cases htask : (t.clients i).task <;> rw [htask] at hc <;> simp [Trial.cancelTask] at hc ⊢

/-- nobody waits for a reply -/
theorem Broken.delivers (h : Broken T o t) (requests : List WorkloadRequest) :
    t.deliver requests = t ∨ ∃ replies, t.deliver requests = { t with replies } := by
  unfold Trial.deliver
  cases hr : t.replies with
  | nil => exact Or.inl rfl
  | cons r replies =>
    refine Or.inr ⟨replies, ?_⟩
    cases r with
    | capacity i free => rcases h.over i with hc | ⟨e, hc⟩ | hc <;> simp [hc]
    | added i out => rcases h.over i with hc | ⟨e, hc⟩ | hc <;> simp [hc]
    | stepped out =>
      have hp := h.pump
      cases hc : t.pump with
      | stepping => rw [hc] at hp; cases hp
      | _ => rfl

/-- what broke stays so -/
theorem Broken.act (h : Broken T o t) (env : Environment κ δ) (requests : List WorkloadRequest)
    (a : Action κ) : ∃ t', t.act env requests a = some t' ∧ Broken T o t' := by
  cases a with
  | client i now =>
    refine ⟨t, congrArg some ?_, h⟩
    unfold Trial.client
    split
    · rcases h.over i with hc | ⟨e, hc⟩ | hc <;> rw [hc]
    · rfl
  | pump =>
    refine ⟨t, ?_, h⟩
    have hp := h.pump
    unfold Trial.act
    cases hc : t.pump with
    | resting => rw [hc] at hp; cases hp
    | _ => rfl
  | deliver =>
    rcases h.delivers requests with hs | ⟨replies, hs⟩
    · exact ⟨t, congrArg some hs, h⟩
    · exact ⟨_, congrArg some hs, h.inv, h.poisoned, h.fault, h.pump, h.clients⟩
  | worker k =>
    show ∃ t', t.work env requests k = some t' ∧ _
    unfold Trial.work
    cases hc : t.calls with
    | nil => exact ⟨t, rfl, h⟩
    | cons c calls =>
      cases c with
      | hasCapacity i => exact ⟨_, rfl, h.inv, h.poisoned, h.fault, h.pump, h.clients⟩
      | addRequest i =>
        obtain ⟨w', hstep, hE, _⟩ :=
          EngineRun.step_spec env h.inv (.addRequest (requestArgs requests i))
        obtain ⟨out, hout⟩ : ∃ out, t.w.engine.addRequest (requestArgs requests i) = some out := by
          rcases Engine.addRequest_spec h.inv (requestArgs requests i) with ⟨err, ha⟩ | ⟨ha, _⟩
          · exact ⟨_, ha⟩
          · exact ⟨_, ha⟩
        simp only [hout, hstep, Option.bind_eq_bind, Option.bind_some]
        exact ⟨_, rfl, hE, h.poisoned, h.fault, h.pump, h.clients⟩
      | step =>
        obtain ⟨w', hstep, hE, _⟩ := EngineRun.step_spec env h.inv (.step k)
        simp only [hstep, Option.bind_eq_bind, Option.bind_some]
        exact ⟨_, rfl, hE, h.poisoned, h.fault, h.pump, h.clients⟩
  | main begun =>
    obtain ⟨e, hfault, hm | hm⟩ := h.fault
    · refine ⟨{ t with main := .raised e }, ?_, h.inv, h.poisoned, ⟨e, hfault, Or.inr rfl⟩, h.pump,
        h.clients⟩
      show some (t.mainOn _ begun) = _
      unfold Trial.mainOn
      rw [hm]
      simp [h.pump]
    · refine ⟨t, ?_, h⟩
      show some (t.mainOn _ begun) = _
      unfold Trial.mainOn
      rw [hm]

/-! ## the pump -/

theorem Trial.Fault.of_unfailed {e : TrialError} (h : t.Fault e) (hp : t.pump.failed = false)
    (t' : Trial δ) : t'.Fault e := by
  rcases h with ⟨x, rfl⟩ | ⟨_, x, hx⟩
  · exact Or.inl ⟨x, rfl⟩
  · rw [hx] at hp
    cases hp

/-- the pump has the loop, with no `step` in flight -/
structure Ready (T : Nat) (o : SchedulerOptions) (first : Nat) (requests : List WorkloadRequest)
    (G : Ghost) (t : Trial δ) : Prop where
  served : Served T o first requests G.order t.w
  wired : Wired first requests G.order t
  streams : Streams first requests G t (t.replies.flatMap Reply.results)
  free : none ∉ t.outstanding
  waiting : ∀ i, t.Waiting (some i) → some i ∈ t.outstanding
  unfailed : t.pump.failed = false
  client : ∀ i, t.ClientOk i
  gathered : ∀ e, t.gathered = some e → t.Fault e
  main : t.main = .gathering ∨
    (t.main = .awaitingPump ∧ ∀ i < requests.length, (t.clients i).task = .returned)
  sound : t.poisoned = false

theorem Tasks.main_of_pump (h : Tasks total t) (hp : t.pump ≠ .exited) : t.main = .gathering ∨
    (t.main = .awaitingPump ∧ ∀ i < total, (t.clients i).task = .returned) := by
  have hm := h.main
  unfold Trial.MainOk at hm
  cases hc : t.main with
  | gathering => exact Or.inl rfl
  | awaitingPump => rw [hc] at hm; exact Or.inr ⟨rfl, hm⟩
  | failing e => rw [hc] at hm; exact hm.elim
  | returned traces => rw [hc] at hm; exact absurd hm.2.1 hp
  | raised e => rw [hc] at hm; exact hm.elim

theorem Routed.ready (h : Routed T o first requests G t) (hp : t.pump = .resting) :
    Ready T o first requests G t where
  served := h.served
  wired := h.wired
  streams := h.streams
  free := fun hn => by
    have := h.wired.steps hn
    rw [hp] at this
    cases this
  waiting := fun i => h.tasks.waiting (some i)
  unfailed := by rw [hp]; rfl
  client := h.tasks.client
  gathered := h.tasks.gathered
  main := h.tasks.main_of_pump (by rw [hp]; nofun)
  sound := h.tasks.sound

theorem mainOk_of (h : t.main = .gathering ∨
    (t.main = .awaitingPump ∧ ∀ i < total, (t.clients i).task = .returned)) : t.MainOk total := by
  unfold Trial.MainOk
  rcases h with hm | ⟨hm, hall⟩
  · rw [hm]; trivial
  · rw [hm]; exact hall

/-- no error is on its way to the pump -/
def Trial.Clear (t : Trial δ) : Prop := ∀ r ∈ t.replies, ∀ err, r ≠ .stepped (.error err)

namespace Ready

theorem clientOk (h : Ready T o first requests G t) (pump : PumpTask) (i : Nat) :
    Trial.ClientOk { t with pump } i :=
  clientOk_congr (h.client i) rfl (fun _ he => he.of_unfailed h.unfailed _) fun hg => hg

/-- the pump ends, or sleeps, with no call in flight -/
theorem leave (h : Ready T o first requests G t) (hcalm : t.Clear → Calm t.w.events)
    {pump : PumpTask} (hstep : pump ≠ .stepping) (hfailed : pump.failed = false)
    (hok : Trial.PumpOk requests.length { t with pump }) :
    Routed T o first requests G { t with pump } where
  served := h.served
  wired := h.wired.retask rfl rfl rfl (fun x hx => by
      cases x with
      | none => exact absurd hx h.free
      | some i => rfl) fun _ hi => hi
  streams := h.streams.frame (hfailed.trans h.unfailed.symm) rfl rfl fun _ _ hs => hs
  tasks :=
    { waiting := fun x hx => by
        cases x with
        | none => exact absurd hx hstep
        | some i => exact h.waiting i hx
      pump := hok
      client := h.clientOk pump
      gathered := fun e he => (h.gathered e he).of_unfailed h.unfailed _
      main := mainOk_of h.main
      sound := h.sound
      calm := fun _ => hcalm }

/-- **The loop of the pump.** -/
theorem pumpOn (h : Ready T o first requests G t) (hcalm : t.Clear → Calm t.w.events) :
    Routed T o first requests G (t.pumpOn requests.length) := by
  unfold Trial.pumpOn
  have hle : t.finished ≤ requests.length := by
    rw [h.streams.finished]
    exact List.countP_le_length.trans (by rw [List.length_range])
  by_cases hlt : t.finished < requests.length
  · rw [if_pos hlt]
    have hwired : Wired first requests G.order { t with pump := .stepping } :=
      h.wired.retask rfl rfl rfl (fun x hx => by
        cases x with
        | none => exact absurd hx h.free
        | some i => rfl) fun _ hi => hi
    refine ⟨h.served, hwired.submit h.free rfl,
      h.streams.frame h.unfailed.symm rfl rfl fun _ _ hs => hs, ?_⟩
    refine ⟨fun x hx => ?_, hlt, h.clientOk .stepping,
      fun e he => (h.gathered e he).of_unfailed h.unfailed _, mainOk_of h.main, h.sound,
      fun _ => hcalm⟩
    show x ∈ t.replies.map Reply.task ++ (t.calls ++ [Call.step]).map Call.task
    rw [List.map_append, ← List.append_assoc]
    cases x with
    | none => exact List.mem_append_right _ List.mem_cons_self
    | some i => exact List.mem_append_left _ (h.waiting i hx)
  · rw [if_neg hlt]
    exact h.leave hcalm nofun rfl (Nat.le_antisymm hle (Nat.not_lt.mp hlt))

/-- **The pump fails**, and every client is told. -/
theorem fail (h : Ready T o first requests G t) (hlt : t.finished < requests.length)
    (x : ExecutorError) : Routed T o first requests G (t.failPump (.executor x)) := by
  have hback : ∀ i, (t.clients i).task.gaveUp = false := by
    intro i
    have := h.client i
    unfold Trial.ClientOk at this
    cases hc : (t.clients i).task with
    | raised e =>
      rw [hc] at this
      rcases this.1 with ⟨y, rfl⟩ | ⟨_, y, hy⟩
      · rfl
      · have hp := h.unfailed
        rw [hy] at hp
        cases hp
    | _ => rfl
  refine ⟨h.served, ?_, ⟨h.streams.distinct, fun i hi => ?_, h.streams.all, h.streams.finished⟩, ?_⟩
  · refine h.wired.retask rfl rfl rfl (fun y hy => ?_) fun _ hi => hi
    cases y with
    | none => exact absurd hy h.free
    | some i => rfl
  · have hs := h.streams.client i hi
    rw [h.unfailed] at hs
    exact hs.fail (hback i)
  · refine ⟨fun y hy => ?_, ⟨hlt, x, rfl⟩, fun i => ?_,
      fun e he => (h.gathered e he).of_unfailed h.unfailed _, mainOk_of h.main, h.sound, nofun⟩
    · cases y with
      | none => cases hy
      | some i => exact h.waiting i hy
    · exact h.clientOk (.raised (.executor x)) i

end Ready

/-- the pump gets the reply to its `step` -/
theorem Routed.told (h : Routed T o first requests G t)
    {out : Except ExecutorError (List StepResult)} {replies : List Reply}
    (hr : t.replies = .stepped out :: replies) :
    t.pump = .stepping ∧ t.finished < requests.length ∧
      Wired first requests G.order { t with replies } ∧
      none ∉ Trial.outstanding { t with replies } ∧
      (∀ i, t.Waiting (some i) → some i ∈ Trial.outstanding { t with replies }) := by
  have hp : t.pump = .stepping :=
    h.wired.reply (.stepped out) (by rw [hr]; exact List.mem_cons_self)
  obtain ⟨hwired, hfree⟩ := h.wired.drop hr fun i e => by cases e
  have hlt := h.tasks.pump
  unfold Trial.PumpOk at hlt
  rw [hp] at hlt
  refine ⟨hp, hlt, hwired, hfree, fun i hi => ?_⟩
  have hmem := h.tasks.waiting (some i) hi
  have hout : t.outstanding = none :: Trial.outstanding { t with replies } := by
    unfold Trial.outstanding
    rw [hr]
    rfl
  rw [hout, List.mem_cons] at hmem
  exact hmem.resolve_left nofun

/-- the id of a request of the trial -/
theorem idOf_surj {order : List Nat} (hn : order.Nodup) {id : Nat} (h1 : first < id)
    (h2 : id < first + order.length + 1) : ∃ i ∈ order, idOf first order i = id := by
  have hlt : id - first - 1 < order.length := by omega
  refine ⟨order[id - first - 1], List.getElem_mem hlt, ?_⟩
  unfold idOf
  rw [hn.idxOf_getElem]
  omega

/-- **What a step reports is known to the adapter** by the time its reply is delivered. -/
theorem Routed.known (h : Routed T o first requests G t) {results : List StepResult}
    {replies : List Reply} (hr : t.replies = .stepped (.ok results) :: replies) :
    ∀ x ∈ results, ∃ i ∈ G.order, t.engineToRequest x.requestId = some (requestId requests i) ∧
      x.requestId = idOf first G.order i := by
  intro x hx
  obtain ⟨h1, h2⟩ := h.wired.ids (.stepped (.ok results)) (by rw [hr]; exact List.mem_cons_self) x hx
  obtain ⟨i, hi, hid⟩ := idOf_surj h.served.nodup h1 h2
  refine ⟨i, hi, ?_, hid.symm⟩
  rw [← hid]
  refine (h.wired.complete i hi).resolve_right fun hm => ?_
  -- its reply would come after this one, which tells of it
  have hfifo := h.wired.fifo
  rw [hr, List.pairwise_cons] at hfifo
  rw [hr, List.mem_cons] at hm
  rcases hm with hm | hm
  · cases hm
  · have hlt := hfifo.1 _ hm i _ rfl x hx
    rw [hid] at hlt
    exact Nat.lt_irrefl _ hlt

/-- with one call of the pump in flight, a reply to it is the only one -/
theorem Wired.clear (h : Wired first requests G.order t) {results : List StepResult}
    {replies : List Reply} (hr : t.replies = .stepped (.ok results) :: replies) : t.Clear := by
  have honce := (List.nodup_append.mp h.once).1
  rw [hr, List.map_cons, List.nodup_cons] at honce
  intro r hm err e
  subst e
  rw [hr, List.mem_cons] at hm
  rcases hm with hm | hm
  · cases hm
  · exact honce.1 (List.mem_map.mpr ⟨_, hm, rfl⟩)

/-- **The pump after a step.** -/
theorem Routed.stepped (h : Routed T o first requests G t)
    {out : Except ExecutorError (List StepResult)} {replies : List Reply}
    (hr : t.replies = .stepped out :: replies) :
    ∃ G', Routed T o first requests G' (Trial.stepped requests.length { t with replies } out) := by
  obtain ⟨hp, hlt, hwired, hfree, hwaiting⟩ := h.told hr
  have hunfailed : t.pump.failed = false := by rw [hp]; rfl
  have hmain := h.tasks.main_of_pump (by rw [hp]; nofun)
  have hstreams : Streams first requests G { t with replies }
      ((Reply.stepped out).results ++ replies.flatMap Reply.results) := by
    have := h.streams
    rw [hr] at this
    exact this.frame rfl rfl rfl fun _ _ hs => hs
  cases out with
  | error x =>
    have hready : Ready T o first requests G { t with replies } :=
      ⟨h.served, hwired, hstreams, hfree, hwaiting, hunfailed, h.tasks.client, h.tasks.gathered,
        hmain, h.tasks.sound⟩
    exact ⟨G, hready.fail hlt x⟩
  | ok results =>
    have hcalm : Calm t.w.events := h.tasks.calm hunfailed (h.wired.clear hr)
    have hstory : ∀ i ∈ G.order, ∃ q, Story q (about (idOf first G.order i) (reports t.w.events)) := by
      intro i hi
      have hidx := List.idxOf_lt_length_of_mem hi
      exact ⟨_, h.served.story hcalm (first + G.order.idxOf i) (by rw [h.served.count]; omega)
        (Nat.le_add_right _ _)⟩
    obtain ⟨G', t1, hroute, horder, hfed, hstreams1⟩ := Streams.route results hstreams hunfailed
      h.served.lt hstory (h.known hr)
    -- the rest of the trial is as before
    have hready : Ready T o first requests G' t1 := by
      have hout : t1.outstanding = Trial.outstanding { t with replies } := by
        unfold Trial.outstanding
        rw [hfed.calls, hfed.replies]
      have htasks : ∀ i, (t1.clients i).task = (t.clients i).task := fun i => by rw [hfed.clients]
      have hfault : ∀ e, t.Fault e → t1.Fault e := fun e he => he.of_unfailed hunfailed t1
      have hgathered : t1.gathered = t.gathered := hfed.gathered
      refine ⟨by rw [hfed.w, horder]; exact h.served, ?_, by rw [hfed.replies]; exact hstreams1,
        by rw [hout]; exact hfree, fun i hi => ?_, by rw [hfed.pump]; exact hunfailed, fun i => ?_,
        fun e he => hfault e (h.tasks.gathered e (hgathered ▸ he)), ?_,
        hfed.poisoned.trans h.tasks.sound⟩
      · rw [horder]
        exact hwired.retask hfed.calls hfed.replies hfed.engineToRequest (fun x _ => by
          cases x with
          | none => exact hfed.pump
          | some i => exact htasks i) fun i hi => by rw [htasks i]; exact hi
      · rw [hout]
        exact hwaiting i ((waiting_congr (t := t) (x := some i) (htasks i)).mp hi)
      · exact clientOk_congr (h.tasks.client i) (htasks i) hfault fun hg => hgathered ▸ hg
      · rw [hfed.main]
        refine hmain.imp_right fun hm => ⟨hm.1, fun i hi => ?_⟩
        rw [htasks i]
        exact hm.2 i hi
    have hcalm1 : t1.Clear → Calm t1.w.events := fun _ => by
      rw [hfed.w]
      exact hcalm
    refine ⟨G', ?_⟩
    unfold Trial.stepped
    simp only [hroute]
    by_cases hrest : (results.isEmpty && t1.submitted == t1.finished) = true
    · rw [if_pos hrest]
      have hnil : results = [] := List.isEmpty_iff.mp (Bool.and_eq_true_iff.mp hrest).1
      subst hnil
      obtain rfl := (Prod.mk.inj hroute).1
      exact hready.leave hcalm1 nofun rfl (Or.inl hlt)
    · rw [if_neg hrest]
      exact hready.pumpOn hcalm1

/-! ## the clients -/

/-- a client has the loop, with no call in flight -/
structure Free (T : Nat) (o : SchedulerOptions) (first : Nat) (requests : List WorkloadRequest)
    (G : Ghost) (t : Trial δ) (i : Nat) : Prop where
  served : Served T o first requests G.order t.w
  wired : Wired first requests G.order t
  streams : Streams first requests G t (t.replies.flatMap Reply.results)
  lt : i < requests.length
  free : some i ∉ t.outstanding
  waiting : ∀ x, x ≠ some i → t.Waiting x → x ∈ t.outstanding
  pump : t.PumpOk requests.length
  client : ∀ j, j ≠ i → t.ClientOk j
  gathered : ∀ e, t.gathered = some e → t.Fault e
  main : t.main = .gathering
  sound : t.poisoned = false
  calm : t.pump.failed = false → t.Clear → Calm t.w.events

theorem Tasks.gathering (h : Tasks total t) {i : Nat} (hi : i < total)
    (htask : (t.clients i).task ≠ .returned) : t.main = .gathering := by
  have hm := h.main
  unfold Trial.MainOk at hm
  cases hc : t.main with
  | gathering => rfl
  | awaitingPump => rw [hc] at hm; exact absurd (hm i hi) htask
  | failing e => rw [hc] at hm; exact hm.elim
  | returned traces => rw [hc] at hm; exact absurd (hm.1 i hi) htask
  | raised e => rw [hc] at hm; exact hm.elim

/-- a client that was not waiting for a call -/
theorem Routed.free (h : Routed T o first requests G t) {i : Nat} (hi : i < requests.length)
    (htask : (t.clients i).task ≠ .returned) (hasking : (t.clients i).task ≠ .asking)
    (hadding : (t.clients i).task ≠ .adding) : Free T o first requests G t i where
  served := h.served
  wired := h.wired
  streams := h.streams
  lt := hi
  free := fun hm => (h.wired.awaits hm).elim hasking hadding
  waiting := fun x _ => h.tasks.waiting x
  pump := h.tasks.pump
  client := fun j _ => h.tasks.client j
  gathered := h.tasks.gathered
  main := h.tasks.gathering hi htask
  sound := h.tasks.sound
  calm := h.tasks.calm

/-- a client that gets the reply to its call -/
theorem Routed.answered (h : Routed T o first requests G t) {r : Reply} {replies : List Reply}
    {i : Nat} (hr : t.replies = r :: replies) (htask : r.task = some i) (hi : i < requests.length)
    (hnone : r.results = []) (hplaces : ∀ id, r ≠ .added i (.ok id)) :
    Free T o first requests G { t with replies } i := by
  obtain ⟨hwired, hfree⟩ := h.wired.drop hr fun j e => by
    rw [e] at htask
    obtain rfl := Option.some.inj htask
    exact absurd e (hplaces _)
  have hout : t.outstanding = some i :: Trial.outstanding { t with replies } := by
    unfold Trial.outstanding
    rw [hr, ← htask]
    rfl
  have hwait : (t.clients i).task = .asking ∨ (t.clients i).task = .adding :=
    h.wired.awaits (hout ▸ List.mem_cons_self)
  have hstreams := h.streams
  rw [hr, List.flatMap_cons, hnone, List.nil_append] at hstreams
  refine ⟨h.served, hwired, hstreams.frame rfl rfl rfl fun _ _ hs => hs, hi, htask ▸ hfree,
    fun x hx hw => ?_, h.tasks.pump, fun j _ => h.tasks.client j, h.tasks.gathered,
    h.tasks.gathering hi (by rcases hwait with e | e <;> rw [e] <;> nofun), h.tasks.sound,
    fun hp hclear => h.tasks.calm hp fun r' hr' err e => ?_⟩
  · have hm : x ∈ t.outstanding := h.tasks.waiting x hw
    rw [hout, List.mem_cons] at hm
    exact hm.resolve_left hx
  · rw [hr, List.mem_cons] at hr'
    rcases hr' with rfl | hr'
    · rw [e] at htask
      cases htask
    · exact hclear r' hr' err e

namespace Free
variable {i : Nat}

/-- the trial with another state of the client -/
def moved (t : Trial δ) (i : Nat) (c : Client) (gathered : Option TrialError) : Trial δ :=
  { t with clients := Function.update t.clients i c, gathered }

theorem kept_moved (t : Trial δ) (c : Client) (gathered : Option TrialError) {x : Option Nat}
    (hx : x ≠ some i) : Kept t (moved t i c gathered) x := by
  cases x with
  | none => rfl
  | some j =>
    show (Function.update t.clients i c j).task = _
    rw [Function.update_of_ne fun e => hx (congrArg some e)]

theorem clientOk_moved (h : Free T o first requests G t i) {c : Client}
    {gathered : Option TrialError} (hmono : t.gathered ≠ none → gathered ≠ none) {j : Nat}
    (hj : j ≠ i) : (moved t i c gathered).ClientOk j :=
  clientOk_congr (h.client j hj) (kept_moved t c gathered fun e => hj (Option.some.inj e))
    (fun _ he => he) hmono

theorem wired_moved (h : Free T o first requests G t i) {c : Client}
    (gathered : Option TrialError)
    (hregistered : (t.clients i).task.registered = true → c.task.registered = true) :
    Wired first requests G.order (moved t i c gathered) := by
  refine h.wired.retask rfl rfl rfl
    (fun x hx => kept_moved t c gathered fun e => h.free (e ▸ hx)) fun j hj => ?_
  show (Function.update t.clients i c j).task.registered = true
  by_cases hij : j = i
  · subst hij
    rw [Function.update_self]
    exact hregistered hj
  · rw [Function.update_of_ne hij]
    exact hj

/-- **The client goes on to an `await` that is not a call.** -/
theorem move (h : Free T o first requests G t i) {G' : Ghost} (horder : G'.order = G.order)
    (c : Client) (queues : Int → List Item) (gathered : Option TrialError)
    (hstreams : Streams first requests G' { moved t i c gathered with queues }
      (t.replies.flatMap Reply.results))
    (hasking : c.task ≠ .asking) (hadding : c.task ≠ .adding)
    (hregistered : (t.clients i).task.registered = true → c.task.registered = true)
    (hok : (moved t i c gathered).ClientOk i) (hfault : ∀ e, gathered = some e → t.Fault e)
    (hmono : t.gathered ≠ none → gathered ≠ none) :
    Routed T o first requests G' { moved t i c gathered with queues } where
  served := horder ▸ h.served
  wired := horder ▸ (h.wired_moved gathered hregistered).retask rfl rfl rfl
    (fun x _ => by cases x <;> rfl) fun _ hj => hj
  streams := hstreams
  tasks :=
    { waiting := fun x hx => by
        by_cases he : x = some i
        · subst he
          have hw : (Function.update t.clients i c i).task = .asking ∨
            (Function.update t.clients i c i).task = .adding := hx
          rw [Function.update_self] at hw
          exact absurd hw (not_or.mpr ⟨hasking, hadding⟩)
        · exact h.waiting x he ((waiting_congr (kept_moved t c gathered he)).mp hx)
      pump := h.pump
      client := fun j => by
        by_cases hj : j = i
        · rw [hj]; exact hok
        · exact h.clientOk_moved hmono hj
      gathered := hfault
      main := mainOk_of (Or.inl h.main)
      sound := h.sound
      calm := h.calm }

/-- what the client heard is as before -/
theorem streams_moved (h : Free T o first requests G t i) {c : Client}
    (gathered : Option TrialError)
    (hstream : ∀ name queue consumed queued,
      Stream name t.pump.failed (t.clients i) queue consumed queued →
      Stream name t.pump.failed c queue consumed queued) :
    Streams first requests G (moved t i c gathered) (t.replies.flatMap Reply.results) := by
  refine h.streams.frame rfl rfl rfl fun j _ hs => ?_
  show Stream _ _ (Function.update t.clients i c j) (t.queues _) _ _
  by_cases hj : j = i
  · subst hj
    rw [Function.update_self]
    exact hstream _ _ _ _ hs
  · rw [Function.update_of_ne hj]
    exact hs

/-- **The client makes a call.** -/
theorem call (h : Free T o first requests G t i) (c : Client) {call : Call}
    (htask : call.task = some i)
    (hcall : (c.task = .asking ∧ call = .hasCapacity i) ∨ (c.task = .adding ∧ call = .addRequest i))
    (hregistered : (t.clients i).task.registered = false)
    (hstream : ∀ name queue consumed queued,
      Stream name t.pump.failed (t.clients i) queue consumed queued →
      Stream name t.pump.failed c queue consumed queued) :
    Routed T o first requests G ((moved t i c t.gathered).submit call) := by
  have hwired : Wired first requests G.order (moved t i c t.gathered) :=
    h.wired_moved t.gathered fun hr => by rw [hregistered] at hr; cases hr
  have hself : ((moved t i c t.gathered).clients i) = c := Function.update_self ..
  have hok : CallOk requests.length (moved t i c t.gathered) call := by
    rcases hcall with ⟨hc, rfl⟩ | ⟨hc, rfl⟩
    · exact ⟨h.lt, by rw [hself]; exact hc⟩
    · exact ⟨h.lt, by rw [hself]; exact hc⟩
  refine ⟨h.served, hwired.submit (htask ▸ h.free) hok,
    (h.streams_moved t.gathered hstream).frame rfl rfl rfl fun _ _ hs => hs, ?_⟩
  refine ⟨fun x hx => ?_, h.pump, fun j => ?_, h.gathered, mainOk_of (Or.inl h.main), h.sound,
    h.calm⟩
  · show x ∈ t.replies.map Reply.task ++ (t.calls ++ [call]).map Call.task
    rw [List.map_append, ← List.append_assoc]
    by_cases he : x = some i
    · rw [he, ← htask]
      exact List.mem_append_right _ List.mem_cons_self
    · exact List.mem_append_left _
        (h.waiting x he ((waiting_congr (kept_moved t c t.gathered he)).mp hx))
  · by_cases hj : j = i
    · show (moved t i c t.gathered).ClientOk j
      rw [hj]
      unfold Trial.ClientOk
      rw [hself]
      rcases hcall with ⟨hc, _⟩ | ⟨hc, _⟩ <;> rw [hc] <;> trivial
    · exact h.clientOk_moved (c := c) (fun hg => hg) hj

end Free

theorem goOn_eq (t : Trial δ) (i : Nat) (task : ClientTask) :
    t.goOn i task = Free.moved t i { t.clients i with task } t.gathered := rfl

/-- a client that sleeps, or is not started, asks for capacity -/
theorem Free.ask {i : Nat} (h : Free T o first requests G t i) (trace : RequestTrace)
    (hname : trace.requestId = (t.clients i).trace.requestId)
    (hids : trace.tokenIds = (t.clients i).trace.tokenIds)
    (htimes : trace.tokenTimes = (t.clients i).trace.tokenTimes)
    (hreason : trace.finishReason = (t.clients i).trace.finishReason)
    (hback : (t.clients i).task.gaveUp = false)
    (hreturned : Trial.returnedTask (t.clients i).task = false)
    (hregistered : (t.clients i).task.registered = false) :
    Routed T o first requests G ((moved t i ⟨.asking, trace⟩ t.gathered).submit (.hasCapacity i)) := by
  refine h.call ⟨.asking, trace⟩ rfl (Or.inl ⟨rfl, rfl⟩) hregistered
    fun name queue consumed queued hs => ⟨hname.trans hs.named, hids.trans hs.tokens, ?_, ?_,
      fun _ => ?_, nofun⟩
  · rw [htimes, hids]
    exact hs.times
  · rw [hs.queue, hback]
    rfl
  · rw [hreason]
    exact hs.going hreturned

/-- a client that finds that the pump failed -/
theorem Routed.giveUp (h : Routed T o first requests G t) {i : Nat} (hi : i < requests.length)
    (htask : (t.clients i).task = .streaming) (hq : G.queued i = []) (hp : t.pump.failed = true) :
    Routed T o first requests G
      { Free.moved t i { t.clients i with task := .raised .pumpFailed }
          (t.gathered.or (some .pumpFailed)) with
        queues := Function.update t.queues (requestId requests i) [] } := by
  have hfree : Free T o first requests G t i :=
    h.free hi (by rw [htask]; nofun) (by rw [htask]; nofun) (by rw [htask]; nofun)
  have hfault : t.Fault .pumpFailed := by
    refine Or.inr ⟨rfl, ?_⟩
    have hok := h.tasks.pump
    unfold Trial.PumpOk at hok
    cases hc : t.pump with
    | raised e =>
      rw [hc] at hok
      obtain ⟨x, rfl⟩ := hok.2
      exact ⟨x, rfl⟩
    | _ => rw [hc] at hp; cases hp
  have hsome : t.gathered.or (some .pumpFailed) ≠ none := by
    cases t.gathered <;> simp
  refine hfree.move rfl _ _ _ (h.streams.frame rfl rfl rfl fun j hj hsj => ?_) nofun nofun
    (fun _ => rfl) ?_ (fun e he => ?_) fun _ => hsome
  · show Stream _ _ (Function.update t.clients i _ j)
      (Function.update t.queues (requestId requests i) _ (requestId requests j)) _ _
    by_cases hji : j = i
    · subst hji
      rw [Function.update_self, Function.update_self]
      rw [hq] at hsj ⊢
      exact hsj.giveUp htask
    · rw [Function.update_of_ne hji,
        Function.update_of_ne fun e => hji (h.streams.distinct.inj hj hi e)]
      exact hsj
  · unfold Trial.ClientOk
    rw [show ((Free.moved t i { t.clients i with task := .raised .pumpFailed }
      (t.gathered.or (some .pumpFailed))).clients i).task = .raised .pumpFailed from by
        show (Function.update t.clients i _ i).task = _
        rw [Function.update_self]]
    exact ⟨hfault, hsome⟩
  · cases hg : t.gathered with
    | none => rw [hg] at he; rw [← Option.some.inj he]; exact hfault
    | some e' => rw [hg] at he; rw [← Option.some.inj he]; exact h.tasks.gathered e' hg

/-- a client that takes a report -/
theorem Routed.hear (h : Routed T o first requests G t) {i : Nat} (hi : i < requests.length)
    (htask : (t.clients i).task = .streaming) (now : Rat) {x : StepResult} {queued : List StepResult}
    (hq : G.queued i = x :: queued) :
    Routed T o first requests (G.take i x queued)
      { Free.moved t i ((t.clients i).heard now x.token x.finished x.finishReason.name) t.gathered with
        queues := Function.update t.queues (requestId requests i)
          (queued.map Item.of ++ sentinel t.pump.failed false) } := by
  have hfree : Free T o first requests G t i :=
    h.free hi (by rw [htask]; nofun) (by rw [htask]; nofun) (by rw [htask]; nofun)
  have hs := h.streams.client i hi
  rw [hq] at hs
  have htake := hs.take htask now
  have horder : (G.take i x queued).order = G.order := rfl
  refine hfree.move horder _ _ t.gathered ⟨h.streams.distinct, fun j hj => ?_, fun j hj => ?_, ?_⟩
    ?_ ?_ ?_ ?_ h.tasks.gathered fun hg => hg
  · show Stream _ t.pump.failed (Function.update t.clients i _ j)
      (Function.update t.queues (requestId requests i) _ (requestId requests j))
      (Function.update G.consumed i _ j) (Function.update G.queued i _ j)
    by_cases hji : j = i
    · subst hji
      rw [Function.update_self, Function.update_self, Function.update_self, Function.update_self]
      exact htake
    · rw [Function.update_of_ne hji,
        Function.update_of_ne fun e => hji (h.streams.distinct.inj hj hi e),
        Function.update_of_ne hji, Function.update_of_ne hji]
      exact h.streams.client j hj
  · rw [Ghost.delivered_take hq]
    exact h.streams.all j hj
  · have hended : (G.take i x queued).ended = G.ended := by
      funext j
      unfold Ghost.ended
      rw [Ghost.delivered_take hq]
    rw [hended]
    exact h.streams.finished
  · rw [heard_task, htask]
    cases x.finished <;> nofun
  · rw [heard_task, htask]
    cases x.finished <;> nofun
  · intro _
    rw [heard_task, htask]
    cases x.finished <;> rfl
  · unfold Trial.ClientOk Free.moved
    simp only [Function.update_self, heard_task, htask]
    cases x.finished <;> trivial

/-- **A client gets from its queue.** -/
theorem Routed.take (h : Routed T o first requests G t) {i : Nat} (hi : i < requests.length)
    (htask : (t.clients i).task = .streaming) (now : Rat) :
    ∃ G', Routed T o first requests G' (t.take requests i now) := by
  have hqueue := (h.streams.client i hi).queue
  have hback : (t.clients i).task.gaveUp = false := by rw [htask]; rfl
  rw [hback] at hqueue
  unfold Trial.take
  cases hq : G.queued i with
  | nil =>
    rw [hq] at hqueue
    cases hp : t.pump.failed with
    | false =>
      -- nothing in the queue
      rw [hp] at hqueue
      have hnil : t.queues (requestId requests i) = [] := hqueue
      simp only [hnil]
      exact ⟨G, h⟩
    | true =>
      rw [hp] at hqueue
      have hcons : t.queues (requestId requests i) = [.pumpFailed] := hqueue
      simp only [hcons]
      exact ⟨G, h.giveUp hi htask hq hp⟩
  | cons x queued =>
    rw [hq] at hqueue
    have hcons : t.queues (requestId requests i)
        = .emission x.token x.finished x.finishReason.name ::
          (queued.map Item.of ++ sentinel t.pump.failed false) := hqueue
    simp only [hcons]
    exact ⟨_, h.hear hi htask now hq⟩

/-- **A client runs.** -/
theorem Routed.client (h : Routed T o first requests G t) (i : Nat) (now : Rat) :
    ∃ G', Routed T o first requests G' (t.client requests i now) := by
  unfold Trial.client
  by_cases hi : i < requests.length
  · rw [if_pos hi]
    cases hc : (t.clients i).task with
    | arriving =>
      have hfree := h.free hi (by rw [hc]; nofun) (by rw [hc]; nofun) (by rw [hc]; nofun)
      have hask := hfree.ask { (t.clients i).trace with enqueueTime := now } rfl rfl rfl rfl
        (by rw [hc]; rfl) (by rw [hc]; rfl) (by rw [hc]; rfl)
      refine ⟨G, ?_⟩
      simp only [goOn_eq, Free.moved, Function.update_idem, Function.update_self]
      exact hask
    | backingOff =>
      have hfree := h.free hi (by rw [hc]; nofun) (by rw [hc]; nofun) (by rw [hc]; nofun)
      exact ⟨G, hfree.ask (t.clients i).trace rfl rfl rfl rfl (by rw [hc]; rfl) (by rw [hc]; rfl)
        (by rw [hc]; rfl)⟩
    | streaming => exact h.take hi hc now
    | _ => exact ⟨G, h⟩
  · rw [if_neg hi]
    exact ⟨G, h⟩

/-- **A client gets its capacity.** -/
theorem Routed.asked (h : Routed T o first requests G t) {i : Nat} {free : Bool}
    {replies : List Reply} (hr : t.replies = .capacity i free :: replies) :
    (t.clients i).task = .asking ∧
      Routed T o first requests G (Trial.asked { t with replies } i free) := by
  obtain ⟨hi, hc⟩ := h.wired.reply (.capacity i free) (by rw [hr]; exact List.mem_cons_self)
  have hfree := h.answered hr rfl hi rfl nofun
  have hgaveUp : (t.clients i).task.gaveUp = false := by rw [hc]; rfl
  have hreturned : Trial.returnedTask (t.clients i).task = false := by rw [hc]; rfl
  have hregistered : (t.clients i).task.registered = false := by rw [hc]; rfl
  refine ⟨hc, ?_⟩
  unfold Trial.asked
  cases free with
  | true =>
    rw [if_pos rfl]
    exact hfree.call { t.clients i with task := .adding } rfl (Or.inr ⟨rfl, rfl⟩) hregistered
      fun _ _ _ _ hs => hs.goOn hgaveUp.symm hreturned.symm
  | false =>
    rw [if_neg nofun]
    refine hfree.move rfl { t.clients i with task := .backingOff } t.queues t.gathered
      (hfree.streams_moved _ fun _ _ _ _ hs => hs.goOn hgaveUp.symm hreturned.symm) nofun nofun
      (fun hr => ?_) ?_ h.tasks.gathered fun hg => hg
    · rw [show (Trial.clients { t with replies } i).task = (t.clients i).task from rfl,
        hregistered] at hr
      cases hr
    · unfold Trial.ClientOk Free.moved
      simp only [Function.update_self]

/-- the engine turned the request of a client down -/
theorem Routed.turnedDown (h : Routed T o first requests G t) {i : Nat} {err : InvalidArgument}
    {replies : List Reply} (hr : t.replies = .added i (.error err) :: replies) :
    (t.clients i).task = .adding ∧
      Routed T o first requests G (Trial.added requests { t with replies } i (.error err)) := by
  obtain ⟨hi, hc⟩ := h.wired.reply (.added i (.error err)) (by rw [hr]; exact List.mem_cons_self)
  have hfree := h.answered hr rfl hi rfl nofun
  have hfault : Trial.Fault { t with replies } (.invalidArgument err) := Or.inl ⟨err, rfl⟩
  have hsome : t.gathered.or (some (.invalidArgument err)) ≠ none := by
    cases t.gathered <;> simp
  refine ⟨hc, hfree.move rfl { t.clients i with task := .raised (.invalidArgument err) } t.queues
    (t.gathered.or (some (.invalidArgument err)))
    (hfree.streams_moved _ fun _ _ _ _ hs => hs.goOn ?_ ?_) nofun nofun (fun hr => ?_) ?_
    (fun e he => ?_) fun _ => hsome⟩
  · show _ = (t.clients i).task.gaveUp
    rw [hc]
    rfl
  · show _ = Trial.returnedTask (t.clients i).task
    rw [hc]
    rfl
  · have hr' : (t.clients i).task.registered = true := hr
    rw [hc] at hr'
    cases hr'
  · unfold Trial.ClientOk Free.moved
    simp only [Function.update_self]
    exact ⟨hfault, hsome⟩
  · cases hg : t.gathered with
    | none => rw [hg] at he; rw [← Option.some.inj he]; exact hfault
    | some e' => rw [hg] at he; rw [← Option.some.inj he]; exact h.tasks.gathered e' hg

/-- the engine took the request of a client in -/
theorem Routed.takenIn (h : Routed T o first requests G t) {i id : Nat} {replies : List Reply}
    (hr : t.replies = .added i (.ok id) :: replies) :
    (t.clients i).task = .adding ∧
      Routed T o first requests G (Trial.added requests { t with replies } i (.ok id)) := by
  obtain ⟨⟨hi, hc⟩, _⟩ := h.wired.reply (.added i (.ok id)) (by rw [hr]; exact List.mem_cons_self)
  have hmain := h.tasks.gathering hi (by rw [hc]; nofun)
  have hself : ((Trial.added requests { t with replies } i (.ok id)).clients i).task
      = .streaming := by
    show (Function.update t.clients i _ i).task = _
    rw [Function.update_self]
  have hother : ∀ j, j ≠ i →
      ((Trial.added requests { t with replies } i (.ok id)).clients j).task = (t.clients j).task :=
    fun j hj => by
      show (Function.update t.clients i _ j).task = _
      rw [Function.update_of_ne hj]
  have hout : t.outstanding = some i ::
      (Trial.added requests { t with replies } i (.ok id)).outstanding := by
    unfold Trial.outstanding
    rw [hr]
    rfl
  have hstreams := h.streams
  rw [hr, List.flatMap_cons] at hstreams
  refine ⟨hc, h.served, ?_, hstreams.frame rfl rfl rfl fun j hj hs => ?_, fun x hx => ?_,
    h.tasks.pump, fun j => ?_, h.tasks.gathered, mainOk_of (Or.inl hmain), h.tasks.sound,
    fun hp hclear => h.tasks.calm hp fun r hm err e => ?_⟩
  · exact h.wired.register hr rfl rfl rfl hother (by rw [hself]; rfl) rfl
  · show Stream _ _ (Function.update t.clients i _ j) (t.queues _) _ _
    by_cases hji : j = i
    · subst hji
      rw [Function.update_self]
      exact hs.goOn (by rw [hc]; rfl) (by rw [hc]; rfl)
    · rw [Function.update_of_ne hji]
      exact hs
  · -- the others still wait
    have hne : x ≠ some i := by
      rintro rfl
      have hw : ((Trial.added requests { t with replies } i (.ok id)).clients i).task = .asking ∨
        ((Trial.added requests { t with replies } i (.ok id)).clients i).task = .adding := hx
      rw [hself] at hw
      rcases hw with hw | hw <;> cases hw
    have hk : Kept t (Trial.added requests { t with replies } i (.ok id)) x := by
      cases x with
      | none => rfl
      | some j => exact hother j fun e => hne (congrArg some e)
    have hm := h.tasks.waiting x ((waiting_congr hk).mp hx)
    rw [hout, List.mem_cons] at hm
    exact hm.resolve_left hne
  · by_cases hj : j = i
    · rw [hj]
      unfold Trial.ClientOk
      rw [hself]
      trivial
    · exact clientOk_congr (h.tasks.client j) (hother j hj) (fun _ he => he) fun hg => hg
  · rw [hr, List.mem_cons] at hm
    rcases hm with rfl | hm
    · cases e
    · exact hclear r hm err e

/-- **A client gets its id**, or is refused. -/
theorem Routed.added (h : Routed T o first requests G t) {i : Nat}
    {out : Except InvalidArgument Nat} {replies : List Reply}
    (hr : t.replies = .added i out :: replies) :
    (t.clients i).task = .adding ∧
      Routed T o first requests G (Trial.added requests { t with replies } i out) := by
  cases out with
  | error err => exact h.turnedDown hr
  | ok id => exact h.takenIn hr

/-- **The loop delivers a reply.** -/
theorem Routed.delivered (h : Routed T o first requests G t) :
    ∃ G', Routed T o first requests G' (t.deliver requests) := by
  unfold Trial.deliver
  cases hr : t.replies with
  | nil => exact ⟨G, h⟩
  | cons r replies =>
    cases r with
    | capacity i free =>
      obtain ⟨hc, hasked⟩ := h.asked hr
      simp only [hc]
      exact ⟨G, hasked⟩
    | added i out =>
      obtain ⟨hc, hadded⟩ := h.added hr
      simp only [hc]
      exact ⟨G, hadded⟩
    | stepped out =>
      obtain ⟨hp, _⟩ := h.told hr
      obtain ⟨G', hstepped⟩ := h.stepped hr
      refine ⟨G', ?_⟩
      simp only [hp] at hstepped ⊢
      exact hstepped

/-! ## the engine thread -/

/-- **A call that places no request.** -/
theorem Routed.worked (h : Routed T o first requests G t) {c : Call} {calls : List Call} {r : Reply}
    {w : EngineRun δ} (hc : t.calls = c :: calls) (htask : r.task = c.task)
    (hok : ReplyOk first requests.length G.order t r) (hplaces : ∀ i id, r ≠ .added i (.ok id))
    (hids : ∀ x ∈ r.results, first < x.requestId ∧ x.requestId < first + G.order.length + 1)
    (hserved : Served T o first requests G.order w)
    (hreports : reports w.events = reports t.w.events ++ r.results)
    (hcalm : (∀ err, r ≠ .stepped (.error err)) → Calm t.w.events → Calm w.events) :
    Routed T o first requests G { t with w, calls, replies := t.replies ++ [r] } := by
  have hkept : ∀ x, Kept t { t with w, calls, replies := t.replies ++ [r] } x := fun x => by
    cases x <;> rfl
  refine ⟨hserved, h.wired.answered hc rfl rfl rfl hkept (fun _ hi => hi) htask hok hplaces hids,
    ⟨h.streams.distinct, h.streams.client, fun i hi => ?_, h.streams.finished⟩, fun x hx => ?_,
      h.tasks.pump,
    h.tasks.client, h.tasks.gathered, h.tasks.main, h.tasks.sound, fun hp hclear => ?_⟩
  · show about _ (reports w.events) = _ ++ about _ ((t.replies ++ [r]).flatMap Reply.results)
    rw [hreports, about_append, h.streams.all i hi, List.flatMap_append, about_append,
      List.append_assoc]
    simp
  · have hm := h.tasks.waiting x ((waiting_congr (hkept x)).mp hx)
    have hout : Trial.outstanding { t with w, calls, replies := t.replies ++ [r] }
        = t.outstanding := by
      unfold Trial.outstanding
      rw [hc, List.map_append, List.append_assoc, List.map_cons, List.map_nil, htask]
      rfl
    rw [hout]
    exact hm
  · refine hcalm (fun err => hclear r (List.mem_append_right _ List.mem_cons_self) err) ?_
    exact h.tasks.calm hp fun r' hr' => hclear r' (List.mem_append_left _ hr')

/-- nothing is told of a request that is not accepted -/
theorem about_unplaced {l : List StepResult} {n id : Nat} (h : ∀ x ∈ l, x.requestId < n)
    (hid : n ≤ id) : about id l = [] :=
  about_nil fun x hx => Nat.ne_of_lt (Nat.lt_of_lt_of_le (h x hx) hid)

/-- **A call that places a request.** -/
theorem Routed.placed (h : Routed T o first requests G t) {i : Nat} {calls : List Call}
    {w : EngineRun δ} (hc : t.calls = .addRequest i :: calls)
    (hserved : Served T o first requests (G.order ++ [i]) w)
    (hevents : w.events = t.w.events ++
      [.added (idOf first (G.order ++ [i]) i) (requestArgs requests i)]) :
    Routed T o first requests { G with order := G.order ++ [i] }
      { t with
        w
        calls
        replies := t.replies ++ [.added i (.ok (idOf first (G.order ++ [i]) i))] } := by
  have hkept : ∀ x, Kept t { t with
      w
      calls
      replies := t.replies ++ [.added i (.ok (idOf first (G.order ++ [i]) i))] } x := fun x => by
    cases x <;> rfl
  have hreports : reports w.events = reports t.w.events := by
    rw [hevents, reports_append]
    exact List.append_nil _
  refine ⟨hserved, h.wired.placed hc rfl rfl rfl hkept fun _ hi => hi,
    ⟨h.streams.distinct, h.streams.client, fun j hj => ?_, h.streams.finished⟩, fun x hx => ?_,
      h.tasks.pump,
    h.tasks.client, h.tasks.gathered, h.tasks.main, h.tasks.sound, fun hp hclear => ?_⟩
  · show about (idOf first (G.order ++ [i]) j) (reports w.events)
      = G.delivered j ++ about (idOf first (G.order ++ [i]) j) ((t.replies ++ [_]).flatMap _)
    rw [hreports, List.flatMap_append]
    show _ = G.delivered j ++ about _ (t.replies.flatMap Reply.results ++ [])
    rw [List.append_nil]
    have hall := h.streams.all j hj
    by_cases hplace : j ∈ G.order
    · rw [idOf_append hplace]
      exact hall
    · -- before, nothing was told of it
      have hknown : ∀ x ∈ reports t.w.events, x.requestId < first + G.order.length + 1 := by
        intro x hx
        have := (h.served.known x hx).2
        rw [h.served.count] at this
        exact this
      have hU : ∀ x ∈ t.replies.flatMap Reply.results, x.requestId < first + G.order.length + 1 := by
        intro x hx
        obtain ⟨r, hr, hx⟩ := List.mem_flatMap.mp hx
        exact (h.wired.ids r hr x hx).2
      have hold : first + G.order.length + 1 ≤ idOf first G.order j := by
        unfold idOf
        rw [List.idxOf_eq_length hplace]
      have hnew : first + G.order.length + 1 ≤ idOf first (G.order ++ [i]) j := by
        unfold idOf
        rw [List.idxOf_append_of_notMem hplace]
        omega
      rw [about_unplaced hknown hold, about_unplaced hU hold] at hall
      rw [about_unplaced hknown hnew, about_unplaced hU hnew]
      exact hall
  · have hm := h.tasks.waiting x ((waiting_congr (hkept x)).mp hx)
    have hout : Trial.outstanding { t with
        w
        calls
        replies := t.replies ++ [.added i (.ok (idOf first (G.order ++ [i]) i))] }
        = t.outstanding := by
      unfold Trial.outstanding
      rw [hc, List.map_append, List.append_assoc, List.map_cons]
      rfl
    rw [hout]
    exact hm
  · have hcalm := h.tasks.calm hp fun r' hr' => hclear r' (List.mem_append_left _ hr')
    show Calm w.events
    rw [hevents]
    intro event he
    rcases List.mem_append.mp he with he | he
    · exact hcalm event he
    · rw [List.mem_singleton.mp he]
      rfl

/-- **The engine thread does a call.** -/
theorem Routed.work (h : Routed T o first requests G t) (env : Environment κ δ) (k : κ) :
    ∃ G' t', t.work env requests k = some t' ∧ Routed T o first requests G' t' := by
  unfold Trial.work
  cases hc : t.calls with
  | nil => exact ⟨G, t, rfl, h⟩
  | cons c calls =>
    have hok := h.wired.call c (by rw [hc]; exact List.mem_cons_self)
    cases c with
    | hasCapacity i =>
      exact ⟨G, _, rfl, h.worked hc rfl hok nofun nofun h.served (List.append_nil _).symm
        fun _ hcalm => hcalm⟩
    | addRequest i =>
      have hnew := h.wired.unplaced (i := i) (by rw [hc]; exact List.mem_cons_self)
      rcases h.served.added env hok.1 hnew with ⟨err, w', ha, hstep, hevents, hserved⟩ |
        ⟨e, w', ha, hstep, hevents, hserved⟩
      · simp only [ha, hstep, Option.bind_eq_bind, Option.bind_some]
        refine ⟨G, _, rfl, h.worked (r := .added i (.error err)) hc rfl hok nofun nofun hserved ?_
          fun _ hcalm => ?_⟩
        · rw [hevents, reports_append]
          rfl
        · rw [hevents]
          intro event he
          rcases List.mem_append.mp he with he | he
          · exact hcalm event he
          · rw [List.mem_singleton.mp he]
            rfl
      · simp only [ha, hstep, Option.bind_eq_bind, Option.bind_some]
        exact ⟨_, _, rfl, h.placed hc hserved hevents⟩
    | step =>
      obtain ⟨w', plan, out, hstep, hreturned, hserved, hevents, hids⟩ := h.served.stepped env k
      simp only [hstep, hreturned, Option.bind_eq_bind, Option.bind_some]
      have hresults : (Event.stepped plan out).results = (Reply.stepped out).results := by
        cases out <;> rfl
      refine ⟨G, _, rfl, h.worked (r := .stepped out) hc rfl hok nofun ?_ hserved ?_
        fun hne hcalm => ?_⟩
      · rw [← h.served.count, ← hresults]
        exact hids
      · rw [hevents, reports_append, hresults]
      · rw [hevents]
        intro event he
        rcases List.mem_append.mp he with he | he
        · exact hcalm event he
        · rw [List.mem_singleton.mp he]
          cases out with
          | error err => exact absurd rfl (hne err)
          | ok results => rfl

end
end RedlineAdapter
end Redline

import Mathlib.Data.List.Infix

/-!
# Staging cells behind an in-order queue

A host fills staging cells and enqueues copies of them to the device, and work that reads what was
copied.  The queue executes its operations in order, at any later time, and a wait returns when it
is empty.  A copy reads the staging cells when it is executed, not when it is enqueued.

* `Run`               the runs: the acts of the host with the queue executing in between;
* `Sparing`           no cell is written after an enqueued copy of it and before the next wait;
* `sparing_iff_safe`  the sparing lists of acts are the ones with no run that writes a cell which a
                      copy still in the queue reads;
* `Run.seen`          in a run of a sparing list every piece of work sees what it would have seen
                      with every operation executed on the spot.
-/

namespace Staging

section
variable {κ ν ω : Type}

inductive Op (κ ω : Type) where
  | copy (cells : List κ)
  | work (w : ω)

/-- what the host does -/
inductive Act (κ ν ω : Type) where
  | write (cell : κ) (value : ν)
  | push (op : Op κ ω)
  | wait

structure State (κ ν ω : Type) where
  host : κ → ν
  device : κ → ν
  queue : List (Op κ ω)
  /-- the work executed so far, each with the device as it found it -/
  seen : List (ω × (κ → ν))

variable [DecidableEq κ]

def State.write (s : State κ ν ω) (cell : κ) (value : ν) : State κ ν ω :=
  { s with host := Function.update s.host cell value }

def Op.exec (s : State κ ν ω) : Op κ ω → State κ ν ω
  | .copy cells => { s with device := fun c => if c ∈ cells then s.host c else s.device c }
  | .work w => { s with seen := s.seen ++ [(w, s.device)] }

theorem exec_copy_of_mem {cells : List κ} {c : κ} (h : c ∈ cells) (s : State κ ν ω) :
    ((Op.copy cells).exec s).device c = s.host c := if_pos h

theorem exec_copy_of_not_mem {cells : List κ} {c : κ} (h : c ∉ cells) (s : State κ ν ω) :
    ((Op.copy cells).exec s).device c = s.device c := if_neg h

inductive Run (s : State κ ν ω) : List (Act κ ν ω) → State κ ν ω → Prop
  | start : Run s [] s
  | tick {l t op q} : Run s l t → t.queue = op :: q → Run s l (op.exec { t with queue := q })
  | write {l t} (cell value) : Run s l t → Run s (l ++ [.write cell value]) (t.write cell value)
  | push {l t} (op) : Run s l t → Run s (l ++ [.push op]) { t with queue := t.queue ++ [op] }
  | wait {l t} : Run s l t → t.queue = [] → Run s (l ++ [.wait]) t

/-! ## sparing lists of acts -/

/-- the cells out for copying after an act -/
def Act.out (out : List κ) : Act κ ν ω → List κ
  | .push (.copy cells) => out ++ cells
  | .wait => []
  | _ => out

/-- the act writes none of these cells -/
def Act.Spares (out : List κ) : Act κ ν ω → Prop
  | .write cell _ => cell ∉ out
  | _ => True

def outAfter (out : List κ) (l : List (Act κ ν ω)) : List κ := l.foldl Act.out out

def Sparing (out : List κ) : List (Act κ ν ω) → Prop
  | [] => True
  | a :: l => a.Spares out ∧ Sparing (a.out out) l

omit [DecidableEq κ] in
theorem outAfter_append (out : List κ) (l l' : List (Act κ ν ω)) :
    outAfter out (l ++ l') = outAfter (outAfter out l) l' := List.foldl_append

omit [DecidableEq κ] in
theorem sparing_append (l : List (Act κ ν ω)) : ∀ (out : List κ) (l' : List (Act κ ν ω)),
    Sparing out (l ++ l') ↔ Sparing out l ∧ Sparing (outAfter out l) l' := by
  induction l with
  | nil => intro out l'; exact (and_iff_right trivial).symm
  | cons a l ih =>
    intro out l'
    show a.Spares out ∧ Sparing (a.out out) (l ++ l') ↔ (a.Spares out ∧ Sparing (a.out out) l) ∧ _
    rw [ih, and_assoc]
    exact Iff.rfl

omit [DecidableEq κ] in
theorem sparing_snoc {out : List κ} {l : List (Act κ ν ω)} {a : Act κ ν ω} :
    Sparing out (l ++ [a]) ↔ Sparing out l ∧ a.Spares (outAfter out l) := by
  rw [sparing_append]
  exact and_congr_right' (and_iff_left trivial)

/-! ## the queue executed on the spot -/

/-- one act with the queue always empty -/
def direct (s : State κ ν ω) : Act κ ν ω → State κ ν ω
  | .write cell value => s.write cell value
  | .push op => op.exec s
  | .wait => s

def directly (s : State κ ν ω) (l : List (Act κ ν ω)) : State κ ν ω := l.foldl direct s

theorem directly_append (s : State κ ν ω) (l l' : List (Act κ ν ω)) :
    directly s (l ++ l') = directly (directly s l) l' := List.foldl_append

theorem directly_snoc (s : State κ ν ω) (l : List (Act κ ν ω)) (a : Act κ ν ω) :
    directly s (l ++ [a]) = direct (directly s l) a := directly_append s l [a]

/-- what is left to execute, executed -/
def State.finish (s : State κ ν ω) : State κ ν ω := s.queue.foldl Op.exec { s with queue := [] }

theorem exec_queue (op : Op κ ω) (s : State κ ν ω) (q : List (Op κ ω)) :
    op.exec { s with queue := q } = { op.exec s with queue := q } := by
  cases op <;> rfl

theorem finish_queue (s : State κ ν ω) : s.finish.queue = [] := by
  have key : ∀ (q : List (Op κ ω)) (t : State κ ν ω), (q.foldl Op.exec t).queue = t.queue := by
    intro q
    induction q with
    | nil => intro t; rfl
    | cons op q ih =>
      intro t
      rw [List.foldl_cons, ih]
      cases op <;> rfl
  exact key s.queue { s with queue := [] }

theorem finish_tick {s : State κ ν ω} {op : Op κ ω} {q : List (Op κ ω)} (h : s.queue = op :: q) :
    (op.exec { s with queue := q }).finish = s.finish := by
  unfold State.finish
  rw [h]
  cases op <;> rfl

theorem finish_push (s : State κ ν ω) (op : Op κ ω) :
    State.finish { s with queue := s.queue ++ [op] } = op.exec s.finish := by
  unfold State.finish
  exact List.foldl_append

theorem exec_write {op : Op κ ω} {cell : κ} (h : ∀ cells, op = .copy cells → cell ∉ cells)
    (s : State κ ν ω) (value : ν) : op.exec (s.write cell value) = (op.exec s).write cell value := by
  cases op with
  | work w => rfl
  | copy cells =>
    have hread : (fun c => if c ∈ cells then Function.update s.host cell value c else s.device c)
        = fun c => if c ∈ cells then s.host c else s.device c := by
      funext c
      by_cases hc : c ∈ cells
      · have hne : c ≠ cell := fun h0 => h cells rfl (h0 ▸ hc)
        rw [if_pos hc, if_pos hc, Function.update_of_ne hne]
      · rw [if_neg hc, if_neg hc]
    exact congrArg (fun device => State.mk (Function.update s.host cell value) device s.queue s.seen)
      hread

/-- a write that no queued copy reads can be done last -/
theorem finish_write {s : State κ ν ω} {cell : κ}
    (h : ∀ cells, Op.copy cells ∈ s.queue → cell ∉ cells) (value : ν) :
    (s.write cell value).finish = s.finish.write cell value := by
  have key : ∀ (q : List (Op κ ω)), (∀ cells, Op.copy cells ∈ q → cell ∉ cells) →
      ∀ t : State κ ν ω, q.foldl Op.exec (t.write cell value)
        = (q.foldl Op.exec t).write cell value := by
    intro q
    induction q with
    | nil => intro _ t; rfl
    | cons op q ih =>
      intro hq t
      rw [List.foldl_cons, List.foldl_cons,
        exec_write (fun cells hop => hq cells (hop ▸ List.mem_cons_self)),
        ih fun cells hmem => hq cells (List.mem_cons_of_mem _ hmem)]
  exact key s.queue h { s with queue := [] }

theorem seen_exec (op : Op κ ω) (s : State κ ν ω) : s.seen <+: (op.exec s).seen := by
  cases op with
  | copy cells => exact List.prefix_rfl
  | work w => exact List.prefix_append _ _

theorem seen_directly (l : List (Act κ ν ω)) : ∀ s : State κ ν ω, s.seen <+: (directly s l).seen := by
  induction l with
  | nil => intro s; exact List.prefix_rfl
  | cons a l ih =>
    intro s
    refine List.IsPrefix.trans ?_ (ih (direct s a))
    cases a with
    | push op => exact seen_exec op s
    | write _ _ | wait => exact List.prefix_rfl

theorem seen_finish (s : State κ ν ω) : s.seen <+: s.finish.seen := by
  have key : ∀ (q : List (Op κ ω)) (t : State κ ν ω), t.seen <+: (q.foldl Op.exec t).seen := by
    intro q
    induction q with
    | nil => intro t; exact List.prefix_rfl
    | cons op q ih => intro t; exact (seen_exec op t).trans (ih _)
  exact key s.queue { s with queue := [] }

/-! ## runs -/

/-- the copies still in the queue were enqueued since the last wait -/
theorem Run.queued {s t : State κ ν ω} {l : List (Act κ ν ω)} (h : Run s l t) (hs : s.queue = []) :
    ∀ cells, Op.copy cells ∈ t.queue → ∀ c ∈ cells, c ∈ outAfter [] l := by
  induction h with
  | start =>
    intro cells hmem
    rw [hs] at hmem
    cases hmem
  | @tick l t op q _ hq ih =>
    intro cells hmem
    rw [exec_queue] at hmem
    exact ih cells (hq ▸ List.mem_cons_of_mem _ hmem)
  | write cell value _ ih =>
    rw [outAfter_append]
    exact ih
  | @push l t op _ ih =>
    intro cells hmem c hc
    rw [outAfter_append]
    rcases List.mem_append.mp hmem with hmem | hmem
    · have := ih cells hmem c hc
      cases op with
      | copy cells' => exact List.mem_append_left _ this
      | work w => exact this
    · obtain rfl := List.mem_singleton.mp hmem
      exact List.mem_append_right _ hc
  | wait _ hq _ =>
    intro cells hmem
    rw [hq] at hmem
    cases hmem

/-- **A sparing run executes on the spot**, as far as its work can tell. -/
theorem Run.finish {s t : State κ ν ω} {l : List (Act κ ν ω)} (h : Run s l t) (hs : s.queue = [])
    (hl : Sparing [] l) : t.finish = directly s l := by
  induction h with
  | start =>
    unfold State.finish
    rw [hs]
    cases s
    subst hs
    rfl
  | tick _ hq ih => rw [finish_tick hq, ih hl]
  | write cell value hrun ih =>
    obtain ⟨hl, hspares⟩ := sparing_snoc.mp hl
    rw [finish_write (fun cells hmem hc => hspares (hrun.queued hs cells hmem cell hc)), ih hl,
      directly_snoc]
    rfl
  | push op _ ih => rw [finish_push, ih (sparing_snoc.mp hl).1, directly_snoc]; rfl
  | wait _ _ ih => rw [ih (sparing_snoc.mp hl).1, directly_snoc]; rfl

theorem Run.seen {s t : State κ ν ω} {l : List (Act κ ν ω)} (h : Run s l t) (hs : s.queue = [])
    (hl : Sparing [] l) : t.seen <+: (directly s l).seen := by
  rw [← h.finish hs hl]
  exact seen_finish t

/-- a queue can always be run empty -/
theorem Run.drain {s t : State κ ν ω} {l : List (Act κ ν ω)} (h : Run s l t) : Run s l t.finish := by
  have key : ∀ (q : List (Op κ ω)) (t : State κ ν ω), t.queue = q → Run s l t → Run s l t.finish := by
    intro q
    induction q with
    | nil =>
      intro t hq h
      unfold State.finish
      rw [hq]
      cases t
      subst hq
      exact h
    | cons op q ih =>
      intro t hq h
      rw [← finish_tick hq]
      refine ih _ ?_ (h.tick hq)
      rw [exec_queue]
  exact key t.queue t rfl h

/-- one act with a queue that does nothing before it has to -/
def late (s : State κ ν ω) : Act κ ν ω → State κ ν ω
  | .write cell value => s.write cell value
  | .push op => { s with queue := s.queue ++ [op] }
  | .wait => s.finish

def lately (s : State κ ν ω) (l : List (Act κ ν ω)) : State κ ν ω := l.foldl late s

theorem run_lately (s : State κ ν ω) (l : List (Act κ ν ω)) : Run s l (lately s l) := by
  induction l using List.reverseRecOn with
  | nil => exact .start
  | append_singleton l a ih =>
    unfold lately
    rw [List.foldl_append]
    cases a with
    | write cell value => exact ih.write cell value
    | push op => exact ih.push op
    | wait => exact ih.drain.wait (finish_queue _)

/-- in the late run every cell that is out is still in the queue -/
theorem lately_queue (s : State κ ν ω) (l : List (Act κ ν ω)) :
    ∀ c ∈ outAfter [] l, ∃ cells, Op.copy cells ∈ (lately s l).queue ∧ c ∈ cells := by
  induction l using List.reverseRecOn with
  | nil => exact fun c hc => absurd hc List.not_mem_nil
  | append_singleton l a ih =>
    unfold lately
    rw [outAfter_append, List.foldl_append]
    cases a with
    | write cell value => exact ih
    | wait => exact fun c hc => absurd hc List.not_mem_nil
    | push op =>
      have hold : ∀ c ∈ outAfter [] l,
          ∃ cells, Op.copy cells ∈ (lately s l).queue ++ [op] ∧ c ∈ cells := by
        intro c hc
        obtain ⟨cells, hmem, hcell⟩ := ih c hc
        exact ⟨cells, List.mem_append_left _ hmem, hcell⟩
      cases op with
      | work w => exact hold
      | copy cells =>
        intro c hc
        rcases List.mem_append.mp hc with hc | hc
        · exact hold c hc
        · exact ⟨cells, List.mem_append_right _ (List.mem_singleton.mpr rfl), hc⟩

/-- no run of the list writes a cell that a copy in the queue will read -/
def Safe (s : State κ ν ω) (l : List (Act κ ν ω)) : Prop :=
  ∀ before cell value after, l = before ++ .write cell value :: after →
    ∀ t, Run s before t → ∀ cells, Op.copy cells ∈ t.queue → cell ∉ cells

theorem sparing_iff_safe {s : State κ ν ω} (hs : s.queue = []) (l : List (Act κ ν ω)) :
    Sparing [] l ↔ Safe s l := by
  constructor
  · rintro hl before cell value after rfl t hrun cells hmem hcell
    have hspares := ((sparing_append before [] _).mp hl).2.1
    exact hspares (hrun.queued hs cells hmem cell hcell)
  · induction l using List.reverseRecOn with
    | nil => intro _; trivial
    | append_singleton l a ih =>
      intro h
      refine sparing_snoc.mpr ⟨ih fun before cell value after hl => ?_, ?_⟩
      · exact h before cell value (after ++ [a]) (by rw [hl, List.append_assoc]; rfl)
      · cases a with
        | push op => trivial
        | wait => trivial
        | write cell value =>
          intro hout
          obtain ⟨cells, hmem, hcell⟩ := lately_queue s l cell hout
          exact h l cell value [] rfl _ (run_lately s l) cells hmem hcell

end

end Staging

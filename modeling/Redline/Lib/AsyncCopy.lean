import Mathlib.Data.List.Infix
import Mathlib.Logic.Function.Basic
import Mathlib.Tactic.Common

/-!
# Asynchronous copies and events

A host fills staging cells and enqueues copies of them on streams.  A copy moves its cells one by one,
in any order and at any time.  An event that is recorded on a stream covers the copies enqueued on it
so far, and what it covered before no longer; a wait for the event returns when they are done.

* `Flight`           the copies that may be in flight after a list of acts;
* `SafeActs`         no act rewrites the region of a cell that may still be read, or frees the staging
                     memory under a copy;
* `WritesOnly`           a list of writes, and what the cells hold after it;
* `Run`              the runs: the acts of the host with single moves executed in between;
* `Run.value`        in a run of a safe list, a device cell that is always sent one value ends with it;
* `exists_run`       a list of acts can always be run to its end.
-/

namespace AsyncCopy

section
variable {κ δ ν τ η ρ : Type}

/-- what the host does -/
inductive Act (κ δ ν τ η : Type) where
  | write (cell : κ) (value : ν)
  | copy (stream : τ) (moves : List (δ × κ))
  | record (event : η) (stream : τ)
  | wait (event : η)
  | release

structure Copy (κ δ τ η : Type) where
  number : Nat
  stream : τ
  moves : List (δ × κ)
  /-- the events that cover it -/
  covered : η → Bool

/-- some copy moves a cell to `d` -/
def Targets (d : δ) (l : List (Act κ δ ν τ η)) : Prop :=
  ∃ s moves, Act.copy s moves ∈ l ∧ ∃ k, (d, k) ∈ moves

theorem targets_snoc {d : δ} {l : List (Act κ δ ν τ η)} {a : Act κ δ ν τ η} (h : Targets d (l ++ [a])) :
    Targets d l ∨ ∃ s moves, a = .copy s moves ∧ ∃ k, (d, k) ∈ moves := by
  obtain ⟨s, moves, hmem, hk⟩ := h
  rcases List.mem_append.mp hmem with hmem | hmem
  · exact .inl ⟨s, moves, hmem, hk⟩
  · exact .inr ⟨s, moves, (List.mem_singleton.mp hmem).symm, hk⟩

theorem Targets.append_left {d : δ} {l : List (Act κ δ ν τ η)} (h : Targets d l)
    (l' : List (Act κ δ ν τ η)) :
    Targets d (l ++ l') := by
  obtain ⟨s, moves, hmem, hk⟩ := h
  exact ⟨s, moves, List.mem_append_left _ hmem, hk⟩

theorem Targets.append_right {d : δ} {l l' : List (Act κ δ ν τ η)} (h : Targets d l') :
    Targets d (l ++ l') := by
  obtain ⟨s, moves, hmem, hk⟩ := h
  exact ⟨s, moves, List.mem_append_right _ hmem, hk⟩

/-! ## what may be in flight -/

structure Flight (κ δ τ η : Type) where
  copies : List (Copy κ δ τ η) := []
  issued : Nat := 0

variable [DecidableEq τ] [DecidableEq η]

/-- the events that cover a copy after a record -/
def Copy.recorded (e : η) (s : τ) (c : Copy κ δ τ η) : Copy κ δ τ η :=
  { c with covered := Function.update c.covered e (decide (c.stream = s)) }

def Flight.act (f : Flight κ δ τ η) : Act κ δ ν τ η → Flight κ δ τ η
  | .copy s moves =>
    { copies := f.copies ++ [⟨f.issued, s, moves, fun _ => false⟩], issued := f.issued + 1 }
  | .record e s => { f with copies := f.copies.map (Copy.recorded e s) }
  | .wait e => { f with copies := f.copies.filter fun c => !c.covered e }
  | _ => f

def Flight.after (f : Flight κ δ τ η) (l : List (Act κ δ ν τ η)) : Flight κ δ τ η :=
  l.foldl Flight.act f

theorem Flight.after_append (f : Flight κ δ τ η) (l l' : List (Act κ δ ν τ η)) :
    f.after (l ++ l') = (f.after l).after l' := List.foldl_append

/-- the act keeps off what may be in flight; `region` says which cells are reused together -/
def Act.Safe (region : κ → ρ) (f : Flight κ δ τ η) : Act κ δ ν τ η → Prop
  | .write cell _ => ∀ c ∈ f.copies, ∀ m ∈ c.moves, region m.2 ≠ region cell
  | .release => f.copies = []
  | _ => True

def SafeActs (region : κ → ρ) (f : Flight κ δ τ η) : List (Act κ δ ν τ η) → Prop
  | [] => True
  | a :: l => a.Safe region f ∧ SafeActs region (f.act a) l

theorem safeActs_append {region : κ → ρ} (l : List (Act κ δ ν τ η)) : ∀ (f : Flight κ δ τ η)
    (l' : List (Act κ δ ν τ η)),
    SafeActs region f (l ++ l') ↔ SafeActs region f l ∧ SafeActs region (f.after l) l' := by
  induction l with
  | nil => intro f l'; exact (and_iff_right trivial).symm
  | cons a l ih =>
    intro f l'
    show a.Safe region f ∧ SafeActs region (f.act a) (l ++ l') ↔
      (a.Safe region f ∧ SafeActs region (f.act a) l) ∧ _
    rw [ih, and_assoc]
    exact Iff.rfl

theorem safeActs_snoc {region : κ → ρ} {f : Flight κ δ τ η} {l : List (Act κ δ ν τ η)}
    {a : Act κ δ ν τ η} : SafeActs region f (l ++ [a]) ↔ SafeActs region f l ∧
      a.Safe region (f.after l) := by
  rw [safeActs_append]
  exact and_congr_right' (and_iff_left trivial)

/-! ## the values that are sent -/

variable [DecidableEq κ]

def Act.host (h : κ → ν) : Act κ δ ν τ η → κ → ν
  | .write cell value => Function.update h cell value
  | _ => h

def hostAfter (h : κ → ν) (l : List (Act κ δ ν τ η)) : κ → ν := l.foldl Act.host h

omit [DecidableEq τ] [DecidableEq η] in
theorem hostAfter_append (h : κ → ν) (l l' : List (Act κ δ ν τ η)) :
    hostAfter h (l ++ l') = hostAfter (hostAfter h l) l' := List.foldl_append

omit [DecidableEq τ] [DecidableEq η] in
theorem hostAfter_of_not_written {l : List (Act κ δ ν τ η)} {cell : κ} :
    ∀ {h : κ → ν}, (∀ v, Act.write cell v ∉ l) → hostAfter h l cell = h cell := by
  induction l with
  | nil => exact fun _ => rfl
  | cons a l ih =>
    intro h hl
    refine (ih (h := a.host h) fun v hmem => hl v (List.mem_cons_of_mem _ hmem)).trans ?_
    cases a with
    | write cell' v =>
      refine Function.update_of_ne ?_ _ _
      rintro rfl
      exact hl v List.mem_cons_self
    | copy _ _ => rfl
    | record _ _ => rfl
    | wait _ => rfl
    | release => rfl

/-- every move sends a value that `P` allows for its device cell, as the staging cells are when its copy
is enqueued -/
def Sends (P : δ → ν → Prop) (h : κ → ν) : List (Act κ δ ν τ η) → Prop
  | [] => True
  | .copy _ moves :: l => (∀ m ∈ moves, P m.1 (h m.2)) ∧ Sends P h l
  | a :: l => Sends P (a.host h) l

omit [DecidableEq τ] [DecidableEq η] in
theorem sends_append {P : δ → ν → Prop} (l : List (Act κ δ ν τ η)) : ∀ (h : κ → ν)
    (l' : List (Act κ δ ν τ η)), Sends P h (l ++ l') ↔ Sends P h l ∧ Sends P (hostAfter h l) l' := by
  induction l with
  | nil => intro h l'; exact (and_iff_right trivial).symm
  | cons a l ih =>
    intro h l'
    cases a with
    | copy s moves =>
      show (_ ∧ Sends P h (l ++ l')) ↔ (_ ∧ Sends P h l) ∧ _
      rw [ih, and_assoc]
      exact Iff.rfl
    | write cell value => exact ih _ l'
    | record e s => exact ih _ l'
    | wait e => exact ih _ l'
    | release => exact ih _ l'

/-! ## lists of writes -/

section
omit [DecidableEq κ]

/-- the acts are writes, of values that `P` allows for their cells -/
def WritesOnly (P : κ → ν → Prop) (l : List (Act κ δ ν τ η)) : Prop :=
  ∀ a ∈ l, ∃ cell value, a = .write cell value ∧ P cell value

variable {P : κ → ν → Prop} {l : List (Act κ δ ν τ η)}

theorem WritesOnly.after (hl : WritesOnly P l) (f : Flight κ δ τ η) : f.after l = f := by
  induction l with
  | nil => rfl
  | cons a l ih =>
    obtain ⟨cell, value, rfl, _⟩ := hl a List.mem_cons_self
    exact ih fun b hb => hl b (List.mem_cons_of_mem _ hb)

theorem WritesOnly.safe {region : κ → ρ} {f : Flight κ δ τ η} (hl : WritesOnly P l)
    (hf : ∀ c ∈ f.copies, ∀ m ∈ c.moves, ∀ cell value, P cell value → region m.2 ≠ region cell) :
    SafeActs region f l := by
  induction l with
  | nil => trivial
  | cons a l ih =>
    obtain ⟨cell, value, rfl, hP⟩ := hl a List.mem_cons_self
    exact ⟨fun c hc m hm => hf c hc m hm cell value hP, ih fun b hb => hl b (List.mem_cons_of_mem _ hb)⟩

/-- a region that is written under a copy -/
theorem SafeActs.of_write {region : κ → ρ} {f : Flight κ δ τ η} (h : SafeActs region f l)
    (hl : WritesOnly P l) {cell : κ} {value : ν} (hmem : Act.write cell value ∈ l) :
    ∀ c ∈ f.copies, ∀ m ∈ c.moves, region m.2 ≠ region cell := by
  induction l with
  | nil => cases hmem
  | cons a l ih =>
    obtain ⟨cell', value', rfl, _⟩ := hl a List.mem_cons_self
    rcases List.mem_cons.mp hmem with heq | hmem
    · cases heq
      exact h.1
    · exact ih h.2 (fun b hb => hl b (List.mem_cons_of_mem _ hb)) hmem

/-- the copies that are left after waits -/
theorem mem_after_waits (hl : ∀ a ∈ l, ∃ e, a = .wait e) {f : Flight κ δ τ η} {c : Copy κ δ τ η} :
    c ∈ (f.after l).copies ↔ c ∈ f.copies ∧ ∀ e, Act.wait e ∈ l → c.covered e = false := by
  induction l generalizing f with
  | nil => exact (and_iff_left nofun).symm
  | cons a l ih =>
    obtain ⟨e, rfl⟩ := hl a List.mem_cons_self
    have hstep : c ∈ (f.act (.wait e : Act κ δ ν τ η)).copies ↔ c ∈ f.copies ∧ c.covered e = false := by
      show c ∈ f.copies.filter _ ↔ _
      rw [List.mem_filter, Bool.not_eq_true']
    show c ∈ ((f.act (.wait e)).after l).copies ↔ _
    rw [ih fun b hb => hl b (List.mem_cons_of_mem _ hb), hstep, and_assoc]
    refine and_congr_right' ⟨fun ⟨he, hrest⟩ e' hmem => ?_, fun h => ?_⟩
    · rcases List.mem_cons.mp hmem with heq | hmem
      · cases heq
        exact he
      · exact hrest e' hmem
    · exact ⟨h e List.mem_cons_self, fun e' hmem => h e' (List.mem_cons_of_mem _ hmem)⟩

theorem safeActs_waits {region : κ → ρ} (hl : ∀ a ∈ l, ∃ e, a = .wait e) (f : Flight κ δ τ η) :
    SafeActs region f l := by
  induction l generalizing f with
  | nil => trivial
  | cons a l ih =>
    obtain ⟨e, rfl⟩ := hl a List.mem_cons_self
    exact ⟨trivial, ih (fun b hb => hl b (List.mem_cons_of_mem _ hb)) _⟩

end

omit [DecidableEq τ] [DecidableEq η] in
theorem WritesOnly.sends {P : κ → ν → Prop} {l : List (Act κ δ ν τ η)} (hl : WritesOnly P l)
    (Q : δ → ν → Prop) (h : κ → ν) : Sends Q h l := by
  induction l generalizing h with
  | nil => trivial
  | cons a l ih =>
    obtain ⟨cell, value, rfl, _⟩ := hl a List.mem_cons_self
    exact ih (fun b hb => hl b (List.mem_cons_of_mem _ hb)) _

omit [DecidableEq τ] [DecidableEq η] in
/-- a cell that is written holds a value that `P` allows for it -/
theorem WritesOnly.host {P : κ → ν → Prop} {l : List (Act κ δ ν τ η)} (hl : WritesOnly P l)
    {h : κ → ν} {cell : κ}
    (hcell : P cell (h cell) ∨ ∃ value, Act.write cell value ∈ l) : P cell (hostAfter h l cell) := by
  induction l generalizing h with
  | nil =>
    rcases hcell with hcell | ⟨_, hmem⟩
    · exact hcell
    · cases hmem
  | cons a l ih =>
    obtain ⟨cell', value', rfl, hP⟩ := hl a List.mem_cons_self
    refine ih (fun b hb => hl b (List.mem_cons_of_mem _ hb)) (h := Function.update h cell' value') ?_
    by_cases heq : cell = cell'
    · subst heq
      rw [Function.update_self]
      exact .inl hP
    · rw [Function.update_of_ne heq]
      rcases hcell with hcell | ⟨value, hmem⟩
      · exact .inl hcell
      · rcases List.mem_cons.mp hmem with h' | hmem
        · cases h'
          exact absurd rfl heq
        · exact .inr ⟨value, hmem⟩

/-! ## runs -/

structure State (κ δ ν : Type) where
  host : κ → ν
  device : δ → ν
  /-- the moves that are not executed yet, each with the number of its copy -/
  pending : List (Nat × δ × κ) := []

def Flight.Covers (f : Flight κ δ τ η) (e : η) (n : Nat) : Prop :=
  ∃ c ∈ f.copies, c.number = n ∧ c.covered e = true

variable [DecidableEq δ]

inductive Run (s : State κ δ ν) : List (Act κ δ ν τ η) → State κ δ ν → Prop
  | start : Run s [] s
  | tick {l t} (before after n d k) : Run s l t → t.pending = before ++ (n, d, k) :: after →
      Run s l { t with device := Function.update t.device d (t.host k), pending := before ++ after }
  | write {l t} (cell value) : Run s l t →
      Run s (l ++ [.write cell value]) { t with host := Function.update t.host cell value }
  | copy {l t} (stream moves) : Run s l t → Run s (l ++ [.copy stream moves])
      { t with pending := t.pending ++ moves.map fun m =>
        (((Flight.after {} l : Flight κ δ τ η)).issued, m) }
  | record {l t} (event stream) : Run s l t → Run s (l ++ [.record event stream]) t
  | wait {l t} (event) : Run s l t →
      (∀ p ∈ t.pending, ¬ ((Flight.after {} l : Flight κ δ τ η)).Covers event p.1) →
        Run s (l ++ [.wait event]) t
  | release {l t} : Run s l t → Run s (l ++ [.release]) t

variable {s t : State κ δ ν} {l : List (Act κ δ ν τ η)}

theorem Run.host (h : Run s l t) : t.host = hostAfter s.host l := by
  induction h with
  | start => rfl
  | tick _ _ _ _ _ _ _ ih => exact ih
  | write cell value _ ih => rw [hostAfter_append, ← ih]; rfl
  | copy _ _ _ ih => rw [hostAfter_append]; exact ih
  | record _ _ _ ih => rw [hostAfter_append]; exact ih
  | wait _ _ _ ih => rw [hostAfter_append]; exact ih
  | release _ ih => rw [hostAfter_append]; exact ih

/-- a move that is not executed belongs to a copy that may be in flight -/
theorem Run.tracked (h : Run s l t) (hs : s.pending = []) : ∀ p ∈ t.pending,
    ∃ c ∈ ((Flight.after {} l : Flight κ δ τ η)).copies, c.number = p.1 ∧ p.2 ∈ c.moves := by
  induction h with
  | start =>
    intro p hp
    rw [hs] at hp
    cases hp
  | tick before after n d k _ hpending ih =>
    intro p hp
    refine ih p ?_
    rw [hpending]
    rcases List.mem_append.mp hp with hp | hp
    · exact List.mem_append_left _ hp
    · exact List.mem_append_right _ (List.mem_cons_of_mem _ hp)
  | write _ _ _ ih => rw [Flight.after_append]; exact ih
  | @copy l t stream moves _ ih =>
    intro p hp
    rw [Flight.after_append]
    rcases List.mem_append.mp hp with hp | hp
    · obtain ⟨c, hc, hcp⟩ := ih p hp
      exact ⟨c, List.mem_append_left _ hc, hcp⟩
    · obtain ⟨m, hm, rfl⟩ := List.mem_map.mp hp
      exact ⟨_, List.mem_append_right _ (List.mem_singleton.mpr rfl), rfl, hm⟩
  | record event stream _ ih =>
    intro p hp
    obtain ⟨c, hc, hcp⟩ := ih p hp
    rw [Flight.after_append]
    exact ⟨c.recorded event stream, List.mem_map_of_mem hc, hcp⟩
  | wait event _ hdone ih =>
    intro p hp
    obtain ⟨c, hc, hcp⟩ := ih p hp
    rw [Flight.after_append]
    refine ⟨c, List.mem_filter.mpr ⟨hc, ?_⟩, hcp⟩
    cases hcov : c.covered event with
    | false => rfl
    | true => exact absurd ⟨c, hc, hcp.1, hcov⟩ (hdone p hp)
  | release _ ih => rw [Flight.after_append]; exact ih

/-- where nothing may be in flight, every move is executed -/
theorem Run.pending_nil (h : Run s l t) (hs : s.pending = [])
    (hdone : ((Flight.after {} l : Flight κ δ τ η)).copies = []) : t.pending = [] := by
  rw [List.eq_nil_iff_forall_not_mem]
  intro p hp
  obtain ⟨c, hc, _⟩ := h.tracked hs p hp
  rw [hdone] at hc
  cases hc

/-- a cell that no copy moves to -/
theorem Run.untouched {d : δ} (h : Run s l t) (hs : s.pending = []) (hd : ¬ Targets d l) :
    t.device d = s.device d ∧ ∀ p ∈ t.pending, p.2.1 ≠ d := by
  induction h with
  | start => exact ⟨rfl, by rw [hs]; nofun⟩
  | tick before after n d' k _ hpending ih =>
    obtain ⟨hdev, hpend⟩ := ih hd
    rw [hpending] at hpend
    have hne : d' ≠ d := hpend (n, d', k) (by simp)
    refine ⟨(Function.update_of_ne hne.symm _ _).trans hdev, fun p hp => hpend p ?_⟩
    rcases List.mem_append.mp hp with hp | hp
    · exact List.mem_append_left _ hp
    · exact List.mem_append_right _ (List.mem_cons_of_mem _ hp)
  | write _ _ _ ih => exact ih fun h => hd (h.append_left _)
  | copy stream moves _ ih =>
    obtain ⟨hdev, hpend⟩ := ih fun h => hd (h.append_left _)
    refine ⟨hdev, fun p hp => ?_⟩
    rcases List.mem_append.mp hp with hp | hp
    · exact hpend p hp
    · obtain ⟨⟨d', k⟩, hm, rfl⟩ := List.mem_map.mp hp
      rintro rfl
      exact hd ⟨stream, moves, List.mem_append_right _ (List.mem_singleton.mpr rfl), k, hm⟩
  | record _ _ _ ih => exact ih fun h => hd (h.append_left _)
  | wait _ _ _ ih => exact ih fun h => hd (h.append_left _)
  | release _ ih => exact ih fun h => hd (h.append_left _)

section
variable {region : κ → ρ} {d : δ} {v : ν} (hs : s.pending = [])
include hs

/-- the staging cells still hold what was to be sent -/
theorem Run.sources (h : Run s l t) (hsafe : SafeActs region {} l)
    (hv : Sends (fun d' v' => d' = d → v' = v) s.host l) :
    ∀ p ∈ t.pending, p.2.1 = d → t.host p.2.2 = v := by
  induction h with
  | start =>
    intro p hp
    rw [hs] at hp
    cases hp
  | tick before after n d' k _ hpending ih =>
    intro p hp
    refine ih hsafe hv p ?_
    rw [hpending]
    rcases List.mem_append.mp hp with hp | hp
    · exact List.mem_append_left _ hp
    · exact List.mem_append_right _ (List.mem_cons_of_mem _ hp)
  | write cell value hrun ih =>
    intro p hp hpd
    obtain ⟨hsafe, hact⟩ := safeActs_snoc.mp hsafe
    obtain ⟨c, hc, _, hm⟩ := hrun.tracked hs p hp
    have hne : p.2.2 ≠ cell := fun heq => hact c hc p.2 hm (congrArg region heq)
    exact (Function.update_of_ne hne _ _).trans (ih hsafe ((sends_append _ _ _).mp hv).1 p hp hpd)
  | copy stream moves hrun ih =>
    intro p hp hpd
    obtain ⟨hv, hmoves⟩ := (sends_append _ _ _).mp hv
    rcases List.mem_append.mp hp with hp | hp
    · exact ih (safeActs_snoc.mp hsafe).1 hv p hp hpd
    · obtain ⟨m, hm, rfl⟩ := List.mem_map.mp hp
      have := hmoves.1 m hm hpd
      rwa [← hrun.host] at this
  | record _ _ _ ih => exact ih (safeActs_snoc.mp hsafe).1 ((sends_append _ _ _).mp hv).1
  | wait _ _ _ ih => exact ih (safeActs_snoc.mp hsafe).1 ((sends_append _ _ _).mp hv).1
  | release _ ih => exact ih (safeActs_snoc.mp hsafe).1 ((sends_append _ _ _).mp hv).1

/-- a cell that is always sent one value holds it, or a move to it is left -/
theorem Run.arrives (h : Run s l t) (hsafe : SafeActs region {} l)
    (hv : Sends (fun d' v' => d' = d → v' = v) s.host l) (hd : Targets d l) :
    t.device d = v ∨ ∃ p ∈ t.pending, p.2.1 = d := by
  induction h with
  | start =>
    obtain ⟨_, _, hmem, _⟩ := hd
    cases hmem
  | @tick l t before after n d' k hrun hpending ih =>
    have hsource := hrun.sources hs hsafe hv
    by_cases hdd : d' = d
    · refine .inl ?_
      have hmem : (n, d', k) ∈ t.pending := by rw [hpending]; simp
      rw [← hdd]
      exact (Function.update_self _ _ _).trans (hsource _ hmem hdd)
    · rcases ih hsafe hv hd with hdev | ⟨p, hp, hpd⟩
      · exact .inl ((Function.update_of_ne (Ne.symm hdd) _ _).trans hdev)
      · refine .inr ⟨p, ?_, hpd⟩
        rw [hpending] at hp
        rcases List.mem_append.mp hp with hp | hp
        · exact List.mem_append_left _ hp
        · rcases List.mem_cons.mp hp with rfl | hp
          · exact absurd hpd hdd
          · exact List.mem_append_right _ hp
  | copy stream moves hrun ih =>
    rcases targets_snoc hd with hd | ⟨s', moves', heq, k, hk⟩
    · rcases ih (safeActs_snoc.mp hsafe).1 ((sends_append _ _ _).mp hv).1 hd with hdev | ⟨p, hp, hpd⟩
      · exact .inl hdev
      · exact .inr ⟨p, List.mem_append_left _ hp, hpd⟩
    · cases heq
      exact .inr ⟨_, List.mem_append_right _ (List.mem_map_of_mem hk), rfl⟩
  | write _ _ _ ih =>
    rcases targets_snoc hd with hd | ⟨_, _, heq, _⟩
    · exact ih (safeActs_snoc.mp hsafe).1 ((sends_append _ _ _).mp hv).1 hd
    · cases heq
  | record _ _ _ ih =>
    rcases targets_snoc hd with hd | ⟨_, _, heq, _⟩
    · exact ih (safeActs_snoc.mp hsafe).1 ((sends_append _ _ _).mp hv).1 hd
    · cases heq
  | wait _ _ _ ih =>
    rcases targets_snoc hd with hd | ⟨_, _, heq, _⟩
    · exact ih (safeActs_snoc.mp hsafe).1 ((sends_append _ _ _).mp hv).1 hd
    · cases heq
  | release _ ih =>
    rcases targets_snoc hd with hd | ⟨_, _, heq, _⟩
    · exact ih (safeActs_snoc.mp hsafe).1 ((sends_append _ _ _).mp hv).1 hd
    · cases heq

/-- **The value of a cell** once nothing is in flight. -/
theorem Run.value (h : Run s l t) (hsafe : SafeActs region {} l)
    (hv : Sends (fun d' v' => d' = d → v' = v) s.host l) (hd : Targets d l)
    (hdone : ((Flight.after {} l : Flight κ δ τ η)).copies = []) : t.device d = v := by
  rcases h.arrives hs hsafe hv hd with hdev | ⟨p, hp, _⟩
  · exact hdev
  · rw [h.pending_nil hs hdone] at hp
    cases hp

end

/-! ## runs exist -/

theorem Run.drain (h : Run s l t) : ∃ t', Run s l t' ∧ t'.pending = [] := by
  generalize hn : t.pending.length = n
  induction n generalizing t with
  | zero => exact ⟨t, h, List.eq_nil_of_length_eq_zero hn⟩
  | succ n ih =>
    obtain ⟨⟨m, d, k⟩, rest, hpending⟩ : ∃ p rest, t.pending = p :: rest := by
      cases hp : t.pending with
      | nil =>
        rw [hp] at hn
        cases hn
      | cons p rest => exact ⟨p, rest, rfl⟩
    have hstep := h.tick [] rest m d k hpending
    refine ih hstep ?_
    rw [hpending] at hn
    exact Nat.succ.inj hn

/-- **Every list of acts has a run.** -/
theorem exists_run (s : State κ δ ν) (hs : s.pending = []) (l : List (Act κ δ ν τ η)) :
    ∃ t, Run s l t ∧ t.pending = [] := by
  induction l using List.reverseRecOn with
  | nil => exact ⟨s, .start, hs⟩
  | append_singleton l a ih =>
    obtain ⟨t, hrun, hpending⟩ := ih
    cases a with
    | write cell value => exact (hrun.write cell value).drain
    | copy stream moves => exact (hrun.copy stream moves).drain
    | record event stream => exact (hrun.record event stream).drain
    | wait event => exact (hrun.wait event (by rw [hpending]; nofun)).drain
    | release => exact hrun.release.drain

end
end AsyncCopy

import Mathlib.Tactic.Common

/-!
# Scripts: programs that log their effects and may throw

A `Script ω ε α` is `none` when an assertion fails; otherwise it is the log of its effects and how
it ended, with a value or with an exception.  The log is kept when it throws.

* `Returns x l a`  the script returns `a` and logs `l`; it composes along `++` (`Returns.bind`,
                   `each_returns`);
* `Total Q x`      no assertion fails, and what the script returns, if it does, satisfies `Q`;
* `Ensures Q x`    what the script returns, if it does, satisfies `Q`: the checks it got past;
* `Emits P x`      whatever the script logs satisfies `P`, however it ends;
* `Begins P x`     its first effect satisfies `P`, and `Refuses x`: it throws before it has any.
-/

def Script (ω ε α : Type) : Type := Option (List ω × Except ε α)

namespace Script
variable {ω ε α β : Type}

protected def pure (a : α) : Script ω ε α := some ([], .ok a)

/-- run `f` on the value of `x`; an exception skips it -/
protected def bind (x : Script ω ε α) (f : α → Script ω ε β) : Script ω ε β :=
  match x with
  | none => none
  | some (l, .error e) => some (l, .error e)
  | some (l, .ok a) =>
    match f a with
    | none => none
    | some (l', r) => some (l ++ l', r)

instance : Monad (Script ω ε) where
  pure := Script.pure
  bind := Script.bind

/-- one effect -/
def emit (w : ω) : Script ω ε Unit := some ([w], .ok ())

def emitAll (l : List ω) : Script ω ε Unit := some (l, .ok ())

def raise (e : ε) : Script ω ε α := some ([], .error e)

/-- `if (p) throw e;` -/
def failIf (p : Prop) [Decidable p] (e : ε) : Script ω ε Unit := if p then raise e else pure ()

/-- a failed assertion -/
def abort : Script ω ε α := none

def assert (p : Prop) [Decidable p] : Script ω ε Unit := if p then pure () else abort

/-- a loop over a list, with the index -/
def each (f : Nat → α → Script ω ε Unit) : Nat → List α → Script ω ε Unit
  | _, [] => pure ()
  | i, a :: as => do
    f i a
    each f (i + 1) as

theorem bind_ok {x : Script ω ε α} {f : α → Script ω ε β} {l l' : List ω} {a : α}
    {r : Except ε β} (h : x = some (l, .ok a)) (h' : f a = some (l', r)) :
    x >>= f = some (l ++ l', r) := by
  show Script.bind x f = _
  unfold Script.bind
  rw [h]
  show (match f a with
    | none => none
    | some (l', r) => some (l ++ l', r)) = _
  rw [h']

theorem bind_error {x : Script ω ε α} (f : α → Script ω ε β) {l : List ω} {e : ε}
    (h : x = some (l, .error e)) : x >>= f = some (l, .error e) := by
  show Script.bind x f = _
  unfold Script.bind
  rw [h]

theorem outcome_inj {l l' : List ω} {r r' : Except ε α}
    (h : (some (l, r) : Script ω ε α) = some (l', r')) : l = l' ∧ r = r' :=
  Prod.mk.inj (Option.some.inj h)

/-- how a bind came to its end -/
theorem of_bind {x : Script ω ε α} {f : α → Script ω ε β} {l : List ω} {r : Except ε β}
    (h : x >>= f = some (l, r)) :
    (∃ e, x = some (l, .error e) ∧ r = .error e) ∨
    ∃ l1 l2 a, l = l1 ++ l2 ∧ x = some (l1, .ok a) ∧ f a = some (l2, r) := by
  match x, h with
  | some (l1, .error e), h =>
    rw [bind_error f rfl] at h
    obtain ⟨rfl, rfl⟩ := outcome_inj h
    exact Or.inl ⟨e, rfl, rfl⟩
  | some (l1, .ok a), h =>
    cases hf : f a with
    | none =>
      have h0 : Script.bind (some (l1, .ok a)) f = some (l, r) := h
      unfold Script.bind at h0
      simp only [hf] at h0
      cases h0
    | some y =>
      obtain ⟨l2, r2⟩ := y
      rw [bind_ok rfl hf] at h
      obtain ⟨rfl, rfl⟩ := outcome_inj h
      exact Or.inr ⟨l1, l2, a, rfl, rfl, hf⟩

/-! ## scripts that return -/

def Returns (x : Script ω ε α) (l : List ω) (a : α) : Prop := x = some (l, .ok a)

theorem Returns.eq {x : Script ω ε α} {l : List ω} {a : α} (h : Returns x l a) :
    x = some (l, .ok a) := h

theorem returns_pure (a : α) : Returns (pure a : Script ω ε α) [] a := rfl

theorem returns_emit (w : ω) : Returns (emit w : Script ω ε Unit) [w] () := rfl

theorem returns_emitAll (l : List ω) : Returns (emitAll l : Script ω ε Unit) l () := rfl

theorem returns_failIf {p : Prop} [Decidable p] (h : ¬ p) (e : ε) :
    Returns (failIf p e : Script ω ε Unit) [] () := if_neg h

theorem returns_assert {p : Prop} [Decidable p] (h : p) :
    Returns (assert p : Script ω ε Unit) [] () := if_pos h

theorem Returns.bind {x : Script ω ε α} {f : α → Script ω ε β} {l l' : List ω} {a : α} {b : β}
    (h : Returns x l a) (h' : Returns (f a) l' b) : Returns (x >>= f) (l ++ l') b := bind_ok h h'

/-- a step that logs nothing -/
theorem Returns.then {x : Script ω ε α} {f : α → Script ω ε β} {l : List ω} {a : α} {b : β}
    (h : Returns x [] a) (h' : Returns (f a) l b) : Returns (x >>= f) l b := h.bind h'

theorem each_returns (f : Nat → α → Script ω ε Unit) (g : Nat → α → List ω) (as : List α) :
    ∀ i, (∀ k a, as[k]? = some a → Returns (f (i + k) a) (g (i + k) a) ()) →
      Returns (each f i as) ((as.zipIdx i).flatMap fun p => g p.2 p.1) () := by
  induction as with
  | nil => intro i _; rfl
  | cons a as ih =>
    intro i h
    have h0 := h 0 a rfl
    have h1 := ih (i + 1) fun k b hk => by
      have := h (k + 1) b (by simpa using hk)
      rwa [show i + 1 + k = i + (k + 1) by omega]
    rw [List.zipIdx_cons, List.flatMap_cons]
    exact h0.bind h1

theorem returns_bind_iff {x : Script ω ε α} {f : α → Script ω ε β} {l : List ω} {b : β} :
    Returns (x >>= f) l b ↔ ∃ l1 l2 a, l = l1 ++ l2 ∧ Returns x l1 a ∧ Returns (f a) l2 b := by
  constructor
  · intro h
    rcases of_bind h with ⟨e, _, he⟩ | h
    · cases he
    · exact h
  · rintro ⟨l1, l2, a, rfl, hx, hf⟩
    exact hx.bind hf

theorem returns_pure_iff {a b : α} {l : List ω} :
    Returns (pure a : Script ω ε α) l b ↔ l = [] ∧ a = b := by
  constructor
  · intro h
    obtain ⟨rfl, hab⟩ := outcome_inj h
    exact ⟨rfl, Except.ok.inj hab⟩
  · rintro ⟨rfl, rfl⟩
    exact returns_pure a

theorem returns_emit_iff {w : ω} {l : List ω} {u : Unit} :
    Returns (emit w : Script ω ε Unit) l u ↔ l = [w] := by
  constructor
  · intro h
    exact (outcome_inj h).1.symm
  · rintro rfl
    exact returns_emit w

theorem returns_failIf_iff {p : Prop} [Decidable p] {e : ε} {l : List ω} {u : Unit} :
    Returns (failIf p e) l u ↔ l = [] ∧ ¬ p := by
  constructor
  · intro h
    unfold failIf at h
    by_cases hp : p
    · rw [if_pos hp] at h
      cases h
    · rw [if_neg hp] at h
      obtain ⟨rfl, _⟩ := outcome_inj h
      exact ⟨rfl, hp⟩
  · rintro ⟨rfl, hp⟩
    exact returns_failIf hp e

/-- a check in front of the rest -/
theorem returns_failIf_bind {p : Prop} [Decidable p] {e : ε} {f : Unit → Script ω ε β} {l : List ω}
    {b : β} : Returns (failIf p e >>= f) l b ↔ ¬ p ∧ Returns (f ()) l b := by
  rw [returns_bind_iff]
  constructor
  · rintro ⟨l1, l2, a, rfl, hx, hf⟩
    obtain ⟨rfl, hp⟩ := returns_failIf_iff.mp hx
    exact ⟨hp, hf⟩
  · rintro ⟨hp, hf⟩
    exact ⟨[], l, (), rfl, returns_failIf hp e, hf⟩

/-- an assertion in front of the rest -/
theorem returns_assert_bind {p : Prop} [Decidable p] {f : Unit → Script ω ε β} {l : List ω}
    {b : β} : Returns (assert p >>= f) l b ↔ p ∧ Returns (f ()) l b := by
  rw [returns_bind_iff]
  constructor
  · rintro ⟨l1, l2, a, rfl, hx, hf⟩
    unfold assert at hx
    by_cases hp : p
    · rw [if_pos hp] at hx
      obtain ⟨rfl, _⟩ := returns_pure_iff.mp hx
      exact ⟨hp, hf⟩
    · rw [if_neg hp] at hx
      cases hx
  · rintro ⟨hp, hf⟩
    exact ⟨[], l, (), rfl, returns_assert hp, hf⟩

/-- a loop of checks -/
theorem returns_each_checks {f : α → Script ω ε Unit} {P : α → Prop}
    (h : ∀ a l u, Returns (f a) l u ↔ l = [] ∧ P a) (as : List α) : ∀ (i : Nat) (l : List ω) (u : Unit),
    Returns (each (fun _ => f) i as) l u ↔ l = [] ∧ ∀ a ∈ as, P a := by
  induction as with
  | nil =>
    intro i l u
    show Returns (pure ()) l u ↔ _
    simp [returns_pure_iff]
  | cons a as ih =>
    intro i l u
    show Returns (f a >>= fun _ => each (fun _ => f) (i + 1) as) l u ↔ _
    rw [returns_bind_iff, List.forall_mem_cons]
    constructor
    · rintro ⟨l1, l2, _, rfl, hx, hf⟩
      obtain ⟨rfl, ha⟩ := (h a l1 _).mp hx
      obtain ⟨rfl, has⟩ := (ih (i + 1) l2 u).mp hf
      exact ⟨rfl, ha, has⟩
    · rintro ⟨rfl, ha, has⟩
      exact ⟨[], [], (), rfl, (h a [] ()).mpr ⟨rfl, ha⟩, (ih (i + 1) [] u).mpr ⟨rfl, has⟩⟩

/-- a loop of rounds with one effect each -/
theorem returns_each_emits {f : α → Script ω ε Unit} {R : α → ω → Prop}
    (h : ∀ a l u, Returns (f a) l u ↔ ∃ w, l = [w] ∧ R a w) (as : List α) :
    ∀ (i : Nat) (l : List ω) (u : Unit),
      Returns (each (fun _ => f) i as) l u ↔ List.Forall₂ R as l := by
  induction as with
  | nil =>
    intro i l u
    show Returns (pure ()) l u ↔ _
    rw [returns_pure_iff]
    exact ⟨fun ⟨hl, _⟩ => hl ▸ .nil, fun hall => (by cases hall; exact ⟨rfl, rfl⟩)⟩
  | cons a as ih =>
    intro i l u
    show Returns (f a >>= fun _ => each (fun _ => f) (i + 1) as) l u ↔ _
    rw [returns_bind_iff]
    constructor
    · rintro ⟨l1, l2, _, rfl, hx, hf⟩
      obtain ⟨w, rfl, hw⟩ := (h a l1 _).mp hx
      exact .cons hw ((ih (i + 1) l2 u).mp hf)
    · intro hall
      cases hall with
      | cons hw has =>
        exact ⟨[_], _, (), rfl, (h a _ ()).mpr ⟨_, rfl, hw⟩, (ih (i + 1) _ u).mpr has⟩

/-! ## scripts that get to their end -/

def Total (Q : α → Prop) (x : Script ω ε α) : Prop :=
  ∃ l r, x = some (l, r) ∧ ∀ a, r = .ok a → Q a

theorem total_pure {Q : α → Prop} {a : α} (h : Q a) : Total Q (pure a : Script ω ε α) :=
  ⟨[], .ok a, rfl, fun b hb => by cases hb; exact h⟩

theorem total_raise {Q : α → Prop} (e : ε) : Total Q (raise e : Script ω ε α) :=
  ⟨[], .error e, rfl, fun b hb => by cases hb⟩

theorem total_emit (w : ω) : Total (fun _ => True) (emit w : Script ω ε Unit) :=
  ⟨[w], .ok (), rfl, fun _ _ => trivial⟩

theorem total_emitAll (l : List ω) : Total (fun _ => True) (emitAll l : Script ω ε Unit) :=
  ⟨l, .ok (), rfl, fun _ _ => trivial⟩

/-- a script that goes on did not meet the condition -/
theorem total_failIf (p : Prop) [Decidable p] (e : ε) :
    Total (fun _ => ¬ p) (failIf p e : Script ω ε Unit) := by
  unfold failIf
  split
  · exact total_raise e
  · exact total_pure ‹_›

theorem total_assert {p : Prop} [Decidable p] (h : p) :
    Total (fun _ => True) (assert p : Script ω ε Unit) := by
  unfold assert
  rw [if_pos h]
  exact total_pure trivial

theorem Total.mono {Q R : α → Prop} {x : Script ω ε α} (h : Total Q x) (hQR : ∀ a, Q a → R a) :
    Total R x := by
  obtain ⟨l, r, hx, hr⟩ := h
  exact ⟨l, r, hx, fun a ha => hQR a (hr a ha)⟩

theorem Total.bind {Q : α → Prop} {R : β → Prop} {x : Script ω ε α} {f : α → Script ω ε β}
    (h : Total Q x) (h' : ∀ a, Q a → Total R (f a)) : Total R (x >>= f) := by
  obtain ⟨l, r, hx, hr⟩ := h
  cases r with
  | error e => exact ⟨l, .error e, bind_error f hx, fun _ hb => by cases hb⟩
  | ok a =>
    obtain ⟨l', r', hf, hr'⟩ := h' a (hr a rfl)
    exact ⟨l ++ l', r', bind_ok hx hf, hr'⟩

theorem total_each {P : α → Prop} (f : Nat → α → Script ω ε Unit) (as : List α) :
    ∀ i, (∀ k, ∀ a ∈ as, Total (fun _ => P a) (f k a)) →
      Total (fun _ => ∀ a ∈ as, P a) (each f i as) := by
  induction as with
  | nil => intro i _; exact total_pure nofun
  | cons a as ih =>
    intro i h
    refine (h i a List.mem_cons_self).bind fun _ ha => ?_
    refine (ih (i + 1) fun k b hb => h k b (List.mem_cons_of_mem _ hb)).mono fun _ hall b hb => ?_
    rcases List.mem_cons.mp hb with rfl | hb
    · exact ha
    · exact hall b hb

theorem Returns.total {Q : α → Prop} {x : Script ω ε α} {l : List ω} {a : α} (h : Returns x l a)
    (hQ : Q a) : Total Q x :=
  ⟨l, .ok a, h, fun b hb => by cases hb; exact hQ⟩

/-- a total script that does not return throws -/
theorem Total.cases {Q : α → Prop} {x : Script ω ε α} (h : Total Q x) :
    (∃ l e, x = some (l, .error e)) ∨ ∃ l a, Returns x l a ∧ Q a := by
  obtain ⟨l, r, hx, hr⟩ := h
  cases r with
  | error e => exact Or.inl ⟨l, e, hx⟩
  | ok a => exact Or.inr ⟨l, a, hx, hr a rfl⟩

/-! ## what a script that returns has checked -/

def Ensures (Q : α → Prop) (x : Script ω ε α) : Prop := ∀ l a, Returns x l a → Q a

theorem ensures_pure {Q : α → Prop} {a : α} (h : Q a) : Ensures Q (pure a : Script ω ε α) := by
  intro l b hb
  cases hb
  exact h

theorem ensures_true (x : Script ω ε α) : Ensures (fun _ => True) x := fun _ _ _ => trivial

theorem ensures_failIf (p : Prop) [Decidable p] (e : ε) :
    Ensures (fun _ => ¬ p) (failIf p e : Script ω ε Unit) := by
  intro l a h hp
  unfold failIf at h
  rw [if_pos hp] at h
  cases h

theorem ensures_assert (p : Prop) [Decidable p] :
    Ensures (fun _ => p) (assert p : Script ω ε Unit) := by
  intro l a h
  unfold assert at h
  by_contra hp
  rw [if_neg hp] at h
  cases h

theorem Ensures.bind {P : α → Prop} {Q : β → Prop} {x : Script ω ε α} {f : α → Script ω ε β}
    (h : Ensures P x) (h' : ∀ a, P a → Ensures Q (f a)) : Ensures Q (x >>= f) := by
  intro l b hb
  rcases of_bind hb with ⟨e, _, he⟩ | ⟨l1, l2, a, _, hx, hf⟩
  · cases he
  · exact h' a (h l1 a hx) l2 b hf

theorem Ensures.mono {P Q : α → Prop} {x : Script ω ε α} (h : Ensures P x) (hPQ : ∀ a, P a → Q a) :
    Ensures Q x := fun l a hx => hPQ a (h l a hx)

/-- a loop that gets to its end got past the checks of every element -/
theorem ensures_each {P : α → Prop} (f : Nat → α → Script ω ε Unit)
    (h : ∀ k a, Ensures (fun _ => P a) (f k a)) (as : List α) :
    ∀ i, Ensures (fun _ => ∀ a ∈ as, P a) (each f i as) := by
  induction as with
  | nil => intro i; exact ensures_pure nofun
  | cons a as ih =>
    intro i
    refine (h i a).bind fun _ ha => (ih (i + 1)).mono fun _ hall => ?_
    exact List.forall_mem_cons.mpr ⟨ha, hall⟩

/-! ## what a script may log -/

def Emits (P : ω → Prop) (x : Script ω ε α) : Prop := ∀ l r, x = some (l, r) → ∀ w ∈ l, P w

section
variable {P : ω → Prop}

theorem emits_pure (a : α) : Emits P (pure a : Script ω ε α) := by
  intro l r h
  cases h
  simp

theorem emits_raise (e : ε) : Emits P (raise e : Script ω ε α) := by
  intro l r h
  cases h
  simp

theorem emits_emit {w : ω} (hw : P w) : Emits P (emit w : Script ω ε Unit) := by
  intro l r h
  cases h
  simpa using hw

theorem emits_emitAll {l : List ω} (hl : ∀ w ∈ l, P w) :
    Emits P (emitAll l : Script ω ε Unit) := by
  intro l' r h
  cases h
  exact hl

theorem emits_failIf (p : Prop) [Decidable p] (e : ε) :
    Emits P (failIf p e : Script ω ε Unit) := by
  unfold failIf
  split
  · exact emits_raise e
  · exact emits_pure ()

theorem emits_assert (p : Prop) [Decidable p] : Emits P (assert p : Script ω ε Unit) := by
  unfold assert
  split
  · exact emits_pure ()
  · intro l r h; cases h

theorem Emits.bind {x : Script ω ε α} {f : α → Script ω ε β} (h : Emits P x)
    (h' : ∀ a, Emits P (f a)) : Emits P (x >>= f) := by
  intro l r hb
  rcases of_bind hb with ⟨e, hx, _⟩ | ⟨l1, l2, a, rfl, hx, hf⟩
  · exact h l _ hx
  · intro w hw
    rcases List.mem_append.mp hw with hw | hw
    · exact h l1 _ hx w hw
    · exact h' a l2 r hf w hw

theorem emits_each {f : Nat → α → Script ω ε Unit} (h : ∀ i a, Emits P (f i a)) (as : List α) :
    ∀ i, Emits P (each f i as) := by
  induction as with
  | nil => intro i; exact emits_pure ()
  | cons a as ih => intro i; exact (h i a).bind fun _ => ih (i + 1)

/-- what comes after a script knows what the script has checked -/
theorem Emits.bind_ensures {Q : α → Prop} {x : Script ω ε α} {f : α → Script ω ε β} (h : Emits P x)
    (hQ : Ensures Q x) (h' : ∀ a, Q a → Emits P (f a)) : Emits P (x >>= f) := by
  intro l r hb
  rcases of_bind hb with ⟨e, hx, _⟩ | ⟨l1, l2, a, rfl, hx, hf⟩
  · exact h l _ hx
  · intro w hw
    rcases List.mem_append.mp hw with hw | hw
    · exact h l1 _ hx w hw
    · exact h' a (hQ l1 a hx) l2 r hf w hw

theorem emits_failIf_bind {p : Prop} [Decidable p] {e : ε} {f : Unit → Script ω ε β}
    (h : ¬ p → Emits P (f ())) :
    Emits P (failIf p e >>= f) :=
  (emits_failIf p e).bind_ensures (ensures_failIf p e) fun _ => h

/-- a loop whose rounds know their element and its index -/
theorem emits_each_get {f : Nat → α → Script ω ε Unit} (as : List α) : ∀ i,
    (∀ k a, as[k]? = some a → Emits P (f (i + k) a)) → Emits P (each f i as) := by
  induction as with
  | nil => exact fun i _ => emits_pure ()
  | cons a as ih =>
    intro i h
    refine (h 0 a rfl).bind fun _ => ih (i + 1) fun k b hk => ?_
    have := h (k + 1) b hk
    rwa [show i + 1 + k = i + (k + 1) by omega]

end

/-! ## how a script begins -/

theorem bind_of_pure (a : α) (f : α → Script ω ε β) : pure a >>= f = f a := by
  show (match f a with
    | none => none
    | some (l', r) => some ([] ++ l', r)) = f a
  cases f a <;> rfl

theorem raise_bind (e : ε) (f : α → Script ω ε β) : (raise e : Script ω ε α) >>= f = raise e := rfl

/-- whatever the script logs starts with such an effect, and it logs something -/
def Begins (P : ω → Prop) (x : Script ω ε α) : Prop :=
  ∀ l r, x = some (l, r) → ∃ w rest, l = w :: rest ∧ P w

/-- the script throws before it has any effect -/
def Refuses (x : Script ω ε α) : Prop := ∀ l r, x = some (l, r) → ∃ e, l = [] ∧ r = .error e

section
variable {P : ω → Prop}

theorem begins_emit {w : ω} (h : P w) : Begins P (emit w : Script ω ε Unit) := by
  intro l r hx
  obtain ⟨rfl, _⟩ := outcome_inj hx
  exact ⟨w, [], rfl, h⟩

theorem Begins.bind {x : Script ω ε α} (h : Begins P x) (f : α → Script ω ε β) :
    Begins P (x >>= f) := by
  intro l r hb
  rcases of_bind hb with ⟨e, hx, _⟩ | ⟨l1, l2, a, rfl, hx, _⟩
  · exact h l _ hx
  · obtain ⟨w, rest, rfl, hw⟩ := h l1 _ hx
    exact ⟨w, rest ++ l2, rfl, hw⟩

theorem begins_failIf_bind {p : Prop} [Decidable p] {e : ε} {f : Unit → Script ω ε β} (hp : ¬ p)
    (h : Begins P (f ())) : Begins P (failIf p e >>= f) := by
  unfold failIf
  rw [if_neg hp, bind_of_pure]
  exact h

theorem begins_assert_bind {p : Prop} [Decidable p] {f : Unit → Script ω ε β}
    (h : Begins P (f ())) : Begins P (assert p >>= f) := by
  unfold assert
  by_cases hp : p
  · rw [if_pos hp, bind_of_pure]
    exact h
  · rw [if_neg hp]
    intro l r hx
    cases hx

theorem refuses_raise (e : ε) : Refuses (raise e : Script ω ε α) := by
  intro l r hx
  obtain ⟨rfl, rfl⟩ := outcome_inj hx
  exact ⟨e, rfl, rfl⟩

theorem Refuses.bind {x : Script ω ε α} (h : Refuses x) (f : α → Script ω ε β) :
    Refuses (x >>= f) := by
  intro l r hb
  rcases of_bind hb with ⟨e, hx, rfl⟩ | ⟨l1, l2, a, rfl, hx, _⟩
  · obtain ⟨e', hl, _⟩ := h l _ hx
    exact ⟨e, hl, rfl⟩
  · obtain ⟨_, _, he⟩ := h l1 _ hx
    cases he

theorem refuses_failIf_bind {p : Prop} [Decidable p] {e : ε} {f : Unit → Script ω ε β}
    (h : ¬ p → Refuses (f ())) : Refuses (failIf p e >>= f) := by
  unfold failIf
  by_cases hp : p
  · rw [if_pos hp, raise_bind]
    exact refuses_raise e
  · rw [if_neg hp, bind_of_pure]
    exact h hp

theorem refuses_assert_bind {p : Prop} [Decidable p] {f : Unit → Script ω ε β}
    (h : Refuses (f ())) : Refuses (assert p >>= f) := by
  unfold assert
  by_cases hp : p
  · rw [if_pos hp, bind_of_pure]
    exact h
  · rw [if_neg hp]
    intro l r hx
    cases hx

end

end Script

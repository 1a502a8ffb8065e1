import Mathlib.Data.List.Forall2
import Mathlib.Tactic.Common

/-!
# Computations that return or throw

`Except ε α` as the outcome of code with exceptions.

* `bind_eq_ok`     a sequence returns when its parts do, and so does a loop (`mapM_eq_ok`);
* `Throws P x`     whatever `x` throws satisfies `P`; it composes along `>>=` (`Throws.bind`);

-/

namespace Throw

variable {ε α β : Type}

theorem ok_bind (a : α) (f : α → Except ε β) : Except.ok a >>= f = f a := rfl

theorem bind_of_ok {x : Except ε α} {f : α → Except ε β} {a : α} (h : x = .ok a) : x >>= f = f a := by
  rw [h]
  rfl

theorem bind_eq_ok {x : Except ε α} {f : α → Except ε β} {b : β} :
    x >>= f = .ok b ↔ ∃ a, x = .ok a ∧ f a = .ok b := by
  constructor
  · intro h
    cases x with
    | error e => cases h
    | ok a => exact ⟨a, rfl, h⟩
  · rintro ⟨a, rfl, hf⟩
    exact hf

theorem mapM_eq_ok {f : α → Except ε β} {l : List α} {bs : List β} :
    l.mapM f = .ok bs ↔ List.Forall₂ (fun a b => f a = .ok b) l bs := by
  induction l generalizing bs with
  | nil =>
    rw [List.mapM_nil, List.forall₂_nil_left_iff]
    exact ⟨fun h => (Except.ok.inj h).symm, fun h => congrArg Except.ok h.symm⟩
  | cons a l ih =>
    rw [List.mapM_cons, bind_eq_ok, List.forall₂_cons_left_iff]
    constructor
    · rintro ⟨b, hb, hrest⟩
      obtain ⟨bs', hbs', heq⟩ := bind_eq_ok.mp hrest
      exact ⟨b, bs', hb, ih.mp hbs', (Except.ok.inj heq).symm⟩
    · rintro ⟨b, bs', hb, hbs', rfl⟩
      exact ⟨b, hb, bind_eq_ok.mpr ⟨bs', ih.mpr hbs', rfl⟩⟩

/-- a loop whose steps all return -/
theorem mapM_ok {f : α → Except ε β} {g : α → β} {l : List α} (h : ∀ a ∈ l, f a = .ok (g a)) :
    l.mapM f = .ok (l.map g) :=
  mapM_eq_ok.mpr (List.forall₂_map_right_iff.mpr (List.forall₂_same.mpr h))

theorem eq_ok_of_toOption {x : Except ε α} {a : α} (h : x.toOption = some a) : x = .ok a := by
  cases x with
  | error e => cases h
  | ok b => exact congrArg Except.ok (Option.some.inj h)

theorem isOk_iff {x : Except ε α} : x.isOk = true ↔ ∃ a, x = .ok a := by
  cases x with
  | error e => exact ⟨nofun, nofun⟩
  | ok a => exact ⟨fun _ => ⟨a, rfl⟩, fun _ => rfl⟩

theorem ok_of_map_toOption {x : Except ε α} {f : α → β} {b : β} (h : x.toOption.map f = some b) :
    ∃ a, x = .ok a ∧ f a = b := by
  cases x with
  | error e => cases h
  | ok a => exact ⟨a, rfl, Option.some.inj h⟩

/-- a loop of checks -/
theorem forM_eq_ok {f : α → Except ε Unit} {l : List α} : l.forM f = .ok () ↔ ∀ a ∈ l,
    f a = .ok () := by
  induction l with
  | nil => exact ⟨fun _ a ha => absurd ha List.not_mem_nil, fun _ => rfl⟩
  | cons a l ih =>
    show (f a >>= fun _ => l.forM f) = .ok () ↔ _
    rw [bind_eq_ok, List.forall_mem_cons, ← ih]
    exact ⟨fun ⟨_, h⟩ => h, fun h => ⟨(), h⟩⟩

/-- each result is of an element -/
theorem of_mem_mapM {f : α → Except ε β} {l : List α} {bs : List β} (h : l.mapM f = .ok bs) {b : β}
    (hb : b ∈ bs) :
    ∃ a ∈ l, f a = .ok b := by
  have hall := mapM_eq_ok.mp h
  induction hall with
  | nil => cases hb
  | cons hab hrest ih =>
    rcases List.mem_cons.mp hb with rfl | hb
    · exact ⟨_, List.mem_cons_self, hab⟩
    · obtain ⟨a, ha, hf⟩ := ih (mapM_eq_ok.mpr hrest) hb
      exact ⟨a, List.mem_cons_of_mem _ ha, hf⟩

/-- each element has its result -/
theorem mem_mapM {f : α → Except ε β} {l : List α} {bs : List β} (h : l.mapM f = .ok bs) {a : α}
    (ha : a ∈ l) :
    ∃ b ∈ bs, f a = .ok b := by
  have hall := mapM_eq_ok.mp h
  induction hall with
  | nil => cases ha
  | cons hab hrest ih =>
    rcases List.mem_cons.mp ha with rfl | ha
    · exact ⟨_, List.mem_cons_self, hab⟩
    · obtain ⟨b, hb, hf⟩ := ih (mapM_eq_ok.mpr hrest) ha
      exact ⟨b, List.mem_cons_of_mem _ hb, hf⟩

/-- a fold that returns keeps what each of its steps keeps of the list so far -/
theorem foldlM_ok {f : β → α → Except ε β} (P : List α → β → Prop)
    (hf : ∀ done b a b', P done b → f b a = .ok b' → P (done ++ [a]) b') (l : List α) :
    ∀ (done : List α) (b r : β), P done b → l.foldlM f b = .ok r → P (done ++ l) r := by
  induction l with
  | nil =>
    intro done b r hb h
    rw [← Except.ok.inj h, List.append_nil]
    exact hb
  | cons a l ih =>
    intro done b r hb h
    rw [List.foldlM_cons] at h
    obtain ⟨b', h1, h2⟩ := bind_eq_ok.mp h
    have hrest := ih (done ++ [a]) b' r (hf done b a b' hb h1) h2
    rwa [List.append_assoc] at hrest

/-- a fold whose steps are checks, each with one outcome -/
theorem foldlM_iff {f : β → α → Except ε β} {p : α → Prop} {g : β → α → β}
    (hf : ∀ b a b', f b a = .ok b' ↔ p a ∧ b' = g b a) {l : List α} {b r : β} :
    l.foldlM f b = .ok r ↔ (∀ a ∈ l, p a) ∧ r = l.foldl g b := by
  induction l generalizing b with
  | nil =>
    rw [List.foldlM_nil]
    exact ⟨fun h => ⟨fun a ha => absurd ha List.not_mem_nil, (Except.ok.inj h).symm⟩,
      fun ⟨_, h⟩ => congrArg Except.ok h.symm⟩
  | cons a l ih =>
    rw [List.foldlM_cons, bind_eq_ok, List.forall_mem_cons, List.foldl_cons]
    constructor
    · rintro ⟨b', hb', hl⟩
      obtain ⟨ha, rfl⟩ := (hf b a b').mp hb'
      obtain ⟨hrest, hr⟩ := ih.mp hl
      exact ⟨⟨ha, hrest⟩, hr⟩
    · rintro ⟨⟨ha, hrest⟩, hr⟩
      exact ⟨g b a, (hf b a _).mpr ⟨ha, rfl⟩, ih.mpr ⟨hrest, hr⟩⟩

theorem mapError_eq_ok {δ : Type} {f : ε → δ} {x : Except ε α} {a : α} : x.mapError f = .ok a ↔
    x = .ok a := by
  cases x with
  | error e => exact ⟨fun h => (by cases h), fun h => (by cases h)⟩
  | ok b =>
    exact ⟨fun h => congrArg Except.ok (Except.ok.inj h),
      fun h => congrArg Except.ok (Except.ok.inj h)⟩

/-- a check in front of the rest -/
theorem ite_error_eq_ok {p : Prop} [Decidable p] {e : ε} {x : Except ε α} {a : α} :
    (if p then .error e else x) = .ok a ↔ ¬ p ∧ x = .ok a := by
  by_cases hp : p
  · rw [if_pos hp]
    exact ⟨fun h => (by cases h), fun h => absurd hp h.1⟩
  · rw [if_neg hp]
    exact ⟨fun h => ⟨hp, h⟩, And.right⟩

/-! ## what returns -/

theorem exists_bind {x : Except ε α} {f : α → Except ε β} (hx : ∃ a, x = .ok a)
    (hf : ∀ a, x = .ok a → ∃ b, f a = .ok b) : ∃ b, x >>= f = .ok b := by
  obtain ⟨a, rfl⟩ := hx
  exact hf a rfl

theorem exists_mapM {f : α → Except ε β} {l : List α} (h : ∀ a ∈ l, ∃ b, f a = .ok b) :
    ∃ bs, l.mapM f = .ok bs := by
  induction l with
  | nil => exact ⟨[], rfl⟩
  | cons a l ih =>
    obtain ⟨b, hb⟩ := h a List.mem_cons_self
    obtain ⟨bs, hbs⟩ := ih fun a' ha' => h a' (List.mem_cons_of_mem _ ha')
    exact ⟨b :: bs, mapM_eq_ok.mpr (.cons hb (mapM_eq_ok.mp hbs))⟩

/-- a fold returns when each of its steps does from what the steps before it keep -/
theorem exists_foldlM {f : β → α → Except ε β} {l : List α} (P : List α → β → Prop)
    (hf : ∀ done a rest b, done ++ a :: rest = l → P done b → ∃ b', f b a = .ok b' ∧
      P (done ++ [a]) b') :
    ∀ b, P [] b → ∃ b', l.foldlM f b = .ok b' ∧ P l b' := by
  have hrest : ∀ todo done b, done ++ todo = l → P done b → ∃ b', todo.foldlM f b = .ok b' ∧
      P l b' := by
    intro todo
    induction todo with
    | nil =>
      intro done b hl hb
      rw [List.append_nil] at hl
      exact ⟨b, rfl, hl ▸ hb⟩
    | cons a todo ih =>
      intro done b hl hb
      obtain ⟨b1, h1, hb1⟩ := hf done a todo b hl hb
      obtain ⟨b2, h2, hb2⟩ := ih (done ++ [a]) b1 (by rw [List.append_assoc]; exact hl) hb1
      exact ⟨b2, by rw [List.foldlM_cons, h1]; exact h2, hb2⟩
  exact fun b hb => hrest l [] b rfl hb

def Throws (P : ε → Prop) (x : Except ε α) : Prop := ∀ e, x = .error e → P e

section
variable {P : ε → Prop}

theorem throws_ok (a : α) : Throws P (.ok a) := fun e h => by cases h

theorem throws_error {e : ε} (h : P e) : Throws P (.error e : Except ε α) := by
  intro e' he
  cases he
  exact h

theorem Throws.bind {x : Except ε α} {f : α → Except ε β} (hx : Throws P x)
    (hf : ∀ a, Throws P (f a)) : Throws P (x >>= f) := by
  intro e he
  cases x with
  | error e' => exact hx e (congrArg Except.error (Except.error.inj he))
  | ok a => exact hf a e he

theorem throws_mapM {f : α → Except ε β} {l : List α} (hf : ∀ a ∈ l, Throws P (f a)) :
    Throws P (l.mapM f) := by
  induction l with
  | nil => exact throws_ok []
  | cons a l ih =>
    rw [List.mapM_cons]
    refine (hf a List.mem_cons_self).bind fun b => ?_
    exact (ih fun a' ha => hf a' (List.mem_cons_of_mem _ ha)).bind fun bs => throws_ok _

theorem throws_foldlM {f : β → α → Except ε β} (hf : ∀ b a, Throws P (f b a)) {l : List α} {b : β} :
    Throws P (l.foldlM f b) := by
  induction l generalizing b with
  | nil => exact throws_ok b
  | cons a l ih =>
    rw [List.foldlM_cons]
    exact (hf b a).bind fun _ => ih

theorem throws_ite {p : Prop} [Decidable p] {x y : Except ε α} (hx : Throws P x)
    (hy : Throws P y) : Throws P (if p then x else y) := by
  by_cases hp : p
  · rw [if_pos hp]
    exact hx
  · rw [if_neg hp]
    exact hy

end
end Throw

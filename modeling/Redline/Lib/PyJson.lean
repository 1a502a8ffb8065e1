import Mathlib.Data.Rat.Floor
import Mathlib.Tactic.Common
import Redline.Lib.Json
import Redline.Lib.Throw

/-!
# JSON values as Python computes with them

`Py.Value F` is what `json.loads` returns: a `Json` whose numbers are unbounded integers or floats
of `F`.  What `F` computes is a parameter, so the library holds of any float format; an operation
on values of the wrong types throws.

* `eq`, `lt`           `==` and `<`; a bool counts as an integer, a NaN is equal to nothing;
* `sortBy`             a stable sort that asks `<` only; it loses nothing (`sortBy_perm`);
* `eq_iff_key`         `==` of dict keys is equality of what they stand for;
* `wellKeyed`          no dict has a key twice (`eq_keys`: equal ones have the same keys).
-/

namespace Py

inductive Exn where
  | typeError
  | valueError
  | keyError
  | attributeError
  | indexError
  | overflowError
  | zeroDivisionError
  deriving DecidableEq, Repr

/-- what a float stands for -/
inductive FloatValue where
  | nan
  | infinite (negative : Bool)
  | finite (q : Rat)
  deriving DecidableEq, Repr

namespace FloatValue

/-- nothing compares with a NaN -/
def compare : FloatValue → FloatValue → Option Ordering
  | .nan, _ => none
  | _, .nan => none
  | .finite p, .finite q => some (if p < q then .lt else if p = q then .eq else .gt)
  | .infinite s, .infinite t => some (if s = t then .eq else if s then .lt else .gt)
  | .infinite s, .finite _ => some (if s then .lt else .gt)
  | .finite _, .infinite t => some (if t then .gt else .lt)

theorem compare_eq {v w : FloatValue} : compare v w = some .eq ↔ v = w ∧ v ≠ .nan := by
  cases v with
  | nan => simp [compare]
  | infinite s =>
    cases w with
    | nan => simp [compare]
    | infinite t => cases s <;> cases t <;> simp [compare]
    | finite q => cases s <;> simp [compare]
  | finite p =>
    cases w with
    | nan => simp [compare]
    | infinite t => cases t <;> simp [compare]
    | finite q =>
      unfold compare
      rcases lt_trichotomy p q with h | h | h
      · simp [h, h.ne]
      · simp [h]
      · simp [h.not_gt, h.ne']

end FloatValue

/-- the float format of the interpreter: the operations round in their own way -/
class FloatOps (F : Type) where
  value : F → FloatValue
  /-- `float(i)`, where it does not overflow -/
  ofInt : Int → Option F
  /-- `float(s)`, of a text that is a number -/
  ofText : String → Option F
  /-- a literal -/
  lit : Rat → F
  add : F → F → F
  sub : F → F → F
  mul : F → F → F
  div : F → F → F
  abs : F → F

/-- floats that do not round -/
instance : FloatOps Rat where
  value := .finite
  ofInt i := some i
  ofText _ := none
  lit q := q
  add := (· + ·)
  sub := (· - ·)
  mul := (· * ·)
  div := (· / ·)
  abs := abs

inductive Number (F : Type) where
  | int (i : Int)
  | float (x : F)
  deriving DecidableEq, Repr

abbrev Value (F : Type) := Json (Number F)

variable {F : Type} [FloatOps F]

/-! ## numbers -/

namespace Number

/-- integers and floats compare by what they stand for -/
def value : Number F → FloatValue
  | .int i => .finite i
  | .float x => FloatOps.value x

def compare (m n : Number F) : Option Ordering := m.value.compare n.value

def toFloat : Number F → Except Exn F
  | .float x => .ok x
  | .int i =>
    match FloatOps.ofInt i with
    | some x => .ok x
    | none => .error .overflowError

/-- integers stay integers beside integers -/
def arith (onInt : Int → Int → Int) (onFloat : F → F → F) : Number F → Number F → Except Exn (Number F)
  | .int i, .int j => .ok (.int (onInt i j))
  | m, n => do return .float (onFloat (← m.toFloat) (← n.toFloat))

def div (m n : Number F) : Except Exn (Number F) := do
  let x ← m.toFloat
  let y ← n.toFloat
  if FloatOps.value y = .finite 0 then .error .zeroDivisionError else return .float (FloatOps.div x y)

/-- `int(n)`: towards zero -/
def trunc : Number F → Except Exn Int
  | .int i => .ok i
  | .float x =>
    match FloatOps.value x with
    | .nan => .error .valueError
    | .infinite _ => .error .overflowError
    | .finite q => .ok (if 0 ≤ q then ⌊q⌋ else ⌈q⌉)

end Number

/-! ## values -/

namespace Value

def int (i : Int) : Value F := .num (.int i)

def float (x : F) : Value F := .num (.float x)

/-- `isinstance(v, (int, float))` -/
def asNumber : Value F → Option (Number F)
  | .bool b => some (.int (if b then 1 else 0))
  | .num n => some n
  | _ => none

/-- `isinstance(v, int)` -/
def asInt : Value F → Option Int
  | .bool b => some (if b then 1 else 0)
  | .num (.int i) => some i
  | _ => none

def truthy : Value F → Bool
  | .null => false
  | .bool b => b
  | .num n => n.compare (.int 0) != some .eq
  | .str s => s != ""
  | .arr vs => !vs.isEmpty
  | .obj ps => !ps.isEmpty

/-- a dict or a list is no key -/
def hashable : Value F → Bool
  | .arr _ => false
  | .obj _ => false
  | _ => true

def lookup (key : String) (ps : List (String × Value F)) : Option (Value F) :=
  (ps.find? fun p => p.1 == key).map Prod.snd

def eqNumber (n : Number F) (w : Value F) : Bool :=
  match asNumber w with
  | some m => n.compare m == some .eq
  | none => false

mutual

/-- `v == w` -/
def eq : Value F → Value F → Bool
  | .null, .null => true
  | .str s, .str t => s == t
  | .arr vs, .arr ws => eqList vs ws
  | .obj ps, .obj qs => ps.length == qs.length && eqPairs ps qs
  | .bool b, w => eqNumber (.int (if b then 1 else 0)) w
  | .num n, w => eqNumber n w
  | _, _ => false

def eqList : List (Value F) → List (Value F) → Bool
  | [], [] => true
  | v :: vs, w :: ws => eq v w && eqList vs ws
  | _, _ => false

/-- each key of a dict, with its value in another one -/
def eqPairs : List (String × Value F) → List (String × Value F) → Bool
  | [], _ => true
  | (k, v) :: ps, qs =>
    (match lookup k qs with
      | some w => eq v w
      | none => false) && eqPairs ps qs

end

mutual

/-- a dict has a key once, at every depth -/
def wellKeyed : Value F → Bool
  | .arr vs => wellKeyedList vs
  | .obj ps => decide (ps.map Prod.fst).Nodup && wellKeyedPairs ps
  | _ => true

def wellKeyedList : List (Value F) → Bool
  | [] => true
  | v :: vs => wellKeyed v && wellKeyedList vs

def wellKeyedPairs : List (String × Value F) → Bool
  | [] => true
  | (_, v) :: ps => wellKeyed v && wellKeyedPairs ps

end

def compareNumbers (v w : Value F) : Except Exn (Option Ordering) :=
  match asNumber v, asNumber w with
  | some m, some n => .ok (m.compare n)
  | _, _ => .error .typeError

mutual

/-- `v < w` -/
def lt : Value F → Value F → Except Exn Bool
  | .str s, .str t => .ok (decide (s < t))
  | .arr vs, .arr ws => ltList vs ws
  | v, w => do return (← compareNumbers v w) == some .lt

/-- the first elements that differ decide -/
def ltList : List (Value F) → List (Value F) → Except Exn Bool
  | [], ws => .ok !ws.isEmpty
  | _ :: _, [] => .ok false
  | v :: vs, w :: ws => if eq v w then ltList vs ws else lt v w

end

/-- `v <= w`, of numbers -/
def le (v w : Value F) : Except Exn Bool := do
  let c ← compareNumbers v w
  return c == some .lt || c == some .eq

/-! ## arithmetic -/

def arith (onInt : Int → Int → Int) (onFloat : F → F → F) (v w : Value F) : Except Exn (Value F) :=
  match asNumber v, asNumber w with
  | some m, some n => (m.arith onInt onFloat n).map .num
  | _, _ => .error .typeError

def add : Value F → Value F → Except Exn (Value F) := arith (· + ·) FloatOps.add

def sub : Value F → Value F → Except Exn (Value F) := arith (· - ·) FloatOps.sub

/-- of numbers -/
def mul : Value F → Value F → Except Exn (Value F) := arith (· * ·) FloatOps.mul

def div (v w : Value F) : Except Exn (Value F) :=
  match asNumber v, asNumber w with
  | some m, some n => (m.div n).map .num
  | _, _ => .error .typeError

/-- `float(v)` -/
def toFloat : Value F → Except Exn F
  | .str s =>
    match FloatOps.ofText s with
    | some x => .ok x
    | none => .error .valueError
  | v =>
    match asNumber v with
    | some n => n.toFloat
    | none => .error .typeError

/-- `int(v)`, of a number -/
def toInt (v : Value F) : Except Exn Int :=
  match asNumber v with
  | some n => n.trunc
  | none => .error .typeError

/-- `x <= y` -/
def leFloat (x y : F) : Bool :=
  let c := (FloatOps.value x).compare (FloatOps.value y)
  c == some .lt || c == some .eq

/-- `math.isclose` of floats -/
def closeFloats (relTol absTol : Rat) (x y : F) : Bool :=
  if (FloatOps.value x).compare (FloatOps.value y) = some .eq then true
  else match FloatOps.value x, FloatOps.value y with
    | .infinite _, _ => false
    | _, .infinite _ => false
    | _, _ =>
      let diff := FloatOps.abs (FloatOps.sub y x)
      leFloat diff (FloatOps.abs (FloatOps.mul (FloatOps.lit relTol) y)) ||
        leFloat diff (FloatOps.abs (FloatOps.mul (FloatOps.lit relTol) x)) || leFloat diff
          (FloatOps.lit absTol)

/-- `math.isclose(v, w, rel_tol=…, abs_tol=…)`, of numbers -/
def isclose (relTol absTol : Rat) (v w : Value F) : Except Exn Bool := do
  let x ← toFloat v
  let y ← toFloat w
  return closeFloats relTol absTol x y

/-! ## containers -/

/-- `v[key]` -/
def getItem (key : String) : Value F → Except Exn (Value F)
  | .obj ps =>
    match lookup key ps with
    | some v => .ok v
    | none => .error .keyError
  | _ => .error .typeError

/-- `v.get(key)` -/
def get (key : String) : Value F → Except Exn (Option (Value F))
  | .obj ps => .ok (lookup key ps)
  | _ => .error .attributeError

/-- `v.get(key)`, which is `None` where there is no such key -/
def getD (key : String) (v : Value F) : Except Exn (Value F) := do return (← get key v).getD .null

/-- `key in text` -/
def isInfix (key : List Char) : List Char → Bool
  | [] => key.isEmpty
  | c :: text => key.isPrefixOf (c :: text) || isInfix key text

/-- `key in v` -/
def contains (key : String) : Value F → Except Exn Bool
  | .obj ps => .ok (lookup key ps).isSome
  | .arr vs => .ok (vs.any fun v => eq v (.str key))
  | .str s => .ok (isInfix key.toList s.toList)
  | _ => .error .typeError

/-- `len(v)` -/
def len : Value F → Except Exn Nat
  | .obj ps => .ok ps.length
  | .arr vs => .ok vs.length
  | .str s => .ok s.length
  | _ => .error .typeError

/-- what a loop over `v` visits -/
def elements : Value F → Except Exn (List (Value F))
  | .obj ps => .ok (ps.map fun p => .str p.1)
  | .arr vs => .ok vs
  | .str s => .ok (s.toList.map fun c => .str (String.singleton c))
  | _ => .error .typeError

omit [FloatOps F] in
theorem lookup_append (key : String) (ps qs : List (String × Value F)) :
    lookup key (ps ++ qs) = (lookup key ps).or (lookup key qs) := by
  unfold lookup
  rw [List.find?_append]
  cases ps.find? fun p => p.1 == key <;> rfl

omit [FloatOps F] in
@[simp] theorem lookup_nil (key : String) : lookup key ([] : List (String × Value F)) = none := rfl

omit [FloatOps F] in
@[simp] theorem lookup_cons (key k : String) (v : Value F) (ps : List (String × Value F)) :
    lookup key ((k, v) :: ps) = if k = key then some v else lookup key ps := by
  unfold lookup
  rw [List.find?_cons]
  by_cases h : k = key
  · simp [h]
  · rw [beq_false_of_ne h, if_neg h]

omit [FloatOps F] in
theorem lookup_eq_none {key : String} {ps : List (String × Value F)} :
    lookup key ps = none ↔ ∀ p ∈ ps, p.1 ≠ key := by
  unfold lookup
  rw [Option.map_eq_none_iff, List.find?_eq_none]
  exact forall₂_congr fun p _ => not_congr beq_iff_eq

omit [FloatOps F] in
theorem lookup_of_mem {ps : List (String × Value F)} (hn : (ps.map Prod.fst).Nodup)
    {p : String × Value F} (h : p ∈ ps) : lookup p.1 ps = some p.2 := by
  induction ps with
  | nil => cases h
  | cons q ps ih =>
    obtain ⟨hq, hrest⟩ := List.nodup_cons.mp hn
    rw [show q :: ps = (q.1, q.2) :: ps from rfl, lookup_cons]
    rcases List.mem_cons.mp h with rfl | h
    · exact if_pos rfl
    · have hne : q.1 ≠ p.1 := fun hk => hq (hk ▸ List.mem_map_of_mem (f := Prod.fst) h)
      rw [if_neg hne]
      exact ih hrest h

omit [FloatOps F] in
/-- a key that may be left out -/
theorem lookup_toList {α : Type} (key k : String) (f : α → Value F) (o : Option α) :
    lookup key (o.map fun x => (k, f x)).toList = if k = key then o.map f else none := by
  cases o with
  | none => exact (ite_self _).symm
  | some x =>
    exact lookup_cons key k (f x) []

omit [FloatOps F] in
theorem mem_of_lookup {key : String} {ps : List (String × Value F)} {v : Value F}
    (h : lookup key ps = some v) :
    (key, v) ∈ ps := by
  obtain ⟨p, hp, rfl⟩ := Option.map_eq_some_iff.mp h
  have hkey : (p.1 == key) = true := List.find?_some (p := fun q : String × Value F => q.1 == key) hp
  rw [← beq_iff_eq.mp hkey]
  exact List.mem_of_find?_eq_some hp

omit [FloatOps F] in
theorem getItem_ok {key : String} {v w : Value F} (h : getItem key v = .ok w) :
    ∃ ps, v = .obj ps ∧ lookup key ps = some w := by
  cases v with
  | obj ps =>
    refine ⟨ps, rfl, ?_⟩
    unfold getItem at h
    cases hl : lookup key ps with
    | none => simp [hl] at h
    | some u => simpa [hl] using h
  | _ => cases h

omit [FloatOps F] in
theorem getD_obj (key : String) (ps : List (String × Value F)) :
    getD key (.obj ps) = .ok ((lookup key ps).getD .null) := rfl

omit [FloatOps F] in
theorem getD_ok {key : String} {v w : Value F} (h : getD key v = .ok w) :
    ∃ ps, v = .obj ps ∧ (lookup key ps).getD .null = w := by
  cases v with
  | obj ps => exact ⟨ps, rfl, Except.ok.inj h⟩
  | _ => cases h

theorem eq_obj {v : Value F} {qs : List (String × Value F)} (h : eq v (.obj qs) = true) :
    ∃ ps, v = .obj ps ∧ ps.length = qs.length ∧ eqPairs ps qs = true := by
  cases v with
  | obj ps =>
    rw [eq, Bool.and_eq_true, beq_iff_eq] at h
    exact ⟨ps, rfl, h⟩
  | null => simp [eq] at h
  | str s => simp [eq] at h
  | arr vs => simp [eq] at h
  | bool b => simp [eq, eqNumber, asNumber] at h
  | num n => simp [eq, eqNumber, asNumber] at h

theorem eqPairs_lookup {ps qs : List (String × Value F)} (h : eqPairs ps qs = true) :
    ∀ p ∈ ps, ∃ w, lookup p.1 qs = some w ∧ eq p.2 w = true := by
  induction ps with
  | nil => nofun
  | cons q ps ih =>
    rw [show q :: ps = (q.1, q.2) :: ps from rfl, eqPairs, Bool.and_eq_true] at h
    refine List.forall_mem_cons.mpr ⟨?_, ih h.2⟩
    cases hl : lookup q.1 qs with
    | none => simp [hl] at h
    | some w => exact ⟨w, rfl, by simpa [hl] using h.1⟩

theorem contains_obj (key : String) (ps : List (String × Value F)) :
    contains key (.obj ps) = .ok (lookup key ps).isSome := rfl

theorem contains_str (key s : String) : contains key (.str s : Value F)
    = .ok (isInfix key.toList s.toList) := rfl

omit [FloatOps F] in
theorem getItem_obj {key : String} {ps : List (String × Value F)} {v : Value F}
    (h : lookup key ps = some v) :
    getItem key (.obj ps) = .ok v := by
  show (match lookup key ps with
    | some v => Except.ok v
    | none => .error Exn.keyError) = _
  rw [h]

/-! ## keys -/

omit [FloatOps F] in
theorem wellKeyed_obj {ps : List (String × Value F)} (h : wellKeyed (.obj ps) = true) :
    (ps.map Prod.fst).Nodup ∧ ∀ p ∈ ps, wellKeyed p.2 = true := by
  rw [wellKeyed, Bool.and_eq_true, decide_eq_true_eq] at h
  refine ⟨h.1, ?_⟩
  replace h := h.2
  induction ps with
  | nil => nofun
  | cons q ps ih =>
    rw [show q :: ps = (q.1, q.2) :: ps from rfl, wellKeyedPairs, Bool.and_eq_true] at h
    exact List.forall_mem_cons.mpr ⟨h.1, ih h.2⟩

omit [FloatOps F] in
/-- what a dict holds under a key is again one of distinct keys -/
theorem wellKeyed_lookup {key : String} {ps : List (String × Value F)} {v : Value F}
    (h : wellKeyed (.obj ps) = true) (hv : lookup key ps = some v) : wellKeyed v = true :=
  (wellKeyed_obj h).2 _ (mem_of_lookup hv)

/-- equal dicts have the same keys -/
theorem eq_keys {ps qs : List (String × Value F)} (hn : (ps.map Prod.fst).Nodup)
    (h : eq (.obj ps) (.obj qs) = true) :
    (ps.map Prod.fst).Perm (qs.map Prod.fst) := by
  obtain ⟨ps', hps, hlen, hpairs⟩ := eq_obj h
  obtain rfl := Json.obj.inj hps
  have hsub : ps.map Prod.fst ⊆ qs.map Prod.fst := fun key hkey => by
    obtain ⟨p, hp, rfl⟩ := List.mem_map.mp hkey
    obtain ⟨w, hw, _⟩ := eqPairs_lookup hpairs p hp
    exact List.mem_map.mpr ⟨_, mem_of_lookup hw, rfl⟩
  exact (List.subperm_of_subset hn hsub).perm_of_length_le (by simp [hlen])

/-! ## equal to itself -/

theorem eqList_self : ∀ {vs : List (Value F)}, (∀ v ∈ vs, eq v v = true) → eqList vs vs = true
  | [], _ => rfl
  | v :: vs, h => by
    rw [eqList, h v List.mem_cons_self, eqList_self fun w hw => h w (List.mem_cons_of_mem v hw)]
    rfl

theorem eqPairs_of_lookup {qs : List (String × Value F)} : ∀ {ps : List (String × Value F)},
    (∀ p ∈ ps, lookup p.1 qs = some p.2 ∧ eq p.2 p.2 = true) → eqPairs ps qs = true
  | [], _ => by rw [eqPairs]
  | (k, v) :: ps, h => by
    obtain ⟨hlookup, hself⟩ := h (k, v) List.mem_cons_self
    have hrest := eqPairs_of_lookup fun p hp => h p (List.mem_cons_of_mem _ hp)
    rw [eqPairs, hlookup, hrest]
    simpa using hself

theorem eq_arr_self {vs : List (Value F)} (h : ∀ v ∈ vs, eq v v = true) :
    eq (.arr vs) (.arr vs) = true := by
  rw [eq]
  exact eqList_self h

theorem eq_obj_self {ps : List (String × Value F)} (hn : (ps.map Prod.fst).Nodup)
    (h : ∀ p ∈ ps, eq p.2 p.2 = true) :
    eq (.obj ps) (.obj ps) = true := by
  rw [eq, eqPairs_of_lookup fun p hp => ⟨lookup_of_mem hn hp, h p hp⟩]
  simp

theorem eq_int (i j : Int) : eq (int i : Value F) (int j) = decide (i = j) := by
  show (FloatValue.compare (.finite i) (.finite j) == some .eq) = _
  rw [Bool.eq_iff_iff, beq_iff_eq, FloatValue.compare_eq, decide_eq_true_iff]
  constructor
  · intro h
    exact_mod_cast FloatValue.finite.inj h.1
  · rintro rfl
    exact ⟨rfl, FloatValue.noConfusion⟩

/-! ## the least and the greatest -/

def minimum : List (Value F) → Except Exn (Value F)
  | [] => .error .valueError
  | v :: vs => vs.foldlM (fun m v => do return if ← lt v m then v else m) v

def maximum : List (Value F) → Except Exn (Value F)
  | [] => .error .valueError
  | v :: vs => vs.foldlM (fun m v => do return if ← lt m v then v else m) v

end Value

/-! ## sorting -/

section
variable {α : Type} (below : α → α → Except Exn Bool)

/-- in front of the first element that is not below `a` -/
def insert (a : α) : List α → Except Exn (List α)
  | [] => .ok [a]
  | b :: bs => do
    if ← below b a then return b :: (← insert a bs) else return a :: b :: bs

/-- `sorted(l)`, by a `<` that may throw -/
def sortBy : List α → Except Exn (List α)
  | [] => .ok []
  | a :: as => do insert below a (← sortBy as)

end

section
variable {α : Type} {below : α → α → Except Exn Bool}

theorem insert_perm {a : α} : ∀ {l l' : List α}, insert below a l = .ok l' → l'.Perm (a :: l)
  | [], l', h => by
    obtain rfl := Except.ok.inj h
    exact List.Perm.refl _
  | b :: bs, l', h => by
    obtain ⟨c, _, h⟩ := Throw.bind_eq_ok.mp h
    cases c with
    | false =>
      obtain rfl := Except.ok.inj h
      exact List.Perm.refl _
    | true =>
      obtain ⟨rest, hrest, h⟩ := Throw.bind_eq_ok.mp h
      obtain rfl := Except.ok.inj h
      exact ((insert_perm hrest).cons b).trans (List.Perm.swap a b bs)

/-- **Sorting loses nothing.** -/
theorem sortBy_perm : ∀ {l l' : List α}, sortBy below l = .ok l' → l'.Perm l
  | [], l', h => by
    obtain rfl := Except.ok.inj h
    exact List.Perm.refl _
  | a :: as, l', h => by
    obtain ⟨rest, hrest, h⟩ := Throw.bind_eq_ok.mp h
    exact (insert_perm h).trans ((sortBy_perm hrest).cons a)

theorem exists_insert {a : α} : ∀ {l : List α}, (∀ b ∈ l, ∃ c, below b a = .ok c) → ∃ l',
    insert below a l = .ok l'
  | [], _ => ⟨[a], rfl⟩
  | b :: bs, h => by
    obtain ⟨c, hc⟩ := h b List.mem_cons_self
    obtain ⟨rest, hrest⟩ := exists_insert fun b' hb' => h b' (List.mem_cons_of_mem b hb')
    refine Throw.exists_bind ⟨c, hc⟩ fun c _ => ?_
    cases c with
    | true => exact Throw.exists_bind ⟨rest, hrest⟩ fun r _ => ⟨b :: r, rfl⟩
    | false => exact ⟨a :: b :: bs, rfl⟩

/-- a sort returns when any two elements compare -/
theorem exists_sortBy : ∀ {l : List α}, (∀ a ∈ l, ∀ b ∈ l, ∃ c, below a b = .ok c) → ∃ l',
    sortBy below l = .ok l'
  | [], _ => ⟨[], rfl⟩
  | a :: as, h => by
    refine Throw.exists_bind (exists_sortBy fun b hb c hc =>
      h b (List.mem_cons_of_mem a hb) c (List.mem_cons_of_mem a hc))
      fun l hl => exists_insert fun b hb => ?_
    exact h b (List.mem_cons_of_mem a ((sortBy_perm hl).mem_iff.mp hb)) a List.mem_cons_self

end

/-! ## keys -/

namespace Value

/-- what a dict distinguishes its keys by -/
inductive Key where
  | null
  | number (v : FloatValue)
  | text (s : String)

/-- a NaN is a key that nothing finds -/
def key : Value F → Option Key
  | .null => some .null
  | .bool b => some (.number (.finite (if b then 1 else 0)))
  | .num n => if n.value = .nan then none else some (.number n.value)
  | .str s => some (.text s)
  | _ => none

/-- the key of a number -/
theorem key_eq_number {w : Value F} {v : FloatValue} :
    key w = some (.number v) ↔ ∃ n, asNumber w = some n ∧ n.value = v ∧ v ≠ .nan := by
  cases w with
  | null => simp [key, asNumber]
  | bool b =>
    simp only [key, asNumber, Option.some.injEq, Key.number.injEq, exists_eq_left']
    constructor
    · rintro rfl
      exact ⟨by cases b <;> rfl, FloatValue.noConfusion⟩
    · rintro ⟨rfl, _⟩
      cases b <;> rfl
  | num n =>
    simp only [key, asNumber, Option.some.injEq, exists_eq_left']
    by_cases h : n.value = .nan
    · rw [if_pos h, h]
      simp [eq_comm]
    · rw [if_neg h]
      constructor
      · intro he
        have hv : n.value = v := Key.number.inj (Option.some.inj he)
        exact ⟨hv, hv ▸ h⟩
      · rintro ⟨rfl, _⟩
        rfl
  | str s => simp [key, asNumber]
  | arr vs => simp [key, asNumber]
  | obj ps => simp [key, asNumber]

theorem eqNumber_iff {n : Number F} {w : Value F} :
    eqNumber n w = true ↔ ∃ k, key (.num n) = some k ∧ key w = some k := by
  have hw : eqNumber n w = true ↔ ∃ m, asNumber w = some m ∧ n.compare m = some .eq := by
    unfold eqNumber
    cases asNumber w <;> simp
  rw [hw]
  constructor
  · rintro ⟨m, hm, hc⟩
    obtain ⟨hv, hn⟩ := FloatValue.compare_eq.mp hc
    exact ⟨.number n.value, if_neg hn, key_eq_number.mpr ⟨m, hm, hv.symm, hn⟩⟩
  · rintro ⟨k, hk, hk'⟩
    have hk : (if n.value = .nan then none else some (Key.number n.value)) = some k := hk
    by_cases h : n.value = .nan
    · rw [if_pos h] at hk
      cases hk
    · rw [if_neg h] at hk
      obtain rfl := Option.some.inj hk
      obtain ⟨m, hm, hv, hn⟩ := key_eq_number.mp hk'
      exact ⟨m, hm, FloatValue.compare_eq.mpr ⟨hv.symm, hn⟩⟩

/-- keys are equal when a dict does not distinguish them -/
theorem eq_iff_key {v w : Value F} (hv : hashable v = true) :
    eq v w = true ↔ ∃ k, key v = some k ∧ key w = some k := by
  cases v with
  | null =>
    cases w with
    | num n => by_cases h : n.value = .nan <;> simp [eq, key, h]
    | _ => simp [eq, key]
  | bool b =>
    rw [eq, eqNumber_iff]
    simp [key, Number.value]
  | num n =>
    rw [eq]
    exact eqNumber_iff
  | str s =>
    cases w with
    | str t => simp [eq, key, @eq_comm _ t s]
    | num n =>
      by_cases h : n.value = .nan <;> simp [eq, key, h]
    | _ => simp [eq, key]
  | arr vs => cases hv
  | obj ps => cases hv

theorem eq_symm {v w : Value F} (hv : hashable v = true) (hw : hashable w = true) (h : eq v w = true) :
    eq w v = true := by
  obtain ⟨k, h1, h2⟩ := (eq_iff_key hv).mp h
  exact (eq_iff_key hw).mpr ⟨k, h2, h1⟩

theorem eq_trans {u v w : Value F} (hu : hashable u = true) (hv : hashable v = true) (h : eq u v = true)
    (h' : eq v w = true) : eq u w = true := by
  obtain ⟨k, h1, h2⟩ := (eq_iff_key hu).mp h
  obtain ⟨k', h3, h4⟩ := (eq_iff_key hv).mp h'
  obtain rfl := Option.some.inj (h2.symm.trans h3)
  exact (eq_iff_key hu).mpr ⟨k, h1, h4⟩

end Value
end Py

/-
  JSON values.

  Numbers are the three kinds a JSON reader distinguishes: a nonnegative
  64-bit integer, a negative one, or a finite double.  An object is the list
  of its members; `canonical` puts the members of every object in key order,
  the last value of a repeated key winning, which is what reading a text into
  an ordered map does.

  `mapDoubles` changes the doubles of a value and nothing else, as a reader that
  does not read every double back exactly does.  `same` compares two values
  where doubles compare as numbers: the two zeros are the same.
-/
import Eventline.Lib.SortedMap

/-- A finite double, given by its bits: the exponent is not all ones. -/
structure FiniteF64 where
  bits : UInt64
  finite : bits.toNat / 2 ^ 52 % 2 ^ 11 ≠ 2047
  deriving DecidableEq, Repr

namespace FiniteF64

/-- The bits of the double nearest to a natural number, ties to even. -/
def roundBits (n : ℕ) : ℕ :=
  if n = 0 then 0
  else if n.log2 ≤ 52 then (n.log2 + 1023) * 2 ^ 52 + (n * 2 ^ (52 - n.log2) - 2 ^ 52)
  else
    let s := n.log2 - 52
    let q := n / 2 ^ s
    let r := n % 2 ^ s
    let rounded := if 2 ^ (s - 1) < r ∨ r = 2 ^ (s - 1) ∧ q % 2 = 1 then q + 1 else q
    (n.log2 + 1023) * 2 ^ 52 + (rounded - 2 ^ 52)

theorem roundBits_lt {n : ℕ} (h : n < 2 ^ 64) : roundBits n < 1088 * 2 ^ 52 := by
  unfold roundBits
  by_cases h0 : n = 0
  · simp [h0]
  have hlog : n.log2 < 64 := (Nat.log2_lt h0).2 h
  have hlt : n < 2 ^ (n.log2 + 1) := Nat.lt_log2_self
  rw [if_neg h0]
  split_ifs with h1
  · have hm : n * 2 ^ (52 - n.log2) < 2 ^ 53 := by
      calc n * 2 ^ (52 - n.log2) < 2 ^ (n.log2 + 1) * 2 ^ (52 - n.log2) :=
            Nat.mul_lt_mul_of_pos_right hlt (by positivity)
        _ = 2 ^ 53 := by rw [← pow_add]; congr 1; omega
    omega
  · have hq : n / 2 ^ (n.log2 - 52) < 2 ^ 53 := by
      rw [Nat.div_lt_iff_lt_mul (by positivity), ← pow_add]
      exact hlt.trans_le (Nat.pow_le_pow_right (by norm_num) (by omega))
    dsimp only
    split_ifs <;> omega

/-- The double nearest to an unsigned integer (`n as f64`). -/
def ofUInt64 (n : UInt64) : FiniteF64 where
  bits := UInt64.ofNat (roundBits n.toNat)
  finite := by
    have h := roundBits_lt n.toNat_lt
    rw [UInt64.toNat_ofNat_of_lt' (by simp only [UInt64.size]; omega)]
    omega

/-- The double nearest to a negative integer: the sign bit is set. -/
def ofNeg (i : Int64) : FiniteF64 where
  bits := UInt64.ofNat (2 ^ 63 + roundBits i.toInt.natAbs)
  finite := by
    have h := roundBits_lt (n := i.toInt.natAbs) (by have := i.le_toInt; have := i.toInt_lt; omega)
    rw [UInt64.toNat_ofNat_of_lt' (by simp only [UInt64.size]; omega)]
    omega

/-- The double is a zero: only the sign bit may be set. -/
def isZero (x : FiniteF64) : Bool := x.bits.toNat % 2 ^ 63 = 0

/-- `==` on finite doubles: they differ by their bits, the two zeros apart. -/
def same (x y : FiniteF64) : Bool := x.bits = y.bits || x.isZero && y.isZero

/-- A zero without its sign. -/
def unsigned (x : FiniteF64) : FiniteF64 := if x.isZero then ⟨0, by decide⟩ else x

theorem same_iff {x y : FiniteF64} : x.same y = true ↔ x.unsigned = y.unsigned := by
  have hbits : x.bits = y.bits ↔ x = y := by
    constructor
    · intro h
      obtain ⟨a, ha⟩ := x
      obtain ⟨b, hb⟩ := y
      obtain rfl : a = b := h
      rfl
    · rintro rfl
      rfl
  have hzero : (⟨0, by decide⟩ : FiniteF64).isZero = true := rfl
  unfold same unsigned
  rw [Bool.or_eq_true, decide_eq_true_eq, hbits, Bool.and_eq_true]
  split_ifs with hx hy hy
  · simp [hx, hy]
  · constructor
    · rintro (rfl | h)
      · exact absurd hx hy
      · exact absurd h.2 hy
    · rintro rfl
      exact absurd hzero hy
  · constructor
    · rintro (rfl | h)
      · exact absurd hy hx
      · exact absurd h.1 hx
    · rintro rfl
      exact absurd hzero hx
  · simp [hx]

/-- The two zeros are the same, though their bits differ. -/
example : same ⟨0, by decide⟩ ⟨0x8000000000000000, by decide⟩ = true := by decide

end FiniteF64

/-- JSON numbers. -/
inductive Number where
  | posInt (n : UInt64)
  | negInt (i : Int64) (neg : i < 0)
  | float (x : FiniteF64)
  deriving DecidableEq

namespace Number

/-- The number of a signed integer. -/
def ofInt64 (i : Int64) : Number :=
  if h : i < 0 then .negInt i h else .posInt (UInt64.ofNat i.toInt.toNat)

def mapDouble (f : FiniteF64 → FiniteF64) : Number → Number
  | float x => .float (f x)
  | n => n

/-- `==` on numbers. -/
def same : Number → Number → Bool
  | float x, float y => x.same y
  | a, b => a = b

theorem same_iff {a b : Number} :
    a.same b = true ↔ a.mapDouble FiniteF64.unsigned = b.mapDouble FiniteF64.unsigned := by
  cases a <;> cases b <;> simp [same, mapDouble, FiniteF64.same_iff]

@[simp] theorem mapDouble_ofInt64 (f : FiniteF64 → FiniteF64) (i : Int64) :
    (ofInt64 i).mapDouble f = ofInt64 i := by
  unfold ofInt64
  split_ifs
  · rfl
  · rfl

end Number

/-- JSON values; an object is the list of its members. -/
inductive Json where
  | null
  | bool (b : Bool)
  | num (n : Number)
  | str (s : String)
  | arr (xs : List Json)
  | obj (members : List (String × Json))

namespace Json

/-! ## Decidable equality -/

mutual

def beq : Json → Json → Bool
  | .null, .null => true
  | .bool a, .bool b => a == b
  | .num a, .num b => decide (a = b)
  | .str a, .str b => a == b
  | .arr xs, .arr ys => beqList xs ys
  | .obj ms, .obj ns => beqMembers ms ns
  | _, _ => false

def beqList : List Json → List Json → Bool
  | [], [] => true
  | x :: xs, y :: ys => beq x y && beqList xs ys
  | _, _ => false

def beqMembers : List (String × Json) → List (String × Json) → Bool
  | [], [] => true
  | (k, v) :: ms, (k', v') :: ns => k == k' && beq v v' && beqMembers ms ns
  | _, _ => false

end

mutual

theorem beq_iff : ∀ a b : Json, beq a b = true ↔ a = b
  | .null, b => by cases b <;> simp [beq]
  | .bool _, b => by cases b <;> simp [beq]
  | .num _, b => by cases b <;> simp [beq]
  | .str _, b => by cases b <;> simp [beq]
  | .arr xs, b => by cases b <;> simp [beq, beqList_iff xs]
  | .obj ms, b => by cases b <;> simp [beq, beqMembers_iff ms]

theorem beqList_iff : ∀ xs ys : List Json, beqList xs ys = true ↔ xs = ys
  | [], ys => by cases ys <;> simp [beqList]
  | x :: xs, ys => by cases ys <;> simp [beqList, beq_iff x, beqList_iff xs]

theorem beqMembers_iff : ∀ ms ns : List (String × Json), beqMembers ms ns = true ↔ ms = ns
  | [], ns => by cases ns <;> simp [beqMembers]
  | (k, v) :: ms, ns => by
    cases ns with
    | nil => simp [beqMembers]
    | cons n ns => obtain ⟨k', v'⟩ := n; simp [beqMembers, beq_iff v, beqMembers_iff ms]

end

instance : DecidableEq Json := fun a b => decidable_of_iff _ (beq_iff a b)

/-! ## Access -/

/-- The member `k` of an object; other values have none. -/
def get (k : String) : Json → Option Json
  | .obj ms => ms.lookup k
  | _ => none

def asStr : Json → Option String
  | .str s => some s
  | _ => none

def asU64 : Json → Option UInt64
  | .num (.posInt n) => some n
  | _ => none

/-- An optional value, `null` when absent. -/
def ofOption {α : Type*} (f : α → Json) : Option α → Json
  | some a => f a
  | none => .null

/-! ## Depth -/

mutual

/-- The nesting of arrays and objects. -/
def depth : Json → ℕ
  | .arr xs => depthList xs + 1
  | .obj ms => depthMembers ms + 1
  | _ => 0

def depthList : List Json → ℕ
  | [] => 0
  | x :: xs => max (depth x) (depthList xs)

def depthMembers : List (String × Json) → ℕ
  | [] => 0
  | (_, v) :: ms => max (depth v) (depthMembers ms)

end

theorem depthMembers_le {ms : List (String × Json)} {n : ℕ} (h : ∀ e ∈ ms, depth e.2 ≤ n) :
    depthMembers ms ≤ n := by
  induction ms with
  | nil => exact Nat.zero_le n
  | cons e ms ih =>
    obtain ⟨he, hms⟩ := List.forall_mem_cons.1 h
    exact max_le he (ih hms)

theorem depth_ofOption {α : Type*} {f : α → Json} {n : ℕ} (h : ∀ a, depth (f a) ≤ n)
    (o : Option α) : depth (ofOption f o) ≤ n := by
  cases o with
  | none => exact Nat.zero_le n
  | some a => exact h a

/-! ## Reading into ordered maps -/

mutual

/-- The value as read into ordered maps. -/
def canonical : Json → Json
  | .null => .null
  | .bool b => .bool b
  | .num n => .num n
  | .str s => .str s
  | .arr xs => .arr (canonicalList xs)
  | .obj ms => .obj (SortedMap.ofList (canonicalMembers ms))

def canonicalList : List Json → List Json
  | [] => []
  | x :: xs => canonical x :: canonicalList xs

def canonicalMembers : List (String × Json) → List (String × Json)
  | [] => []
  | (k, v) :: ms => (k, canonical v) :: canonicalMembers ms

end

@[simp] theorem canonicalMembers_eq (ms : List (String × Json)) :
    canonicalMembers ms = ms.map fun e => (e.1, canonical e.2) := by
  induction ms with
  | nil => rfl
  | cons e ms ih => obtain ⟨k, v⟩ := e; simp [canonicalMembers, ih]

theorem canonical_ofOption {α : Type*} (f : α → Json) (o : Option α) :
    (ofOption f o).canonical = ofOption (fun a => (f a).canonical) o := by
  cases o <;> simp [ofOption, canonical]

/-- A member of an object with distinct keys, as read into an ordered map. -/
theorem get_canonical_obj {k : String} {ms : List (String × Json)}
    (h : (ms.map Prod.fst).Nodup) : (obj ms).canonical.get k = (ms.lookup k).map canonical := by
  simp only [canonical, canonicalMembers_eq, get]
  rw [SortedMap.lookup_ofList k (by simpa [Function.comp_def] using h)]
  induction ms with
  | nil => rfl
  | cons e ms ih =>
    obtain ⟨k', v⟩ := e
    have hnd : (ms.map Prod.fst).Nodup := (List.nodup_cons.1 h).2
    simp only [List.map_cons, SortedMap.lookup_cons_ite, ih hnd]
    split_ifs <;> rfl

/-- An object listed in key order is read with its members in place. -/
theorem canonical_obj_of_sorted {ms : List (String × Json)} (h : SortedMap.Sorted ms) :
    (obj ms).canonical = .obj (ms.map fun e => (e.1, canonical e.2)) := by
  simp only [canonical, canonicalMembers_eq]
  rw [SortedMap.ofList_of_sorted (h.map canonical)]

/-! ## Doubles -/

mutual

/-- The value with each double replaced. -/
def mapDoubles (f : FiniteF64 → FiniteF64) : Json → Json
  | .null => .null
  | .bool b => .bool b
  | .num n => .num (n.mapDouble f)
  | .str s => .str s
  | .arr xs => .arr (mapDoublesList f xs)
  | .obj ms => .obj (mapDoublesMembers f ms)

def mapDoublesList (f : FiniteF64 → FiniteF64) : List Json → List Json
  | [] => []
  | x :: xs => mapDoubles f x :: mapDoublesList f xs

def mapDoublesMembers (f : FiniteF64 → FiniteF64) : List (String × Json) → List (String × Json)
  | [] => []
  | (k, v) :: ms => (k, mapDoubles f v) :: mapDoublesMembers f ms

end

section
variable (f : FiniteF64 → FiniteF64)

@[simp] theorem mapDoublesMembers_eq (ms : List (String × Json)) :
    mapDoublesMembers f ms = ms.map fun e => (e.1, mapDoubles f e.2) := by
  induction ms with
  | nil => rfl
  | cons e ms ih => obtain ⟨k, v⟩ := e; simp [mapDoublesMembers, ih]

theorem mapDoubles_ofOption {α : Type*} (g : α → Json) (o : Option α) :
    (ofOption g o).mapDoubles f = ofOption (fun a => (g a).mapDoubles f) o := by
  cases o <;> simp [ofOption, mapDoubles]

mutual

/-- Doubles can be replaced before or after the value is read into ordered maps. -/
theorem canonical_mapDoubles : ∀ v : Json, (v.mapDoubles f).canonical = v.canonical.mapDoubles f
  | .null => by simp [mapDoubles, canonical]
  | .bool _ => by simp [mapDoubles, canonical]
  | .num _ => by simp [mapDoubles, canonical]
  | .str _ => by simp [mapDoubles, canonical]
  | .arr xs => by simp [mapDoubles, canonical, canonicalList_mapDoubles xs]
  | .obj ms => by
    have hms := canonicalMembers_mapDoubles ms
    rw [mapDoubles, canonical, hms, canonical, mapDoubles, mapDoublesMembers_eq,
      mapDoublesMembers_eq, SortedMap.ofList_map]

theorem canonicalList_mapDoubles : ∀ xs : List Json,
    canonicalList (mapDoublesList f xs) = mapDoublesList f (canonicalList xs)
  | [] => by simp [mapDoublesList, canonicalList]
  | x :: xs => by
    simp [mapDoublesList, canonicalList, canonical_mapDoubles x, canonicalList_mapDoubles xs]

theorem canonicalMembers_mapDoubles : ∀ ms : List (String × Json),
    canonicalMembers (mapDoublesMembers f ms) = mapDoublesMembers f (canonicalMembers ms)
  | [] => by simp [mapDoublesMembers, canonicalMembers]
  | (k, v) :: ms => by
    have hv := canonical_mapDoubles v
    have hms := canonicalMembers_mapDoubles ms
    rw [mapDoublesMembers, canonicalMembers, hv, hms, canonicalMembers, mapDoublesMembers]

end

mutual

/-- Replacing no double changes nothing. -/
theorem mapDoubles_of_forall {f : FiniteF64 → FiniteF64} (hf : ∀ x, f x = x) :
    ∀ v : Json, v.mapDoubles f = v
  | .null => by rw [mapDoubles]
  | .bool _ => by rw [mapDoubles]
  | .num n => by cases n <;> simp [mapDoubles, Number.mapDouble, hf]
  | .str _ => by rw [mapDoubles]
  | .arr xs => by rw [mapDoubles, mapDoublesList_of_forall hf xs]
  | .obj ms => by rw [mapDoubles, mapDoublesMembers_of_forall hf ms]

theorem mapDoublesList_of_forall {f : FiniteF64 → FiniteF64} (hf : ∀ x, f x = x) :
    ∀ xs : List Json, mapDoublesList f xs = xs
  | [] => by rw [mapDoublesList]
  | x :: xs => by rw [mapDoublesList, mapDoubles_of_forall hf x, mapDoublesList_of_forall hf xs]

theorem mapDoublesMembers_of_forall {f : FiniteF64 → FiniteF64} (hf : ∀ x, f x = x) :
    ∀ ms : List (String × Json), mapDoublesMembers f ms = ms
  | [] => by rw [mapDoublesMembers]
  | (k, v) :: ms => by
    rw [mapDoublesMembers, mapDoubles_of_forall hf v, mapDoublesMembers_of_forall hf ms]

end

end

/-! ## Equality of values -/

mutual

/-- `==` on values: doubles compare as numbers. -/
def same : Json → Json → Bool
  | .null, .null => true
  | .bool a, .bool b => a == b
  | .num a, .num b => a.same b
  | .str a, .str b => a == b
  | .arr xs, .arr ys => sameList xs ys
  | .obj ms, .obj ns => sameMembers ms ns
  | _, _ => false

def sameList : List Json → List Json → Bool
  | [], [] => true
  | x :: xs, y :: ys => same x y && sameList xs ys
  | _, _ => false

def sameMembers : List (String × Json) → List (String × Json) → Bool
  | [], [] => true
  | (k, v) :: ms, (k', v') :: ns => k == k' && same v v' && sameMembers ms ns
  | _, _ => false

end

/-- The value with its zeros unsigned. -/
def unsigned (v : Json) : Json := v.mapDoubles FiniteF64.unsigned

mutual

/-- Two values are the same exactly when they are equal but for the signs of
    zeros. -/
theorem same_iff : ∀ a b : Json, same a b = true ↔ a.unsigned = b.unsigned
  | .null, b => by cases b <;> simp [same, unsigned, mapDoubles]
  | .bool _, b => by cases b <;> simp [same, unsigned, mapDoubles]
  | .num _, b => by cases b <;> simp [same, unsigned, mapDoubles, Number.same_iff]
  | .str _, b => by cases b <;> simp [same, unsigned, mapDoubles]
  | .arr xs, b => by cases b <;> simp [same, unsigned, mapDoubles, sameList_iff xs]
  | .obj ms, b => by
    cases b with
    | obj ns =>
      have hms := sameMembers_iff ms ns
      rw [same, hms, unsigned, unsigned, mapDoubles, mapDoubles, obj.injEq]
    | _ => simp [same, unsigned, mapDoubles]

theorem sameList_iff : ∀ xs ys : List Json, sameList xs ys = true ↔
    mapDoublesList FiniteF64.unsigned xs = mapDoublesList FiniteF64.unsigned ys
  | [], ys => by cases ys <;> simp [sameList, mapDoublesList]
  | x :: xs, ys => by
    cases ys with
    | nil => simp [sameList, mapDoublesList]
    | cons y ys =>
      have hx := same_iff x y
      rw [unsigned, unsigned] at hx
      simp [sameList, mapDoublesList, hx, sameList_iff xs]

theorem sameMembers_iff : ∀ ms ns : List (String × Json), sameMembers ms ns = true ↔
    mapDoublesMembers FiniteF64.unsigned ms = mapDoublesMembers FiniteF64.unsigned ns
  | [], ns => by cases ns <;> simp [sameMembers]
  | (k, v) :: ms, ns => by
    cases ns with
    | nil => simp [sameMembers]
    | cons n ns =>
      obtain ⟨k', v'⟩ := n
      have hv := same_iff v v'
      have hms := sameMembers_iff ms ns
      rw [unsigned, unsigned] at hv
      rw [mapDoublesMembers, mapDoublesMembers, sameMembers, Bool.and_eq_true, Bool.and_eq_true,
        hv, hms, List.cons.injEq, Prod.mk.injEq, beq_iff_eq]

end

end Json

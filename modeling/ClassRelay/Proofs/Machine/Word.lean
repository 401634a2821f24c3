import ClassRelay.ClassFile.Error

/-!
# Computing with machine words

Offsets and slot numbers are natural numbers in this library, and their sums are exact. A machine
has words of 64 bits for them, and tables that must not be left. The operations below are those of
a machine that **stops** where it cannot give the exact result: a sum or a product that has more
bits, a difference below zero, a place outside a table, a narrower word that would lose bits.

* An operation succeeds **with the exact result or not at all** (`add_eq_ok_iff`, `sub_eq_ok_iff`,
  `mul_eq_ok_iff`, `narrow_eq_ok_iff`).
* `Agrees R m r` says that a computation `m` of this machine meets no fault, and ends as the
  computation `r` on natural numbers does: both with results that `R` relates, or both with the
  same error.
-/

namespace ClassRelay.Machine

open ClassFile

/-- Why a machine cannot go on. -/
inductive Fault
  /-- A sum or a product does not fit into a word. -/
  | overflow
  /-- A difference is below zero. -/
  | underflow
  /-- A place is outside a table, or a range outside a byte string. -/
  | outOfRange
  /-- A number does not fit into a narrower word. -/
  | truncated
  /-- Bytes are copied into a buffer of another size. -/
  | unequalSizes
  deriving DecidableEq

/-- How a computation ends without a result. -/
inductive Stop
  /-- The class bytes, or a question about them, are refused. -/
  | refused (error : ClassError)
  /-- The machine cannot go on. -/
  | fault (fault : Fault)
  deriving DecidableEq

/-- A computation of the machine. -/
abbrev Run (α : Type) : Type := Except Stop α

/-- A number as a word. -/
def word (n : Nat) : Run UInt64 :=
  if n < UInt64.size then .ok (UInt64.ofNat n) else .error (.fault .overflow)

/-- The sum of two words. -/
def add (v w : UInt64) : Run UInt64 := word (v.toNat + w.toNat)

/-- The product of two words. -/
def mul (v w : UInt64) : Run UInt64 := word (v.toNat * w.toNat)

/-- The difference of two words. -/
def sub (v w : UInt64) : Run UInt64 :=
  if w.toNat ≤ v.toNat then word (v.toNat - w.toNat) else .error (.fault .underflow)

/-- A word as one of 16 bits. -/
def narrow (v : UInt64) : Run UInt16 :=
  if v.toNat < UInt16.size then .ok (UInt16.ofNat v.toNat) else .error (.fault .truncated)

/-- The word at a place of a table. -/
def load (table : Array UInt64) (place : UInt64) : Run UInt64 :=
  if h : place.toNat < table.size then .ok table[place.toNat] else .error (.fault .outOfRange)

/-- A table with a word put at a place. -/
def store (table : Array UInt64) (place v : UInt64) : Run (Array UInt64) :=
  if h : place.toNat < table.size then .ok (table.set place.toNat v)
  else .error (.fault .outOfRange)

/-- The byte at a place of a byte string. -/
def byteAt (b : ByteArray) (place : UInt64) : Run UInt8 :=
  if h : place.toNat < b.size then .ok b[place.toNat] else .error (.fault .outOfRange)

/-- The bytes of a range. -/
def slice (b : ByteArray) (start stop : UInt64) : Run ByteArray :=
  if start.toNat ≤ stop.toNat ∧ stop.toNat ≤ b.size then
    .ok (b.extract start.toNat stop.toNat)
  else .error (.fault .outOfRange)

/-- The sum of two words, if it is one. -/
def checkedAdd (v w : UInt64) : Option UInt64 :=
  if v.toNat + w.toNat < UInt64.size then some (UInt64.ofNat (v.toNat + w.toNat)) else none

/-- The sum of two words, or the largest word. -/
def saturatingAdd (v w : UInt64) : UInt64 :=
  UInt64.ofNat (min (v.toNat + w.toNat) (UInt64.size - 1))

/-- The difference of two words, or zero. -/
def saturatingSub (v w : UInt64) : UInt64 :=
  UInt64.ofNat (v.toNat - w.toNat)

/-! ### Exact results -/

section Exact

variable {n : Nat} {u v w : UInt64}

theorem word_eq_ok_iff : word n = .ok u ↔ u.toNat = n := by
  rw [word]
  split
  next h =>
    rw [Except.ok.injEq, ← UInt64.toNat_inj, UInt64.toNat_ofNat_of_lt' h, eq_comm]
  next h =>
    refine iff_of_false (by simp) fun heq => h ?_
    rw [← heq]
    exact u.toNat_lt_size

theorem add_eq_ok_iff : add v w = .ok u ↔ u.toNat = v.toNat + w.toNat :=
  word_eq_ok_iff

theorem mul_eq_ok_iff : mul v w = .ok u ↔ u.toNat = v.toNat * w.toNat :=
  word_eq_ok_iff

theorem sub_eq_ok_iff : sub v w = .ok u ↔ u.toNat + w.toNat = v.toNat := by
  rw [sub]
  split
  next h =>
    rw [word_eq_ok_iff]
    omega
  next h => exact iff_of_false (by simp) fun heq => h (by omega)

theorem narrow_eq_ok_iff {s : UInt16} : narrow v = .ok s ↔ s.toNat = v.toNat := by
  rw [narrow]
  split
  next h =>
    rw [Except.ok.injEq, ← UInt16.toNat_inj, UInt16.toNat_ofNat_of_lt' h, eq_comm]
  next h =>
    refine iff_of_false (by simp) fun heq => h ?_
    rw [← heq]
    exact s.toNat_lt_size

theorem exists_word (h : n < UInt64.size) : ∃ u, word n = .ok u ∧ u.toNat = n :=
  ⟨UInt64.ofNat n, if_pos h, UInt64.toNat_ofNat_of_lt' h⟩

theorem exists_add (h : v.toNat + w.toNat < UInt64.size) :
    ∃ u, add v w = .ok u ∧ u.toNat = v.toNat + w.toNat :=
  exists_word h

theorem exists_mul (h : v.toNat * w.toNat < UInt64.size) :
    ∃ u, mul v w = .ok u ∧ u.toNat = v.toNat * w.toNat :=
  exists_word h

theorem exists_sub (h : w.toNat ≤ v.toNat) :
    ∃ u, sub v w = .ok u ∧ u.toNat = v.toNat - w.toNat := by
  rw [sub, if_pos h]
  exact exists_word (Nat.lt_of_le_of_lt (Nat.sub_le _ _) v.toNat_lt_size)

theorem load_of_lt {table : Array UInt64} (h : v.toNat < table.size) :
    load table v = .ok table[v.toNat] :=
  dif_pos h

theorem store_of_lt {table : Array UInt64} (h : v.toNat < table.size) :
    store table v w = .ok (table.set v.toNat w) :=
  dif_pos h

theorem byteAt_of_lt {b : ByteArray} (h : v.toNat < b.size) : byteAt b v = .ok b[v.toNat] :=
  dif_pos h

theorem slice_of_le {b : ByteArray} (h : v.toNat ≤ w.toNat) (h' : w.toNat ≤ b.size) :
    slice b v w = .ok (b.extract v.toNat w.toNat) :=
  if_pos ⟨h, h'⟩

end Exact

/-! ### Agreement -/

/-- A computation of the machine ends as one on natural numbers does, with related results or
with the same error. In particular it meets no fault. -/
inductive Agrees {α β : Type} (R : α → β → Prop) : Run α → Except ClassError β → Prop
  | ok {a : α} {x : β} (h : R a x) : Agrees R (.ok a) (.ok x)
  | refused {e : ClassError} : Agrees R (.error (.refused e)) (.error e)

namespace Agrees

variable {α β γ δ : Type} {R : α → β → Prop} {S : γ → δ → Prop}
variable {m : Run α} {r : Except ClassError β}

theorem exists_of_ok {x : β} (h : Agrees R m (.ok x)) : ∃ a, m = .ok a ∧ R a x := by
  cases h with
  | ok h => exact ⟨_, rfl, h⟩

theorem eq_of_error {e : ClassError} (h : Agrees R m (.error e)) : m = .error (.refused e) := by
  cases h
  rfl

theorem mono {T : α → β → Prop} (h : Agrees R m r) (hRT : ∀ a x, R a x → T a x) :
    Agrees T m r := by
  cases h with
  | ok h => exact .ok (hRT _ _ h)
  | refused => exact .refused

/-- Computations in sequence agree if each of them does. -/
theorem bind {f : α → Run γ} {g : β → Except ClassError δ} (h : Agrees R m r)
    (hf : ∀ a x, R a x → Agrees S (f a) (g x)) : Agrees S (m >>= f) (r >>= g) := by
  cases h with
  | ok h => exact hf _ _ h
  | refused => exact .refused

/-- A last step that always succeeds. -/
theorem bind_ok {T : γ → β → Prop} {f : α → Run γ} (h : Agrees R m r)
    (hf : ∀ a x, R a x → ∃ c, f a = .ok c ∧ T c x) : Agrees T (m >>= f) r := by
  cases h with
  | @ok a x h =>
    obtain ⟨c, hc, hT⟩ := hf a x h
    change Agrees T (f a) (.ok x)
    rw [hc]
    exact .ok hT
  | refused => exact .refused

theorem map {f : α → γ} {g : β → δ} (h : Agrees R m r) (hf : ∀ a x, R a x → S (f a) (g x)) :
    Agrees S (f <$> m) (g <$> r) := by
  cases h with
  | ok h => exact .ok (hf _ _ h)
  | refused => exact .refused

end Agrees

end ClassRelay.Machine

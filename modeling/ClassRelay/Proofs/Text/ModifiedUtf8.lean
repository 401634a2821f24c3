import ClassRelay.Text.Name

/-!
# Modified UTF-8

The encoding that names are meant to have. A text is a sequence of **UTF-16 units**, and every
unit is written on its own (`encode`):

* `0x01` to `0x7F` as one byte;
* `0` and `0x80` to `0x7FF` as two bytes, so no written byte is ever zero;
* everything else as three bytes, the two halves of a surrogate pair one after the other.

Bytes are what at most one sequence of units is written as, and `units?` finds it
(`units?_eq_some_iff`). Reader and writer meet in the **forms** of a single unit: `Form u x` tells
them apart by their bytes, as a reader does, and `form_iff` says that they are what the writer
makes of the unit.
-/

namespace ClassRelay.ModifiedUtf8

/-! ### Writing -/

/-- The bytes of one unit. -/
def encodeUnit (u : UInt16) : List UInt8 :=
  let n := u.toNat
  if 1 ≤ n ∧ n ≤ 0x7F then
    [UInt8.ofNat n]
  else if n ≤ 0x7FF then
    [UInt8.ofNat (0xC0 + n / 64), UInt8.ofNat (0x80 + n % 64)]
  else
    [UInt8.ofNat (0xE0 + n / 4096), UInt8.ofNat (0x80 + n / 64 % 64), UInt8.ofNat (0x80 + n % 64)]

/-- The bytes of a sequence of units. -/
def encode (units : List UInt16) : List UInt8 :=
  units.flatMap encodeUnit

@[simp] theorem encode_nil : encode [] = [] := rfl

@[simp] theorem encode_cons (u : UInt16) (units : List UInt16) :
    encode (u :: units) = encodeUnit u ++ encode units := rfl

/-! ### One unit -/

/-- Continuation bytes carry the low six bits of a unit; no unit starts with one. -/
def IsContinuation (b : UInt8) : Prop :=
  0x80 ≤ b.toNat ∧ b.toNat ≤ 0xBF

instance (b : UInt8) : Decidable (IsContinuation b) :=
  inferInstanceAs (Decidable (_ ∧ _))

variable {u : UInt16} {units : List UInt16} {x rest : List UInt8}

/-- The bytes of a unit: one, the two that stand for zero, two, or three. -/
inductive Form (u : UInt16) : List UInt8 → Prop
  | one {a : UInt8} (hpos : 1 ≤ a.toNat) (hle : a.toNat ≤ 0x7F) (hu : u.toNat = a.toNat) :
    Form u [a]
  | zero (hu : u = 0) : Form u [0xC0, 0x80]
  | two {a b : UInt8} (hge : 0xC2 ≤ a.toNat) (hle : a.toNat ≤ 0xDF) (hb : IsContinuation b)
    (hu : u.toNat = a.toNat % 32 * 64 + b.toNat % 64) : Form u [a, b]
  /-- Three bytes that could not be fewer. -/
  | three {a b c : UInt8} (hge : 0xE0 ≤ a.toNat) (hle : a.toNat ≤ 0xEF) (hb : IsContinuation b)
    (hc : IsContinuation c) (hlong : ¬ (a.toNat = 0xE0 ∧ b.toNat < 0xA0))
    (hu : u.toNat = a.toNat % 16 * 4096 + b.toNat % 64 * 64 + c.toNat % 64) : Form u [a, b, c]

theorem form_encodeUnit (u : UInt16) : Form u (encodeUnit u) := by
  have hlt := u.toNat_lt
  have hcont (n : Nat) (hn : n < 64) : IsContinuation (UInt8.ofNat (0x80 + n)) := by
    rw [IsContinuation, UInt8.toNat_ofNat']
    omega
  rw [encodeUnit]
  split
  next h => exact .one (by simp; omega) (by simp; omega) (by simp; omega)
  next h =>
    split
    next h' =>
      rcases Nat.eq_zero_or_pos u.toNat with hzero | hpos
      · rw [hzero]
        exact .zero (UInt16.toNat_inj.mp hzero)
      · exact .two (by simp; omega) (by simp; omega) (hcont _ (by omega)) (by simp; omega)
    next h' =>
      exact .three (by simp; omega) (by simp; omega) (hcont _ (by omega)) (hcont _ (by omega))
        (by simp; omega) (by simp; omega)

theorem Form.eq_encodeUnit (h : Form u x) : x = encodeUnit u := by
  cases h with
  | one hpos hle hu =>
    rw [encodeUnit, if_pos (by omega), hu, UInt8.ofNat_toNat]
  | zero hu => subst hu; rfl
  | @two a b hge hle hb hu =>
    obtain ⟨hb, hb'⟩ := hb
    have ha : UInt8.ofNat (0xC0 + u.toNat / 64) = a := UInt8.toNat_inj.mp (by simp; omega)
    have hb : UInt8.ofNat (0x80 + u.toNat % 64) = b := UInt8.toNat_inj.mp (by simp; omega)
    rw [encodeUnit, if_neg (by omega), if_pos (by omega), ha, hb]
  | @three a b c hge hle hb hc hlong hu =>
    obtain ⟨hb, hb'⟩ := hb
    obtain ⟨hc, hc'⟩ := hc
    have ha : UInt8.ofNat (0xE0 + u.toNat / 4096) = a := UInt8.toNat_inj.mp (by simp; omega)
    have hb : UInt8.ofNat (0x80 + u.toNat / 64 % 64) = b := UInt8.toNat_inj.mp (by simp; omega)
    have hc : UInt8.ofNat (0x80 + u.toNat % 64) = c := UInt8.toNat_inj.mp (by simp; omega)
    rw [encodeUnit, if_neg (by omega), if_neg (by omega), ha, hb, hc]

theorem form_iff : Form u x ↔ x = encodeUnit u :=
  ⟨Form.eq_encodeUnit, fun h => h ▸ form_encodeUnit u⟩

/-! ### Reading -/

/-- The unit that a lead byte and one continuation byte stand for. -/
def unit2 (a b : UInt8) : UInt16 :=
  UInt16.ofNat (a.toNat % 32 * 64 + b.toNat % 64)

/-- The unit that a lead byte and two continuation bytes stand for. -/
def unit3 (a b c : UInt8) : UInt16 :=
  UInt16.ofNat (a.toNat % 16 * 4096 + b.toNat % 64 * 64 + c.toNat % 64)

theorem toNat_unit2 (a b : UInt8) :
    (unit2 a b).toNat = a.toNat % 32 * 64 + b.toNat % 64 := by
  rw [unit2, UInt16.toNat_ofNat']
  omega

theorem toNat_unit3 (a b c : UInt8) :
    (unit3 a b c).toNat = a.toNat % 16 * 4096 + b.toNat % 64 * 64 + c.toNat % 64 := by
  rw [unit3, UInt16.toNat_ofNat']
  omega

/-- The units that the bytes are written for, if they are so for any. -/
def units? : List UInt8 → Option (List UInt16)
  | [] => some []
  | a :: rest =>
    if 1 ≤ a.toNat ∧ a.toNat ≤ 0x7F then
      (units? rest).map (UInt16.ofNat a.toNat :: ·)
    else match rest with
      | [] => none
      | b :: rest =>
        if a.toNat = 0xC0 ∧ b.toNat = 0x80 then
          (units? rest).map (0 :: ·)
        else if 0xC2 ≤ a.toNat ∧ a.toNat ≤ 0xDF ∧ IsContinuation b then
          (units? rest).map (unit2 a b :: ·)
        else match rest with
          | [] => none
          | c :: rest =>
            if 0xE0 ≤ a.toNat ∧ a.toNat ≤ 0xEF ∧ IsContinuation b ∧ IsContinuation c ∧
                ¬ (a.toNat = 0xE0 ∧ b.toNat < 0xA0) then
              (units? rest).map (unit3 a b c :: ·)
            else none

/-- A unit in any of its forms is the first one that is read. -/
theorem units?_append (h : Form u x) : units? (x ++ rest) = (units? rest).map (u :: ·) := by
  cases h with
  | @one a hpos hle hu =>
    rw [List.singleton_append, units?.eq_def]
    dsimp only
    rw [if_pos ⟨hpos, hle⟩, ← hu, UInt16.ofNat_toNat]
  | zero hu =>
    rw [hu, List.cons_append, units?.eq_def]
    rfl
  | @two a b hge hle hb hu =>
    have hunit : unit2 a b = u := UInt16.toNat_inj.mp ((toNat_unit2 a b).trans hu.symm)
    rw [List.cons_append, units?.eq_def]
    dsimp only [List.cons_append, List.nil_append]
    rw [if_neg (by omega), if_neg (by omega), if_pos ⟨hge, hle, hb⟩, hunit]
  | @three a b c hge hle hb hc hlong hu =>
    have hunit : unit3 a b c = u := UInt16.toNat_inj.mp ((toNat_unit3 a b c).trans hu.symm)
    rw [List.cons_append, units?.eq_def]
    dsimp only [List.cons_append, List.nil_append]
    rw [if_neg (by omega), if_neg (by omega), if_neg (by omega), if_pos ⟨hge, hle, hb, hc, hlong⟩,
      hunit]

theorem units?_encode (units : List UInt16) : units? (encode units) = some units := by
  induction units with
  | nil => rfl
  | cons u units ih =>
    rw [encode_cons, units?_append (form_encodeUnit u), ih, Option.map_some]

/-- A unit in front of bytes that were read behind it. -/
private theorem append_eq_encode (h : Form u x)
    (hrest : ∀ units, units? rest = some units → rest = encode units)
    (hread : (units? rest).map (u :: ·) = some units) : x ++ rest = encode units := by
  obtain ⟨units', hunits, rfl⟩ := Option.map_eq_some_iff.mp hread
  rw [encode_cons, ← hrest units' hunits, form_iff.mp h]

/-- Nothing is read but forms of units. -/
theorem eq_encode_of_units? {bytes : List UInt8} (h : units? bytes = some units) :
    bytes = encode units := by
  fun_induction units? bytes generalizing units with
  | case1 =>
    cases h
    rfl
  | case2 a rest hone ih =>
    have hu : (UInt16.ofNat a.toNat).toNat = a.toNat := by
      rw [UInt16.toNat_ofNat']
      omega
    exact append_eq_encode (.one hone.1 hone.2 hu) (fun _ => ih) h
  | case4 a hone b rest hzero ih =>
    obtain rfl : a = 0xC0 := UInt8.toNat_inj.mp hzero.1
    obtain rfl : b = 0x80 := UInt8.toNat_inj.mp hzero.2
    exact append_eq_encode (.zero rfl) (fun _ => ih) h
  | case5 a hone b rest hzero htwo ih =>
    exact append_eq_encode (.two htwo.1 htwo.2.1 htwo.2.2 (toNat_unit2 a b)) (fun _ => ih) h
  | case7 a hone b hzero htwo c rest hthree ih =>
    obtain ⟨hge, hle, hb, hc, hlong⟩ := hthree
    exact append_eq_encode (.three hge hle hb hc hlong (toNat_unit3 a b c)) (fun _ => ih) h
  | _ => cases h

/-- **What is read is what was written**, and nothing else is read. -/
theorem units?_eq_some_iff {bytes : List UInt8} :
    units? bytes = some units ↔ bytes = encode units :=
  ⟨eq_encode_of_units?, fun h => h ▸ units?_encode units⟩

/-- A sequence of units is told by what it is written as. -/
theorem encode_inj {units units' : List UInt16} :
    encode units = encode units' ↔ units = units' := by
  refine ⟨fun h => ?_, congrArg encode⟩
  rw [← Option.some.injEq, ← units?_encode, h, units?_encode]

end ClassRelay.ModifiedUtf8

import ClassRelay.Text.Name

/-!
# Generalized UTF-8

UTF-16 units as UTF-8 bytes, **lone surrogates included**. `Spells units x` is the rule, told with
the encoder of the core library for everything that is a character: a unit that is no surrogate is
a character by itself (zero too, as one zero byte), a high surrogate and a low one behind it are
one, and any other surrogate takes the three bytes that its number would have.

`encode` follows the rule, and `spells_iff` says that every sequence of units is spelled in exactly
one way.
-/

namespace ClassRelay.GeneralizedUtf8

/-! ### The rule -/

/-- The first half of a surrogate pair. -/
def IsHighSurrogate (u : UInt16) : Prop :=
  0xD800 ≤ u.toNat ∧ u.toNat ≤ 0xDBFF

/-- The second half of a surrogate pair. -/
def IsLowSurrogate (u : UInt16) : Prop :=
  0xDC00 ≤ u.toNat ∧ u.toNat ≤ 0xDFFF

instance (u : UInt16) : Decidable (IsHighSurrogate u) :=
  inferInstanceAs (Decidable (_ ∧ _))

instance (u : UInt16) : Decidable (IsLowSurrogate u) :=
  inferInstanceAs (Decidable (_ ∧ _))

/-- A unit and the one behind it, if there is one, are a surrogate pair. -/
def IsPair (u : UInt16) (rest : List UInt16) : Prop :=
  IsHighSurrogate u ∧ ∃ v ∈ rest.head?, IsLowSurrogate v

/-- The bytes are generalized UTF-8 of the units. -/
inductive Spells : List UInt16 → List UInt8 → Prop
  | nil : Spells [] []
  /-- A unit that is a character. -/
  | char {c : Char} {u : UInt16} {rest : List UInt16} {x : List UInt8} (hu : u.toNat = c.toNat)
    (hrest : Spells rest x) : Spells (u :: rest) (String.utf8EncodeChar c ++ x)
  /-- A surrogate pair, which is a character beyond those of one unit. -/
  | pair {c : Char} {u v : UInt16} {rest : List UInt16} {x : List UInt8} (hu : IsHighSurrogate u)
    (hv : IsLowSurrogate v)
    (hc : c.toNat = 0x10000 + (u.toNat - 0xD800) * 0x400 + (v.toNat - 0xDC00))
    (hrest : Spells rest x) : Spells (u :: v :: rest) (String.utf8EncodeChar c ++ x)
  /-- A surrogate that is not half of a pair. -/
  | lone {u : UInt16} {rest : List UInt16} {x : List UInt8}
    (hu : IsHighSurrogate u ∨ IsLowSurrogate u) (hlone : ¬ IsPair u rest)
    (hrest : Spells rest x) :
    Spells (u :: rest) ([0xED, UInt8.ofNat (0x80 + u.toNat / 64 % 64),
      UInt8.ofNat (0x80 + u.toNat % 64)] ++ x)

variable {u v : UInt16} {units rest : List UInt16} {x : List UInt8} {c : Char}

/-- What is kept by a unit that is not the first half of a pair, and by a pair, holds of all
sequences of units. -/
@[elab_as_elim]
theorem pair_induction {motive : List UInt16 → Prop} (nil : motive [])
    (unit : ∀ u rest, ¬ IsPair u rest → motive rest → motive (u :: rest))
    (pair : ∀ u v rest, IsHighSurrogate u → IsLowSurrogate v → motive rest →
      motive (u :: v :: rest)) : ∀ units, motive units
  | [] => nil
  | [u] => unit u [] (fun hpair => by simp [IsPair] at hpair) nil
  | u :: v :: rest => by
    by_cases h : IsHighSurrogate u ∧ IsLowSurrogate v
    · exact pair u v rest h.1 h.2 (pair_induction nil unit pair rest)
    · refine unit u (v :: rest) ?_ (pair_induction nil unit pair (v :: rest))
      rintro ⟨hu, w, ⟨⟩, hw⟩
      exact h ⟨hu, hw⟩

/-! ### Following it -/

/-- The code point of a surrogate pair. -/
def pairPoint (high low : UInt16) : Nat :=
  0x10000 + (high.toNat - 0xD800) * 0x400 + (low.toNat - 0xDC00)

/-- The code points of a sequence of units: a pair is one point, any other unit is its own. -/
def points : List UInt16 → List Nat
  | [] => []
  | [u] => [u.toNat]
  | u :: v :: rest =>
    if IsHighSurrogate u ∧ IsLowSurrogate v then
      pairPoint u v :: points rest
    else
      u.toNat :: points (v :: rest)

/-- The bytes of one code point. -/
def encodePoint (n : Nat) : List UInt8 :=
  if n ≤ 0x7F then
    [UInt8.ofNat n]
  else if n ≤ 0x7FF then
    [UInt8.ofNat (0xC0 + n / 64), UInt8.ofNat (0x80 + n % 64)]
  else if n ≤ 0xFFFF then
    [UInt8.ofNat (0xE0 + n / 4096), UInt8.ofNat (0x80 + n / 64 % 64), UInt8.ofNat (0x80 + n % 64)]
  else
    [UInt8.ofNat (0xF0 + n / 262144), UInt8.ofNat (0x80 + n / 4096 % 64),
      UInt8.ofNat (0x80 + n / 64 % 64), UInt8.ofNat (0x80 + n % 64)]

/-- The bytes of a sequence of units. -/
def encode (units : List UInt16) : List UInt8 :=
  (points units).flatMap encodePoint

theorem points_of_pair (hu : IsHighSurrogate u) (hv : IsLowSurrogate v) :
    points (u :: v :: rest) = pairPoint u v :: points rest := by
  rw [points, if_pos ⟨hu, hv⟩]

theorem points_of_not_isPair (h : ¬ IsPair u rest) :
    points (u :: rest) = u.toNat :: points rest := by
  cases rest with
  | nil => rfl
  | cons v rest =>
    have hno : ¬ (IsHighSurrogate u ∧ IsLowSurrogate v) := fun hboth => h ⟨hboth.1, v, rfl, hboth.2⟩
    rw [points, if_neg hno]

/-! ### Characters -/

theorem exists_char {n : Nat} (h : n.isValidChar) : ∃ c : Char, c.toNat = n :=
  ⟨Char.ofNatAux n h, rfl⟩

theorem toNat_ne_of_surrogate (h : IsHighSurrogate u ∨ IsLowSurrogate u) : u.toNat ≠ c.toNat := by
  have hvalid : c.toNat < 0xD800 ∨ 0xDFFF < c.toNat ∧ c.toNat < 0x110000 := c.valid
  simp only [IsHighSurrogate, IsLowSurrogate] at h
  omega

/-- A character is written as the core library writes it. -/
theorem encodePoint_toNat (c : Char) : encodePoint c.toNat = String.utf8EncodeChar c := by
  have hvalid : c.toNat < 0xD800 ∨ 0xDFFF < c.toNat ∧ c.toNat < 0x110000 := c.valid
  have hval : c.val.toNat = c.toNat := rfl
  -- The core library writes the marks of a byte behind its payload, and bounds the payload.
  have hlast : c.toNat % 64 + 128 = 0x80 + c.toNat % 64 := Nat.add_comm _ _
  have hmiddle : c.toNat / 64 % 64 + 128 = 0x80 + c.toNat / 64 % 64 := Nat.add_comm _ _
  rw [encodePoint, String.utf8EncodeChar, hval, hlast, hmiddle]
  split
  next => rfl
  next =>
    split
    next => rw [show c.toNat / 64 % 32 + 192 = 0xC0 + c.toNat / 64 by omega]
    next =>
      split
      next => rw [show c.toNat / 4096 % 16 + 224 = 0xE0 + c.toNat / 4096 by omega]
      next =>
        rw [show c.toNat / 262144 % 8 + 240 = 0xF0 + c.toNat / 262144 by omega,
          Nat.add_comm (c.toNat / 4096 % 64)]

/-- A surrogate has the three bytes that its number would have. -/
theorem encodePoint_of_surrogate (h : IsHighSurrogate u ∨ IsLowSurrogate u) :
    encodePoint u.toNat = [0xED, UInt8.ofNat (0x80 + u.toNat / 64 % 64),
      UInt8.ofNat (0x80 + u.toNat % 64)] := by
  simp only [IsHighSurrogate, IsLowSurrogate] at h
  have hlead : 0xE0 + u.toNat / 4096 = 0xED := by omega
  rw [encodePoint, if_neg (by omega), if_neg (by omega), if_pos (by omega), hlead]
  rfl

/-! ### Spelling -/

/-- A sequence of units is spelled in one way only. -/
theorem Spells.eq_encode (h : Spells units x) : x = encode units := by
  induction h with
  | nil => rfl
  | @char c u rest x hu hrest ih =>
    have hlone : ¬ IsPair u rest := fun hpair => toNat_ne_of_surrogate (.inl hpair.1) hu
    rw [encode, points_of_not_isPair hlone, List.flatMap_cons, hu, encodePoint_toNat, ih, encode]
  | @pair c u v rest x hu hv hc hrest ih =>
    have hpoint : pairPoint u v = c.toNat := hc.symm
    rw [encode, points_of_pair hu hv, List.flatMap_cons, hpoint, encodePoint_toNat, ih, encode]
  | @lone u rest x hu hlone hrest ih =>
    rw [encode, points_of_not_isPair hlone, List.flatMap_cons, encodePoint_of_surrogate hu, ih,
      encode]

theorem Spells.cons (hlone : ¬ IsPair u rest) (hrest : Spells rest (encode rest)) :
    Spells (u :: rest) (encode (u :: rest)) := by
  rw [encode, points_of_not_isPair hlone, List.flatMap_cons]
  by_cases hu : IsHighSurrogate u ∨ IsLowSurrogate u
  · rw [encodePoint_of_surrogate hu]
    exact .lone hu hlone hrest
  · have hvalid : u.toNat.isValidChar := by
      have hlt := u.toNat_lt
      simp only [IsHighSurrogate, IsLowSurrogate] at hu
      rw [Nat.isValidChar]
      omega
    obtain ⟨c, hc⟩ := exists_char hvalid
    rw [← hc, encodePoint_toNat]
    exact .char hc.symm hrest

theorem Spells.cons_pair (hu : IsHighSurrogate u) (hv : IsLowSurrogate v)
    (hrest : Spells rest (encode rest)) : Spells (u :: v :: rest) (encode (u :: v :: rest)) := by
  have hvalid : (pairPoint u v).isValidChar := by
    obtain ⟨hu, hu'⟩ := hu
    obtain ⟨hv, hv'⟩ := hv
    have hpoint : pairPoint u v =
        0x10000 + (u.toNat - 0xD800) * 0x400 + (v.toNat - 0xDC00) := rfl
    rw [Nat.isValidChar]
    omega
  obtain ⟨c, hc⟩ := exists_char hvalid
  rw [encode, points_of_pair hu hv, List.flatMap_cons, ← hc, encodePoint_toNat]
  exact .pair hu hv hc hrest

/-- Every sequence of units is spelled in some way. -/
theorem spells_encode (units : List UInt16) : Spells units (encode units) := by
  induction units using pair_induction with
  | nil => exact .nil
  | unit u rest hlone ih => exact .cons hlone ih
  | pair u v rest hu hv ih => exact .cons_pair hu hv ih

/-- **Generalized UTF-8** is what the units spell. -/
theorem spells_iff : Spells units x ↔ x = encode units :=
  ⟨Spells.eq_encode, fun h => h ▸ spells_encode units⟩

end ClassRelay.GeneralizedUtf8

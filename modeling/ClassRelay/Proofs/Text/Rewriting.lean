import ClassRelay.Proofs.Text.GeneralizedUtf8
import ClassRelay.Proofs.Text.ModifiedUtf8

/-!
# From modified to generalized UTF-8

Modified UTF-8 can be turned into generalized UTF-8 without a word on units, **group by group** from
the first byte on (`Rewrites`). Most groups stay as they are. The group that stands for zero becomes
a zero byte, and a group of three bytes that is a high surrogate is looked at together with the
group behind it: if that is a low surrogate, the six bytes become the four bytes of one character.

What is rewritten in this way is what some units are written as, and it becomes what these units
spell (`rewrites_iff`). So the look at the next group never takes for a pair what is none: in a run
of high surrogates only the last one can be half of a pair.
-/

namespace ClassRelay.ModifiedUtf8

open GeneralizedUtf8 (IsHighSurrogate IsLowSurrogate IsPair encodePoint encodePoint_toNat pairPoint
  exists_char points_of_pair points_of_not_isPair spells_iff Spells)

variable {u v : UInt16} {units : List UInt16} {a b c : UInt8} {x y rest : List UInt8}

/-- A group of three bytes that starts with `a` and `b` is a high surrogate, and the group in front
of `rest` is a low one. -/
def StartsPair (a b : UInt8) (rest : List UInt8) : Prop :=
  a.toNat = 0xED ∧ (0xA0 ≤ b.toNat ∧ b.toNat ≤ 0xAF) ∧ ∃ e f rest', rest = 0xED :: e :: f :: rest' ∧
    (0xB0 ≤ e.toNat ∧ e.toNat ≤ 0xBF) ∧ IsContinuation f

/-- Read as modified UTF-8 from the first byte on, the bytes `x` become `y`. -/
inductive Rewrites : List UInt8 → List UInt8 → Prop
  | nil : Rewrites [] []
  | one {a : UInt8} {x y : List UInt8} (hpos : 1 ≤ a.toNat) (hle : a.toNat ≤ 0x7F)
    (hrest : Rewrites x y) : Rewrites (a :: x) (a :: y)
  | zero {x y : List UInt8} (hrest : Rewrites x y) : Rewrites (0xC0 :: 0x80 :: x) (0 :: y)
  | two {a b : UInt8} {x y : List UInt8} (hge : 0xC2 ≤ a.toNat) (hle : a.toNat ≤ 0xDF)
    (hb : IsContinuation b) (hrest : Rewrites x y) : Rewrites (a :: b :: x) (a :: b :: y)
  /-- Three bytes that could not be fewer, and are not half of a pair. -/
  | three {a b c : UInt8} {x y : List UInt8} (hge : 0xE0 ≤ a.toNat) (hle : a.toNat ≤ 0xEF)
    (hb : IsContinuation b) (hc : IsContinuation c) (hlong : ¬ (a.toNat = 0xE0 ∧ b.toNat < 0xA0))
    (hlone : ¬ StartsPair a b x) (hrest : Rewrites x y) :
    Rewrites (a :: b :: c :: x) (a :: b :: c :: y)
  /-- A high surrogate and a low one. -/
  | pair {b c e f : UInt8} {x y : List UInt8} {ch : Char} (hb : 0xA0 ≤ b.toNat)
    (hb' : b.toNat ≤ 0xAF) (hc : IsContinuation c) (he : 0xB0 ≤ e.toNat) (he' : e.toNat ≤ 0xBF)
    (hf : IsContinuation f)
    (hch : ch.toNat = 0x10000 + (b.toNat % 16 * 64 + c.toNat % 64) * 0x400 +
      (e.toNat % 16 * 64 + f.toNat % 64))
    (hrest : Rewrites x y) :
    Rewrites (0xED :: b :: c :: 0xED :: e :: f :: x) (String.utf8EncodeChar ch ++ y)

/-! ### Surrogates -/

/-- The groups that start with `0xED`, those of surrogates among them. -/
theorem encodeUnit_eq_iff : encodeUnit u = [0xED, b, c] ↔
    IsContinuation b ∧ IsContinuation c ∧
      u.toNat = 0xD000 + b.toNat % 64 * 64 + c.toNat % 64 := by
  have hlead : (0xED : UInt8).toNat % 16 * 4096 = 0xD000 := rfl
  rw [eq_comm, ← form_iff]
  constructor
  · intro h
    cases h with
    | three hge hle hb hc hlong hu =>
      rw [hlead] at hu
      exact ⟨hb, hc, hu⟩
  · rintro ⟨hb, hc, hu⟩
    rw [← hlead] at hu
    exact .three (by decide) (by decide) hb hc (fun h => absurd h.1 (by decide)) hu

/-- Such a group belongs to a unit. -/
theorem exists_unit_of_group (hb : IsContinuation b) (hc : IsContinuation c) :
    ∃ u, encodeUnit u = [0xED, b, c] ∧
      u.toNat = 0xD000 + b.toNat % 64 * 64 + c.toNat % 64 := by
  have hlead : (0xED : UInt8).toNat % 16 * 4096 = 0xD000 := rfl
  have hu := toNat_unit3 0xED b c
  rw [hlead] at hu
  exact ⟨_, encodeUnit_eq_iff.mpr ⟨hb, hc, hu⟩, hu⟩

/-- And such a group is what such a unit is written as. -/
theorem exists_group_of_unit (h : 0xD000 ≤ u.toNat) (h' : u.toNat ≤ 0xDFFF) :
    ∃ b c, encodeUnit u = [0xED, b, c] := by
  generalize hbytes : encodeUnit u = x
  cases form_iff.mpr hbytes.symm with
  | @three a b c hge hle hb hc hlong hu =>
    obtain rfl : a = 0xED := UInt8.toNat_inj.mp (show a.toNat = 0xED by omega)
    exact ⟨b, c, rfl⟩
  | zero hu =>
    subst hu
    cases h
  | _ => omega

/-- No other unit has a group that starts like theirs. -/
theorem exists_encodeUnit_of_append {e f : UInt8} (h : encodeUnit v ++ x = 0xED :: e :: f :: rest) :
    encodeUnit v = [0xED, e, f] := by
  have hlead : (0xED : UInt8).toNat = 0xED := rfl
  generalize hbytes : encodeUnit v = z at h
  cases form_iff.mpr hbytes.symm with
  | three =>
    obtain ⟨rfl, rfl, rfl, -⟩ : _ ∧ _ ∧ _ ∧ _ := by simpa using h
    rfl
  | zero => simp at h
  | one hpos hle =>
    obtain ⟨rfl, -⟩ := List.cons.inj h
    omega
  | two hge hle =>
    obtain ⟨rfl, -⟩ := List.cons.inj h
    omega

/-- A pair of surrogates can be told by its bytes. -/
theorem startsPair_iff (h : encodeUnit u = [a, b, c]) :
    StartsPair a b (encode units) ↔ IsPair u units := by
  cases form_iff.mpr h.symm with
  | three hge hle hb hc hlong hu =>
  constructor
  · rintro ⟨ha, hb, e, f, rest, heq, he, hf⟩
    refine ⟨⟨by omega, by omega⟩, ?_⟩
    cases units with
    | nil => cases heq
    | cons v units =>
      obtain ⟨he', -, hv⟩ := encodeUnit_eq_iff.mp (exists_encodeUnit_of_append heq)
      exact ⟨v, rfl, by omega, by omega⟩
  · rintro ⟨⟨hu', hu''⟩, v, hv, hlow, hlow'⟩
    obtain ⟨hb, hb'⟩ := hb
    refine ⟨by omega, by omega, ?_⟩
    obtain ⟨units, rfl⟩ : ∃ units', units = v :: units' := List.head?_eq_some_iff.mp hv
    obtain ⟨e, f, hbytes⟩ := exists_group_of_unit (u := v) (by omega) (by omega)
    obtain ⟨⟨he, he'⟩, hf, hv⟩ := encodeUnit_eq_iff.mp hbytes
    exact ⟨e, f, encode units, by rw [encode_cons, hbytes]; rfl, by omega, hf⟩

/-! ### Units -/

/-- A unit other than zero has the bytes of its number. -/
theorem encodeUnit_eq_encodePoint (h : 0 < u.toNat) : encodeUnit u = encodePoint u.toNat := by
  have hlt := u.toNat_lt
  rw [encodeUnit, encodePoint]
  split
  next hone => rw [if_pos hone.2]
  next hone =>
    rw [if_neg (show ¬ u.toNat ≤ 0x7F by omega)]
    split
    next => rfl
    next => rw [if_pos (by omega)]

/-- A unit that is not half of a pair stays as it is. -/
theorem generalized_cons (h : 0 < u.toNat) (hlone : ¬ IsPair u units) :
    GeneralizedUtf8.encode (u :: units) = encodeUnit u ++ GeneralizedUtf8.encode units := by
  rw [GeneralizedUtf8.encode, points_of_not_isPair hlone, List.flatMap_cons,
    ← encodeUnit_eq_encodePoint h]
  rfl

theorem generalized_zero_cons (units : List UInt16) :
    GeneralizedUtf8.encode (0 :: units) = 0 :: GeneralizedUtf8.encode units := by
  rw [GeneralizedUtf8.encode, points_of_not_isPair fun h => absurd h.1.1 (by decide)]
  rfl

theorem generalized_pair {ch : Char} (hu : IsHighSurrogate u) (hv : IsLowSurrogate v)
    (hch : ch.toNat = pairPoint u v) : GeneralizedUtf8.encode (u :: v :: units) =
      String.utf8EncodeChar ch ++ GeneralizedUtf8.encode units := by
  rw [GeneralizedUtf8.encode, points_of_pair hu hv, List.flatMap_cons, ← hch, encodePoint_toNat]
  rfl

/-! ### Rewriting -/

theorem Rewrites.cons (hlone : ¬ IsPair u units)
    (hrest : Rewrites (encode units) (GeneralizedUtf8.encode units)) :
    Rewrites (encode (u :: units)) (GeneralizedUtf8.encode (u :: units)) := by
  rcases Nat.eq_zero_or_pos u.toNat with hzero | hpos
  · obtain rfl : u = 0 := UInt16.toNat_inj.mp hzero
    rw [generalized_zero_cons]
    exact .zero hrest
  · rw [generalized_cons hpos hlone, encode_cons]
    generalize hbytes : encodeUnit u = z
    cases form_iff.mpr hbytes.symm with
    | one hone hle => exact .one hone hle hrest
    | zero hu =>
      subst hu
      cases hpos
    | two hge hle hb => exact .two hge hle hb hrest
    | three hge hle hb hc hlong =>
      exact .three hge hle hb hc hlong (mt (startsPair_iff hbytes).mp hlone) hrest

theorem Rewrites.cons_pair (hu : IsHighSurrogate u) (hv : IsLowSurrogate v)
    (hrest : Rewrites (encode units) (GeneralizedUtf8.encode units)) :
    Rewrites (encode (u :: v :: units)) (GeneralizedUtf8.encode (u :: v :: units)) := by
  have hpoint : pairPoint u v = 0x10000 + (u.toNat - 0xD800) * 0x400 + (v.toNat - 0xDC00) := rfl
  obtain ⟨hge, hle⟩ := hu
  obtain ⟨hge', hle'⟩ := hv
  obtain ⟨b, c, hbytes⟩ := exists_group_of_unit (u := u) (by omega) (by omega)
  obtain ⟨e, f, hbytes'⟩ := exists_group_of_unit (u := v) (by omega) (by omega)
  obtain ⟨⟨hb, hb'⟩, hc, hnumber⟩ := encodeUnit_eq_iff.mp hbytes
  obtain ⟨⟨he, he'⟩, hf, hnumber'⟩ := encodeUnit_eq_iff.mp hbytes'
  obtain ⟨ch, hch⟩ := exists_char (n := pairPoint u v) (by rw [Nat.isValidChar]; omega)
  rw [generalized_pair ⟨hge, hle⟩ ⟨hge', hle'⟩ hch, encode_cons, encode_cons, hbytes, hbytes']
  exact .pair (by omega) (by omega) hc (by omega) (by omega) hf (by omega) hrest

/-- Whatever units are written as is rewritten to what they spell. -/
theorem rewrites_encode (units : List UInt16) :
    Rewrites (encode units) (GeneralizedUtf8.encode units) := by
  induction units using GeneralizedUtf8.pair_induction with
  | nil => exact .nil
  | unit u rest hlone ih => exact .cons hlone ih
  | pair u v rest hu hv ih => exact .cons_pair hu hv ih

/-- A group that stays as it is belongs to one more unit. -/
private theorem exists_cons {z : List UInt8} (h : Form u z) (hpos : 0 < u.toNat)
    (hlone : ¬ IsPair u units) : ∃ units', z ++ encode units = encode units' ∧
      z ++ GeneralizedUtf8.encode units = GeneralizedUtf8.encode units' := by
  refine ⟨u :: units, ?_, ?_⟩
  · rw [encode_cons, form_iff.mp h]
  · rw [generalized_cons hpos hlone, form_iff.mp h]

/-- Nothing else is rewritten. -/
theorem Rewrites.exists_units (h : Rewrites x y) :
    ∃ units, x = encode units ∧ y = GeneralizedUtf8.encode units := by
  induction h with
  | nil => exact ⟨[], rfl, rfl⟩
  | @one a x y hpos hle hrest ih =>
    obtain ⟨units, rfl, rfl⟩ := ih
    have hu : (UInt16.ofNat a.toNat).toNat = a.toNat := by
      rw [UInt16.toNat_ofNat']
      omega
    refine exists_cons (.one hpos hle hu) (by omega) fun hpair => ?_
    have hhigh := hpair.1.1
    omega
  | zero hrest ih =>
    obtain ⟨units, rfl, rfl⟩ := ih
    exact ⟨0 :: units, rfl, (generalized_zero_cons units).symm⟩
  | @two a b x y hge hle hb hrest ih =>
    obtain ⟨units, rfl, rfl⟩ := ih
    have hu := toNat_unit2 a b
    obtain ⟨hb, hb'⟩ := hb
    refine exists_cons (.two hge hle ⟨hb, hb'⟩ hu) (by omega) fun hpair => ?_
    have hhigh := hpair.1.1
    omega
  | @three a b c x y hge hle hb hc hlong hlone hrest ih =>
    obtain ⟨units, rfl, rfl⟩ := ih
    have hu := toNat_unit3 a b c
    have hform : Form (unit3 a b c) [a, b, c] := .three hge hle hb hc hlong hu
    obtain ⟨hb, hb'⟩ := hb
    exact exists_cons hform (by omega) (mt (startsPair_iff (form_iff.mp hform).symm).mpr hlone)
  | @pair b c e f x y ch hb hb' hc he he' hf hch hrest ih =>
    obtain ⟨units, rfl, rfl⟩ := ih
    have hcont : IsContinuation b := ⟨by omega, by omega⟩
    have hcont' : IsContinuation e := ⟨by omega, by omega⟩
    obtain ⟨u, hbytes, hu⟩ := exists_unit_of_group hcont hc
    obtain ⟨v, hbytes', hv⟩ := exists_unit_of_group hcont' hf
    have hpoint : pairPoint u v = 0x10000 + (u.toNat - 0xD800) * 0x400 + (v.toNat - 0xDC00) := rfl
    refine ⟨u :: v :: units, ?_, ?_⟩
    · rw [encode_cons, encode_cons, hbytes, hbytes']
      rfl
    · exact (generalized_pair ⟨by omega, by omega⟩ ⟨by omega, by omega⟩ (by omega)).symm

/-- **Rewriting** turns what units are written as into what they spell. -/
theorem rewrites_iff : Rewrites x y ↔ ∃ units, x = encode units ∧ Spells units y := by
  simp only [spells_iff]
  constructor
  · exact Rewrites.exists_units
  · rintro ⟨units, rfl, rfl⟩
    exact rewrites_encode units

end ClassRelay.ModifiedUtf8

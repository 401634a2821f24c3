import ClassRelay.Bytes.Basic

/-!
# Big-endian words

Two and four bytes as a number, **most significant byte first**, in both directions. Writing
and then reading gives the number back (`decode16_encode16`, `decode32_encode32`), and every
group of bytes is what its number is written as (`encode16_decode16`, `encode32_decode32`), so
a word has exactly one written form. It is that of its two halves, one behind the other
(`encode16_eq_append`, `encode32_eq_append`).
-/

namespace ClassRelay.BigEndian

/-- The number that two bytes stand for. -/
def decode16 (a b : UInt8) : UInt16 :=
  UInt16.ofNat (256 * a.toNat + b.toNat)

/-- The number that four bytes stand for. -/
def decode32 (a b c d : UInt8) : UInt32 :=
  UInt32.ofNat (16777216 * a.toNat + 65536 * b.toNat + 256 * c.toNat + d.toNat)

/-- A 16-bit number as two bytes. -/
def encode16 (v : UInt16) : ByteArray :=
  ⟨#[UInt8.ofNat (v.toNat / 256), UInt8.ofNat v.toNat]⟩

/-- A 32-bit number as four bytes. -/
def encode32 (v : UInt32) : ByteArray :=
  ⟨#[UInt8.ofNat (v.toNat / 16777216), UInt8.ofNat (v.toNat / 65536),
    UInt8.ofNat (v.toNat / 256), UInt8.ofNat v.toNat]⟩

@[simp] theorem size_encode16 (v : UInt16) : (encode16 v).size = 2 := rfl

@[simp] theorem size_encode32 (v : UInt32) : (encode32 v).size = 4 := rfl

theorem toNat_decode16 (a b : UInt8) : (decode16 a b).toNat = 256 * a.toNat + b.toNat := by
  have ha := a.toNat_lt
  have hb := b.toNat_lt
  simp only [decode16, UInt16.toNat_ofNat']
  omega

theorem toNat_decode32 (a b c d : UInt8) : (decode32 a b c d).toNat =
    16777216 * a.toNat + 65536 * b.toNat + 256 * c.toNat + d.toNat := by
  have ha := a.toNat_lt
  have hb := b.toNat_lt
  have hc := c.toNat_lt
  have hd := d.toNat_lt
  simp only [decode32, UInt32.toNat_ofNat']
  omega

/-- A 16-bit number is read back from its two bytes. -/
theorem decode16_encode16 (v : UInt16) :
    decode16 (UInt8.ofNat (v.toNat / 256)) (UInt8.ofNat v.toNat) = v := by
  have hv := v.toNat_lt
  apply UInt16.toNat_inj.mp
  rw [toNat_decode16]
  simp only [UInt8.toNat_ofNat']
  omega

/-- A 32-bit number is read back from its four bytes. -/
theorem decode32_encode32 (v : UInt32) :
    decode32 (UInt8.ofNat (v.toNat / 16777216)) (UInt8.ofNat (v.toNat / 65536))
      (UInt8.ofNat (v.toNat / 256)) (UInt8.ofNat v.toNat) = v := by
  have hv := v.toNat_lt
  apply UInt32.toNat_inj.mp
  rw [toNat_decode32]
  simp only [UInt8.toNat_ofNat']
  omega

/-- Two bytes are what their number is written as. -/
theorem encode16_decode16 (a b : UInt8) : encode16 (decode16 a b) = ⟨#[a, b]⟩ := by
  have ha := a.toNat_lt
  have hb := b.toNat_lt
  have h1 : UInt8.ofNat ((256 * a.toNat + b.toNat) / 256) = a := by
    apply UInt8.toNat_inj.mp
    simp only [UInt8.toNat_ofNat']
    omega
  have h2 : UInt8.ofNat (256 * a.toNat + b.toNat) = b := by
    apply UInt8.toNat_inj.mp
    simp only [UInt8.toNat_ofNat']
    omega
  simp only [encode16, toNat_decode16, h1, h2]

/-- Four bytes are what their number is written as. -/
theorem encode32_decode32 (a b c d : UInt8) :
    encode32 (decode32 a b c d) = ⟨#[a, b, c, d]⟩ := by
  have ha := a.toNat_lt
  have hb := b.toNat_lt
  have hc := c.toNat_lt
  have hd := d.toNat_lt
  have h1 : UInt8.ofNat ((16777216 * a.toNat + 65536 * b.toNat + 256 * c.toNat + d.toNat) /
      16777216) = a := by
    apply UInt8.toNat_inj.mp
    simp only [UInt8.toNat_ofNat']
    omega
  have h2 : UInt8.ofNat ((16777216 * a.toNat + 65536 * b.toNat + 256 * c.toNat + d.toNat) /
      65536) = b := by
    apply UInt8.toNat_inj.mp
    simp only [UInt8.toNat_ofNat']
    omega
  have h3 : UInt8.ofNat ((16777216 * a.toNat + 65536 * b.toNat + 256 * c.toNat + d.toNat) /
      256) = c := by
    apply UInt8.toNat_inj.mp
    simp only [UInt8.toNat_ofNat']
    omega
  have h4 : UInt8.ofNat (16777216 * a.toNat + 65536 * b.toNat + 256 * c.toNat + d.toNat) = d := by
    apply UInt8.toNat_inj.mp
    simp only [UInt8.toNat_ofNat']
    omega
  simp only [encode32, toNat_decode32, h1, h2, h3, h4]

/-! ### One written form for each number -/

theorem encode16_inj {v w : UInt16} : encode16 v = encode16 w ↔ v = w := by
  refine ⟨fun h => ?_, fun h => by rw [h]⟩
  simp only [encode16, ByteArray.mk.injEq, Array.mk.injEq, List.cons.injEq, and_true] at h
  rw [← decode16_encode16 v, ← decode16_encode16 w, h.1, h.2]

theorem encode32_inj {v w : UInt32} : encode32 v = encode32 w ↔ v = w := by
  refine ⟨fun h => ?_, fun h => by rw [h]⟩
  simp only [encode32, ByteArray.mk.injEq, Array.mk.injEq, List.cons.injEq, and_true] at h
  obtain ⟨h1, h2, h3, h4⟩ := h
  rw [← decode32_encode32 v, ← decode32_encode32 w, h1, h2, h3, h4]

/-! ### Halves of a number -/

/-- A 16-bit number is written as its high byte and its low one. -/
theorem encode16_eq_append {v : UInt16} {high low : UInt8}
    (h : v.toNat = 256 * high.toNat + low.toNat) :
    encode16 v = ByteArray.empty.push high ++ ByteArray.empty.push low := by
  obtain rfl : decode16 high low = v := UInt16.toNat_inj.mp ((toNat_decode16 _ _).trans h.symm)
  rw [encode16_decode16]
  rfl

/-- A 32-bit number is written as its high half and its low one. -/
theorem encode32_eq_append {v : UInt32} {high low : UInt16}
    (h : v.toNat = 65536 * high.toNat + low.toNat) :
    encode32 v = encode16 high ++ encode16 low := by
  have hhigh := toNat_decode16 (UInt8.ofNat (high.toNat / 256)) (UInt8.ofNat high.toNat)
  have hlow := toNat_decode16 (UInt8.ofNat (low.toNat / 256)) (UInt8.ofNat low.toNat)
  rw [decode16_encode16] at hhigh hlow
  have hword : decode32 (UInt8.ofNat (high.toNat / 256)) (UInt8.ofNat high.toNat)
      (UInt8.ofNat (low.toNat / 256)) (UInt8.ofNat low.toNat) = v :=
    UInt32.toNat_inj.mp ((toNat_decode32 _ _ _ _).trans (by omega))
  rw [← hword, encode32_decode32]
  rfl

theorem exists_halves16 (v : UInt16) : ∃ high low : UInt8,
    v.toNat = 256 * high.toNat + low.toNat := by
  have hlt := v.toNat_lt
  refine ⟨UInt8.ofNat (v.toNat / 256), UInt8.ofNat v.toNat, ?_⟩
  simp only [UInt8.toNat_ofNat']
  omega

theorem exists_halves32 (v : UInt32) : ∃ high low : UInt16,
    v.toNat = 65536 * high.toNat + low.toNat := by
  have hlt := v.toNat_lt
  refine ⟨UInt16.ofNat (v.toNat / 65536), UInt16.ofNat v.toNat, ?_⟩
  simp only [UInt16.toNat_ofNat']
  omega

end ClassRelay.BigEndian

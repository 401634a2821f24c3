import ClassRelay.Proofs.ClassFile.Layout
import ClassRelay.Proofs.Text.Name

/-!
# Names that are kept as units

The name of a class entry is bytes in the pool. They may be standard UTF-8, or modified UTF-8 of
**any sequence of UTF-16 units**, with zeros and with surrogates that are no pair. With a decoder
that keeps the first and rewrites the second both are read (`Pool.DecodesName`): standard UTF-8 is
kept, and modified UTF-8 becomes what the units spell, a pair of surrogates as one character and any
other surrogate by itself. Bytes that are neither are refused, which leaves the class usable.
-/

namespace ClassRelay.ClassFile

variable {decode : NameDecoder} {p : Pool} {index : UInt16} {raw name : ByteArray}

namespace Pool

/-- How the bytes `raw` of the name in slot `index` are read. -/
structure DecodesName (decode : NameDecoder) (p : Pool) (index : UInt16) (raw : ByteArray) :
    Prop where
  /-- There is a name exactly if the bytes are standard UTF-8 or what some units are written as. -/
  ok_iff : (∃ name, p.className decode index = .ok name) ↔
    raw.IsValidUTF8 ∨ ∃ units, raw.data.toList = ModifiedUtf8.encode units
  /-- The name of what units are written as is what the units spell. -/
  eq_ok_iff : ∀ units, raw.data.toList = ModifiedUtf8.encode units → ∀ name,
    (p.className decode index = .ok name ↔ GeneralizedUtf8.Spells units name.data.toList)
  /-- Standard UTF-8 is its own name. -/
  of_isValidUTF8 : raw.IsValidUTF8 → p.className decode index = .ok raw
  /-- All other bytes have no name, which is an answer to this question only. -/
  error : ¬ raw.IsValidUTF8 → (∀ units, raw.data.toList ≠ ModifiedUtf8.encode units) →
    ∃ fault, p.className decode index = .error (.badName fault) ∧
      (ClassError.badName fault).kind = .badEncoding ∧ (ClassError.badName fault).isLookup = true

/-- The name of a slot is what its bytes are read as. -/
theorem className_eq_ok_iff (h : p.rawClassName index = .ok raw) :
    p.className decode index = .ok name ↔ decode raw = .ok name := by
  cases hdecode : decode raw with
  | ok name' => rw [className_of_decode_ok h hdecode, Except.ok.injEq, Except.ok.injEq]
  | error fault =>
    rw [className_of_decode_error h hdecode]
    simp

end Pool

/-- **Names are decoded faithfully**, in every slot that has one. -/
theorem className_decodes (hkeeps : decode.KeepsUtf8) (hrewrites : decode.RewritesModifiedUtf8)
    (h : p.rawClassName index = .ok raw) : p.DecodesName decode index raw where
  ok_iff := by
    rw [← NameDecoder.exists_eq_ok_iff hkeeps hrewrites]
    exact exists_congr fun name => Pool.className_eq_ok_iff h
  eq_ok_iff units hunits name := by
    rw [Pool.className_eq_ok_iff h]
    exact NameDecoder.eq_ok_iff_of_encode hkeeps hrewrites hunits
  of_isValidUTF8 hvalid := Pool.className_of_decode_ok h (hkeeps raw hvalid)
  error hvalid hunits := by
    cases hdecode : decode raw with
    | ok name =>
      obtain hno | ⟨units, hno⟩ :=
        (NameDecoder.exists_eq_ok_iff hkeeps hrewrites).mp ⟨name, hdecode⟩
      · exact absurd hno hvalid
      · exact absurd hno (hunits units)
    | error fault => exact ⟨fault, Pool.className_of_decode_error h hdecode, rfl, rfl⟩

/-- A class whose name has a zero, a surrogate pair and a high surrogate at its end. -/
def surrogateClass : Layout where
  minor := 0
  major := 65
  count := 3
  entries := [.utf8 ⟨#[0x41, 0xC0, 0x80, 0xED, 0xA0, 0xBD, 0xED, 0xB8, 0x80, 0xED, 0xA0, 0x80]⟩,
    .classRef 1]
  access := ⟨33⟩
  thisClass := 2
  superClass := 0
  interfaces := []
  rest := ByteArray.empty

theorem surrogateClass_wellFormed : surrogateClass.WellFormed .reject where
  fills := .step (by decide) (.of_tag?_ne_none (by decide) (by decide))
    (.step (by decide) (.of_tag?_ne_none trivial (by decide)) (.done (by decide)))
  length_lt := by decide

theorem className_decodes_surrogates :
    (load .reject surrogateClass.bytes).value = .ok surrogateClass.toClassFile ∧
      surrogateClass.toClassFile.pool.rawClassName 2 =
        .ok ⟨#[0x41, 0xC0, 0x80, 0xED, 0xA0, 0xBD, 0xED, 0xB8, 0x80, 0xED, 0xA0, 0x80]⟩ ∧
      surrogateClass.toClassFile.pool.DecodesName .simple 2
        ⟨#[0x41, 0xC0, 0x80, 0xED, 0xA0, 0xBD, 0xED, 0xB8, 0x80, 0xED, 0xA0, 0x80]⟩ ∧
      surrogateClass.toClassFile.pool.className .simple 2 =
        .ok ⟨#[0x41, 0, 0xF0, 0x9F, 0x98, 0x80, 0xED, 0xA0, 0x80]⟩ := by
  have hraw : surrogateClass.toClassFile.pool.rawClassName 2 =
      .ok ⟨#[0x41, 0xC0, 0x80, 0xED, 0xA0, 0xBD, 0xED, 0xB8, 0x80, 0xED, 0xA0, 0x80]⟩ := rfl
  have hdecodes := className_decodes NameDecoder.simple_keepsUtf8
    NameDecoder.simple_rewritesModifiedUtf8 hraw
  refine ⟨Layout.load_bytes surrogateClass_wellFormed, hraw, hdecodes, ?_⟩
  rw [hdecodes.eq_ok_iff [0x41, 0, 0xD83D, 0xDE00, 0xD800] (by decide), GeneralizedUtf8.spells_iff]
  rfl

end ClassRelay.ClassFile

import ClassRelay.ClassFile.Names
import ClassRelay.Proofs.ClassFile.Layout
import ClassRelay.Proofs.Text.Name

/-!
# Walking the interfaces

A walk over the interfaces of a class stands at a position among them and counts down what is left.
After `k` steps it stands at position `k`, or **at the end** once `k` is too large, so that the
position never passes the number of interfaces and what is left is an exact difference
(`InterfaceCursor.after_eq`). Each step gives the name of the interface at its position, or why it
has none: an interface without a name is an item like any other, and does not end the walk.

The interfaces themselves are words behind the pool. Which position has one, and which word it is,
is said by the class bytes (`load_walks_interfaces`).
-/

namespace ClassRelay.ClassFile

variable {decode : NameDecoder} {policy : UnknownTagPolicy} {b : ByteArray} {c : ClassFile}

namespace InterfaceCursor

variable {w : InterfaceCursor} {items : List (Except ClassError ByteArray)} {k : Nat}

/-- The walk after `k` more steps, whether they give an item or not. -/
def after (decode : NameDecoder) (w : InterfaceCursor) : Nat → InterfaceCursor
  | 0 => w
  | k + 1 => ((w.after decode k).next decode).2

/-- The items that a walk still gives, one with each step until a step gives none. -/
inductive Gives (decode : NameDecoder) :
    InterfaceCursor → List (Except ClassError ByteArray) → Prop
  | ended {w : InterfaceCursor} (h : (w.next decode).1.value = none) : Gives decode w []
  | step {w : InterfaceCursor} {item : Except ClassError ByteArray}
    {items : List (Except ClassError ByteArray)} (h : (w.next decode).1.value = some item)
    (hrest : Gives decode (w.next decode).2 items) : Gives decode w (item :: items)

/-! ### Steps -/

theorem next_of_lt (h : w.position < w.owner.interfaceCount) :
    w.next decode =
      (some <$> w.owner.interfaceName decode w.position, ⟨w.owner, w.position + 1⟩) :=
  if_pos h

theorem next_of_le (h : w.owner.interfaceCount ≤ w.position) :
    w.next decode = (pure none, w) :=
  if_neg (Nat.not_lt.mpr h)

/-- **Where a walk stands** after `k` steps: at position `k`, or at the end. -/
theorem after_eq (decode : NameDecoder) (c : ClassFile) (k : Nat) :
    c.walkInterfaces.after decode k = ⟨c, min k c.interfaceCount⟩ := by
  induction k with
  | zero => rw [Nat.zero_min]; rfl
  | succ k ih =>
    rw [after, ih]
    rcases Nat.lt_or_ge k c.interfaceCount with hlt | hge
    · rw [next_of_lt (by dsimp only; omega)]
      dsimp only
      rw [Nat.min_eq_left (Nat.le_of_lt hlt), Nat.min_eq_left hlt]
    · rw [next_of_le (by dsimp only; omega), Nat.min_eq_right hge,
        Nat.min_eq_right (Nat.le_succ_of_le hge)]

theorem position_after_le (decode : NameDecoder) (c : ClassFile) (k : Nat) :
    (c.walkInterfaces.after decode k).position ≤ c.interfaceCount := by
  rw [after_eq]
  exact Nat.min_le_right _ _

/-- What is left is an exact difference. -/
theorem remaining_add_position (decode : NameDecoder) (c : ClassFile) (k : Nat) :
    (c.walkInterfaces.after decode k).remaining + (c.walkInterfaces.after decode k).position =
      c.interfaceCount := by
  rw [after_eq]
  exact Nat.sub_add_cancel (Nat.min_le_right _ _)

theorem fst_next_after_of_lt (h : k < c.interfaceCount) :
    ((c.walkInterfaces.after decode k).next decode).1 = some <$> c.interfaceName decode k := by
  rw [after_eq, Nat.min_eq_left (Nat.le_of_lt h), next_of_lt (by exact h)]

theorem fst_next_after_of_le (h : c.interfaceCount ≤ k) :
    ((c.walkInterfaces.after decode k).next decode).1 = pure none := by
  rw [after_eq, Nat.min_eq_right h, next_of_le (Nat.le_refl _)]

/-! ### What a walk still gives -/

/-- The names of the interfaces from a position on, or why they have none. -/
def namesFrom (decode : NameDecoder) (c : ClassFile) (position : Nat) :
    List (Except ClassError ByteArray) :=
  ((List.range c.interfaceCount).drop position).map fun j => (c.interfaceName decode j).value

theorem length_namesFrom (decode : NameDecoder) (c : ClassFile) (position : Nat) :
    (namesFrom decode c position).length = c.interfaceCount - position := by
  rw [namesFrom, List.length_map, List.length_drop, List.length_range]

theorem namesFrom_of_lt (h : k < c.interfaceCount) :
    namesFrom decode c k = (c.interfaceName decode k).value :: namesFrom decode c (k + 1) := by
  have hk : k < (List.range c.interfaceCount).length := by
    rw [List.length_range]
    exact h
  rw [namesFrom, List.drop_eq_getElem_cons hk, List.map_cons, List.getElem_range, namesFrom]

theorem namesFrom_of_le (h : c.interfaceCount ≤ k) : namesFrom decode c k = [] := by
  rw [namesFrom, List.drop_eq_nil_of_le (by rw [List.length_range]; exact h), List.map_nil]

theorem Gives.eq_namesFrom (h : w.Gives decode items) :
    items = namesFrom decode w.owner w.position := by
  induction h with
  | @ended w hnone =>
    rcases Nat.lt_or_ge w.position w.owner.interfaceCount with hlt | hge
    · rw [next_of_lt hlt] at hnone
      cases hnone
    · rw [namesFrom_of_le hge]
  | @step w item items hsome hrest ih =>
    rcases Nat.lt_or_ge w.position w.owner.interfaceCount with hlt | hge
    · rw [next_of_lt hlt] at hsome ih
      cases hsome
      rw [namesFrom_of_lt hlt, ih]
    · rw [next_of_le hge] at hsome
      cases hsome

theorem gives_namesFrom (decode : NameDecoder) (w : InterfaceCursor) :
    w.Gives decode (namesFrom decode w.owner w.position) := by
  -- By induction on what is left: a step that gives an item leaves one less.
  generalize hleft : w.remaining = left
  induction left generalizing w with
  | zero =>
    have hge : w.owner.interfaceCount ≤ w.position := Nat.le_of_sub_eq_zero hleft
    rw [namesFrom_of_le hge]
    exact .ended (by rw [next_of_le hge]; rfl)
  | succ left ih =>
    rw [remaining] at hleft
    have hlt : w.position < w.owner.interfaceCount := by omega
    have hrest := ih ⟨w.owner, w.position + 1⟩
      (show w.owner.interfaceCount - (w.position + 1) = left by omega)
    rw [namesFrom_of_lt hlt]
    exact .step (by rw [next_of_lt hlt]; rfl) (by rw [next_of_lt hlt]; exact hrest)

/-- **The items still to come** are the names of the interfaces from the position on. -/
theorem gives_iff : w.Gives decode items ↔ items = namesFrom decode w.owner w.position :=
  ⟨Gives.eq_namesFrom, fun h => h ▸ gives_namesFrom decode w⟩

/-- As many items are still to come as interfaces are left. -/
theorem exists_gives_after (decode : NameDecoder) (c : ClassFile) (k : Nat) :
    ∃ items, (c.walkInterfaces.after decode k).Gives decode items ∧
      (∀ items', (c.walkInterfaces.after decode k).Gives decode items' → items' = items) ∧
      items.length = c.interfaceCount - min k c.interfaceCount := by
  refine ⟨_, gives_iff.mpr rfl, fun _ => gives_iff.mp, ?_⟩
  rw [after_eq, length_namesFrom]

end InterfaceCursor

/-! ### Where the interfaces stand -/

/-- How the interfaces of a class are walked, and where its bytes `b` hold them. -/
structure WalksInterfaces (decode : NameDecoder) (c : ClassFile) (b : ByteArray) : Prop where
  /-- A walk does not pass the last interface, so what is left is an exact difference. -/
  position_le : ∀ k, (c.walkInterfaces.after decode k).position ≤ c.interfaceCount
  remaining_add : ∀ k, (c.walkInterfaces.after decode k).remaining +
    (c.walkInterfaces.after decode k).position = c.interfaceCount
  /-- Its two bounds are the number of interfaces without as many as the steps that were made. -/
  bounds_eq : ∀ k, (c.walkInterfaces.after decode k).bounds =
    (c.interfaceCount - min k c.interfaceCount, c.interfaceCount - min k c.interfaceCount)
  /-- As many items are still to come. -/
  exists_gives : ∀ k, ∃ items, (c.walkInterfaces.after decode k).Gives decode items ∧
    (∀ items', (c.walkInterfaces.after decode k).Gives decode items' → items' = items) ∧
    items.length = c.interfaceCount - min k c.interfaceCount
  /-- Each item is the name of the interface at its position, or why there is none. -/
  fst_next_of_lt : ∀ k < c.interfaceCount,
    ((c.walkInterfaces.after decode k).next decode).1 = some <$> c.interfaceName decode k
  /-- Behind the last one there is never an item again. -/
  fst_next_of_le : ∀ k ≥ c.interfaceCount,
    ((c.walkInterfaces.after decode k).next decode).1 = pure none
  /-- The slot of an interface is two bytes in a table behind the fixed fields. -/
  interfaceIndex_of_lt : ∀ j < c.interfaceCount,
    ∃ h : 10 + c.pool.byteSize + 8 + 2 * j + 1 < b.size, c.interfaceIndex j =
      .ok (BigEndian.decode16 b[10 + c.pool.byteSize + 8 + 2 * j]
        b[10 + c.pool.byteSize + 8 + 2 * j + 1])
  /-- At any other position there is none, and none has a name. -/
  interfaceIndex_of_le : ∃ count : UInt16, count.toNat = c.interfaceCount ∧
    ∀ j ≥ c.interfaceCount, c.interfaceIndex j = .error (.noSuchInterface j count) ∧
      (c.interfaceName decode j).value = .error (.noSuchInterface j count)

namespace Layout

variable {l : Layout} {j : Nat}

/-- The slots of the interfaces of a written class stand where they were written. -/
theorem interfaceIndex_bytes (hj : j < l.interfaces.length) :
    ∃ h : 10 + l.toClassFile.pool.byteSize + 8 + 2 * j + 1 < l.bytes.size,
      l.toClassFile.interfaceIndex j =
        .ok (BigEndian.decode16 l.bytes[10 + l.toClassFile.pool.byteSize + 8 + 2 * j]
          l.bytes[10 + l.toClassFile.pool.byteSize + 8 + 2 * j + 1]) := by
  have hstop : 10 + l.toClassFile.pool.byteSize = l.stop :=
    congrArg (10 + ·) Pool.byteSize_ofEntries
  have hwords := (holdsAt_encodeWords.mp (holdsAt_core.mp l.holdsAt_core_bytes).2.2.2.2.2.2).2
  have hword := hwords j hj
  rw [← hstop] at hword
  have hle : 10 + l.toClassFile.pool.byteSize + 8 + 2 * j + 2 ≤ l.bytes.size := hword.le_size
  refine ⟨hle, ?_⟩
  rw [interfaceIndex_toClassFile hj, ← (word16_eq_iff hle).mpr hword]
  rfl

end Layout

theorem interfaceIndex_of_le {count : UInt16} (hcount : count.toNat = c.interfaceCount) {j : Nat}
    (hj : c.interfaceCount ≤ j) : c.interfaceIndex j = .error (.noSuchInterface j count) := by
  rw [interfaceIndex, Array.getElem?_eq_none hj, ← hcount, UInt16.ofNat_toNat]

theorem interfaceName_of_error {j : Nat} {e : ClassError} (h : c.interfaceIndex j = .error e) :
    (c.interfaceName decode j).value = .error e := by
  rw [interfaceName, h]
  rfl

/-- **The walk over the interfaces is exact**, in every accepted class. -/
theorem load_walks_interfaces (decode : NameDecoder) (h : (load policy b).value = .ok c) :
    c.WalksInterfaces decode b := by
  rw [value_load] at h
  obtain ⟨l, hl, rfl, rfl⟩ := Layout.parse_eq_ok_iff.mp h
  have hcount : (UInt16.ofNat l.interfaces.length).toNat = l.toClassFile.interfaceCount :=
    UInt16.toNat_ofNat_of_lt' hl.length_lt
  exact
    { position_le := InterfaceCursor.position_after_le decode _
      remaining_add := InterfaceCursor.remaining_add_position decode _
      bounds_eq := fun k => by rw [InterfaceCursor.after_eq]; rfl
      exists_gives := InterfaceCursor.exists_gives_after decode _
      fst_next_of_lt := fun _ => InterfaceCursor.fst_next_after_of_lt
      fst_next_of_le := fun _ => InterfaceCursor.fst_next_after_of_le
      interfaceIndex_of_lt := fun _ => Layout.interfaceIndex_bytes
      interfaceIndex_of_le := ⟨_, hcount, fun _ hj =>
        ⟨interfaceIndex_of_le hcount hj, interfaceName_of_error (interfaceIndex_of_le hcount hj)⟩⟩ }

/-- A class with three interfaces, of which the second is a text and the third no slot at all. -/
def partlyNamedClass : Layout where
  minor := 0
  major := 65
  count := 3
  entries := [.utf8 ⟨#[65]⟩, .classRef 1]
  access := ⟨33⟩
  thisClass := 2
  superClass := 0
  interfaces := [2, 1, 99]
  rest := ByteArray.empty

theorem partlyNamedClass_wellFormed : partlyNamedClass.WellFormed .reject where
  fills := .step (by decide) (.of_tag?_ne_none (by decide) (by decide))
    (.step (by decide) (.of_tag?_ne_none trivial (by decide)) (.done (by decide)))
  length_lt := by decide

theorem load_walks_interfaces_partlyNamed :
    (load .reject partlyNamedClass.bytes).value = .ok partlyNamedClass.toClassFile ∧
      partlyNamedClass.toClassFile.WalksInterfaces .simple partlyNamedClass.bytes ∧
      ((partlyNamedClass.toClassFile.walkInterfaces.after .simple 1).next .simple).1.value =
        some (.error (.wrongTag .classRef .utf8)) ∧
      (partlyNamedClass.toClassFile.walkInterfaces.after .simple 1).bounds = (2, 2) ∧
      partlyNamedClass.toClassFile.interfaceIndex 3 = .error (.noSuchInterface 3 3) := by
  have hload := Layout.load_bytes partlyNamedClass_wellFormed
  exact ⟨hload, load_walks_interfaces .simple hload, rfl, rfl, rfl⟩

end ClassRelay.ClassFile

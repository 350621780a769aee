import Mathlib.Algebra.Group.Nat.Defs
import Mathlib.Logic.Function.Basic
import MemAlloc.Lib.Spans

set_option autoImplicit false

/- A flat byte memory with little-endian words of any width. -/

abbrev ByteMemory : Type := Nat → UInt8

namespace ByteMemory

/-- The little-endian number stored in the `k` bytes at `p`. -/
def readLE (m : ByteMemory) (p : Nat) : Nat → Nat
  | 0 => 0
  | k + 1 => (m p).toNat + 256 * readLE m (p + 1) k

/-- Stores the low `k` bytes of `v` at `p`, least significant first. -/
def writeLE (m : ByteMemory) (p : Nat) : Nat → Nat → ByteMemory
  | 0, _ => m
  | k + 1, v => writeLE (Function.update m p (UInt8.ofNat v)) (p + 1) k (v / 256)

abbrev wordBytes : Nat := 8

-- Irreducible, so that unification never evaluates a word byte by byte.
@[irreducible] def readWord (m : ByteMemory) (p : Nat) : Nat := readLE m p wordBytes

@[irreducible] def writeWord (m : ByteMemory) (p v : Nat) : ByteMemory :=
  writeLE m p wordBytes v

def writeByte (m : ByteMemory) (p : Nat) (b : UInt8) : ByteMemory := Function.update m p b

/-- The two memories agree on every address outside the listed ranges. -/
def SameOutside (m m' : ByteMemory) (touched : List Span) : Prop :=
  ∀ a, (∀ s ∈ touched, ¬ s.Holds a) → m' a = m a

theorem readLE_congr {m m' : ByteMemory} {p k : Nat}
    (same : ∀ a, p ≤ a → a < p + k → m' a = m a) : readLE m' p k = readLE m p k := by
  induction k generalizing p with
  | zero => rfl
  | succ k ih =>
      simp only [readLE]
      rw [same p (Nat.le_refl _) (by omega), ih (fun a low high => same a (by omega) (by omega))]

theorem writeLE_outside (m : ByteMemory) (p k v a : Nat) (outside : a < p ∨ p + k ≤ a) :
    writeLE m p k v a = m a := by
  induction k generalizing m p v with
  | zero => rfl
  | succ k ih =>
      rw [writeLE, ih _ _ _ (by omega)]
      exact Function.update_of_ne (by omega) _ _

theorem readLE_writeLE (m : ByteMemory) (p k v : Nat) :
    readLE (writeLE m p k v) p k = v % 256 ^ k := by
  induction k generalizing m p v with
  | zero => simp [readLE, Nat.mod_one]
  | succ k ih =>
      have byte : (UInt8.ofNat v).toNat = v % 256 := UInt8.toNat_ofNat' ..
      rw [readLE, writeLE, ih, writeLE_outside _ _ _ _ _ (Or.inl (Nat.lt_succ_self p)),
        Function.update_self, byte, Nat.pow_succ, Nat.mul_comm (256 ^ k) 256, Nat.mod_mul]

theorem readWord_writeWord (m : ByteMemory) (p v : Nat) (word : v < 18446744073709551616) :
    readWord (writeWord m p v) p = v := by
  rw [readWord, writeWord, readLE_writeLE]
  exact Nat.mod_eq_of_lt word

theorem readWord_mod (m : ByteMemory) (p : Nat) : readWord m p % 256 = (m p).toNat := by
  have low := (m p).toNat_lt
  rw [readWord]
  show ((m p).toNat + 256 * readLE m (p + 1) 7) % 256 = (m p).toNat
  omega

/-- A word read depends only on the bytes of the word. -/
theorem readWord_congr {m m' : ByteMemory} {p : Nat}
    (same : ∀ a, (Span.mk p wordBytes).Holds a → m' a = m a) : readWord m' p = readWord m p := by
  simp only [readWord]
  exact readLE_congr (fun a low high => same a ⟨low, high⟩)

theorem readWord_zero {m : ByteMemory} {p : Nat} (zero : ∀ k < wordBytes, m (p + k) = 0) :
    readWord m p = 0 := by
  have same : readWord m p = readWord (fun _ => 0) p := by
    apply readWord_congr
    intro a held
    have low : p ≤ a := held.1
    have high : a < p + wordBytes := held.2
    have byte := zero (a - p) (by omega)
    rwa [Nat.add_sub_cancel' low] at byte
  rw [same, readWord]
  rfl

theorem writeLE_congr {m m' : ByteMemory} {p k v a : Nat} (same : m' a = m a) :
    writeLE m' p k v a = writeLE m p k v a := by
  induction k generalizing m m' p v with
  | zero => exact same
  | succ k ih =>
      rw [writeLE, writeLE]
      apply ih
      by_cases here : a = p
      · rw [here, Function.update_self, Function.update_self]
      · rw [Function.update_of_ne here, Function.update_of_ne here, same]

/-- A byte after a word write depends only on that byte before. -/
theorem writeWord_congr {m m' : ByteMemory} {p v a : Nat} (same : m' a = m a) :
    writeWord m' p v a = writeWord m p v a := by
  simp only [writeWord]
  exact writeLE_congr same

theorem writeWord_outside (m : ByteMemory) (p v a : Nat) (outside : a < p ∨ p + wordBytes ≤ a) :
    writeWord m p v a = m a := by
  rw [writeWord]
  exact writeLE_outside m p wordBytes v a outside

theorem readWord_writeWord_apart (m : ByteMemory) (p q v : Nat)
    (apart : p + wordBytes ≤ q ∨ q + wordBytes ≤ p) :
    readWord (writeWord m p v) q = readWord m q := by
  apply readWord_congr
  rintro a ⟨low, high⟩
  apply writeWord_outside
  simp only [Span.stop] at *
  omega

namespace SameOutside

theorem refl (m : ByteMemory) (touched : List Span) : SameOutside m m touched :=
  fun _ _ => rfl

theorem trans {m m' m'' : ByteMemory} {touched : List Span} (first : SameOutside m m' touched)
    (second : SameOutside m' m'' touched) : SameOutside m m'' touched :=
  fun a outside => (second a outside).trans (first a outside)

theorem mono {m m' : ByteMemory} {touched wider : List Span}
    (same : SameOutside m m' touched)
    (covered : ∀ s ∈ touched, ∃ t ∈ wider, s.Inside t) : SameOutside m m' wider := by
  intro a outside
  apply same
  intro s member held
  obtain ⟨t, wide, inside⟩ := covered s member
  exact outside t wide (inside.holds held)

theorem writeWord (m : ByteMemory) (p v : Nat) :
    SameOutside m (ByteMemory.writeWord m p v) [⟨p, wordBytes⟩] := by
  intro a outside
  apply writeWord_outside
  have absent := outside _ List.mem_cons_self
  simp only [Span.Holds, Span.stop] at absent
  omega

theorem writeByte (m : ByteMemory) (p : Nat) (b : UInt8) :
    SameOutside m (ByteMemory.writeByte m p b) [⟨p, 1⟩] := by
  intro a outside
  have absent := outside _ List.mem_cons_self
  simp only [Span.Holds, Span.stop] at absent
  exact Function.update_of_ne (by omega) _ _

theorem readWord {m m' : ByteMemory} {touched : List Span} (same : SameOutside m m' touched)
    {p : Nat} (apart : ∀ s ∈ touched, s.Apart ⟨p, wordBytes⟩) :
    ByteMemory.readWord m' p = ByteMemory.readWord m p :=
  readWord_congr (fun a held =>
    same a (fun s member other => (apart s member).not_holds other held))

end SameOutside

/-- The two memories agree on every address inside the listed ranges. -/
def SameInside (m m' : ByteMemory) (kept : List Span) : Prop :=
  ∀ s ∈ kept, ∀ a, s.Holds a → m' a = m a

namespace SameInside

theorem refl (m : ByteMemory) (kept : List Span) : SameInside m m kept :=
  fun _ _ _ _ => rfl

theorem trans {m m' m'' : ByteMemory} {kept : List Span} (first : SameInside m m' kept)
    (second : SameInside m' m'' kept) : SameInside m m'' kept :=
  fun s member a held => (second s member a held).trans (first s member a held)

theorem mono {m m' : ByteMemory} {kept fewer : List Span} (same : SameInside m m' kept)
    (sub : ∀ s ∈ fewer, s ∈ kept) : SameInside m m' fewer :=
  fun s member => same s (sub s member)

theorem ofOutside {m m' : ByteMemory} {kept touched : List Span}
    (same : SameOutside m m' touched) (apart : ∀ t ∈ touched, ∀ s ∈ kept, t.Apart s) :
    SameInside m m' kept :=
  fun s member a held =>
    same a (fun t written other => (apart t written s member).not_holds other held)

theorem readWord {m m' : ByteMemory} {kept : List Span} (same : SameInside m m' kept)
    {s : Span} (member : s ∈ kept) {p : Nat} (inside : (Span.mk p wordBytes).Inside s) :
    ByteMemory.readWord m' p = ByteMemory.readWord m p :=
  readWord_congr (fun a held => same s member a (inside.holds held))

end SameInside

end ByteMemory

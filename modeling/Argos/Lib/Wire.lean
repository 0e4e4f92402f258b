import Mathlib.Algebra.Order.Ring.Nat
import Mathlib.Data.List.Basic
import Mathlib.Data.Nat.Log

/-!
# A format that reads back what it wrote

A `Wire α` writes values of `α` as bytes and reads a value from the front of a byte string, and
carries the proof that what was written is read, with whatever follows it left over. The combinators
build the format of a record from those of its fields, and `length` lemmas bound what they write.
-/

namespace Argos.Lib

/-- A format for `α`: a writer, a reader of a value in front of other bytes, and their agreement. -/
structure Wire (α : Type) where
  write : α → List UInt8
  read : List UInt8 → Option (α × List UInt8)
  read_write : ∀ a rest, read (write a ++ rest) = some (a, rest)

namespace Wire

variable {α β : Type}

/-- Reads a value that is alone in the input. -/
def decode (w : Wire α) (bytes : List UInt8) : Option α :=
  match w.read bytes with
  | some (a, []) => some a
  | _ => none

theorem decode_write (w : Wire α) (a : α) : w.decode (w.write a) = some a := by
  have h := w.read_write a []
  rw [List.append_nil] at h
  rw [decode, h]

/-! ## Numbers -/

/-- A number in base 128, least digit first; every digit but the last has 128 added. -/
def writeNat : Nat → Nat → List UInt8
  | 0, _ => []
  | fuel + 1, n =>
    if n < 128 then [UInt8.ofNat n] else UInt8.ofNat (n % 128 + 128) :: writeNat fuel (n / 128)

/-- Reads a number in base 128. -/
def readNat : List UInt8 → Option (Nat × List UInt8)
  | [] => none
  | byte :: rest =>
    if byte.toNat < 128 then some (byte.toNat, rest)
    else (readNat rest).map fun (n, rest) => (byte.toNat - 128 + 128 * n, rest)

theorem readNat_writeNat (rest : List UInt8) :
    ∀ {fuel n : Nat}, n < 2 ^ fuel → readNat (writeNat (fuel + 1) n ++ rest) = some (n, rest)
  | fuel, n, h => by
    have hsmall : ∀ k, k < 256 → (UInt8.ofNat k).toNat = k := fun k hk => by
      rw [UInt8.toNat_ofNat']
      exact Nat.mod_eq_of_lt hk
    rw [writeNat]
    split
    · next hlt =>
      rw [List.singleton_append, readNat, hsmall n (by omega), if_pos hlt]
    · next hge =>
      obtain ⟨fuel, rfl⟩ : ∃ k, fuel = k + 1 := by
        cases fuel with
        | zero => simp at h; omega
        | succ k => exact ⟨k, rfl⟩
      have hdigit := hsmall (n % 128 + 128) (by omega)
      have hrest : n / 128 < 2 ^ fuel := by
        rw [Nat.pow_succ] at h
        omega
      rw [List.cons_append, readNat, hdigit, if_neg (by omega), readNat_writeNat rest hrest]
      simp only [Option.map_some, Option.some.injEq, Prod.mk.injEq, and_true]
      omega

theorem length_writeNat : ∀ (fuel n : Nat), (writeNat fuel n).length ≤ fuel
  | 0, _ => Nat.le_refl 0
  | fuel + 1, n => by
    rw [writeNat]
    split
    · simp
    · have := length_writeNat fuel (n / 128)
      rw [List.length_cons]
      omega

/-- Natural numbers. -/
def nat : Wire Nat where
  write n := writeNat (n.log2 + 2) n
  read := readNat
  read_write _ rest := readNat_writeNat rest Nat.lt_log2_self

theorem length_nat (n : Nat) : (nat.write n).length ≤ n.log2 + 2 := length_writeNat _ _

/-! ## Combinators -/

/-- The format of a type that is embedded in another. -/
def map (f : α → β) (g : β → α) (h : ∀ a, g (f a) = a) (w : Wire β) : Wire α where
  write a := w.write (f a)
  read bytes := (w.read bytes).map fun (b, rest) => (g b, rest)
  read_write a rest := by
    rw [w.read_write, Option.map_some]
    dsimp only
    rw [h]

/-- One value after the other. -/
def pair (v : Wire α) (w : Wire β) : Wire (α × β) where
  write x := v.write x.1 ++ w.write x.2
  read bytes := do
    let (a, bytes) ← v.read bytes
    let (b, bytes) ← w.read bytes
    some ((a, b), bytes)
  read_write x rest := by
    rw [List.append_assoc, v.read_write]
    show (do
      let (b, bytes) ← w.read (w.write x.2 ++ rest)
      some ((x.1, b), bytes)) = _
    rw [w.read_write]
    rfl

/-- The values of a list, one after the other. -/
def writeAll (w : Wire α) (l : List α) : List UInt8 := l.flatMap w.write

/-- Reads a given number of values. -/
def readAll (w : Wire α) : Nat → List UInt8 → Option (List α × List UInt8)
  | 0, bytes => some ([], bytes)
  | n + 1, bytes =>
    match w.read bytes with
    | none => none
    | some (a, bytes) => (readAll w n bytes).map fun (l, rest) => (a :: l, rest)

theorem readAll_writeAll (w : Wire α) (rest : List UInt8) (l : List α) :
    readAll w l.length (writeAll w l ++ rest) = some (l, rest) := by
  induction l with
  | nil => rfl
  | cons a l ih =>
    rw [writeAll, List.flatMap_cons, List.append_assoc, List.length_cons, readAll, w.read_write]
    simp only
    rw [← writeAll, ih]
    rfl

/-- Lists, with their length in front. -/
def list (w : Wire α) : Wire (List α) where
  write l := nat.write l.length ++ writeAll w l
  read bytes :=
    match nat.read bytes with
    | none => none
    | some (n, bytes) => readAll w n bytes
  read_write l rest := by
    rw [List.append_assoc, nat.read_write]
    exact readAll_writeAll w rest l

/-- Optional values, as lists of at most one. -/
def option (w : Wire α) : Wire (Option α) :=
  (list w).map Option.toList List.head? fun a => by cases a <;> rfl

/-- Integers, as a positive and a negative part. -/
def int : Wire Int :=
  (pair nat nat).map (fun i => (i.toNat, (-i).toNat)) (fun p => (p.1 : Int) - p.2) fun i => by
    show (i.toNat : Int) - (-i).toNat = i
    omega

/-- Characters, by code point. -/
def char : Wire Char := nat.map Char.toNat Char.ofNat Char.ofNat_toNat

/-- Bytes, as they are. -/
def byte : Wire UInt8 where
  write b := [b]
  read
    | [] => none
    | b :: rest => some (b, rest)
  read_write _ _ := rfl

/-- The text with these bytes as code points. -/
def ofAscii (bytes : List UInt8) : String := String.ofList (bytes.map fun b => Char.ofNat b.toNat)

/-- A text as its bytes, when it is the text with these as code points, and else as its characters. -/
def split (s : String) : List UInt8 × List Char :=
  if ofAscii s.toByteArray.data.toList = s then (s.toByteArray.data.toList, []) else ([], s.toList)

/-- The text with the given parts. -/
def join (parts : List UInt8 × List Char) : String :=
  if parts.2 = [] then ofAscii parts.1 else String.ofList parts.2

theorem join_split (s : String) : join (split s) = s := by
  unfold split
  split
  · next h => exact h
  · next h =>
    unfold join
    split
    · next hnil =>
      -- The only text without characters is empty, and it is its own bytes.
      have hnil : s.toList = [] := hnil
      have hempty : s = "" := by rw [← String.ofList_toList (s := s), hnil]
      subst hempty
      exact (h rfl).elim
    · exact String.ofList_toList

/-- Texts. -/
def text : Wire String := ((list byte).pair (list char)).map split join join_split

/-! ## Lengths -/

theorem log2_le {n k : Nat} (h : n < 2 ^ (k + 1)) : n.log2 ≤ k := by
  rcases Nat.eq_zero_or_pos n with rfl | hpos
  · simp
  · exact Nat.lt_succ_iff.1 ((Nat.log2_lt (by omega)).2 h)

theorem length_char (c : Char) : (char.write c).length ≤ 22 := by
  have hlt : c.toNat < 2 ^ 21 := by
    have hvalid := c.valid
    have hval : c.toNat < 0x110000 := by
      rcases hvalid with h | h
      · show c.val.toNat < _
        omega
      · exact h.2
    omega
  have := length_nat c.toNat
  have := log2_le hlt
  show (nat.write c.toNat).length ≤ 22
  omega

theorem length_writeAll {w : Wire α} {k : Nat} (h : ∀ a, (w.write a).length ≤ k) (l : List α) :
    (writeAll w l).length ≤ k * l.length := by
  induction l with
  | nil => simp [writeAll]
  | cons a l ih =>
    have := h a
    rw [writeAll, List.flatMap_cons, List.length_append, List.length_cons, ← writeAll]
    rw [Nat.mul_succ]
    omega

/-- The bytes of a text are those of its characters. -/
theorem utf8ByteSize_ofList (l : List Char) :
    (String.ofList l).utf8ByteSize = (l.map Char.utf8Size).sum := by
  rw [← String.size_toByteArray, String.toByteArray_ofList]
  induction l with
  | nil => rfl
  | cons c l ih =>
    rw [List.utf8Encode_cons, ByteArray.size_append, ih, List.utf8Encode_singleton]
    simp

theorem length_toList_le (s : String) : s.toList.length ≤ s.utf8ByteSize := by
  rw [← String.ofList_toList (s := s), utf8ByteSize_ofList, String.toList_ofList]
  induction s.toList with
  | nil => simp
  | cons c l ih =>
    have := Char.utf8Size_pos c
    rw [List.map_cons, List.sum_cons, List.length_cons]
    omega

theorem length_list {w : Wire α} {k : Nat} (h : ∀ a, (w.write a).length ≤ k) (l : List α) :
    ((list w).write l).length ≤ (k + 1) * l.length + 2 := by
  have h1 := length_nat l.length
  have h2 := length_writeAll h l
  have h3 : l.length.log2 ≤ l.length := by
    rcases Nat.eq_zero_or_pos l.length with h0 | hpos
    · rw [h0]; simp
    · exact Nat.log2_le_self _
  show (nat.write l.length ++ writeAll w l).length ≤ _
  rw [List.length_append, Nat.succ_mul]
  omega

/-- A text is not longer than a multiple of its size. -/
theorem length_text {s : String} {k : Nat} (h : s.utf8ByteSize ≤ k) :
    (text.write s).length ≤ 23 * k + 4 := by
  have hchars := length_toList_le s
  have hbytes : s.toByteArray.data.toList.length = s.utf8ByteSize := rfl
  have h1 := length_list (w := byte) (k := 1) (fun _ => Nat.le_refl 1) (split s).1
  have h2 := length_list length_char (split s).2
  have h3 : (split s).1.length ≤ k ∧ (split s).2.length = 0 ∨
      (split s).1.length = 0 ∧ (split s).2.length ≤ k := by
    unfold split
    split
    · exact .inl ⟨hbytes.trans_le h, rfl⟩
    · exact .inr ⟨rfl, hchars.trans h⟩
  show ((list byte).write (split s).1 ++ (list char).write (split s).2).length ≤ _
  rw [List.length_append]
  omega

theorem length_nat_le {n k : Nat} (h : n < 2 ^ (k + 1)) : (nat.write n).length ≤ k + 2 := by
  have := length_nat n
  have := log2_le h
  omega

theorem length_pair (v : Wire α) (w : Wire β) (x : α × β) :
    ((pair v w).write x).length = (v.write x.1).length + (w.write x.2).length :=
  List.length_append

/-- An optional value is not longer than a bound for the value and the two bytes of its count. -/
theorem length_option {w : Wire α} {o : Option α} {k : Nat}
    (h : ∀ a ∈ o, (w.write a).length ≤ k) : ((option w).write o).length ≤ k + 2 := by
  cases o with
  | none =>
    show (nat.write 0 ++ writeAll w []).length ≤ k + 2
    have := length_nat_le (n := 0) (k := 0) (by decide)
    simp only [writeAll, List.flatMap_nil, List.append_nil]
    omega
  | some a =>
    have ha := h a rfl
    have := length_nat_le (n := 1) (k := 0) (by decide)
    show (nat.write 1 ++ writeAll w [a]).length ≤ k + 2
    simp only [writeAll, List.flatMap_cons, List.flatMap_nil, List.append_nil, List.length_append]
    omega

end Wire

end Argos.Lib

import Argos.Lib.Trees
import Argos.Lib.Wire

/-!
# JSON values as bytes

`write` puts a tag in front of every value and of every further item of an array or object, so the
bytes of a value say where they end: two values with something behind them are told apart
(`write_append`).
-/

namespace Argos.Lib

theorem Wire.write_append {α : Type} (w : Wire α) {a b : α} {r s : List UInt8}
    (h : w.write a ++ r = w.write b ++ s) : a = b ∧ r = s := by
  have hread := w.read_write a r
  rw [h, w.read_write b s, Option.some.injEq, Prod.mk.injEq] at hread
  exact ⟨hread.1.symm, hread.2.symm⟩

namespace Tree

mutual

/-- The bytes of a value. -/
def write : Tree → List UInt8
  | null => [0]
  | bool b => [1, if b then 1 else 0]
  | int n => 2 :: Wire.int.write n
  | float q => 3 :: (Wire.int.write q.num ++ Wire.nat.write q.den)
  | text s => 4 :: Wire.text.write s
  | array items => 5 :: writeItems items
  | object fields => 6 :: writeFields fields

/-- The bytes of the items of an array. -/
def writeItems : List Tree → List UInt8
  | [] => [0]
  | v :: rest => 1 :: (write v ++ writeItems rest)

/-- The bytes of the fields of an object. -/
def writeFields : List (String × Tree) → List UInt8
  | [] => [0]
  | (k, v) :: rest => 1 :: (Wire.text.write k ++ (write v ++ writeFields rest))

end

/-- The tag of a value. -/
def tag : Tree → UInt8
  | null => 0
  | bool _ => 1
  | int _ => 2
  | float _ => 3
  | text _ => 4
  | array _ => 5
  | object _ => 6

theorem head?_write (v : Tree) : (write v).head? = some (tag v) := by
  cases v <;> rfl

/-- Two values with something behind them have the same tag. -/
theorem tag_eq {v w : Tree} {r s : List UInt8} (h : write v ++ r = write w ++ s) : tag v = tag w := by
  have hhead := congrArg List.head? h
  rw [List.head?_append, List.head?_append, head?_write, head?_write] at hhead
  exact Option.some.inj hhead

mutual

/-- The bytes of a value tell it and where they end. -/
theorem write_append {v w : Tree} {r s : List UInt8} (h : write v ++ r = write w ++ s) :
    v = w ∧ r = s := by
  have htag := tag_eq h
  cases v with
  | null =>
    cases w <;> try (simp [tag] at htag; done)
    exact ⟨rfl, (List.cons.inj h).2⟩
  | bool b =>
    cases w <;> try (simp [tag] at htag; done)
    next c =>
      obtain ⟨hbit, hrest⟩ := List.cons.inj (List.cons.inj h).2
      cases b <;> cases c <;> first | exact absurd hbit (by decide) | exact ⟨rfl, hrest⟩
  | int n =>
    cases w <;> try (simp [tag] at htag; done)
    obtain ⟨rfl, hrest⟩ := Wire.int.write_append (List.cons.inj h).2
    exact ⟨rfl, hrest⟩
  | float q =>
    cases w <;> try (simp [tag] at htag; done)
    have hbody := (List.cons.inj h).2
    rw [List.append_eq, List.append_eq, List.append_assoc, List.append_assoc] at hbody
    obtain ⟨hnum, hbody⟩ := Wire.int.write_append hbody
    obtain ⟨hden, hrest⟩ := Wire.nat.write_append hbody
    exact ⟨congrArg float (Rat.ext hnum hden), hrest⟩
  | text t =>
    cases w <;> try (simp [tag] at htag; done)
    obtain ⟨rfl, hrest⟩ := Wire.text.write_append (List.cons.inj h).2
    exact ⟨rfl, hrest⟩
  | array items =>
    cases w <;> try (simp [tag] at htag; done)
    obtain ⟨rfl, hrest⟩ := writeItems_append (List.cons.inj h).2
    exact ⟨rfl, hrest⟩
  | object fields =>
    cases w <;> try (simp [tag] at htag; done)
    obtain ⟨rfl, hrest⟩ := writeFields_append (List.cons.inj h).2
    exact ⟨rfl, hrest⟩

theorem writeItems_append {l m : List Tree} {r s : List UInt8}
    (h : writeItems l ++ r = writeItems m ++ s) : l = m ∧ r = s := by
  cases l with
  | nil =>
    cases m with
    | nil => exact ⟨rfl, (List.cons.inj h).2⟩
    | cons w m => exact absurd (List.cons.inj h).1 (by decide)
  | cons v l =>
    cases m with
    | nil => exact absurd (List.cons.inj h).1 (by decide)
    | cons w m =>
      have hbody := (List.cons.inj h).2
      rw [List.append_eq, List.append_eq, List.append_assoc, List.append_assoc] at hbody
      obtain ⟨rfl, hitems⟩ := write_append hbody
      obtain ⟨rfl, hrest⟩ := writeItems_append hitems
      exact ⟨rfl, hrest⟩

theorem writeFields_append {l m : List (String × Tree)} {r s : List UInt8}
    (h : writeFields l ++ r = writeFields m ++ s) : l = m ∧ r = s := by
  cases l with
  | nil =>
    cases m with
    | nil => exact ⟨rfl, (List.cons.inj h).2⟩
    | cons g m => exact absurd (List.cons.inj h).1 (by decide)
  | cons f l =>
    obtain ⟨k, v⟩ := f
    cases m with
    | nil => exact absurd (List.cons.inj h).1 (by decide)
    | cons g m =>
      obtain ⟨k', v'⟩ := g
      have hbody := (List.cons.inj h).2
      rw [List.append_eq, List.append_eq, List.append_assoc, List.append_assoc, List.append_assoc,
        List.append_assoc] at hbody
      obtain ⟨rfl, hvalue⟩ := Wire.text.write_append hbody
      obtain ⟨rfl, hfields⟩ := write_append hvalue
      obtain ⟨rfl, hrest⟩ := writeFields_append hfields
      exact ⟨rfl, hrest⟩

end

theorem write_injective : Function.Injective write := by
  intro v w h
  exact (write_append (congrArg (· ++ []) h)).1

end Tree

end Argos.Lib

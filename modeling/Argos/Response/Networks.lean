import Argos.Response.Address
import Mathlib.Data.List.TakeWhile

/-!
# What is printed of an address is read back

`parse_rule` prints the address that it has read, and `iptables` reads it again. A printed address
stands for the same address: a group of digits ends where the separator begins (`readNumber_toDigits`),
groups are taken until nothing or two colons follow (`readGroups_later`), and the two colons stand for
the longest run of zeros (`longestZeros_spec`).
-/

namespace Argos.Response

open Argos.Lib

namespace IpAddr

/-! ## Digits -/

section Digits

variable {b : Nat}

/-- A character is a digit. -/
def isDigit (radix : Nat) (c : Char) : Bool := (digit radix c).isSome

theorem digit_digitChar (hb : b = 10 ∨ b = 16) {d : Nat} (hd : d < b) : digit b d.digitChar = some d := by
  have hten : ∀ d < 10, digit 10 d.digitChar = some d := by decide
  have hsixteen : ∀ d < 16, digit 16 d.digitChar = some d := by decide
  rcases hb with rfl | rfl
  · exact hten d hd
  · exact hsixteen d hd

theorem toDigits_isDigit (hb : b = 10 ∨ b = 16) (n : Nat) : ∀ c ∈ Nat.toDigits b n, isDigit b c = true := by
  have hone : 1 < b := by omega
  induction n using Nat.strong_induction_on with
  | _ n ih =>
    intro c hc
    rw [Nat.toDigits_eq_if hone] at hc
    split at hc
    next hlt =>
      rw [List.mem_singleton.1 hc, isDigit, digit_digitChar hb hlt]
      rfl
    next hge =>
      rcases List.mem_append.1 hc with hc | hc
      · exact ih (n / b) (Nat.div_lt_self (by omega) hone) c hc
      · rw [List.mem_singleton.1 hc, isDigit, digit_digitChar hb (Nat.mod_lt _ (by omega))]
        rfl

theorem digits_toDigits (hb : b = 10 ∨ b = 16) (n : Nat) : digits b (Nat.toDigits b n) = n := by
  have hone : 1 < b := by omega
  induction n using Nat.strong_induction_on with
  | _ n ih =>
    rw [Nat.toDigits_eq_if hone]
    split
    next hlt =>
      show 0 * b + (digit b n.digitChar).getD 0 = n
      rw [digit_digitChar hb hlt, Option.getD_some]
      omega
    next hge =>
      have hrest := ih (n / b) (Nat.div_lt_self (by omega) hone)
      unfold digits at hrest ⊢
      rw [List.foldl_append, hrest]
      show n / b * b + (digit b (n % b).digitChar).getD 0 = n
      rw [digit_digitChar hb (Nat.mod_lt _ (by omega)), Option.getD_some]
      exact Nat.div_add_mod' n b

/-- A number that is printed begins with a zero only if it is zero. -/
theorem toDigits_head (hone : 1 < b) (hb : b ≤ 16) {n : Nat} (h : (Nat.toDigits b n).head? = some '0') :
    (Nat.toDigits b n).length = 1 := by
  have hzero : ∀ d < 16, d.digitChar = '0' → d = 0 := by decide
  induction n using Nat.strong_induction_on with
  | _ n ih =>
    rw [Nat.toDigits_eq_if hone] at h ⊢
    split
    next hlt => rfl
    next hge =>
      rw [if_neg hge, List.head?_append_of_ne_nil _ Nat.toDigits_ne_nil] at h
      have hshort := ih (n / b) (Nat.div_lt_self (by omega) hone) h
      -- The digits before the last one are those of a number that is not zero.
      have hsmall : n / b < b := by
        have hle := (Nat.length_toDigits_le_iff hone Nat.one_pos).1 hshort.le
        rwa [Nat.pow_one] at hle
      rw [Nat.toDigits_of_lt_base hsmall, List.head?_cons, Option.some.injEq] at h
      have hnone := hzero _ (hsmall.trans_le hb) h
      have hpos := Nat.div_pos (not_lt.1 hge) (by omega)
      omega

/-- The digits of a text that begins with a printed number. -/
theorem takeWhile_toDigits (hb : b = 10 ∨ b = 16) (n : Nat) {rest : Text}
    (hrest : ∀ c ∈ rest.head?, isDigit b c = false) :
    (Nat.toDigits b n ++ rest).takeWhile (isDigit b) = Nat.toDigits b n := by
  rw [List.takeWhile_append_of_pos (toDigits_isDigit hb n)]
  rcases rest with _ | ⟨c, rest⟩
  · rw [List.takeWhile_nil, List.append_nil]
  · rw [List.takeWhile_cons, hrest c rfl]
    exact List.append_nil _

/-- A printed number is read back, when no digit follows. -/
theorem readNumber_toDigits (hb : b = 10 ∨ b = 16) {n maxDigits bound : Nat} {zeroPrefix : Bool}
    {rest : Text} (hbound : n ≤ bound) (hdigits : n < b ^ maxDigits) (hmax : 0 < maxDigits)
    (hrest : ∀ c ∈ rest.head?, isDigit b c = false) :
    readNumber b maxDigits bound zeroPrefix (Nat.toDigits b n ++ rest) = some (n, rest) := by
  have hone : 1 < b := by omega
  have hlength := (Nat.length_toDigits_le_iff hone hmax).2 hdigits
  have htake : (Nat.toDigits b n ++ rest).takeWhile (fun c => (digit b c).isSome) = Nat.toDigits b n :=
    takeWhile_toDigits hb n hrest
  unfold readNumber
  dsimp only
  rw [htake, digits_toDigits hb n, List.drop_left, if_neg]
  rintro (hnil | hlong | hlarge | ⟨-, hzero, hlong⟩)
  · exact Nat.toDigits_ne_nil hnil
  · omega
  · omega
  · rw [toDigits_head hone (by omega) hzero] at hlong
    omega

end Digits

/-! ## IPv4 -/

/-- A text in which no digit stands at the front. -/
def NoDigit (radix : Nat) (t : Text) : Prop := ∀ c ∈ t.head?, isDigit radix c = false

theorem noDigit_nil (radix : Nat) : NoDigit radix [] := fun _ hc => nomatch hc

theorem noDigit_cons {radix : Nat} {c : Char} (h : isDigit radix c = false) (t : Text) :
    NoDigit radix (c :: t) := by
  rintro d ⟨⟩
  exact h

theorem readNumber_decimal {n : Nat} {rest : Text} (hn : n ≤ 255) (hrest : NoDigit 10 rest) :
    readNumber 10 3 255 false (decimal n ++ rest) = some (n, rest) :=
  readNumber_toDigits (.inl rfl) hn (by omega) (by decide) hrest

theorem readNumber_hexadecimal {n : Nat} {rest : Text} (hn : n ≤ 0xFFFF) (hrest : NoDigit 16 rest) :
    readNumber 16 4 0xFFFF true (hexadecimal n ++ rest) = some (n, rest) :=
  readNumber_toDigits (.inr rfl) hn (by omega) (by decide) hrest

theorem readChar_cons (c : Char) (t : Text) : readChar c (c :: t) = some t := if_pos rfl

/-- A printed IPv4 address is read back, when no digit follows. -/
theorem readIpv4_between {a b c d : Nat} {rest : Text} (ha : a ≤ 255) (hb : b ≤ 255) (hc : c ≤ 255)
    (hd : d ≤ 255) (hrest : NoDigit 10 rest) :
    readIpv4 (between '.' [decimal a, decimal b, decimal c, decimal d] ++ rest) =
      some ([a, b, c, d], rest) := by
  have htext : between '.' [decimal a, decimal b, decimal c, decimal d] ++ rest =
      decimal a ++ '.' :: (decimal b ++ '.' :: (decimal c ++ '.' :: (decimal d ++ rest))) := by
    simp [between]
  have hdot : ∀ t, NoDigit 10 ('.' :: t) := fun t => noDigit_cons (by decide) t
  have hlater : ∀ {i n : Nat} {t : Text}, i ≠ 0 → n ≤ 255 → NoDigit 10 t →
      readSeparator '.' i (readNumber 10 3 255 false) ('.' :: (decimal n ++ t)) = some (n, t) := by
    intro i n t hi hn ht
    unfold readSeparator
    rw [if_neg hi, readChar_cons, Option.bind_some, readNumber_decimal hn ht]
  rw [htext]
  unfold readIpv4
  have hfirst : readSeparator '.' 0 (readNumber 10 3 255 false)
      (decimal a ++ '.' :: (decimal b ++ '.' :: (decimal c ++ '.' :: (decimal d ++ rest)))) =
      some (a, '.' :: (decimal b ++ '.' :: (decimal c ++ '.' :: (decimal d ++ rest)))) :=
    readNumber_decimal ha (hdot _)
  simp only [hfirst, hlater (by decide : 1 ≠ 0) hb (hdot _), hlater (by decide : 2 ≠ 0) hc (hdot _),
    hlater (by decide : 3 ≠ 0) hd hrest, Option.bind_eq_bind, Option.bind_some]

/-! ## IPv6 -/

/-- A group of digits without a point after it is not an IPv4 address. -/
theorem readIpv4_none {t : Text} (h : (t.dropWhile (isDigit 10)).head? ≠ some '.') : readIpv4 t = none := by
  have hseparator : ∀ r, readNumber 10 3 255 false t = some r →
      readSeparator '.' 1 (readNumber 10 3 255 false) r.2 = none := by
    intro r hr
    have hrest : r.2 = t.dropWhile (isDigit 10) := by
      unfold readNumber at hr
      dsimp only at hr
      split at hr
      · cases hr
      · rw [← Option.some.inj hr]
        have hdrop := @List.drop_left _ (t.takeWhile (isDigit 10)) (t.dropWhile (isDigit 10))
        rwa [List.takeWhile_append_dropWhile] at hdrop
    unfold readSeparator
    rw [if_neg (by decide), hrest, readChar, if_neg h]
    rfl
  unfold readIpv4
  have hfirst : readSeparator '.' 0 (readNumber 10 3 255 false) t = readNumber 10 3 255 false t := rfl
  rcases hread : readNumber 10 3 255 false t with _ | r
  · simp only [hfirst, hread, Option.bind_eq_bind, Option.bind_none]
  · simp only [hfirst, hread, hseparator r hread, Option.bind_eq_bind, Option.bind_some, Option.bind_none]

/-- What may follow a group: nothing, or a colon. -/
def Ends (t : Text) : Prop := t = [] ∨ t.head? = some ':'

theorem Ends.noDigit {t : Text} (h : Ends t) (radix : Nat) : NoDigit radix t := by
  have hcolon : isDigit radix ':' = false := by
    unfold isDigit digit
    rfl
  intro c hc
  rcases h with rfl | hhead
  · cases hc
  · rw [hhead] at hc
    obtain rfl := Option.some.inj hc
    exact hcolon

theorem readIpv4_group {n : Nat} {rest : Text} (hrest : Ends rest) :
    readIpv4 (hexadecimal n ++ rest) = none := by
  refine readIpv4_none fun hhead => ?_
  -- What follows the digits is within the group, or it is what follows the group.
  rw [List.dropWhile_append] at hhead
  split at hhead
  next hempty =>
    rcases hrest with rfl | hcolon
    · cases hhead
    · obtain ⟨u, rfl⟩ : ∃ u, rest = ':' :: u := List.head?_eq_some_iff.1 hcolon
      rw [List.dropWhile_cons_of_neg (by decide)] at hhead
      cases hhead
  next hne =>
    rw [List.isEmpty_iff] at hne
    rw [List.head?_append_of_ne_nil _ hne] at hhead
    have hmem : '.' ∈ hexadecimal n :=
      (List.dropWhile_sublist _).subset (List.mem_of_mem_head? hhead)
    have hdigit := toDigits_isDigit (.inr rfl) n '.' hmem
    revert hdigit
    decide

/-- The groups after the first, with their separators. -/
def laterGroups (groups : List Nat) : Text := groups.flatMap fun g => ':' :: hexadecimal g

theorem between_groups (g : Nat) (groups : List Nat) :
    between ':' ((g :: groups).map hexadecimal) = hexadecimal g ++ laterGroups groups := by
  induction groups generalizing g with
  | nil => simp [between, laterGroups]
  | cons next rest ih =>
    rw [List.map_cons, between_cons, ih, if_neg (by simp)]
    rfl

theorem ends_laterGroups {groups : List Nat} {rest : Text} (hrest : Ends rest) :
    Ends (laterGroups groups ++ rest) := by
  rcases groups with _ | ⟨g, groups⟩
  · exact hrest
  · exact .inr rfl

/-- No further group can be read: nothing follows, or two colons do. -/
def Stops (t : Text) : Prop := t = [] ∨ ∃ u, t = ':' :: ':' :: u

theorem Stops.ends {t : Text} (h : Stops t) : Ends t := by
  rcases h with rfl | ⟨u, rfl⟩
  · exact .inl rfl
  · exact .inr rfl

theorem readNumber_none {radix maxDigits bound : Nat} {zeroPrefix : Bool} {t : Text} (h : NoDigit radix t) :
    readNumber radix maxDigits bound zeroPrefix t = none := by
  have htake : t.takeWhile (fun c => (digit radix c).isSome) = [] := by
    rcases t with _ | ⟨c, t⟩
    · rfl
    · have hc : (digit radix c).isSome = false := h c rfl
      rw [List.takeWhile_cons, hc]
      rfl
  unfold readNumber
  dsimp only
  rw [htake, if_pos (.inl rfl)]

/-- Where a group cannot begin, no address and no number can be read. -/
theorem ends_none {t : Text} (h : Ends t) :
    readIpv4 t = none ∧ readNumber 16 4 0xFFFF true t = none := by
  refine ⟨readIpv4_none fun hhead => ?_, readNumber_none (h.noDigit 16)⟩
  rcases h with rfl | hcolon
  · cases hhead
  · obtain ⟨u, rfl⟩ : ∃ u, t = ':' :: u := List.head?_eq_some_iff.1 hcolon
    rw [List.dropWhile_cons_of_neg (by decide)] at hhead
    cases hhead

theorem readGroups_stop {limit left i : Nat} {t : Text} (h : if i = 0 then Ends t else Stops t) :
    readGroups limit left i t = ([], false, t) := by
  have hnone : readSeparator ':' i readIpv4 t = none ∧
      readSeparator ':' i (readNumber 16 4 0xFFFF true) t = none := by
    unfold readSeparator
    by_cases hi : i = 0
    · rw [if_pos hi] at h
      rw [if_pos hi, if_pos hi]
      exact ends_none h
    · rw [if_neg hi] at h
      rw [if_neg hi, if_neg hi]
      rcases h with rfl | ⟨u, rfl⟩
      · exact ⟨rfl, rfl⟩
      · rw [readChar_cons, Option.bind_some, Option.bind_some]
        exact ends_none (.inr rfl)
  rcases left with _ | left
  · rfl
  · rw [readGroups, hnone.1, hnone.2, ite_self]

/-- One group is read. -/
theorem readGroups_cons {limit left i g : Nat} {t rest : Text} (hg : g ≤ 0xFFFF) (hrest : Ends rest)
    (ht : t = if i = 0 then hexadecimal g ++ rest else ':' :: (hexadecimal g ++ rest)) :
    readGroups limit (left + 1) i t =
      (g :: (readGroups limit left (i + 1) rest).1, (readGroups limit left (i + 1) rest).2) := by
  have hread : readSeparator ':' i readIpv4 t = none ∧
      readSeparator ':' i (readNumber 16 4 0xFFFF true) t = some (g, rest) := by
    unfold readSeparator
    by_cases hi : i = 0
    · rw [if_pos hi] at ht
      rw [if_pos hi, if_pos hi, ht]
      exact ⟨readIpv4_group hrest, readNumber_hexadecimal hg (hrest.noDigit 16)⟩
    · rw [if_neg hi] at ht
      rw [if_neg hi, if_neg hi, ht, readChar_cons, Option.bind_some, Option.bind_some]
      exact ⟨readIpv4_group hrest, readNumber_hexadecimal hg (hrest.noDigit 16)⟩
  rw [readGroups, hread.1, hread.2, ite_self]

/-- The groups after the first are read back. -/
theorem readGroups_later {limit left i : Nat} {groups : List Nat} {rest : Text} (hi : i ≠ 0)
    (hgroups : ∀ g ∈ groups, g ≤ 0xFFFF) (hleft : groups.length ≤ left)
    (hrest : Ends rest) (hstop : groups.length = left ∨ Stops rest) :
    readGroups limit left i (laterGroups groups ++ rest) = (groups, false, rest) := by
  induction groups generalizing left i with
  | nil =>
    rcases hstop with hzero | hstop
    · obtain rfl : left = 0 := hzero.symm
      rfl
    · refine readGroups_stop ?_
      rw [if_neg hi]
      exact hstop
  | cons g groups ih =>
    obtain ⟨left, rfl⟩ : ∃ k, left = k + 1 := ⟨left - 1, by rw [List.length_cons] at hleft; omega⟩
    rw [List.length_cons] at hleft hstop
    have hrest' := @ih left (i + 1) (Nat.succ_ne_zero i) (fun h hh => hgroups h (List.mem_cons_of_mem _ hh))
      (by omega) (hstop.imp_left fun hle => by omega)
    rw [readGroups_cons (hgroups g List.mem_cons_self) (ends_laterGroups hrest), hrest']
    rw [if_neg hi]
    show ':' :: (hexadecimal g ++ laterGroups groups) ++ rest = _
    rw [List.cons_append, List.append_assoc]

/-- Groups are read back. -/
theorem readGroups_between {limit left : Nat} {groups : List Nat} {rest : Text}
    (hgroups : ∀ g ∈ groups, g ≤ 0xFFFF) (hleft : groups.length ≤ left)
    (hrest : Ends rest) (hstop : groups.length = left ∨ Stops rest) :
    readGroups limit left 0 (between ':' (groups.map hexadecimal) ++ rest) = (groups, false, rest) := by
  rcases groups with _ | ⟨g, groups⟩
  · exact readGroups_stop hrest
  · obtain ⟨left, rfl⟩ : ∃ k, left = k + 1 := ⟨left - 1, by rw [List.length_cons] at hleft; omega⟩
    rw [List.length_cons] at hleft hstop
    have hlater := @readGroups_later limit left (0 + 1) groups rest (by decide)
      (fun h hh => hgroups h (List.mem_cons_of_mem _ hh)) (by omega) hrest
      (hstop.imp_left fun hle => by omega)
    rw [readGroups_cons (hgroups g List.mem_cons_self) (ends_laterGroups hrest), hlater]
    rw [if_pos rfl, between_groups, List.append_assoc]

/-- The longest run of zeros, from an index on. -/
theorem longestZeros_spec (i : Nat) (segments : List Nat) (h : 0 < (longestZeros i segments).2) :
    i ≤ (longestZeros i segments).1 ∧
    segments = segments.take ((longestZeros i segments).1 - i) ++
      List.replicate (longestZeros i segments).2 0 ++
      segments.drop ((longestZeros i segments).1 - i + (longestZeros i segments).2) := by
  induction segments generalizing i with
  | nil => cases h
  | cons n rest ih =>
    rw [longestZeros] at h ⊢
    by_cases hrun : ((n :: rest).takeWhile (· = 0)).length > 0 ∧
        (longestZeros (i + 1) rest).2 ≤ ((n :: rest).takeWhile (· = 0)).length
    · rw [if_pos hrun]
      refine ⟨le_rfl, ?_⟩
      have hzeros : (n :: rest).takeWhile (· = 0) =
          List.replicate ((n :: rest).takeWhile (· = 0)).length 0 :=
        List.eq_replicate_iff.2 ⟨rfl, fun m hm => by simpa using List.mem_takeWhile_imp hm⟩
      dsimp only
      rw [Nat.sub_self, List.take_zero, List.nil_append, Nat.zero_add, ← hzeros]
      have hdrop := @List.drop_left _ ((n :: rest).takeWhile (· = 0)) ((n :: rest).dropWhile (· = 0))
      rw [List.takeWhile_append_dropWhile] at hdrop
      rw [hdrop, List.takeWhile_append_dropWhile]
    · rw [if_neg hrun] at h ⊢
      obtain ⟨hle, hrest⟩ := ih (i + 1) h
      refine ⟨by omega, ?_⟩
      generalize hresult : longestZeros (i + 1) rest = result at *
      rw [show result.1 - i = (result.1 - (i + 1)) + 1 by omega, List.take_succ_cons,
        Nat.add_right_comm, List.drop_succ_cons, List.cons_append, List.cons_append, ← hrest]

/-- An address with parts in their bounds. -/
def Valid : IpAddr → Prop
  | .v4 octets _ => ∀ n ∈ octets, n ≤ 255
  | .v6 segments _ => ∀ n ∈ segments, n ≤ 0xFFFF

theorem readIpv6_full {segments : List Nat} (height : segments.length = 8)
    (hvalid : ∀ n ∈ segments, n ≤ 0xFFFF) :
    readIpv6 (between ':' (segments.map hexadecimal)) = some (segments, []) := by
  have hgroups := @readGroups_between 8 8 segments [] hvalid height.le (.inl rfl) (.inl height)
  rw [List.append_nil] at hgroups
  unfold readIpv6
  rw [hgroups]
  exact if_pos height

theorem readIpv6_short {head tail : List Nat} (hhead : ∀ n ∈ head, n ≤ 0xFFFF)
    (htail : ∀ n ∈ tail, n ≤ 0xFFFF) (hlength : head.length + tail.length + 1 < 8) :
    readIpv6 (between ':' (head.map hexadecimal) ++ "::".toList ++ between ':' (tail.map hexadecimal)) =
      some (head ++ List.replicate (8 - head.length - tail.length) 0 ++ tail, []) := by
  have hfirst := @readGroups_between 8 8 head (':' :: ':' :: between ':' (tail.map hexadecimal)) hhead
    (by omega) (.inr rfl) (.inr (.inr ⟨_, rfl⟩))
  have hsecond := @readGroups_between (8 - (head.length + 1)) (8 - (head.length + 1)) tail [] htail
    (by omega) (.inl rfl) (.inr (.inl rfl))
  rw [List.append_nil] at hsecond
  have htext : between ':' (head.map hexadecimal) ++ "::".toList ++ between ':' (tail.map hexadecimal) =
      between ':' (head.map hexadecimal) ++ ':' :: ':' :: between ':' (tail.map hexadecimal) := by
    rw [List.append_assoc]
    rfl
  unfold readIpv6
  rw [htext, hfirst]
  dsimp only
  rw [if_neg (by omega), if_neg Bool.false_ne_true]
  simp only [readChar_cons, hsecond, Option.bind_eq_bind, Option.bind_some]

/-- An IPv4 address within an IPv6 address. -/
theorem readIpv6_mapped {g h : Nat} (hg : g ≤ 0xFFFF) (hh : h ≤ 0xFFFF) :
    readIpv6 ("::ffff:".toList ++ between '.' [decimal (g / 256), decimal (g % 256), decimal (h / 256),
      decimal (h % 256)]) = some ([0, 0, 0, 0, 0, 0xFFFF, g, h], []) := by
  generalize hv4 : between '.' [decimal (g / 256), decimal (g % 256), decimal (h / 256),
    decimal (h % 256)] = v4
  have hread : readIpv4 v4 = some ([g / 256, g % 256, h / 256, h % 256], []) := by
    have hall := @readIpv4_between (g / 256) (g % 256) (h / 256) (h % 256) [] (by omega) (by omega)
      (by omega) (by omega) (noDigit_nil 10)
    rwa [List.append_nil, hv4] at hall
  have hstart : readGroups 8 8 0 (':' :: ':' :: ("ffff:".toList ++ v4)) =
      ([], false, ':' :: ':' :: ("ffff:".toList ++ v4)) := readGroups_stop (.inr rfl)
  have hgroup : readGroups (8 - (([] : List Nat).length + 1)) (8 - (([] : List Nat).length + 1)) 0
      ("ffff:".toList ++ v4) = ([0xFFFF, g, h], true, []) := by
    show readGroups 7 7 0 ("ffff:".toList ++ v4) = _
    have hcons := @readGroups_cons 7 6 0 0xFFFF ("ffff:".toList ++ v4) (':' :: v4) (by decide) (.inr rfl)
      (by rfl)
    have hlast : readGroups 7 6 (0 + 1) (':' :: v4) = ([g, h], true, []) := by
      rw [readGroups]
      have hsep : readSeparator ':' (0 + 1) readIpv4 (':' :: v4) =
          some ([g / 256, g % 256, h / 256, h % 256], []) := by
        unfold readSeparator
        rw [if_neg (by decide), readChar_cons, Option.bind_some, hread]
      rw [if_pos (by decide), hsep]
      have hembedded : embedded [g / 256, g % 256, h / 256, h % 256] = [g, h] := by
        show [g / 256 * 256 + g % 256, h / 256 * 256 + h % 256] = [g, h]
        rw [Nat.div_add_mod', Nat.div_add_mod']
      dsimp only
      rw [hembedded]
    rw [hcons, hlast]
  show readIpv6 (':' :: ':' :: ("ffff:".toList ++ v4)) = _
  unfold readIpv6
  rw [hstart]
  dsimp only
  rw [if_neg (by decide), if_neg Bool.false_ne_true]
  simp only [readChar_cons, hgroup, Option.bind_eq_bind, Option.bind_some]
  rfl

/-- A printed address is read back. -/
theorem parse_display {ip : IpAddr} (hvalid : ip.Valid) : parse ip.display = some ip := by
  cases ip with
  | v4 octets four =>
    obtain ⟨a, b, c, d, rfl⟩ := List.length_eq_four.1 four
    have hread := @readIpv4_between a b c d [] (hvalid a (by simp)) (hvalid b (by simp))
      (hvalid c (by simp)) (hvalid d (by simp)) (noDigit_nil 10)
    rw [List.append_nil] at hread
    show parse (between '.' [decimal a, decimal b, decimal c, decimal d]) = _
    unfold parse
    rw [hread]
    exact dif_pos four
  | v6 segments eight =>
    have hparse : ∀ t, readIpv4 t = none → readIpv6 t = some (segments, []) →
        parse t = some (.v6 segments eight) := by
      intro t hv4 hv6
      unfold parse
      rw [hv4, hv6]
      exact dif_pos eight
    -- No IPv4 address can be read where a group ends with a colon.
    have hgroups : ∀ groups rest, Ends rest →
        readIpv4 (between ':' (List.map hexadecimal groups) ++ rest) = none := by
      intro groups rest hrest
      rcases groups with _ | ⟨g, groups⟩
      · exact (ends_none hrest).1
      · rw [between_groups, List.append_assoc]
        exact readIpv4_group (ends_laterGroups hrest)
    unfold display
    dsimp only
    split
    next hmapped =>
      have hsplit : segments = [0, 0, 0, 0, 0, 0xFFFF] ++ segments.drop 6 := by
        rw [← hmapped, List.take_append_drop]
      obtain ⟨g, h, hlast⟩ := List.length_eq_two.1 (show (segments.drop 6).length = 2 by simp [eight])
      rw [hlast] at hsplit ⊢
      subst hsplit
      exact hparse _ (ends_none (.inr rfl)).1
        (readIpv6_mapped (hvalid g (by simp)) (hvalid h (by simp)))
    next hnot =>
      split
      next hzeros =>
        obtain ⟨-, hsplit⟩ := longestZeros_spec 0 segments (by omega)
        rw [Nat.sub_zero] at hsplit
        generalize longestZeros 0 segments = zeros at *
        have hlength := congrArg List.length hsplit
        simp only [List.length_append, List.length_replicate, eight] at hlength
        have hread := @readIpv6_short (segments.take zeros.1) (segments.drop (zeros.1 + zeros.2))
          (fun n hn => hvalid n (List.mem_of_mem_take hn)) (fun n hn => hvalid n (List.mem_of_mem_drop hn))
          (by omega)
        rw [show 8 - (segments.take zeros.1).length - (segments.drop (zeros.1 + zeros.2)).length =
          zeros.2 by omega, ← hsplit] at hread
        refine hparse _ ?_ hread
        rw [List.append_assoc]
        exact hgroups _ _ (.inr rfl)
      next hfew =>
        refine hparse _ ?_ (readIpv6_full eight hvalid)
        have hnone := hgroups segments [] (.inl rfl)
        rwa [List.append_nil] at hnone

/-! ## What is read is within its bounds -/

theorem readNumber_le {radix maxDigits bound : Nat} {zeroPrefix : Bool} {t : Text} {r : Nat × Text}
    (h : readNumber radix maxDigits bound zeroPrefix t = some r) : r.1 ≤ bound := by
  unfold readNumber at h
  dsimp only at h
  split at h
  · cases h
  next hok =>
    rw [← Option.some.inj h]
    push Not at hok
    exact hok.2.2.1

theorem readSeparator_some {α : Type} {c : Char} {i : Nat} {inner : Text → Option (α × Text)} {t : Text}
    {r : α × Text} (h : readSeparator c i inner t = some r) : ∃ u, inner u = some r := by
  unfold readSeparator at h
  split at h
  · exact ⟨t, h⟩
  · obtain ⟨u, -, hu⟩ := Option.bind_eq_some_iff.1 h
    exact ⟨u, hu⟩

theorem readIpv4_some {t : Text} {r : List Nat × Text} (h : readIpv4 t = some r) :
    ∃ a b c d, r.1 = [a, b, c, d] ∧ a ≤ 255 ∧ b ≤ 255 ∧ c ≤ 255 ∧ d ≤ 255 := by
  unfold readIpv4 at h
  simp only [Option.bind_eq_bind, Option.bind_eq_some_iff] at h
  obtain ⟨a, ha, b, hb, c, hc, d, hd, hr⟩ := h
  obtain ⟨_, ha⟩ := readSeparator_some ha
  obtain ⟨_, hb⟩ := readSeparator_some hb
  obtain ⟨_, hc⟩ := readSeparator_some hc
  obtain ⟨_, hd⟩ := readSeparator_some hd
  refine ⟨a.1, b.1, c.1, d.1, ?_, readNumber_le ha, readNumber_le hb, readNumber_le hc, readNumber_le hd⟩
  rw [← Option.some.inj hr]

theorem readGroups_le (limit left i : Nat) (t : Text) : ∀ g ∈ (readGroups limit left i t).1, g ≤ 0xFFFF := by
  induction left generalizing i t with
  | zero => exact fun g hg => nomatch hg
  | succ left ih =>
    rw [readGroups]
    split
    next octets rest hv4 =>
      split at hv4
      · obtain ⟨u, hu⟩ := readSeparator_some hv4
        obtain ⟨a, b, c, d, rfl, ha, hb, hc, hd⟩ := readIpv4_some hu
        intro g hg
        have hpair : g = a * 256 + b ∨ g = c * 256 + d := List.mem_pair.1 hg
        omega
      · cases hv4
    next =>
      split
      next group rest hread =>
        intro g hg
        rcases List.mem_cons.1 hg with rfl | hg
        · obtain ⟨u, hu⟩ := readSeparator_some hread
          exact readNumber_le hu
        · exact ih _ _ g hg
      · exact fun g hg => nomatch hg

theorem readIpv6_le {t : Text} {r : List Nat × Text} (h : readIpv6 t = some r) : ∀ g ∈ r.1, g ≤ 0xFFFF := by
  unfold readIpv6 at h
  have hhead := readGroups_le 8 8 0 t
  generalize readGroups 8 8 0 t = first at h hhead
  dsimp only at h
  split at h
  · rw [← Option.some.inj h]
    exact hhead
  · split at h
    · cases h
    · simp only [Option.bind_eq_bind, Option.bind_eq_some_iff] at h
      obtain ⟨u, -, v, -, hr⟩ := h
      rw [← Option.some.inj hr]
      intro g hg
      rcases List.mem_append.1 hg with hg | hg
      · rcases List.mem_append.1 hg with hg | hg
        · exact hhead g hg
        · rw [List.eq_of_mem_replicate hg]
          exact Nat.zero_le _
      · exact readGroups_le _ _ _ _ g hg

/-- An address that was read is within its bounds. -/
theorem valid_of_parse {t : Text} {ip : IpAddr} (h : parse t = some ip) : ip.Valid := by
  unfold parse at h
  split at h
  next octets hv4 =>
    split at h
    next four =>
      obtain rfl := Option.some.inj h
      obtain ⟨a, b, c, d, hr, ha, hb, hc, hd⟩ := readIpv4_some hv4
      obtain rfl : octets = [a, b, c, d] := hr
      intro n hn
      simp only [List.mem_cons, List.not_mem_nil, or_false] at hn
      omega
    · cases h
  · cases h
  next hv4 =>
    split at h
    next segments hv6 =>
      split at h
      next eight =>
        obtain rfl := Option.some.inj h
        exact readIpv6_le hv6
      · cases h
    · cases h

end IpAddr

/-! ## Networks and ports -/

/-- The number of bits of an address. -/
def IpAddr.width : IpAddr → Nat
  | .v4 _ _ => 32
  | .v6 _ _ => 128

/-- An address with a prefix, as `iptables` reads it. -/
def readNetwork (t : Text) : Option (IpAddr × Nat) :=
  match splitNetwork t with
  | (ip, none) => (IpAddr.parse ip).map fun ip => (ip, ip.width)
  | (ip, some bits) => (IpAddr.parse ip).bind fun ip => (parseUnsigned ip.width bits).map fun bits => (ip, bits)

/-- The length of the prefix of a rule. -/
def ManagementRule.bits (rule : ManagementRule) : Nat := rule.prefixLength.getD rule.ip.width

theorem parseUnsigned_decimal {n bound : Nat} (h : n ≤ bound) :
    parseUnsigned bound (IpAddr.decimal n) = some n := by
  have hdigits := IpAddr.toDigits_isDigit (.inl rfl) n
  have hplus : (IpAddr.decimal n).head? ≠ some '+' := by
    intro hhead
    have hplus := hdigits '+' (List.mem_of_mem_head? hhead)
    revert hplus
    decide
  unfold parseUnsigned
  dsimp only
  rw [if_neg hplus, if_pos]
  · exact congrArg some (IpAddr.digits_toDigits (.inl rfl) n)
  · refine ⟨Nat.toDigits_ne_nil, List.all_eq_true.2 hdigits, ?_⟩
    rw [IpAddr.decimal, IpAddr.digits_toDigits (.inl rfl) n]
    exact h

theorem parseUnsigned_le {n bound : Nat} {t : Text} (h : parseUnsigned bound t = some n) : n ≤ bound := by
  unfold parseUnsigned at h
  dsimp only at h
  generalize (if t.head? = some '+' then t.tail else t) = found at h
  split at h
  next hok =>
    rw [← Option.some.inj h]
    exact hok.2.2
  · cases h

theorem parsePrefix_some {ip : IpAddr} {t : Option Text} {n : Nat} (h : parsePrefix ip t = some (some n)) :
    0 < n ∧ n ≤ ip.width := by
  have hwidth : (if ip.isIpv6 then 128 else 32) = ip.width := by cases ip <;> rfl
  unfold parsePrefix at h
  split at h
  · cases h
  · split at h
    · rw [hwidth] at h
      split at h
      · cases h
      next hok =>
        obtain rfl := Option.some.inj (Option.some.inj h)
        omega
    · cases h

/-- What `parse_rule` accepts. -/
theorem parseRule_some {text : Text} {rule : ManagementRule} (h : parseRule text = some rule) :
    rule.ip.Valid ∧ 0 < rule.port ∧ rule.port ≤ 65535 ∧
    ∀ bits, rule.prefixLength = some bits → 0 < bits ∧ bits ≤ rule.ip.width := by
  unfold parseRule at h
  simp only [Option.bind_eq_bind, Option.bind_eq_some_iff] at h
  obtain ⟨parts, -, inbound, -, endpoint, -, port, hport, h⟩ := h
  by_cases hzero : port = 0
  · rw [if_pos hzero] at h
    cases h
  · rw [if_neg hzero] at h
    simp only [Option.bind_eq_some_iff] at h
    obtain ⟨ip, hip, bits, hbits, h⟩ := h
    split at h
    · cases h
    · obtain rfl := Option.some.inj h
      exact ⟨IpAddr.valid_of_parse hip, Nat.pos_of_ne_zero hzero, parseUnsigned_le hport,
        fun n hn => parsePrefix_some (hbits.trans (congrArg some hn))⟩

/-- The network of a rule is read back. -/
theorem readNetwork_network {rule : ManagementRule} (hvalid : rule.ip.Valid)
    (hbits : ∀ bits, rule.prefixLength = some bits → 0 < bits ∧ bits ≤ rule.ip.width) :
    readNetwork rule.network = some (rule.ip, rule.bits) := by
  have hslash : '/' ∉ rule.ip.display := fun hmem =>
    @IpAddr.display_all (fun c => c ≠ '/') (by decide) (by decide) (by decide) rule.ip '/' hmem rfl
  have hbefore : ∀ c ∈ rule.ip.display, decide (c ≠ '/') = true := by
    intro c hc
    rw [decide_eq_true_eq]
    rintro rfl
    exact hslash hc
  have hparse := IpAddr.parse_display hvalid
  unfold readNetwork splitNetwork ManagementRule.network ManagementRule.bits splitOnce
  rcases hprefix : rule.prefixLength with _ | bits
  · dsimp only
    rw [if_neg hslash]
    dsimp only
    rw [hparse]
    rfl
  · have htake : (rule.ip.display ++ '/' :: IpAddr.decimal bits).takeWhile (fun c => c ≠ '/') =
        rule.ip.display := by
      rw [List.takeWhile_append_of_pos hbefore]
      simp
    have hdrop : (rule.ip.display ++ '/' :: IpAddr.decimal bits).dropWhile (fun c => c ≠ '/') =
        '/' :: IpAddr.decimal bits := by
      rw [List.dropWhile_append_of_pos hbefore]
      simp
    dsimp only
    rw [if_pos (by simp), htake, hdrop]
    dsimp only
    rw [hparse, Option.bind_some, List.tail_cons, parseUnsigned_decimal (hbits bits hprefix).2]
    rfl

end Argos.Response

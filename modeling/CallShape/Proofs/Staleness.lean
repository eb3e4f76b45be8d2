import CallShape.Proofs.History

set_option autoImplicit false

namespace CallShape

/-- The supplied slot that an argument comes from. -/
def Source.slot : Source → Nat
  | .direct index => index
  | .spread group _ => group

namespace Spread

/-- The sources that one group stands for. -/
def ownSources (start : Nat) : Option Signature → List Source
  | none => [.direct start]
  | some expansion => (List.range expansion.arity).map (.spread start ·)

theorem sourcesFrom_cons (start : Nat) (group : Option Signature)
    (groups : List (Option Signature)) :
    sourcesFrom start (group :: groups) =
      ownSources start group ++ sourcesFrom (start + 1) groups := by
  cases group with
  | none => rfl
  | some expansion => rfl

theorem slot_of_mem_ownSources {start : Nat} {group : Option Signature} {source : Source}
    (member : source ∈ ownSources start group) : source.slot = start := by
  cases group with
  | none => rw [List.mem_singleton.mp member, Source.slot]
  | some expansion =>
      obtain ⟨index, -, rfl⟩ := List.mem_map.mp member
      rfl

theorem le_slot_of_mem_sourcesFrom {start : Nat} {groups : List (Option Signature)}
    {source : Source} (member : source ∈ sourcesFrom start groups) : start ≤ source.slot := by
  induction groups generalizing start with
  | nil => cases member
  | cons group groups ih =>
      rw [sourcesFrom_cons] at member
      rcases List.mem_append.mp member with own | later
      · exact Nat.le_of_eq (slot_of_mem_ownSources own).symm
      · exact Nat.le_of_succ_le (ih later)

/-- What comes from the first slot can be told from what comes from the others. -/
theorem filter_sourcesFrom (start : Nat) (group : Option Signature)
    (groups : List (Option Signature)) :
    (sourcesFrom start (group :: groups)).filter (fun source => source.slot == start) =
      ownSources start group := by
  have own : (ownSources start group).filter (fun source => source.slot == start) =
      ownSources start group := by
    rw [List.filter_eq_self]
    intro source member
    exact beq_iff_eq.mpr (slot_of_mem_ownSources member)
  have later :
      (sourcesFrom (start + 1) groups).filter (fun source => source.slot == start) = [] := by
    rw [List.filter_eq_nil_iff]
    intro source member
    have bound := le_slot_of_mem_sourcesFrom member
    rw [beq_iff_eq]
    omega
  rw [sourcesFrom_cons, List.filter_append, own, later, List.append_nil]

/-- Equal sources split into equal sources at the first group and equal sources behind it. -/
theorem sourcesFrom_cons_inj {start : Nat} {group other : Option Signature}
    {groups others : List (Option Signature)}
    (same : sourcesFrom start (group :: groups) = sourcesFrom start (other :: others)) :
    ownSources start group = ownSources start other ∧
      sourcesFrom (start + 1) groups = sourcesFrom (start + 1) others := by
  have own : ownSources start group = ownSources start other := by
    rw [← filter_sourcesFrom start group groups, same, filter_sourcesFrom]
  refine ⟨own, ?_⟩
  rw [sourcesFrom_cons, sourcesFrom_cons, own] at same
  exact List.append_cancel_left same

theorem arity_eq_of_ownSources {start : Nat} {expansion other : Signature}
    (same : ownSources start (some expansion) = ownSources start (some other)) :
    expansion.arity = other.arity := by
  have lengths := congrArg List.length same
  simpa only [ownSources, List.length_map, List.length_range] using lengths

/-- An ordinary slot is told from an expansion, also from an empty one. -/
theorem ownSources_none_ne_some (start : Nat) (expansion : Signature) :
    ownSources start none ≠ ownSources start (some expansion) := by
  intro same
  have member : Source.direct start ∈ ownSources start (some expansion) := by
    rw [← same]
    exact List.mem_singleton_self _
  obtain ⟨index, -, impossible⟩ := List.mem_map.mp member
  cases impossible

/-- The groups are determined by the sources and the slots of the flattened call, wherever the
slots of an expansion determine the expansion. -/
theorem groups_eq_of_flattened {first second : List (Option Signature)} {slots : List Slot}
    {start : Nat}
    (sized : ∀ expansion, some expansion ∈ first ∨ some expansion ∈ second →
      expansion.arity = expansion.slots.length)
    (determined : ∀ expansion other, some expansion ∈ first → some other ∈ second →
      expansion.slots = other.slots → expansion = other)
    (length : first.length = second.length) (covered : first.length = slots.length)
    (sources : sourcesFrom start first = sourcesFrom start second)
    (flattened : flattenWith Signature.slots slots first =
      flattenWith Signature.slots slots second) : first = second := by
  induction first generalizing second slots start with
  | nil => exact (List.length_eq_zero_iff.mp length.symm).symm
  | cons group groups ih =>
      obtain ⟨slot, rest, rfl⟩ := List.exists_cons_of_length_eq_add_one covered.symm
      obtain ⟨other, others, rfl⟩ := List.exists_cons_of_length_eq_add_one length.symm
      obtain ⟨own, later⟩ := sourcesFrom_cons_inj sources
      have tails : flattenWith Signature.slots rest groups =
          flattenWith Signature.slots rest others → groups = others := by
        intro same
        apply ih _ _ (Nat.succ.inj length) (Nat.succ.inj covered) later same
        · intro expansion member
          exact sized expansion (member.imp (List.mem_cons_of_mem _) (List.mem_cons_of_mem _))
        · intro expansion otherExpansion member otherMember
          exact determined expansion otherExpansion (List.mem_cons_of_mem _ member)
            (List.mem_cons_of_mem _ otherMember)
      cases group with
      | none =>
          cases other with
          | none => rw [tails (List.cons.inj flattened).2]
          | some expansion => exact absurd own (ownSources_none_ne_some start expansion)
      | some expansion =>
          cases other with
          | none => exact absurd own.symm (ownSources_none_ne_some start expansion)
          | some otherExpansion =>
              have member : some expansion ∈ some expansion :: groups := List.mem_cons_self
              have otherMember : some otherExpansion ∈ some otherExpansion :: others :=
                List.mem_cons_self
              have lengths : expansion.slots.length = otherExpansion.slots.length := by
                rw [← sized expansion (Or.inl member), ← sized otherExpansion (Or.inr otherMember),
                  arity_eq_of_ownSources own]
              obtain ⟨parts, rests⟩ := List.append_inj flattened lengths
              rw [determined expansion otherExpansion member otherMember parts, tails rests]

/-- Comparing the groups as instances is comparing them, as long as serials determine them. -/
theorem groups_beq_iff {first second : List (Option Signature)}
    (determined : ∀ expansion other, some expansion ∈ first → some other ∈ second →
      ((expansion == other) = true ↔ expansion = other)) :
    (first == second) = true ↔ first = second := by
  induction first generalizing second with
  | nil => cases second <;> simp
  | cons group groups ih =>
      cases second with
      | nil => simp
      | cons other others =>
          have later := ih fun expansion otherExpansion member otherMember =>
            determined expansion otherExpansion (List.mem_cons_of_mem _ member)
              (List.mem_cons_of_mem _ otherMember)
          rw [List.cons_beq_cons, Bool.and_eq_true, later, List.cons.injEq]
          cases group with
          | none => cases other <;> simp
          | some expansion =>
              cases other with
              | none => simp
              | some otherExpansion =>
                  rw [Option.some_beq_some, Option.some.injEq,
                    determined expansion otherExpansion List.mem_cons_self List.mem_cons_self]

end Spread

namespace Process

variable {process : Process} {owner : TableId} {first second : Spread}

/-- With the expansions of both spreads in one table, they differ exactly when their groups do. -/
theorem Sound.differsFrom_eq_false_iff (sound : process.Sound)
    (owned : ∀ expansion, some expansion ∈ first.groups ∨ some expansion ∈ second.groups →
      process.HeldBy owner expansion) :
    first.differsFrom second = false ↔ first.groups = second.groups := by
  rw [Spread.differsFrom, Bool.not_eq_false']
  apply Spread.groups_beq_iff
  intro expansion other member otherMember
  have held := owned expansion (Or.inl member)
  have otherHeld := owned other (Or.inr otherMember)
  rw [sound.beq_iff_slots held otherHeld]
  constructor
  · exact sound.eq_of_slots held otherHeld
  · exact fun same => congrArg Signature.slots same

/-- The groups are equal exactly when nothing can be observed of a difference. -/
theorem Sound.groups_eq_iff (sound : process.Sound)
    (owned : ∀ expansion, some expansion ∈ first.groups ∨ some expansion ∈ second.groups →
      process.HeldBy owner expansion) (length : first.length = second.length)
    {supplied : Signature} (held : process.Holds supplied)
    (covered : supplied.arity = first.length) :
    first.groups = second.groups ↔ first.sources = second.sources ∧
      first.flattenedSlots supplied = second.flattenedSlots supplied := by
  constructor
  · intro same
    simp only [Spread.sources, Spread.flattenedSlots, same, and_self]
  · intro alike
    obtain ⟨sources, flattened⟩ := alike
    refine Spread.groups_eq_of_flattened ?_ ?_ length ?_ sources flattened
    · intro expansion member
      exact (sound.genuine (owned expansion member).holds).arity
    · intro expansion other member otherMember
      exact sound.eq_of_slots (owned expansion (Or.inl member)) (owned other (Or.inr otherMember))
    · rw [← (sound.genuine held).arity]
      exact covered.symm

/-- In every reachable state, for two spreads over one table: where there is room for them, the
calls that they spread are flattened; and of two flattened calls, the one spread differs from the
other exactly when their sources differ or the two are not the same instance, whatever table
flattens them and whatever is called between the two flattenings. -/
theorem differsFrom_is_exact (process : Process) (reachable : process.Reachable)
    (owner : TableId) (first second : Spread) (length : first.length = second.length)
    (owned : ∀ expansion, some expansion ∈ first.groups ∨ some expansion ∈ second.groups →
      process.HeldBy owner expansion)
    (supplied : Signature) (held : process.Holds supplied)
    (covered : supplied.arity = first.length) (id : TableId)
    (inside : id < process.tables.length) (between : List Call)
    (admissible : Admissible between (flatten id supplied first process).state) :
    (first.Fits → ∃ early, (flatten id supplied first process).answer = .ok early) ∧
    (second.Fits → ∃ late, (flatten id supplied second
      (after between (flatten id supplied first process).state)).answer = .ok late) ∧
    ∀ early late, (flatten id supplied first process).answer = .ok early →
      (flatten id supplied second
        (after between (flatten id supplied first process).state)).answer = .ok late →
      (first.differsFrom second = false ↔
        first.sources = second.sources ∧ (early == late) = true) := by
  have sound := reachable.sound
  have firsts : ∀ expansion, some expansion ∈ first.groups → process.Holds expansion :=
    fun expansion member => (owned expansion (Or.inl member)).holds
  have flattened := flatten_keeps sound id held firsts
  obtain ⟨fit, grown⟩ := Sound.after flattened.fit admissible
  have extended := flattened.grown.trans grown
  have heldStill := held.of_extends extended
  have seconds : ∀ expansion, some expansion ∈ second.groups →
      (after between (flatten id supplied first process).state).Holds expansion :=
    fun expansion member => (owned expansion (Or.inr member)).holds.of_extends extended
  have again := flatten_keeps fit id heldStill seconds
  refine ⟨?_, ?_, ?_⟩
  · exact fun fits => (flatten_attains sound inside held firsts covered fits).answers
  · intro fits
    exact (flatten_attains fit (extended.inside inside) heldStill seconds
      (covered.trans length) fits).answers
  · intro early late success successAgain
    obtain ⟨earlyHeld, earlySlots⟩ := flattened.answer early success
    obtain ⟨lateHeld, lateSlots⟩ := again.answer late successAgain
    have earlyStill := earlyHeld.of_extends (grown.trans again.grown)
    rw [Sound.beq_iff_slots again.fit earlyStill lateHeld, earlySlots, lateSlots,
      sound.differsFrom_eq_false_iff owned, sound.groups_eq_iff owned length held covered]

/-- Two expansions of one slot, without a name and with one, and a call that forwards `...`. -/
def renamed : List Call :=
  [.openTable { cacheLength := 2 }, .openTable { cacheLength := 0 },
    .forNames (.numbered 0) [some "a"], .forNames (.numbered 0) [some "x", some "..."]]

/-- A signature of the first table, by its place there. -/
def renamedAt (place : Nat) : Signature :=
  ((after renamed {}).tables[0]?.bind (·.signatures[place]?)).getD (Signature.build 0 [])

/-- The sources cannot tell the two expansions apart, so the flattened instances do. -/
theorem differsFrom_is_exact_renamed :
    let plain : Spread := ⟨[none, some (renamedAt 1)]⟩
    let named : Spread := ⟨[none, some (renamedAt 2)]⟩
    (after renamed {}).Reachable ∧ (after renamed {}).HeldBy 0 (renamedAt 1) ∧
      (after renamed {}).HeldBy 0 (renamedAt 2) ∧ (after renamed {}).Holds (renamedAt 3) ∧
      plain.sources = named.sources ∧ ∃ early late,
        (flatten 1 (renamedAt 3) plain (after renamed {})).answer = .ok early ∧
        (flatten 1 (renamedAt 3) named
          (after [.forNames (.numbered 1) [some "b"]]
            (flatten 1 (renamedAt 3) plain (after renamed {})).state)).answer = .ok late ∧
        ¬ (early == late) = true := by
  intro plain named
  have reachable : (after renamed {}).Reachable :=
    ⟨renamed, ⟨trivial, trivial, trivial, trivial, trivial⟩, rfl⟩
  have plainHeld : (after renamed {}).HeldBy 0 (renamedAt 1) :=
    ⟨_, rfl, List.mem_of_getElem? (i := 1) rfl⟩
  have namedHeld : (after renamed {}).HeldBy 0 (renamedAt 2) :=
    ⟨_, rfl, List.mem_of_getElem? (i := 2) rfl⟩
  have held : (after renamed {}).HeldBy 0 (renamedAt 3) :=
    ⟨_, rfl, List.mem_of_getElem? (i := 3) rfl⟩
  have owned : ∀ expansion, some expansion ∈ plain.groups ∨ some expansion ∈ named.groups →
      (after renamed {}).HeldBy 0 expansion := by
    intro expansion member
    simp only [plain, named, List.mem_cons, List.not_mem_nil, or_false, reduceCtorEq, false_or,
      Option.some.injEq] at member
    rcases member with rfl | rfl
    · exact plainHeld
    · exact namedHeld
  obtain ⟨answers, answersAgain, exact⟩ :=
    differsFrom_is_exact _ reachable 0 plain named rfl owned _ held.holds rfl 1
      (by decide +kernel) [.forNames (.numbered 1) [some "b"]] ⟨trivial, trivial⟩
  obtain ⟨early, success⟩ := answers (by decide +kernel)
  obtain ⟨late, successAgain⟩ := answersAgain (by decide +kernel)
  refine ⟨reachable, plainHeld, namedHeld, held.holds, rfl, early, late, success, successAgain, ?_⟩
  intro same
  have unchanged := (exact early late success successAgain).mpr ⟨rfl, same⟩
  exact absurd unchanged (by decide +kernel)

end Process

end CallShape

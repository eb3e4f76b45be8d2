import CallShape.Proofs.History

set_option autoImplicit false

namespace CallShape

namespace Spread

/-- The spread of the `length` slots from `offset` on. -/
def part (spread : Spread) (offset length : Nat) : Spread :=
  ⟨(spread.groups.drop offset).take length⟩

/-- Leaves every slot as it is. -/
def ordinary (length : Nat) : Spread := ⟨List.replicate length none⟩

theorem Fits.part {spread : Spread} (fits : spread.Fits) (offset length : Nat) :
    (spread.part offset length).Fits := by
  refine Nat.lt_of_le_of_lt ?_ fits
  calc totalWidth ((spread.groups.drop offset).take length)
      ≤ totalWidth ((spread.groups.drop offset).take length ++
          (spread.groups.drop offset).drop length) := by
        rw [totalWidth_append]
        exact Nat.le_add_right _ _
    _ = totalWidth (spread.groups.drop offset) := by rw [List.take_append_drop]
    _ ≤ totalWidth (spread.groups.take offset ++ spread.groups.drop offset) := by
        rw [totalWidth_append]
        exact Nat.le_add_left _ _
    _ = totalWidth spread.groups := by rw [List.take_append_drop]

theorem totalWidth_ordinary (length : Nat) : totalWidth (ordinary length).groups = length := by
  induction length with
  | zero => rfl
  | succ length ih =>
      rw [ordinary, List.replicate_succ, totalWidth, width]
      exact (congrArg (1 + ·) ih).trans (Nat.add_comm 1 length)

theorem flattenWith_append {α : Type} (read : Signature → List α) {items : List α}
    {groups : List (Option Signature)} (others : List α) (more : List (Option Signature))
    (length : items.length = groups.length) :
    flattenWith read (items ++ others) (groups ++ more) =
      flattenWith read items groups ++ flattenWith read others more := by
  induction groups generalizing items with
  | nil =>
      rw [List.length_eq_zero_iff.mp length]
      rfl
  | cons group groups ih =>
      obtain ⟨item, rest, rfl⟩ := List.exists_cons_of_length_eq_add_one length
      rw [List.cons_append, List.cons_append, flattenWith_cons, flattenWith_cons,
        ih (Nat.succ.inj length), List.append_assoc]

theorem flattenWith_ordinary {α : Type} (read : Signature → List α) (items : List α) :
    flattenWith read items (List.replicate items.length none) = items := by
  induction items with
  | nil => rfl
  | cons item items ih =>
      rw [List.length_cons, List.replicate_succ, flattenWith_cons, ih]
      rfl

end Spread

namespace Process

/-- Walks over the groups of a spread with the offset at which `second` goes on. An ordinary slot
takes over the group that it meets there; an expansion is flattened by its own part. -/
def composeFrom (id : TableId) (second : Spread) (offset : Nat) :
    List (Option Signature) → Action Process Fault (List (Option Signature))
  | [] => return []
  | none :: groups => do
      let later ← composeFrom id second (offset + 1) groups
      return second.groupAt offset :: later
  | some expansion :: groups => do
      let flat ← flatten id expansion (second.part offset expansion.arity)
      let later ← composeFrom id second (offset + expansion.arity) groups
      return some flat :: later

/-- One spread that does the work of two, the second of them made for the flattened call. -/
def compose (id : TableId) (first second : Spread) : Action Process Fault Spread := do
  let groups ← composeFrom id second 0 first.groups
  return ⟨groups⟩

/-- Whatever the slots of the call, the composed groups flatten them as `groups` does and then
`second` from the offset on. -/
structure Composed (second : Spread) (offset : Nat) (groups composed : List (Option Signature))
    (process : Process) : Prop where
  length : composed.length = groups.length
  held : ∀ expansion, some expansion ∈ composed → process.Holds expansion
  flattened : ∀ slots, slots.length = groups.length →
    Spread.flattenWith Signature.slots slots composed =
      Spread.flattenWith Signature.slots (Spread.flattenWith Signature.slots slots groups)
        (second.groups.drop offset)

theorem Composed.nil (second : Spread) (offset : Nat) (process : Process) :
    Composed second offset [] [] process := by
  refine ⟨rfl, fun _ member => absurd member List.not_mem_nil, ?_⟩
  intro slots length
  rw [List.length_eq_zero_iff.mp length]
  rfl

theorem Composed.ordinary {second : Spread} {offset : Nat}
    {groups composed : List (Option Signature)} {process : Process}
    (later : Composed second (offset + 1) groups composed process)
    (expansions : ∀ expansion, some expansion ∈ second.groups → process.Holds expansion)
    (inside : offset < second.groups.length) :
    Composed second offset (none :: groups) (second.groupAt offset :: composed) process := by
  have here : second.groupAt offset = second.groups[offset] := by
    rw [Spread.groupAt, List.getElem?_eq_getElem inside, Option.join_some]
  refine ⟨congrArg (· + 1) later.length, ?_, ?_⟩
  · intro expansion member
    rcases List.mem_cons.mp member with own | rest
    · apply expansions
      rw [own, here]
      exact List.getElem_mem inside
    · exact later.held expansion rest
  · intro slots length
    obtain ⟨slot, rest, rfl⟩ := List.exists_cons_of_length_eq_add_one length
    rw [Spread.flattenWith_cons _ slot rest none, Option.elim_none, List.singleton_append,
      List.drop_eq_getElem_cons inside, Spread.flattenWith_cons, Spread.flattenWith_cons, here,
      later.flattened rest (Nat.succ.inj length)]

theorem Composed.expansion {second : Spread} {offset : Nat}
    {groups composed : List (Option Signature)} {process : Process} {expansion flat : Signature}
    (later : Composed second (offset + expansion.arity) groups composed process)
    (held : process.Holds flat)
    (slots : flat.slots = (second.part offset expansion.arity).flattenedSlots expansion)
    (length : expansion.slots.length = (second.part offset expansion.arity).groups.length) :
    Composed second offset (some expansion :: groups) (some flat :: composed) process := by
  refine ⟨congrArg (· + 1) later.length, ?_, ?_⟩
  · intro other member
    rcases List.mem_cons.mp member with own | rest
    · rw [Option.some.inj own]
      exact held
    · exact later.held other rest
  · intro supplied covered
    obtain ⟨slot, rest, rfl⟩ := List.exists_cons_of_length_eq_add_one covered
    have split : second.groups.drop offset = (second.part offset expansion.arity).groups ++
        second.groups.drop (offset + expansion.arity) := by
      rw [Spread.part, ← List.drop_drop, List.take_append_drop]
    rw [Spread.flattenWith_cons _ slot rest (some flat),
      Spread.flattenWith_cons _ slot rest (some expansion), Option.elim_some, Option.elim_some,
      split, Spread.flattenWith_append _ _ _ length, slots,
      later.flattened rest (Nat.succ.inj covered)]
    rfl

theorem composeFrom_attains {process : Process} (sound : process.Sound) {id : TableId}
    (inside : id < process.tables.length) {second : Spread} (fits : second.Fits)
    (seconds : ∀ expansion, some expansion ∈ second.groups → process.Holds expansion)
    (offset : Nat) (groups : List (Option Signature))
    (firsts : ∀ expansion, some expansion ∈ groups → process.Holds expansion)
    (covered : offset + Spread.totalWidth groups = second.length) :
    discipline.Attains (composeFrom id second offset groups) process
      (Composed second offset groups) := by
  induction groups generalizing offset process with
  | nil => exact Discipline.Attains.pure sound (Composed.nil second offset process)
  | cons group groups ih =>
      have later : ∀ expansion, some expansion ∈ groups → process.Holds expansion :=
        fun expansion member => firsts expansion (List.mem_cons_of_mem group member)
      rw [Spread.totalWidth, Spread.length] at covered
      cases group with
      | none =>
          simp only [Spread.width] at covered
          have here : offset < second.groups.length := by omega
          have rest := ih sound inside seconds (offset + 1) later (by rw [Spread.length]; omega)
          apply rest.bind
          intro composed holds fit grown
          exact Discipline.Attains.pure fit (holds.ordinary
            (fun expansion member => (seconds expansion member).of_extends grown) here)
      | some expansion =>
          simp only [Spread.width] at covered
          have held := firsts expansion List.mem_cons_self
          have length : (second.part offset expansion.arity).length = expansion.arity := by
            rw [Spread.length, Spread.part, List.length_take, List.length_drop]
            omega
          have part : ∀ other, some other ∈ (second.part offset expansion.arity).groups →
              process.Holds other := fun other member =>
            seconds other (List.mem_of_mem_drop (List.mem_of_mem_take member))
          apply (flatten_attains sound inside held part length.symm (fits.part offset _)).bind
          intro flat gives fit grown
          have rest := ih fit (grown.inside inside)
            (fun other member => (seconds other member).of_extends grown)
            (offset + expansion.arity) (fun other member => (later other member).of_extends grown)
            (by rw [Spread.length]; omega)
          apply rest.bind
          intro composed holds fitAgain grownAgain
          refine Discipline.Attains.pure fitAgain ?_
          refine holds.expansion (gives.1.of_extends grownAgain).holds gives.2 ?_
          rw [← (sound.genuine held).arity]
          exact length.symm

theorem compose_attains {process : Process} (sound : process.Sound) {id : TableId}
    (inside : id < process.tables.length) {first second : Spread}
    (firsts : ∀ expansion, some expansion ∈ first.groups → process.Holds expansion)
    (seconds : ∀ expansion, some expansion ∈ second.groups → process.Holds expansion)
    (covered : Spread.totalWidth first.groups = second.length) (fits : second.Fits) :
    discipline.Attains (compose id first second) process
      (fun composed => Composed second 0 first.groups composed.groups) := by
  have walk := composeFrom_attains sound inside fits seconds 0 first.groups firsts
    (by rw [Nat.zero_add]; exact covered)
  apply walk.bind
  intro groups composed fit _
  exact Discipline.Attains.pure fit composed

/-- Flattens the flattened call by the second spread, and the supplied one by the composition. -/
def inTwoWays (id : TableId) (supplied flat : Signature) (first second : Spread) :
    Action Process Fault (Signature × Spread × Signature) := do
  let twice ← flatten id flat second
  let composed ← compose id first second
  let once ← flatten id supplied composed
  return (twice, composed, once)

/-- Both ways come to an instance of the table, with the same slots. -/
theorem inTwoWays_attains {process : Process} (sound : process.Sound) {id : TableId}
    (inside : id < process.tables.length) {supplied flat : Signature} {first second : Spread}
    (held : process.Holds supplied) (flatHeld : process.Holds flat)
    (firsts : ∀ expansion, some expansion ∈ first.groups → process.Holds expansion)
    (seconds : ∀ expansion, some expansion ∈ second.groups → process.Holds expansion)
    (covered : supplied.arity = first.length) (coveredAgain : flat.arity = second.length)
    (fits : second.Fits) (flattened : flat.slots = first.flattenedSlots supplied) :
    discipline.Attains (inTwoWays id supplied flat first second) process
      (fun ways _ => ways.2.1.length = supplied.arity ∧ (ways.1 == ways.2.2) = true) := by
  have genuine := sound.genuine held
  have length : Spread.totalWidth first.groups = second.length := by
    rw [← coveredAgain, (sound.genuine flatHeld).arity, flattened]
    exact (Spread.length_flattenedSlots genuine
      (fun expansion member => sound.genuine (firsts expansion member)) covered).symm
  apply (flatten_attains sound inside flatHeld seconds coveredAgain fits).bind
  intro twice twiceGives fit grown
  apply (compose_attains fit (grown.inside inside)
    (fun expansion member => (firsts expansion member).of_extends grown)
    (fun expansion member => (seconds expansion member).of_extends grown) length fits).bind
  intro composed holds fitAgain grownAgain
  have extended := grown.trans grownAgain
  have composedLength : composed.length = supplied.arity := by
    rw [covered]
    exact holds.length
  have same : composed.flattenedSlots supplied = second.flattenedSlots flat := by
    rw [Spread.flattenedSlots, Spread.flattenedSlots, flattened]
    exact holds.flattened supplied.slots (by rw [← genuine.arity]; exact covered)
  -- Both ways come to equally many slots, so there is room for both or for neither.
  have composedFits : composed.Fits := by
    have once := Spread.length_flattenedSlots (Sound.genuine fitAgain (held.of_extends extended))
      (fun expansion member => Sound.genuine fitAgain (holds.held expansion member))
      composedLength.symm
    have twice := Spread.length_flattenedSlots (sound.genuine flatHeld)
      (fun expansion member => sound.genuine (seconds expansion member)) coveredAgain
    rw [Spread.Fits, ← once, same, twice]
    exact fits
  apply (flatten_attains fitAgain (extended.inside inside) (held.of_extends extended) holds.held
    composedLength.symm composedFits).bind
  intro once onceGives last grownLast
  refine Discipline.Attains.pure last ⟨composedLength, ?_⟩
  have twiceHeld := twiceGives.1.of_extends (grownAgain.trans grownLast)
  rw [Sound.beq_iff_slots last twiceHeld onceGives.1, twiceGives.2, onceGives.2, same]

/-- Flattening to slots of an instance that the table has gives that instance. -/
theorem Sound.flatten_of_held {process : Process} (sound : process.Sound) {id : TableId}
    {supplied signature : Signature} {spread : Spread} (held : process.Holds supplied)
    (own : process.HeldBy id signature) (covered : supplied.arity = spread.length)
    (fits : spread.Fits) (flattened : spread.flattenedSlots supplied = signature.slots) :
    flatten id supplied spread process = ⟨.ok signature, process, []⟩ := by
  rw [flatten_of_fits (sound.genuine held) covered fits, flattened]
  exact sound.canonical_of_held own

/-- In every reachable state and for every table, where there is room for what is flattened:
flattening by one spread and then by another comes to the same instance as flattening once by their
composition; flattening a signature of the table without spreading anything gives that signature;
and a call of one slot that is spread becomes its expansion, if that is a signature of the table. -/
theorem flatten_composes (process : Process) (reachable : process.Reachable) (id : TableId)
    (inside : id < process.tables.length) :
    (∀ supplied first, process.Holds supplied →
      (∀ expansion, some expansion ∈ first.groups → process.Holds expansion) →
      first.length = supplied.arity → first.Fits →
      ∃ flat, (flatten id supplied first process).answer = .ok flat ∧
        ∀ second, second.length = flat.arity → second.Fits →
          (∀ expansion, some expansion ∈ second.groups →
            (flatten id supplied first process).state.Holds expansion) →
          ∃ twice composed once,
            (inTwoWays id supplied flat first second
              (flatten id supplied first process).state).answer = .ok (twice, composed, once) ∧
            composed.length = supplied.arity ∧ (twice == once) = true) ∧
    (∀ signature, process.HeldBy id signature → signature.arity < 2 ^ 58 →
      flatten id signature (Spread.ordinary signature.arity) process =
        ⟨.ok signature, process, []⟩) ∧
    (∀ single expansion, process.Holds single → single.arity = 1 →
      process.HeldBy id expansion → expansion.arity < 2 ^ 58 →
      flatten id single ⟨[some expansion]⟩ process = ⟨.ok expansion, process, []⟩) := by
  have sound := reachable.sound
  refine ⟨?_, ?_, ?_⟩
  · intro supplied first held firsts covered fits
    have start := flatten_attains sound inside held firsts covered.symm fits
    obtain ⟨flat, success, flatHeld, flattened⟩ := start.answered
    refine ⟨flat, success, ?_⟩
    intro second coveredAgain fitsAgain seconds
    have grown := start.grown
    obtain ⟨⟨twice, composed, once⟩, answered, length, same⟩ :=
      (inTwoWays_attains start.fit (grown.inside inside) (held.of_extends grown) flatHeld.holds
        (fun expansion member => (firsts expansion member).of_extends grown) seconds covered.symm
        coveredAgain.symm fitsAgain flattened).answered
    exact ⟨twice, composed, once, answered, length, same⟩
  · intro signature own room
    apply sound.flatten_of_held own.holds own
    · rw [Spread.length, Spread.ordinary, List.length_replicate]
    · rw [Spread.Fits, Spread.totalWidth_ordinary]
      exact room
    · rw [Spread.flattenedSlots, Spread.ordinary, (sound.genuine own.holds).arity]
      exact Spread.flattenWith_ordinary Signature.slots signature.slots
  · intro single expansion held one own room
    refine sound.flatten_of_held held own one room ?_
    have length : single.slots.length = 0 + 1 := (sound.genuine held).arity.symm.trans one
    obtain ⟨slot, rest, same⟩ := List.exists_cons_of_length_eq_add_one length
    rw [Spread.flattenedSlots, same, Spread.flattenWith_cons, Option.elim_some]
    cases rest <;> exact List.append_nil _

/-- What can stand in a nested spread: nothing, one slot, a call and an expansion that itself ends
in `...`. -/
def nested : List Call :=
  [.openTable { cacheLength := 2 }, .forNames (.numbered 0) [some "x", some "..."],
    .forNames (.numbered 0) [some "a", some "..."]]

def nestedAt (place : Nat) : Signature :=
  ((after nested {}).tables[0]?.bind (·.signatures[place]?)).getD (Signature.build 0 [])

/-- The first spread puts an expansion in; the second one spreads the supplied slot before it and
empties the `...` inside it. -/
theorem flatten_composes_nested :
    let first : Spread := ⟨[none, some (nestedAt 3)]⟩
    let second : Spread := ⟨[some (nestedAt 3), none, some (nestedAt 0)]⟩
    (after nested {}).Reachable ∧ ∃ flat twice composed once,
      (flatten 0 (nestedAt 2) first (after nested {})).answer = .ok flat ∧
      (inTwoWays 0 (nestedAt 2) flat first second
        (flatten 0 (nestedAt 2) first (after nested {})).state).answer =
          .ok (twice, composed, once) ∧
      composed.length = 2 ∧ (twice == once) = true ∧
      flatten 0 (nestedAt 1) ⟨[some (nestedAt 3)]⟩ (after nested {}) =
        ⟨.ok (nestedAt 3), after nested {}, []⟩ := by
  intro first second
  have reachable : (after nested {}).Reachable :=
    ⟨nested, ⟨trivial, trivial, trivial, trivial⟩, rfl⟩
  have held : ∀ place, (after nested {}).tables[0]?.bind (·.signatures[place]?) ≠ none →
      (after nested {}).HeldBy 0 (nestedAt place) := by
    intro place present
    obtain ⟨signature, found⟩ := Option.ne_none_iff_exists'.mp present
    obtain ⟨table, tablePresent, own⟩ := Option.bind_eq_some_iff.mp found
    rw [nestedAt, found, Option.getD_some]
    exact ⟨table, tablePresent, List.mem_of_getElem? own⟩
  have nothing := held 0 (by decide +kernel)
  have single := held 1 (by decide +kernel)
  have supplied := held 2 (by decide +kernel)
  have expansion := held 3 (by decide +kernel)
  obtain ⟨compositions, -, units⟩ := flatten_composes _ reachable 0 (by decide +kernel)
  have firsts : ∀ other, some other ∈ first.groups → (after nested {}).Holds other := by
    intro other member
    simp only [first, List.mem_cons, List.not_mem_nil, or_false, reduceCtorEq, false_or,
      Option.some.injEq] at member
    rw [member]
    exact expansion.holds
  obtain ⟨flat, success, composes⟩ := compositions (nestedAt 2) first supplied.holds firsts rfl
    (by decide +kernel)
  have length : second.length = flat.arity := by
    have arity : (flatten 0 (nestedAt 2) first (after nested {})).answer.toOption.map
        Signature.arity = some 3 := by decide +kernel
    rw [success] at arity
    exact (Option.some.inj arity).symm
  have grown := (flatten_keeps reachable.sound 0 supplied.holds firsts).grown
  obtain ⟨twice, composed, once, answered, composedLength, same⟩ := composes second length
    (by decide +kernel) (by
    intro other member
    simp only [second, List.mem_cons, List.not_mem_nil, or_false, reduceCtorEq, false_or,
      Option.some.injEq] at member
    rcases member with rfl | rfl
    · exact expansion.holds.of_extends grown
    · exact nothing.holds.of_extends grown)
  exact ⟨reachable, flat, twice, composed, once, success, answered, composedLength, same,
    units (nestedAt 1) (nestedAt 3) single.holds rfl expansion (by decide +kernel)⟩

end Process

end CallShape

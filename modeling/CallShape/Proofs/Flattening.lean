import CallShape.Proofs.History

set_option autoImplicit false

namespace CallShape

theorem Spread.stands_at {pool : Interner} {spread : Spread} {supplied : Signature}
    (genuine : supplied.Genuine pool)
    (expansions : ∀ expansion, some expansion ∈ spread.groups → expansion.Genuine pool)
    (covered : supplied.arity = spread.length) {position : Nat} {source : Source}
    (present : spread.sources[position]? = some source) :
    ∃ slot, (spread.flattenedSlots supplied)[position]? = some slot ∧
      spread.Stands supplied slot source := by
  obtain ⟨lengths, pointwise⟩ :=
    List.forall₂_iff_get.mp (sources_stand genuine expansions covered)
  obtain ⟨inside, rfl⟩ := List.getElem?_eq_some_iff.mp present
  have slotInside : position < (spread.flattenedSlots supplied).length := lengths ▸ inside
  exact ⟨_, List.getElem?_eq_getElem slotInside, pointwise position inside slotInside⟩

theorem Spread.mem_groups_of_groupAt {spread : Spread} {group : Nat} {expansion : Signature}
    (found : spread.groupAt group = some expansion) : some expansion ∈ spread.groups := by
  rw [groupAt, Option.join_eq_some_iff] at found
  exact List.mem_of_getElem? found

namespace Process

/-- What a flattened signature has at the position of a source. -/
def SlotAgrees (spread : Spread) (supplied flat : Signature) (position : Nat) : Source → Prop
  | .direct index =>
      index < supplied.arity ∧ flat.slotAt position = supplied.slotAt index
  | .spread group index =>
      ∃ expansion, spread.groupAt group = some expansion ∧ index < expansion.arity ∧
        flat.slotAt position = expansion.slotAt index

theorem slotAgrees_of_stands {pool : Interner} {spread : Spread} {supplied flat : Signature}
    (genuine : supplied.Genuine pool)
    (expansions : ∀ expansion, some expansion ∈ spread.groups → expansion.Genuine pool)
    {position : Nat} {slot : Slot} {source : Source} (read : flat.slotAt position = .ok slot)
    (stands : spread.Stands supplied slot source) :
    SlotAgrees spread supplied flat position source := by
  cases source with
  | direct index =>
      refine ⟨?_, ?_⟩
      · rw [genuine.arity]
        exact (List.getElem?_eq_some_iff.mp stands).1
      · rw [read, genuine.slotAt stands]
  | spread group index =>
      obtain ⟨expansion, found, present⟩ := stands
      have own := expansions expansion (Spread.mem_groups_of_groupAt found)
      refine ⟨expansion, found, ?_, ?_⟩
      · rw [own.arity]
        exact (List.getElem?_eq_some_iff.mp present).1
      · rw [read, own.slotAt present]

/-- In every reachable state, flattening is refused for its length exactly when the spread does not
cover the call, and then nothing changes. Otherwise, if there is room for the flattened call, it
answers with a signature as long as the list of sources, whose slots are, position by position,
those that the sources stand for, so that values gathered from the sources always fit it. Without
room it fails for want of it, and again nothing changes. -/
theorem flatten_agrees_with_sources (process : Process) (reachable : process.Reachable)
    (id : TableId) (inside : id < process.tables.length) (supplied : Signature)
    (held : process.Holds supplied) (spread : Spread)
    (expansions : ∀ expansion, some expansion ∈ spread.groups → process.Holds expansion) :
    ((flatten id supplied spread process).answer =
        .error (.signature (.spreadLength supplied.arity spread.length)) ↔
      supplied.arity ≠ spread.length) ∧
    (supplied.arity ≠ spread.length → (flatten id supplied spread process).state = process) ∧
    (supplied.arity = spread.length → spread.Fits →
      ∃ flat, (flatten id supplied spread process).answer = .ok flat ∧
        spread.flattenedLength = .ok flat.arity ∧
        spread.listSources = .ok spread.sources ∧
        spread.sources.length = flat.arity ∧
        (∀ position source, spread.sources[position]? = some source →
          SlotAgrees spread supplied flat position source) ∧
        ∀ (α : Type) (gather : Source → α),
          Arguments.make (spread.sources.map gather) flat =
            .ok ⟨spread.sources.map gather, flat⟩) ∧
    (supplied.arity = spread.length → ¬ spread.Fits →
      flatten id supplied spread process = ⟨.error spread.shortage, process, []⟩) := by
  have sound := reachable.sound
  have genuine := sound.genuine held
  have expansionsGenuine : ∀ expansion, some expansion ∈ spread.groups →
      expansion.Genuine process.pool := fun expansion member =>
    sound.genuine (expansions expansion member)
  refine ⟨⟨?_, ?_⟩, ?_, ?_, ?_⟩
  · intro refused covered
    by_cases fits : spread.Fits
    · obtain ⟨flat, success⟩ :=
        (flatten_attains sound inside held expansions covered fits).answers
      rw [success] at refused
      cases refused
    · rw [flatten_of_full covered fits] at refused
      exact absurd (Except.error.inj refused) (Spread.shortage_ne spread _)
  · intro mismatch
    rw [flatten_of_mismatch mismatch]
    rfl
  · intro mismatch
    rw [flatten_of_mismatch mismatch]
    rfl
  · intro covered fits
    have attained := flatten_attains sound inside held expansions covered fits
    obtain ⟨flat, success, flatHeld, slots⟩ := attained.answered
    have flatGenuine := Sound.genuine attained.fit flatHeld.holds
    have length : Spread.totalWidth spread.groups = flat.arity := by
      rw [flatGenuine.arity, slots]
      exact (Spread.length_flattenedSlots genuine expansionsGenuine covered).symm
    have sourcesLength := (Spread.length_sources spread).trans length
    refine ⟨flat, success, ?_, Spread.listSources_of_fits fits, sourcesLength, ?_, ?_⟩
    · rw [Spread.flattenedLength_of_fits fits, length]
    · intro position source present
      obtain ⟨slot, flattened, stands⟩ :=
        Spread.stands_at genuine expansionsGenuine covered present
      rw [← slots] at flattened
      exact slotAgrees_of_stands genuine expansionsGenuine (flatGenuine.slotAt flattened) stands
    · intro α gather
      rw [Arguments.make, if_pos]
      rw [List.length_map, sourcesLength]
  · intro covered full
    rw [flatten_of_full covered full]
    rfl

/-- Signatures in two tables: a call that forwards `...` twice, and what it may forward. -/
def forwarding : List Call :=
  [.openTable { cacheLength := 1 }, .openTable { cacheLength := 0 },
    .forNames (.numbered 0) [some "x", some "...", some "..."],
    .forSlots (.numbered 1) [.unmatched, .positional]]

theorem flatten_agrees_with_sources_forwarding :
    (after forwarding {}).Reachable ∧ ∃ supplied nothing expansion flat,
      (after forwarding {}).Holds supplied ∧ (after forwarding {}).Holds nothing ∧
      (after forwarding {}).Holds expansion ∧
      (flatten 1 supplied ⟨[none, some nothing, some expansion]⟩ (after forwarding {})).answer =
        .ok flat ∧
      flat.arity = 3 ∧ flat.slotAt 0 = supplied.slotAt 0 ∧
      flat.slotAt 1 = expansion.slotAt 0 := by
  have reachable : (after forwarding {}).Reachable := by
    refine ⟨forwarding, ⟨trivial, trivial, trivial, ?_, trivial⟩, rfl⟩
    intro symbol member
    simp at member
  have held : (after forwarding {}).Holds _ :=
    ⟨_, List.mem_of_getElem? (i := 0) rfl, List.mem_of_getElem? (i := 1) rfl⟩
  have nothingHeld : (after forwarding {}).Holds _ :=
    ⟨_, List.mem_of_getElem? (i := 0) rfl, List.mem_of_getElem? (i := 0) rfl⟩
  have expansionHeld : (after forwarding {}).Holds _ :=
    ⟨_, List.mem_of_getElem? (i := 1) rfl, List.mem_of_getElem? (i := 0) rfl⟩
  obtain ⟨-, -, agrees, -⟩ := flatten_agrees_with_sources _ reachable 1 (by decide +kernel) _ held
    ⟨[none, some _, some _]⟩ (by
      intro expansion member
      rcases List.mem_cons.mp member with ordinary | member
      · cases ordinary
      · rcases List.mem_cons.mp member with same | member
        · exact Option.some.inj same ▸ nothingHeld
        · exact Option.some.inj (List.mem_singleton.mp member) ▸ expansionHeld)
  obtain ⟨flat, success, -, -, arity, slots, -⟩ := agrees rfl (by decide +kernel)
  obtain ⟨-, first⟩ := slots 0 (.direct 0) rfl
  obtain ⟨_, found, -, second⟩ := slots 1 (.spread 2 0) rfl
  cases found
  exact ⟨reachable, _, _, _, flat, held, nothingHeld, expansionHeld, success, arity.symm, first,
    second⟩

end Process

end CallShape

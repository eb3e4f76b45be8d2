import CallShape.Proofs.Staleness

set_option autoImplicit false

namespace CallShape

namespace Source

/-- The place within the group; an ordinary slot is a group of one. -/
def index : Source → Nat
  | .direct _ => 0
  | .spread _ index => index

/-- By supplied slot, and within one expansion by place. -/
def Before (first second : Source) : Prop :=
  first.slot < second.slot ∨ first.slot = second.slot ∧ first.index < second.index

theorem Before.ne {first second : Source} (before : first.Before second) : first ≠ second := by
  rintro rfl
  unfold Before at before
  omega

end Source

/-! Pieces laid end to end, one for each number below a bound. The induction on the bound adds the
last piece, so that the length of those before it is the place where it starts. -/

section Pieces

variable {α : Type} (piece : Nat → List α)

theorem flatMap_range_succ (count : Nat) :
    (List.range (count + 1)).flatMap piece = (List.range count).flatMap piece ++ piece count := by
  rw [List.range_succ, List.flatMap_append, List.flatMap_singleton]

theorem flatMap_range_succ_left (count : Nat) :
    (List.range (count + 1)).flatMap piece =
      piece 0 ++ (List.range count).flatMap fun number => piece (number + 1) := by
  rw [List.range_succ_eq_map, List.flatMap_cons, List.flatMap_map]

/-- An item of one piece stands behind all the pieces before. -/
theorem getElem?_flatMap_range {count number index : Nat} (inside : number < count)
    (within : index < (piece number).length) :
    ((List.range count).flatMap piece)[((List.range number).flatMap piece).length + index]? =
      (piece number)[index]? := by
  induction count with
  | zero => omega
  | succ count ih =>
      rw [flatMap_range_succ]
      by_cases last : number = count
      · subst last
        rw [List.getElem?_append_right (Nat.le_add_right _ _), Nat.add_sub_cancel_left]
      · -- An item of an earlier piece is there before the last piece is added.
        have present := ih (by omega)
        rw [List.getElem?_eq_getElem within] at present
        have bound := (List.getElem?_eq_some_iff.mp present).1
        rw [List.getElem?_append_left bound, present, List.getElem?_eq_getElem within]

end Pieces

namespace Spread

/-- How many arguments of the flattened call come from the groups before this one: one for each
ordinary slot, and as many as its expansion has for each that is spread. -/
def offset (spread : Spread) (group : Nat) : Nat := totalWidth (spread.groups.take group)

theorem groupAt_of_inside {spread : Spread} {group : Nat} (inside : group < spread.length) :
    spread.groups[group]? = some (spread.groupAt group) := by
  rw [groupAt, List.getElem?_eq_getElem inside, Option.join_some]

theorem offset_succ {spread : Spread} {group : Nat} (inside : group < spread.length) :
    spread.offset (group + 1) = spread.offset group + width (spread.groupAt group) := by
  simp only [offset, List.take_add_one, groupAt_of_inside inside, Option.toList_some,
    totalWidth_append, totalWidth, Nat.add_zero]

/-- Pieces as wide as the groups put each group at its offset. -/
theorem length_pieces {α : Type} {spread : Spread} {piece : Nat → List α}
    (sized : ∀ group, group < spread.length →
      (piece group).length = width (spread.groupAt group))
    {group : Nat} (within : group ≤ spread.length) :
    ((List.range group).flatMap piece).length = spread.offset group := by
  induction group with
  | zero => rfl
  | succ group ih =>
      rw [flatMap_range_succ, List.length_append, ih (by omega), sized group (by omega),
        offset_succ (by omega)]

theorem sourcesFrom_eq_flatMap (start : Nat) (groups : List (Option Signature)) :
    sourcesFrom start groups =
      (List.range groups.length).flatMap fun group =>
        ownSources (start + group) groups[group]?.join := by
  induction groups generalizing start with
  | nil => rfl
  | cons group groups ih =>
      rw [sourcesFrom_cons, ih, List.length_cons, flatMap_range_succ_left]
      simp only [List.getElem?_cons_zero, List.getElem?_cons_succ, Option.join_some, Nat.add_zero,
        Nat.add_assoc, Nat.add_comm 1]

/-- The sources are those of the groups, one group after the other. -/
theorem sources_eq_flatMap (spread : Spread) :
    spread.sources =
      (List.range spread.length).flatMap fun group =>
        ownSources group (spread.groupAt group) := by
  rw [sources, sourcesFrom_eq_flatMap]
  simp only [Nat.zero_add, length, groupAt]

theorem length_ownSources (start : Nat) (group : Option Signature) :
    (ownSources start group).length = width group := by
  cases group with
  | none => rfl
  | some expansion => simp only [ownSources, List.length_map, List.length_range, width]

theorem direct_mem_ownSources (start index : Nat) (group : Option Signature) :
    .direct index ∈ ownSources start group ↔ index = start ∧ group = none := by
  cases group with
  | none => simp [ownSources]
  | some expansion => simp [ownSources]

theorem spread_mem_ownSources (start slot index : Nat) (group : Option Signature) :
    .spread slot index ∈ ownSources start group ↔
      slot = start ∧ ∃ expansion, group = some expansion ∧ index < expansion.arity := by
  cases group with
  | none => simp [ownSources]
  | some expansion => simp [ownSources, and_comm, eq_comm]

theorem ownSources_ascending (start : Nat) (group : Option Signature) :
    (ownSources start group).Pairwise Source.Before := by
  cases group with
  | none => exact List.pairwise_singleton _ _
  | some expansion =>
      rw [ownSources, List.pairwise_map]
      exact List.pairwise_lt_range.imp fun ordered => Or.inr ⟨rfl, ordered⟩

/-- Within its group a source stands at its own place. -/
theorem getElem?_ownSources {start : Nat} {group : Option Signature} {source : Source}
    (member : source ∈ ownSources start group) :
    (ownSources start group)[source.index]? = some source := by
  cases group with
  | none =>
      rw [List.mem_singleton.mp member]
      rfl
  | some expansion =>
      obtain ⟨index, inside, rfl⟩ := List.mem_map.mp member
      rw [ownSources, List.getElem?_map, Source.index,
        List.getElem?_range (List.mem_range.mp inside), Option.map_some]

theorem mem_sources_iff (spread : Spread) (source : Source) :
    source ∈ spread.sources ↔ source.slot < spread.length ∧
      source ∈ ownSources source.slot (spread.groupAt source.slot) := by
  rw [sources_eq_flatMap, List.mem_flatMap]
  constructor
  · rintro ⟨group, inside, member⟩
    rw [slot_of_mem_ownSources member]
    exact ⟨List.mem_range.mp inside, member⟩
  · rintro ⟨inside, member⟩
    exact ⟨source.slot, List.mem_range.mpr inside, member⟩

theorem sources_ascending (spread : Spread) : spread.sources.Pairwise Source.Before := by
  rw [sources_eq_flatMap, List.pairwise_flatMap]
  refine ⟨fun group _ => ownSources_ascending group _, ?_⟩
  apply List.pairwise_lt_range.imp
  intro group later ordered first firstMember second secondMember
  rw [← slot_of_mem_ownSources firstMember, ← slot_of_mem_ownSources secondMember] at ordered
  exact Or.inl ordered

theorem nodup_sources (spread : Spread) : spread.sources.Nodup :=
  spread.sources_ascending.imp Source.Before.ne

theorem getElem?_sources_of_mem {spread : Spread} {source : Source}
    (member : source ∈ spread.sources) :
    spread.sources[spread.offset source.slot + source.index]? = some source := by
  obtain ⟨inside, own⟩ := (spread.mem_sources_iff source).mp member
  have place := getElem?_ownSources own
  have within := (List.getElem?_eq_some_iff.mp place).1
  have sized : ∀ group, group < spread.length →
      (ownSources group (spread.groupAt group)).length = width (spread.groupAt group) :=
    fun group _ => length_ownSources group _
  rw [sources_eq_flatMap, ← length_pieces sized (Nat.le_of_lt inside),
    getElem?_flatMap_range _ inside within, place]

theorem groupAt_some_inside {spread : Spread} {group : Nat} {expansion : Signature}
    (found : spread.groupAt group = some expansion) : group < spread.length := by
  rw [groupAt, Option.join_eq_some_iff] at found
  exact (List.getElem?_eq_some_iff.mp found).1

/-- Where there is room, the sources of a flattened call are listed. They are each ordinary slot and
each item of each expansion once, and nothing else; they ascend by supplied slot and then by place
in the expansion, and each stands at the offset of its group plus its place there. -/
theorem sources_enumerate (spread : Spread) :
    (spread.Fits → spread.listSources = .ok spread.sources) ∧
    (∀ list, spread.listSources = .ok list → list = spread.sources) ∧
    spread.sources.Nodup ∧
    (∀ index, .direct index ∈ spread.sources ↔
      index < spread.length ∧ spread.groupAt index = none) ∧
    (∀ group index, .spread group index ∈ spread.sources ↔
      ∃ expansion, spread.groupAt group = some expansion ∧ index < expansion.arity) ∧
    spread.sources.Pairwise Source.Before ∧
    (∀ position source, spread.sources[position]? = some source ↔
      source ∈ spread.sources ∧ position = spread.offset source.slot + source.index) := by
  refine ⟨listSources_of_fits, fun _ => eq_sources_of_listSources, spread.nodup_sources, ?_, ?_,
    spread.sources_ascending, ?_⟩
  · intro index
    rw [mem_sources_iff, direct_mem_ownSources]
    simp only [Source.slot, true_and]
  · intro group index
    rw [mem_sources_iff, spread_mem_ownSources]
    simp only [Source.slot, true_and]
    constructor
    · exact And.right
    · rintro ⟨expansion, found, below⟩
      exact ⟨groupAt_some_inside found, expansion, found, below⟩
  · intro position source
    constructor
    · intro present
      have member := List.mem_of_getElem? present
      refine ⟨member, ?_⟩
      have place := getElem?_sources_of_mem member
      have inside := (List.getElem?_eq_some_iff.mp present).1
      exact (List.getElem?_inj inside spread.nodup_sources).mp (present.trans place.symm)
    · rintro ⟨member, rfl⟩
      exact getElem?_sources_of_mem member

/-- An empty expansion takes no place. -/
example :
    sources ⟨[none, some (.build 0 [.positional, .unmatched]), some (.build 1 []), none]⟩ =
      [.direct 0, .spread 1 0, .spread 1 1, .direct 3] := by decide

end Spread

end CallShape

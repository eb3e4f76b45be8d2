import CallShape.Proofs.Fields
import CallShape.Proofs.Flattening
import CallShape.Proofs.Placement

set_option autoImplicit false

namespace CallShape

section Pieces

variable {α : Type} (found : α → Bool) (piece : Nat → List α)

theorem countP_flatMap_range (count : Nat) :
    ((List.range count).flatMap piece).countP found =
      ∑ number ∈ Finset.range count, (piece number).countP found := by
  induction count with
  | zero => rfl
  | succ count ih =>
      rw [flatMap_range_succ, List.countP_append, ih, Finset.sum_range_succ]

/-- The places found in each piece, shifted by the pieces before it. -/
theorem findIdxs_flatMap_range (count : Nat) :
    ((List.range count).flatMap piece).findIdxs found =
      (List.range count).flatMap fun number =>
        ((piece number).findIdxs found).map (· + ((List.range number).flatMap piece).length) := by
  induction count with
  | zero => rfl
  | succ count ih =>
      rw [flatMap_range_succ, flatMap_range_succ, List.findIdxs_append, ih, Nat.zero_add,
        List.findIdxs_start]

/-- The first place found at all is the first one in the first piece that has any. -/
theorem findIdx?_flatMap_range {count : Nat} {place : Nat → Option Nat}
    (shifted : ∀ number, number < count → place number =
      ((piece number).findIdx? found).map (· + ((List.range number).flatMap piece).length)) :
    ((List.range count).flatMap piece).findIdx? found = (List.range count).findSome? place := by
  induction count with
  | zero => rfl
  | succ count ih =>
      have before := ih fun number below => shifted number (by omega)
      have last := shifted count (by omega)
      rw [flatMap_range_succ, List.findIdx?_append, before, ← last, List.range_succ,
        List.findSome?_append, List.findSome?_singleton]

end Pieces

namespace Signature

/-- One for a named slot, nothing for any other. -/
def namedAt (signature : Signature) (index : Nat) : Nat :=
  match signature.slotAt index with
  | .ok (.named _) => 1
  | _ => 0

/-- The places of `...` in the slot by itself: one if it is named so. -/
def restsAt (signature : Signature) (index : Nat) : List Nat :=
  match signature.isRestAt index with
  | .ok true => [0]
  | _ => []

/-- The place of the name in the slot by itself. -/
def placeAt (signature : Signature) (name : String) (index : Nat) : Option Nat :=
  match signature.nameAt index with
  | .ok (some own) => if own = name then some 0 else none
  | _ => none

variable {signature : Signature} {index : Nat} {slot : Slot}

theorem namedAt_of_slotAt (read : signature.slotAt index = .ok slot) :
    signature.namedAt index = [slot].countP Slot.isNamed := by
  rw [namedAt, read]
  cases slot <;> rfl

theorem restsAt_of_slotAt (read : signature.slotAt index = .ok slot) :
    signature.restsAt index = [slot].findIdxs Slot.isRest := by
  rw [restsAt, isRestAt, read, List.findIdxs_singleton]
  cases marked : slot.isRest <;> simp [Except.map, marked]

theorem placeAt_of_slotAt (name : String) (read : signature.slotAt index = .ok slot) :
    signature.placeAt name index = [slot].findIdx? (fun slot => slot.text? == some name) := by
  rw [placeAt, nameAt, read, List.findIdx?_singleton]
  cases text : slot.text? <;> simp [Except.map, text]

end Signature

namespace Spread

/-- What is read off a group: off the supplied slot where the group is ordinary, and off the
expansion where it is spread. -/
def reading {α : Type} (spread : Spread) (ordinary : Nat → α) (expanded : Signature → α)
    (group : Nat) : α :=
  match spread.groupAt group with
  | none => ordinary group
  | some expansion => expanded expansion

/-- The slots that a group stands for. -/
def share (spread : Spread) (supplied : Signature) (group : Nat) : List Slot :=
  spread.reading (fun index => supplied.slots[index]?.toList) Signature.slots group

theorem flattenWith_eq_flatMap {α : Type} (read : Signature → List α) {items : List α}
    {groups : List (Option Signature)} (covered : items.length = groups.length) :
    flattenWith read items groups =
      (List.range groups.length).flatMap fun group =>
        groups[group]?.join.elim items[group]?.toList read := by
  induction groups generalizing items with
  | nil =>
      rw [List.length_eq_zero_iff.mp covered]
      rfl
  | cons group groups ih =>
      obtain ⟨item, rest, rfl⟩ := List.exists_cons_of_length_eq_add_one covered
      rw [flattenWith_cons, ih (Nat.succ.inj covered), List.length_cons, flatMap_range_succ_left]
      rfl

/-- The flattened slots are those of the groups, one group after the other. -/
theorem flattenedSlots_eq_flatMap {pool : Interner} {spread : Spread} {supplied : Signature}
    (genuine : supplied.Genuine pool) (covered : supplied.arity = spread.length) :
    spread.flattenedSlots supplied =
      (List.range spread.length).flatMap (spread.share supplied) := by
  have sized : supplied.slots.length = spread.groups.length := by
    rw [← genuine.arity, covered, length]
  have pieces : spread.share supplied = fun group =>
      spread.groups[group]?.join.elim supplied.slots[group]?.toList Signature.slots := by
    funext group
    rw [share, reading, groupAt]
    cases spread.groups[group]?.join <;> rfl
  rw [flattenedSlots, flattenWith_eq_flatMap Signature.slots sized, pieces, length]

section Shares

variable {pool : Interner} {spread : Spread} {supplied : Signature}
variable (genuine : supplied.Genuine pool)
variable (expansions : ∀ expansion, some expansion ∈ spread.groups → expansion.Genuine pool)
variable (covered : supplied.arity = spread.length)
include genuine expansions covered

/-- What agrees with the slots of a group, whether they are one supplied slot or an expansion, is
read off the group. -/
theorem reading_eq_share {α : Type} (view : List Slot → α) (ordinary : Nat → α)
    (expanded : Signature → α)
    (one : ∀ index slot, supplied.slotAt index = .ok slot → ordinary index = view [slot])
    (all : ∀ expansion : Signature, expansion.Genuine pool →
      expanded expansion = view expansion.slots)
    {group : Nat} (inside : group < spread.length) :
    spread.reading ordinary expanded group = view (spread.share supplied group) := by
  rw [share, reading, reading]
  cases found : spread.groupAt group with
  | none =>
      -- The group is inside the spread, so there is a supplied slot for it.
      have within : group < supplied.slots.length := by
        rw [← genuine.arity, covered]
        exact inside
      have present := List.getElem?_eq_getElem within
      simp only [present, Option.toList_some]
      exact one group _ (genuine.slotAt present)
  | some expansion =>
      exact all expansion (expansions expansion (mem_groups_of_groupAt found))

theorem length_share {group : Nat} (inside : group < spread.length) :
    (spread.share supplied group).length = width (spread.groupAt group) := by
  have read := reading_eq_share genuine expansions covered List.length (fun _ => 1)
    Signature.arity (fun _ _ _ => rfl) (fun _ own => own.arity) inside
  rw [← read, reading]
  cases spread.groupAt group <;> rfl

/-- The flattened slots lie group by group at the offsets of the groups. -/
theorem length_shares {group : Nat} (inside : group < spread.length) :
    ((List.range group).flatMap (spread.share supplied)).length = spread.offset group :=
  length_pieces (fun _ => length_share genuine expansions covered) (Nat.le_of_lt inside)

theorem countP_named_flattenedSlots :
    (spread.flattenedSlots supplied).countP Slot.isNamed =
      ∑ group ∈ Finset.range spread.length,
        spread.reading supplied.namedAt Signature.namedCount group := by
  rw [flattenedSlots_eq_flatMap genuine covered, countP_flatMap_range]
  apply Finset.sum_congr rfl
  intro group member
  have inside := Finset.mem_range.mp member
  rw [reading_eq_share genuine expansions covered (List.countP Slot.isNamed) _ _
    (fun _ _ => Signature.namedAt_of_slotAt) (fun _ own => own.namedCount) inside]

theorem findIdxs_rest_flattenedSlots :
    (spread.flattenedSlots supplied).findIdxs Slot.isRest =
      (List.range spread.length).flatMap fun group =>
        (spread.reading supplied.restsAt Signature.rests group).map (· + spread.offset group) := by
  rw [flattenedSlots_eq_flatMap genuine covered, findIdxs_flatMap_range]
  apply List.flatMap_congr
  intro group member
  have inside := List.mem_range.mp member
  rw [length_shares genuine expansions covered inside,
    reading_eq_share genuine expansions covered (List.findIdxs Slot.isRest ·) _ _
      (fun _ _ => Signature.restsAt_of_slotAt) (fun _ own => own.rests) inside]

theorem findIdx?_name_flattenedSlots (name : String) :
    (spread.flattenedSlots supplied).findIdx? (fun slot => slot.text? == some name) =
      (List.range spread.length).findSome? fun group =>
        (spread.reading (supplied.placeAt name) (Signature.indexOfName · name) group).map
          (· + spread.offset group) := by
  rw [flattenedSlots_eq_flatMap genuine covered]
  apply findIdx?_flatMap_range
  intro group inside
  rw [length_shares genuine expansions covered inside,
    reading_eq_share genuine expansions covered
      (List.findIdx? (fun slot => slot.text? == some name)) _ _
      (fun _ _ => Signature.placeAt_of_slotAt name) (fun _ own => own.indexOfName_eq name) inside]

theorem share_positional_iff {group : Nat} (inside : group < spread.length) :
    (∀ slot ∈ spread.share supplied group, slot = .positional) ↔
      spread.reading (fun index => supplied.slotAt index = .ok .positional)
        (fun expansion => expansion.isAllPositional = true) group := by
  have read := reading_eq_share genuine expansions covered
    (fun slots => ∀ slot ∈ slots, slot = .positional)
    (fun index => supplied.slotAt index = .ok .positional)
    (fun expansion => expansion.isAllPositional = true)
    (fun _ _ read => by simp [read]) (fun _ own => propext own.isAllPositional_iff) inside
  rw [read]

theorem flattenedSlots_positional_iff :
    (∀ slot ∈ spread.flattenedSlots supplied, slot = .positional) ↔
      (∀ group, group < spread.length → spread.groupAt group = none →
        supplied.slotAt group = .ok .positional) ∧
      ∀ expansion, some expansion ∈ spread.groups → expansion.isAllPositional = true := by
  rw [flattenedSlots_eq_flatMap genuine covered]
  have groupwise : (∀ slot ∈ (List.range spread.length).flatMap (spread.share supplied),
      slot = .positional) ↔ ∀ group, group < spread.length →
        spread.reading (fun index => supplied.slotAt index = .ok .positional)
          (fun expansion => expansion.isAllPositional = true) group := by
    simp only [List.forall_mem_flatMap, List.mem_range]
    exact forall₂_congr fun _ => share_positional_iff genuine expansions covered
  rw [groupwise]
  constructor
  · intro all
    refine ⟨?_, ?_⟩
    · intro group inside ordinary
      have own := all group inside
      rwa [reading, ordinary] at own
    · intro expansion member
      obtain ⟨group, present⟩ := List.mem_iff_getElem?.mp member
      have found : spread.groupAt group = some expansion := by
        rw [groupAt, present, Option.join_some]
      have own := all group (groupAt_some_inside found)
      rwa [reading, found] at own
  · rintro ⟨slots, parts⟩ group inside
    rw [reading]
    cases found : spread.groupAt group with
    | none => exact slots group inside found
    | some expansion => exact parts expansion (mem_groups_of_groupAt found)

end Shares

end Spread

namespace Process

/-- In every reachable state, a call that there is room for is flattened, and what flattening
answers with says what its parts say: it has the names of the ordinary slots and of the expansions,
their `...` slots shifted by the offsets of their groups, it is all positional when all of them are,
and it finds a name in the first group that has it. -/
theorem flatten_follows_parts (process : Process) (reachable : process.Reachable)
    (id : TableId) (inside : id < process.tables.length) (supplied : Signature)
    (held : process.Holds supplied) (spread : Spread)
    (expansions : ∀ expansion, some expansion ∈ spread.groups → process.Holds expansion)
    (covered : supplied.arity = spread.length) :
    (spread.Fits → ∃ flat, (flatten id supplied spread process).answer = .ok flat) ∧
    ∀ flat, (flatten id supplied spread process).answer = .ok flat →
      (flat.namedCount = ∑ group ∈ Finset.range spread.length,
        spread.reading supplied.namedAt Signature.namedCount group) ∧
      (flat.rests = (List.range spread.length).flatMap fun group =>
        (spread.reading supplied.restsAt Signature.rests group).map (· + spread.offset group)) ∧
      (flat.isAllPositional = true ↔
        (∀ group, group < spread.length → spread.groupAt group = none →
          supplied.slotAt group = .ok .positional) ∧
        ∀ expansion, some expansion ∈ spread.groups → expansion.isAllPositional = true) ∧
      ∀ name, flat.indexOfName name = (List.range spread.length).findSome? fun group =>
        (spread.reading (supplied.placeAt name) (Signature.indexOfName · name) group).map
          (· + spread.offset group) := by
  have sound := reachable.sound
  have genuine := sound.genuine held
  have parts : ∀ expansion, some expansion ∈ spread.groups → expansion.Genuine process.pool :=
    fun expansion member => sound.genuine (expansions expansion member)
  refine ⟨fun fits => (flatten_attains sound inside held expansions covered fits).answers, ?_⟩
  intro flat success
  have kept := flatten_keeps sound id held expansions
  obtain ⟨flatHeld, slots⟩ := kept.answer flat success
  have flatGenuine := Sound.genuine kept.fit flatHeld.holds
  refine ⟨?_, ?_, ?_, ?_⟩
  · rw [flatGenuine.namedCount, slots,
      Spread.countP_named_flattenedSlots genuine parts covered]
  · rw [flatGenuine.rests, slots, Spread.findIdxs_rest_flattenedSlots genuine parts covered]
  · rw [flatGenuine.isAllPositional_iff, slots,
      Spread.flattenedSlots_positional_iff genuine parts covered]
  · intro name
    rw [flatGenuine.indexOfName_eq, slots,
      Spread.findIdx?_name_flattenedSlots genuine parts covered]

/-- A call that forwards `...` twice, and what the second one stands for. -/
def forwardingTwice : List Call :=
  [.openTable { cacheLength := 1 }, .openTable { cacheLength := 0 },
    .forNames (.numbered 0) [some "x", some "...", some "...", some "y"],
    .forNames (.numbered 1) [none, some "y", some "..."]]

/-- The first `...` stands for nothing, the second for three arguments with a name and a `...`
among them. -/
theorem flatten_follows_parts_forwarding_twice :
    (after forwardingTwice {}).Reachable ∧ ∃ supplied nothing expansion flat,
      (after forwardingTwice {}).Holds supplied ∧ (after forwardingTwice {}).Holds nothing ∧
      (after forwardingTwice {}).Holds expansion ∧
      (flatten 1 supplied ⟨[none, some nothing, some expansion, none]⟩
        (after forwardingTwice {})).answer = .ok flat ∧
      flat.namedCount = 4 ∧ flat.rests = [3] ∧ flat.isAllPositional ≠ true ∧
      flat.indexOfName "y" = some 2 ∧ flat.indexOfName "z" = none := by
  have reachable : (after forwardingTwice {}).Reachable :=
    ⟨forwardingTwice, ⟨trivial, trivial, trivial, trivial, trivial⟩, rfl⟩
  have held : (after forwardingTwice {}).Holds _ :=
    ⟨_, List.mem_of_getElem? (i := 0) rfl, List.mem_of_getElem? (i := 1) rfl⟩
  have nothingHeld : (after forwardingTwice {}).Holds _ :=
    ⟨_, List.mem_of_getElem? (i := 0) rfl, List.mem_of_getElem? (i := 0) rfl⟩
  have expansionHeld : (after forwardingTwice {}).Holds _ :=
    ⟨_, List.mem_of_getElem? (i := 1) rfl, List.mem_of_getElem? (i := 0) rfl⟩
  obtain ⟨answers, follows⟩ :=
    flatten_follows_parts _ reachable 1 (by decide +kernel) _ held
      ⟨[none, some _, some _, none]⟩ (by
        intro expansion member
        simp only [List.mem_cons, List.not_mem_nil, or_false, reduceCtorEq, false_or,
          Option.some.injEq] at member
        rcases member with rfl | rfl
        · exact nothingHeld
        · exact expansionHeld) rfl
  obtain ⟨flat, success⟩ := answers (by decide +kernel)
  obtain ⟨named, rests, positional, places⟩ := follows flat success
  refine ⟨reachable, _, _, _, flat, held, nothingHeld, expansionHeld, success, named.trans rfl,
    rests.trans rfl, ?_, (places "y").trans rfl, (places "z").trans rfl⟩
  intro all
  have first := (positional.mp all).1 0 (by decide) rfl
  cases first

end Process

end CallShape

import CallShape.Proofs.Canonical
import CallShape.Proofs.Reading

set_option autoImplicit false

namespace CallShape

/-- Signatures with the same labels answer every question alike. -/
theorem Signature.Genuine.ask_eq {first second : Signature} {pool later : Interner}
    (firstGenuine : first.Genuine pool) (secondGenuine : second.Genuine later)
    (same : first.labels = second.labels) (query : Query) :
    query.ask first = query.ask second := by
  rw [← ask_bare first, ← ask_bare second, firstGenuine.bare_eq, secondGenuine.bare_eq, same]

namespace Process

theorem Sound.beq_eq_false_of_ne {process : Process} (sound : process.Sound)
    {home other : TableId} (different : home ≠ other) {one two : Signature}
    (oneHeld : process.HeldBy home one) (twoHeld : process.HeldBy other two) :
    (one == two) = false := by
  change (one.serial == two.serial) = false
  rw [beq_eq_false_iff_ne]
  intro same
  exact different (sound.apart home other one two oneHeld twoHeld same)

/-- A table that is asked for the slots of a signature from elsewhere has an instance with just
these slots. -/
theorem Sound.canonical_attains {process : Process} (sound : process.Sound) {id : TableId}
    (inside : id < process.tables.length) {signature : Signature}
    (held : process.Holds signature) :
    discipline.Attains (canonical id signature.slots) process (Gives id signature.slots) :=
  ⟨canonical_keeps sound id (sound.genuine held).known,
    canonical_ok (List.getElem?_eq_getElem inside) _⟩

/-- Over every run, for two tables: a signature that one of them returned can be moved to the
other, where it reads the same in every way and is another instance; moved back, whatever was
called in between, it is the instance that it was. No instance was ever returned by both. -/
theorem moves_between_tables (calls : List Call) (admissible : Admissible calls {})
    (home other : TableId) (different : home ≠ other)
    (inside : other < (after calls {}).tables.length) :
    (∀ index call signature, Returned calls index home call signature →
      ∃ moved later notices,
        canonical other signature.slots (after calls {}) = ⟨.ok moved, later, notices⟩ ∧
        moved.SameShape signature ∧ (∀ query : Query, query.ask moved = query.ask signature) ∧
        (moved == signature) = false ∧
        ∀ between, Admissible between later →
          canonical home moved.slots (after between later) =
            ⟨.ok signature, after between later, []⟩) ∧
    (∀ first second firstCall secondCall one two,
      Returned calls first home firstCall one → Returned calls second other secondCall two →
      (one == two) = false) := by
  have sound := (new_sound.after admissible).1
  refine ⟨?_, ?_⟩
  · intro index call signature returned
    obtain ⟨-, -, held, -⟩ := returned.answers admissible
    have attained := sound.canonical_attains inside held.holds
    obtain ⟨moved, success, movedHeld, slots⟩ := attained.answered
    have heldStill := held.of_extends attained.grown
    have movedGenuine := Sound.genuine attained.fit movedHeld.holds
    have genuine := Sound.genuine attained.fit heldStill.holds
    have labels : moved.labels = signature.labels := by
      rw [Signature.labels, slots, Signature.labels]
    refine ⟨moved, _, _, congrArg (Outcome.mk · _ _) success, ?_, ?_, ?_, ?_⟩
    · exact (movedGenuine.sameShape_iff genuine).mpr slots
    · exact movedGenuine.ask_eq genuine labels
    · exact Sound.beq_eq_false_of_ne attained.fit different.symm movedHeld heldStill
    · intro between betweenAdmissible
      obtain ⟨fit, grown⟩ := Sound.after attained.fit betweenAdmissible
      rw [slots]
      exact fit.canonical_of_held (heldStill.of_extends grown)
  · intro first second firstCall secondCall one two oneReturned twoReturned
    obtain ⟨-, -, oneHeld, -⟩ := oneReturned.answers admissible
    obtain ⟨-, -, twoHeld, -⟩ := twoReturned.answers admissible
    exact sound.beq_eq_false_of_ne different oneHeld twoHeld

/-- A name goes through the second table before the first one is asked for it, and the global
table is the second. -/
def emigrating : List Call :=
  [.openTable { cacheLength := 1 }, .forNames .global [some "b", some "a"],
    .forNames (.numbered 0) [some "a", some "...", none],
    .forNames .global [some "a", some "...", none]]

theorem moves_between_tables_emigrating :
    Admissible emigrating {} ∧ ∃ signature abroad moved later notices,
      Returned emigrating 2 0 (.forNames (.numbered 0) [some "a", some "...", none]) signature ∧
      Returned emigrating 3 1 (.forNames .global [some "a", some "...", none]) abroad ∧
      (signature == abroad) = false ∧
      canonical 1 signature.slots (after emigrating {}) = ⟨.ok moved, later, notices⟩ ∧
      (Query.inspect .compact).ask moved = (Query.inspect .compact).ask signature ∧
      canonical 0 moved.slots (after [.symbol .global "c"] later) =
        ⟨.ok signature, after [.symbol .global "c"] later, []⟩ := by
  have admissible : Admissible emigrating {} := ⟨trivial, trivial, trivial, trivial, trivial⟩
  have returned : Returned emigrating 2 0 _ _ := ⟨rfl, rfl, rfl⟩
  have returnedAbroad : Returned emigrating 3 1 _ _ := ⟨rfl, rfl, rfl⟩
  obtain ⟨moves, apart⟩ :=
    moves_between_tables emigrating admissible 0 1 (by decide) (by decide +kernel)
  obtain ⟨moved, later, notices, answered, -, reads, -, back⟩ := moves 2 _ _ returned
  exact ⟨admissible, _, _, moved, later, notices, returned, returnedAbroad,
    apart 2 3 _ _ _ _ returned returnedAbroad, answered, reads _,
    back [.symbol .global "c"] ⟨trivial, trivial⟩⟩

end Process

end CallShape

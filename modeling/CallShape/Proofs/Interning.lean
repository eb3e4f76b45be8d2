import CallShape.Proofs.Action
import CallShape.Proofs.Pool

set_option autoImplicit false

namespace CallShape.Interner

/-- The second search and the adding, for a text that is there. -/
theorem claim_of_found {pool : Interner} {text : String} {symbol : Symbol}
    (found : pool.find? text = some symbol) : pool.claim text = .found symbol := by
  simp only [claim, found]

theorem claim_of_room {pool : Interner} {text : String} (missing : pool.find? text = none)
    (room : (pool.shardFor text).length ≤ Handle.maxPosition) :
    pool.claim text = .added (symbolAt text (pool.shardFor text).length) (pool.push text) := by
  simp only [claim, missing, room, if_true]

theorem claim_of_full {pool : Interner} {text : String} (missing : pool.find? text = none)
    (full : ¬ (pool.shardFor text).length ≤ Handle.maxPosition) :
    pool.claim text = .full (.shardFull (shardOf text) (pool.shardFor text).length) := by
  simp only [claim, missing, full, if_false]

theorem eq_push_of_claim {pool later : Interner} {text : String} {symbol : Symbol}
    (claimed : pool.claim text = .added symbol later) : later = pool.push text := by
  cases found : pool.find? text with
  | some other =>
      rw [claim_of_found found] at claimed
      cases claimed
  | none =>
      by_cases room : (pool.shardFor text).length ≤ Handle.maxPosition
      · rw [claim_of_room found room] at claimed
        cases claimed
        rfl
      · rw [claim_of_full found room] at claimed
        cases claimed

theorem intern_of_found {pool : Interner} {text : String} {symbol : Symbol}
    (found : pool.find? text = some symbol) : intern text pool = ⟨.ok symbol, pool, []⟩ := by
  simp only [intern, found]

theorem intern_of_room {pool : Interner} {text : String} (missing : pool.find? text = none)
    (room : (pool.shardFor text).length ≤ Handle.maxPosition) :
    intern text pool =
      ⟨.ok (symbolAt text (pool.shardFor text).length), (pool.push text).count,
        [.nameAdded text (shardOf text) (pool.total + 1)]⟩ := by
  simp only [intern, missing, claim_of_room missing room]
  rfl

theorem intern_of_full {pool : Interner} {text : String} (missing : pool.find? text = none)
    (full : ¬ (pool.shardFor text).length ≤ Handle.maxPosition) :
    intern text pool =
      ⟨.error (.shardFull (shardOf text) (pool.shardFor text).length), pool, []⟩ := by
  simp only [intern, missing, claim_of_full missing full]

/-- Only a full shard keeps a text from being interned, and only a text that is not there yet. -/
theorem intern_ok_iff (text : String) (pool : Interner) :
    (∃ symbol, (intern text pool).answer = .ok symbol) ↔
      (pool.find? text).isSome = true ∨ (pool.shardFor text).length ≤ Handle.maxPosition := by
  cases missing : pool.find? text with
  | some symbol => simp [intern_of_found missing]
  | none =>
      by_cases room : (pool.shardFor text).length ≤ Handle.maxPosition
      · simp [intern_of_room missing room, room]
      · simp [intern_of_full missing room, room]

theorem Sound.push_count {pool : Interner} (sound : pool.Sound) {text : String}
    (missing : pool.find? text = none)
    (room : (pool.shardFor text).length ≤ Handle.maxPosition) : (pool.push text).count.Sound where
  toOrderly := (sound.push missing room).count
  counted := by
    change pool.total + 1 = (pool.push text).held
    rw [held_push, sound.counted]

/-- Soundness and growth, as they are kept by everything that is done with an interner. -/
def discipline : Discipline Interner where
  fit := Sound
  grows := Grows
  refl := Grows.refl
  trans := Grows.trans

theorem intern_keeps {pool : Interner} (sound : pool.Sound) (text : String) :
    discipline.Keeps (intern text) pool (fun symbol after => after.find? text = some symbol) := by
  cases missing : pool.find? text with
  | some symbol => exact .of_ok (intern_of_found missing) sound (Grows.refl pool) missing
  | none =>
      by_cases room : (pool.shardFor text).length ≤ Handle.maxPosition
      · have found := sound.toOrderly.find?_push missing room
        exact .of_ok (intern_of_room missing room) (sound.push_count missing room)
          (grows_push pool text) found
      · exact .of_error (intern_of_full missing room) sound (Grows.refl pool)

/-- Interning a text makes no other text appear. -/
theorem find?_intern_of_ne (pool : Interner) {text other : String} (different : other ≠ text) :
    (intern text pool).state.find? other = none ↔ pool.find? other = none := by
  cases missing : pool.find? text with
  | some symbol => rw [intern_of_found missing]
  | none =>
      by_cases room : (pool.shardFor text).length ≤ Handle.maxPosition
      · rw [intern_of_room missing room]
        exact find?_push_of_ne pool different
      · rw [intern_of_full missing room]

/-- An interner that holds few texts has room for every text. -/
theorem Sound.intern_ok {pool : Interner} (sound : pool.Sound) (text : String)
    (few : pool.total ≤ Handle.maxPosition) :
    ∃ symbol, (intern text pool).answer = .ok symbol := by
  cases missing : pool.find? text with
  | some symbol => exact ⟨symbol, by rw [intern_of_found missing]⟩
  | none =>
      have room : (pool.shardFor text).length ≤ Handle.maxPosition := by
        have bound := length_texts_le_held pool (shardOf text)
        have counted := sound.counted
        rw [shardFor_eq]
        omega
      exact ⟨_, by rw [intern_of_room missing room]⟩

theorem total_intern_le (text : String) (pool : Interner) :
    (intern text pool).state.total ≤ pool.total + 1 := by
  cases missing : pool.find? text with
  | some symbol =>
      rw [intern_of_found missing]
      exact Nat.le_succ _
  | none =>
      by_cases room : (pool.shardFor text).length ≤ Handle.maxPosition
      · rw [intern_of_room missing room]
        exact Nat.le_refl _
      · rw [intern_of_full missing room]
        exact Nat.le_succ _

theorem slot_keeps {pool : Interner} (sound : pool.Sound) (label : Label) :
    discipline.Keeps (slot label) pool
      (fun slot after => slot.label = label ∧ after.Knows [slot]) := by
  cases label with
  | named text =>
      apply (intern_keeps sound text).bind
      intro symbol _ found fit _
      have own := find?_text found
      refine Discipline.Keeps.pure fit ⟨congrArg Label.named own, ?_⟩
      intro other member
      cases List.mem_singleton.mp member
      rw [own]
      exact found
  | positional =>
      exact Discipline.Keeps.pure sound ⟨rfl, fun symbol member => by simp at member⟩
  | unmatched =>
      exact Discipline.Keeps.pure sound ⟨rfl, fun symbol member => by simp at member⟩

theorem knows_of_forall₂ {pool : Interner} {labels : List Label} {slots : List Slot}
    (pairs : List.Forall₂ (fun label slot => slot.label = label ∧ pool.Knows [slot])
      labels slots) :
    slots.map Slot.label = labels ∧ pool.Knows slots := by
  induction pairs with
  | nil => exact ⟨rfl, fun symbol member => absurd member List.not_mem_nil⟩
  | cons head _ ih =>
      refine ⟨congrArg₂ List.cons head.1 ih.1, ?_⟩
      intro symbol member
      rcases List.mem_cons.mp member with first | later
      · exact head.2 symbol (List.mem_singleton.mpr first)
      · exact ih.2 symbol later

/-- The slots have the labels that were asked for, and the interner knows their names. -/
theorem slots_keeps {pool : Interner} (sound : pool.Sound) (labels : List Label) :
    discipline.Keeps (slots labels) pool
      (fun slots after => slots.map Slot.label = labels ∧ after.Knows slots) := by
  have each : discipline.Keeps (slots labels) pool (fun slots after =>
      List.Forall₂ (fun label slot => slot.label = label ∧ after.Knows [slot]) labels slots) := by
    apply Discipline.Keeps.each
    · intro label slot before after early late grown holds
      exact ⟨holds.1, early.toOrderly.knows_of_grows late.toOrderly grown holds.2⟩
    · intro label before fit _
      exact slot_keeps fit label
    · exact sound
  exact each.mono fun slots after _ _ pairs => knows_of_forall₂ pairs

theorem texts_blank (shard : Fin shardCount) :
    blank.texts shard = if shard = 0 then [""] else [] := by
  revert shard
  decide

theorem find?_blank_eq_none_iff (text : String) : blank.find? text = none ↔ text ≠ "" := by
  have empty : shardOf "" = 0 := rfl
  rw [find?_eq_none_iff, shardFor_eq, texts_blank]
  by_cases own : text = ""
  · subst own
    simp [empty]
  · split <;> simp [own]

theorem blank_sound : blank.Sound := by
  refine ⟨⟨?_, ?_, ?_⟩, ?_⟩
  · intro shard text member
    rw [texts_blank] at member
    split at member
    · rename_i zero
      rw [List.mem_singleton.mp member, zero]
      rfl
    · exact absurd member List.not_mem_nil
  · intro shard
    rw [texts_blank]
    split <;> simp
  · intro shard
    rw [texts_blank]
    split <;> simp
  · simp only [held, texts_blank, apply_ite List.length, List.length_singleton, List.length_nil,
      Finset.sum_ite_eq', Finset.mem_univ, if_true]
    rfl

theorem each_intern_keeps {pool : Interner} (sound : pool.Sound) (texts : List String) :
    discipline.Keeps (Action.each intern texts) pool
      (fun symbols after =>
        List.Forall₂ (fun text symbol => after.find? text = some symbol) texts symbols) := by
  apply Discipline.Keeps.each
  · intro text symbol before after early late grown found
    exact Orderly.find?_of_grows early.toOrderly late.toOrderly grown found
  · intro text before fit _
    exact intern_keeps fit text
  · exact sound

/-- A few texts are interned without fail into an interner that holds few. -/
theorem each_intern_ok {pool : Interner} (sound : pool.Sound) (texts : List String)
    (few : pool.total + texts.length ≤ Handle.maxPosition + 1) :
    ∃ symbols, (Action.each intern texts pool).answer = .ok symbols := by
  induction texts generalizing pool with
  | nil => exact ⟨[], rfl⟩
  | cons text rest ih =>
      rw [List.length_cons] at few
      obtain ⟨symbol, success⟩ := sound.intern_ok text (by omega)
      have size := total_intern_le text pool
      obtain ⟨symbols, later⟩ := ih (intern_keeps sound text).fit (by omega)
      exact ⟨symbol :: symbols,
        Action.each_cons_answer_of_ok intern text rest pool symbol symbols success later⟩

theorem initial_sound : initial.Sound := (each_intern_keeps blank_sound presets).fit

/-- A new interner has the empty text, the presets and no other text. -/
theorem find?_initial_eq_none_iff (text : String) :
    initial.find? text = none ↔ text ≠ "" ∧ text ∉ presets := by
  by_cases preset : text ∈ presets
  · have room : blank.total + presets.length ≤ Handle.maxPosition + 1 := by decide
    obtain ⟨symbols, success⟩ := each_intern_ok blank_sound presets room
    have found := (each_intern_keeps blank_sound presets).answer symbols success
    obtain ⟨lengths, pointwise⟩ := List.forall₂_iff_get.mp found
    obtain ⟨index, inside, rfl⟩ := List.getElem_of_mem preset
    have present := pointwise index inside (lengths ▸ inside)
    change initial.find? presets[index] = _ at present
    simp [present, preset]
  · have same : initial.find? text = none ↔ blank.find? text = none := by
      apply Action.each_preserves intern
        (fun pool => pool.find? text = none ↔ blank.find? text = none) presets
      · intro other member pool before
        have different : text ≠ other := fun equal => preset (equal ▸ member)
        exact (find?_intern_of_ne pool different).trans before
      · exact Iff.rfl
    rw [same, find?_blank_eq_none_iff]
    simp [preset]

end CallShape.Interner

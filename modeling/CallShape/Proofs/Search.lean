import CallShape.Proofs.Dictionary
import CallShape.Proofs.Fields
import CallShape.Proofs.History
import CallShape.Proofs.Outline
import CallShape.Proofs.Reading

set_option autoImplicit false

namespace CallShape

theorem Slot.beq_named (slot : Slot) (symbol : Symbol) :
    (slot == named symbol) = (slot.symbol? == some symbol) := by
  cases slot <;> rfl

namespace Signature.Genuine

variable {pool : Interner} {signature : Signature}

/-- A slot has the name that its symbol spells. -/
theorem nameAt_eq_ok_iff (genuine : signature.Genuine pool) (index : Nat) (text : String) :
    signature.nameAt index = .ok (some text) ↔
      ∃ slot, signature.slots[index]? = some slot ∧ slot.text? = some text := by
  simp only [← genuine.slotAt_eq_ok_iff, nameAt]
  cases signature.slotAt index with
  | error cause => simp [Except.map]
  | ok slot => simp [Except.map]

/-- The search by text finds the first slot with the name. -/
theorem indexOfName_eq_some_iff (genuine : signature.Genuine pool) (name : String) (index : Nat) :
    signature.indexOfName name = some index ↔ signature.nameAt index = .ok (some name) ∧
      ∀ earlier, earlier < index → signature.nameAt earlier ≠ .ok (some name) := by
  rw [genuine.indexOfName_eq, List.findIdx?_eq_some_iff_getElem]
  simp only [ne_eq, genuine.nameAt_eq_ok_iff, beq_iff_eq]
  constructor
  · rintro ⟨inside, own, before⟩
    refine ⟨⟨_, List.getElem?_eq_getElem inside, own⟩, ?_⟩
    rintro earlier ordered ⟨slot, present, same⟩
    obtain ⟨_, rfl⟩ := List.getElem?_eq_some_iff.mp present
    exact before earlier ordered same
  · rintro ⟨⟨slot, present, own⟩, before⟩
    obtain ⟨inside, rfl⟩ := List.getElem?_eq_some_iff.mp present
    refine ⟨inside, own, ?_⟩
    intro earlier ordered same
    exact before earlier ordered ⟨_, List.getElem?_eq_getElem (by omega), same⟩

theorem indexOfName_eq_none_iff (genuine : signature.Genuine pool) (name : String) :
    signature.indexOfName name = none ↔ ∀ index, signature.nameAt index ≠ .ok (some name) := by
  rw [genuine.indexOfName_eq, List.findIdx?_eq_none_iff]
  simp only [ne_eq, genuine.nameAt_eq_ok_iff, beq_eq_false_iff_ne]
  constructor
  · rintro absent index ⟨slot, present, same⟩
    exact absent slot (List.mem_of_getElem? present) same
  · intro absent slot member same
    obtain ⟨index, present⟩ := List.mem_iff_getElem?.mp member
    exact absent index ⟨slot, present, same⟩

/-- A named slot holds a symbol that the interner finds again by the slot's name. -/
theorem symbolAt_eq_ok_some (genuine : signature.Genuine pool) {index : Nat} {symbol : Symbol}
    (read : signature.symbolAt index = .ok (some symbol)) :
    signature.nameAt index = .ok (some symbol.text) ∧ pool.find? symbol.text = some symbol := by
  rw [symbolAt] at read
  cases slotRead : signature.slotAt index with
  | error cause =>
      rw [slotRead] at read
      cases read
  | ok slot =>
      rw [slotRead] at read
      cases slot with
      | positional => cases read
      | unmatched => cases read
      | named own =>
          cases read
          refine ⟨by rw [nameAt, slotRead]; rfl, ?_⟩
          exact genuine.known symbol (genuine.mem_of_slotAt slotRead)

/-- No name is found that the interner does not have. -/
theorem indexOfName_of_missing (genuine : signature.Genuine pool) {name : String}
    (missing : pool.find? name = none) : signature.indexOfName name = none := by
  rw [genuine.indexOfName_eq_none_iff]
  intro index read
  obtain ⟨slot, present, own⟩ := (genuine.nameAt_eq_ok_iff index name).mp read
  cases slot with
  | positional => cases own
  | unmatched => cases own
  | named symbol =>
      have found := genuine.known symbol (List.mem_of_getElem? present)
      rw [Option.some.inj own, missing] at found
      cases found

/-- Whether a slot is named `...` can be told by its symbol. -/
theorem isRestAt_eq (genuine : signature.Genuine pool) (orderly : pool.Orderly) {rest : Symbol}
    (found : pool.find? restName = some rest) {index : Nat} (inside : index < signature.arity) :
    ∃ own, signature.symbolAt index = .ok own ∧
      signature.isRestAt index = .ok (own == some rest) := by
  have spelled : rest.text = restName := Interner.find?_text found
  rw [genuine.arity] at inside
  have read := genuine.slotAt (List.getElem?_eq_getElem inside)
  have known : pool.Knows [signature.slots[index]] :=
    genuine.known.of_subset (List.cons_subset.mpr ⟨List.getElem_mem inside, List.nil_subset _⟩)
  have told : signature.slots[index].isRest = (signature.slots[index].symbol? == some rest) := by
    rw [Slot.isRest, ← spelled, ← orderly.slot_beq_named known (by rw [spelled, found]),
      Slot.beq_named]
  refine ⟨signature.slots[index].symbol?, ?_, ?_⟩
  · rw [symbolAt, read]
    rfl
  · rw [isRestAt, read, ← told]
    rfl

end Signature.Genuine

/-- Interning answers exactly when the text is there or its shard has room for it. -/
theorem Interner.intern_answers_iff (pool : Interner) (text : String) :
    (∃ symbol, (intern text pool).answer = .ok symbol) ↔
      (pool.find? text).isSome ∨ (pool.shardFor text).length ≤ Handle.maxPosition := by
  cases missing : pool.find? text with
  | some symbol => simp [intern_of_found missing]
  | none =>
      by_cases room : (pool.shardFor text).length ≤ Handle.maxPosition
      · simp [intern_of_room missing room, room]
      · simp [intern_of_full missing room, room]

namespace Process

theorem symbol_answer_iff {process : Process} {id : TableId} (inside : id < process.tables.length)
    (text : String) (symbol : Symbol) :
    (Process.symbol id text process).answer = .ok symbol ↔
      (Interner.intern text process.pool).answer = .ok symbol := by
  rw [symbol_of_present (List.getElem?_eq_getElem inside), onPool_answer_iff]

/-- The name of the rest arguments is there from the start. -/
theorem Reachable.find?_restName {process : Process} (reachable : process.Reachable) :
    ∃ rest, process.pool.find? restName = some rest := by
  obtain ⟨calls, admissible, rfl⟩ := reachable
  obtain ⟨sound, extended⟩ := new_sound.after admissible
  have preset : Interner.initial.find? restName ≠ none := by
    rw [ne_eq, Interner.find?_initial_eq_none_iff]
    decide
  obtain ⟨rest, found⟩ := Option.ne_none_iff_exists'.mp preset
  exact ⟨rest, Interner.initial_sound.toOrderly.find?_of_grows sound.pool.toOrderly
    extended.pool found⟩

/-- Whichever table interns the text, its symbol is found where the text is. -/
theorem Sound.indexOfSymbol_eq {process : Process} (sound : process.Sound) {signature : Signature}
    (held : process.Holds signature) {id : TableId} {text : String} {symbol : Symbol}
    (answered : (Process.symbol id text process).answer = .ok symbol) :
    signature.indexOfSymbol symbol = signature.indexOfName text := by
  have kept := symbol_keeps sound id text
  have spelled : symbol.text = text := Interner.find?_text (kept.answer symbol answered)
  have found : (Process.symbol id text process).state.pool.find? symbol.text = some symbol := by
    rw [spelled]
    exact kept.answer symbol answered
  -- Handles are compared in the interner that the call leaves: only there the text is sure to have
  -- one, and the names of the signature still have theirs.
  have genuine := Sound.genuine kept.fit (held.of_extends kept.grown)
  have orderly := (Sound.pool kept.fit).toOrderly
  rw [genuine.indexOfSymbol_eq orderly found, spelled]

/-- In every reachable state, for every signature that some table holds and every text: a table
has a symbol for the text unless the text is new and its shard full, and searching for that symbol
finds what searching for the text finds, which is the first slot with that name, and nothing if
the interner does not have the text; the handle of every name in the signature leads back to the
name, and a slot is named `...` exactly when it has the symbol of `...`. -/
theorem searches_agree (process : Process) (reachable : process.Reachable)
    (signature : Signature) (held : process.Holds signature) (text : String) :
    (∀ id, id < process.tables.length →
      ((∃ symbol, (Process.symbol id text process).answer = .ok symbol) ↔
        (process.pool.find? text).isSome ∨
          (process.pool.shardFor text).length ≤ Handle.maxPosition) ∧
      ∀ symbol, (Process.symbol id text process).answer = .ok symbol →
        signature.indexOfName text = signature.indexOfSymbol symbol) ∧
    (process.pool.find? text = none → signature.indexOfName text = none) ∧
    (∀ index, signature.indexOfName text = some index ↔
      signature.nameAt index = .ok (some text) ∧
        ∀ earlier, earlier < index → signature.nameAt earlier ≠ .ok (some text)) ∧
    (signature.indexOfName text = none ↔
      ∀ index, signature.nameAt index ≠ .ok (some text)) ∧
    (∀ index symbol, signature.symbolAt index = .ok (some symbol) →
      ∃ name, signature.nameAt index = .ok (some name) ∧
        process.pool.textAt symbol.handle = .ok name) ∧
    (∃ rest, process.pool.find? restName = some rest ∧
      (∀ id, id < process.tables.length →
        (Process.symbol id restName process).answer = .ok rest) ∧
      ∀ index, index < signature.arity → ∃ own, signature.symbolAt index = .ok own ∧
        signature.isRestAt index = .ok (own == some rest)) := by
  have sound := reachable.sound
  have genuine := sound.genuine held
  have orderly := sound.pool.toOrderly
  obtain ⟨rest, restFound⟩ := reachable.find?_restName
  refine ⟨?_, genuine.indexOfName_of_missing, genuine.indexOfName_eq_some_iff text,
    genuine.indexOfName_eq_none_iff text, ?_, rest, restFound, ?_, ?_⟩
  · intro id inside
    refine ⟨?_, fun symbol answered => (sound.indexOfSymbol_eq held answered).symm⟩
    simp only [symbol_answer_iff inside]
    exact process.pool.intern_answers_iff text
  · intro index symbol read
    obtain ⟨name, found⟩ := genuine.symbolAt_eq_ok_some read
    refine ⟨symbol.text, name, ?_⟩
    rw [Interner.textAt_eq_ok_iff]
    exact orderly.texts_of_find? found
  · intro id inside
    rw [symbol_answer_iff inside, Interner.intern_of_found restFound]
  · intro index inside
    exact genuine.isRestAt_eq orderly restFound inside

/-- A signature with a name twice and a `...` slot, and a second table opened later. -/
def repeating : List Call :=
  [.openTable { cacheLength := 1 }, .forNames (.numbered 0) [none, some "b", some "...", some "b"],
    .openTable { cacheLength := 0 }]

/-- The first `b` is found, also by the symbol that the other table gives; `c` is new to the
interner, so it is not found, and its symbol is not found either. -/
theorem searches_agree_repeating :
    (after repeating {}).Reachable ∧ ∃ signature old new own rest,
      (after repeating {}).Holds signature ∧
      (symbol 1 "b" (after repeating {})).answer = .ok old ∧
      signature.indexOfSymbol old = some 1 ∧
      (after repeating {}).pool.find? "c" = none ∧
      (symbol 1 "c" (after repeating {})).answer = .ok new ∧
      signature.indexOfSymbol new = none ∧
      (after repeating {}).pool.find? "..." = some rest ∧
      signature.symbolAt 2 = .ok own ∧ (own == some rest) = true := by
  have reachable : (after repeating {}).Reachable :=
    ⟨repeating, ⟨trivial, trivial, trivial, trivial⟩, rfl⟩
  have held : (after repeating {}).Holds _ :=
    ⟨_, List.mem_of_getElem? (i := 0) rfl, List.mem_of_getElem? (i := 1) rfl⟩
  have inside : 1 < (after repeating {}).tables.length := by decide +kernel
  have missing : (after repeating {}).pool.find? "c" = none := by decide +kernel
  obtain ⟨early, -, -, -, -, rest, found, -, told⟩ := searches_agree _ reachable _ held "b"
  obtain ⟨late, absent, -⟩ := searches_agree _ reachable _ held "c"
  obtain ⟨own, read, flag⟩ := told 2 (by decide +kernel)
  refine ⟨reachable, _, _, _, own, rest, held, rfl, ?_, missing, rfl, ?_, found, read, ?_⟩
  · exact ((early 1 inside).2 _ rfl).symm.trans rfl
  · exact ((late 1 inside).2 _ rfl).symm.trans (absent missing)
  · exact Except.ok.inj (flag.symm.trans rfl)

end Process

end CallShape

import CallShape.Proofs.Dictionary

set_option autoImplicit false

namespace CallShape

section Dups

variable {α : Type} [BEq α] [LawfulBEq α]

/-- An item goes to the end unless it came before. -/
theorem eraseDups_concat (items : List α) (last : α) [Decidable (last ∈ items)] :
    (items ++ [last]).eraseDups =
      if last ∈ items then items.eraseDups else items.eraseDups ++ [last] := by
  rw [List.eraseDups_append]
  split
  · rename_i old
    simp [List.removeAll, old]
  · rename_i new
    simp [List.removeAll, new, List.eraseDups_cons]

theorem eraseDups_append_of_subset {items more : List α} (old : ∀ item ∈ more, item ∈ items) :
    (items ++ more).eraseDups = items.eraseDups := by
  have nothing : more.removeAll items = [] := by
    rw [List.removeAll, List.filter_eq_nil_iff]
    intro item member
    simp [old item member]
  rw [List.eraseDups_append, nothing, List.eraseDups_nil, List.append_nil]

theorem nodup_eraseDups (items : List α) : items.eraseDups.Nodup := by
  classical
  induction items using List.reverseRecOn with
  | nil => exact List.nodup_nil
  | append_singleton items last ih =>
      rw [eraseDups_concat]
      split
      · exact ih
      · rename_i new
        refine ih.append (List.nodup_singleton last) (List.disjoint_singleton.mpr ?_)
        rwa [List.mem_eraseDups]

end Dups

def Label.text? : Label → Option String
  | .named text => some text
  | .positional => none
  | .unmatched => none

namespace Interner

/-- What is reported about a text that was new. -/
structure Entry where
  text : String
  shard : Nat
  total : Nat
  deriving DecidableEq, Repr

def Entry.notice (entry : Entry) : Notice := .nameAdded entry.text entry.shard entry.total

end Interner

def Notice.entry? : Notice → Option Interner.Entry
  | .nameAdded text shard total => some ⟨text, shard, total⟩
  | _ => none

/-- The texts that were reported as new, in order. -/
def entriesOf (notices : List Notice) : List Interner.Entry := notices.filterMap Notice.entry?

theorem entriesOf_append (first second : List Notice) :
    entriesOf (first ++ second) = entriesOf first ++ entriesOf second :=
  List.filterMap_append

namespace Interner

/-- The non-empty texts, each where it comes first. -/
def firsts (texts : List String) : List String := (texts.filter (· ≠ "")).eraseDups

theorem mem_firsts {texts : List String} {text : String} :
    text ∈ firsts texts ↔ text ≠ "" ∧ text ∈ texts := by
  rw [firsts, List.mem_eraseDups, List.mem_filter, decide_eq_true_eq, and_comm]

theorem firsts_append_of_old {texts more : List String}
    (old : ∀ text ∈ more, text = "" ∨ text ∈ texts) : firsts (texts ++ more) = firsts texts := by
  rw [firsts, List.filter_append]
  apply eraseDups_append_of_subset
  intro text member
  obtain ⟨listed, filled⟩ := List.mem_filter.mp member
  exact List.mem_filter.mpr
    ⟨(old text listed).resolve_left (of_decide_eq_true filled), filled⟩

theorem firsts_concat_of_new {texts : List String} {text : String} (filled : text ≠ "")
    (new : text ∉ texts) : firsts (texts ++ [text]) = firsts texts ++ [text] := by
  have missing : text ∉ texts.filter (· ≠ "") := fun member => new (List.mem_filter.mp member).1
  have kept : [text].filter (· ≠ "") = [text] := by simp [filled]
  rw [firsts, List.filter_append, kept, eraseDups_concat, if_neg missing]
  rfl

/-- Those of the texts that the interner holds. -/
def known (pool : Interner) (texts : List String) : List String :=
  texts.filter fun text => (pool.find? text).isSome

/-- The log of an interner that was asked for these texts, from a blank one on: it lists each text
that the interner holds, other than the empty one, where it was asked for first. -/
structure Ledger (pool : Interner) (asked : List String) (entries : List Entry) : Prop where
  sound : pool.Sound
  /-- In the order of first interning. -/
  order : entries.map Entry.text = firsts asked
  held : ∀ text, (pool.find? text).isSome = true ↔ text = "" ∨ text ∈ asked
  /-- Each with the shard of its symbol. -/
  shards : ∀ entry ∈ entries, ∃ symbol, pool.find? entry.text = some symbol ∧
    symbol.handle.shard.val = entry.shard
  /-- The counter starts at two, for the empty text is there before, and has no gaps. -/
  totals : entries.map Entry.total = List.range' 2 entries.length
  count : pool.total = entries.length + 1

namespace Ledger

variable {pool : Interner} {asked : List String} {entries : List Entry}

theorem distinct (ledger : pool.Ledger asked entries) : (entries.map Entry.text).Nodup := by
  rw [ledger.order]
  exact nodup_eraseDups _

theorem mem_texts_iff (ledger : pool.Ledger asked entries) (text : String) :
    text ∈ entries.map Entry.text ↔ text ≠ "" ∧ (pool.find? text).isSome = true := by
  rw [ledger.order, mem_firsts, ledger.held]
  constructor
  · exact fun listed => ⟨listed.1, Or.inr listed.2⟩
  · exact fun held => ⟨held.1, held.2.resolve_left held.1⟩

theorem blank : Interner.blank.Ledger [] [] where
  sound := blank_sound
  order := rfl
  held text := by
    rw [Option.isSome_iff_ne_none, Ne, find?_blank_eq_none_iff]
    simp
  shards _ member := absurd member List.not_mem_nil
  totals := rfl
  count := rfl

/-- To ask again for what is there makes no difference. -/
theorem again (ledger : pool.Ledger asked entries) {more : List String}
    (old : ∀ text ∈ more, (pool.find? text).isSome = true) :
    pool.Ledger (asked ++ more) entries where
  sound := ledger.sound
  order := by
    rw [firsts_append_of_old fun text member => (ledger.held text).mp (old text member)]
    exact ledger.order
  held text := by
    rw [ledger.held, List.mem_append]
    constructor
    · rintro (empty | listed)
      · exact Or.inl empty
      · exact Or.inr (Or.inl listed)
    · rintro (empty | listed | further)
      · exact Or.inl empty
      · exact Or.inr listed
      · exact (ledger.held text).mp (old text further)
  shards := ledger.shards
  totals := ledger.totals
  count := ledger.count

theorem known (ledger : pool.Ledger asked entries) (texts : List String) :
    pool.Ledger (asked ++ pool.known texts) entries :=
  ledger.again fun _ member => (List.mem_filter.mp member).2

theorem push (ledger : pool.Ledger asked entries) {text : String}
    (missing : pool.find? text = none)
    (room : (pool.shardFor text).length ≤ Handle.maxPosition) :
    (pool.push text).count.Ledger (asked ++ [text])
      (entries ++ [⟨text, shardOf text, pool.total + 1⟩]) := by
  have absent : ¬ (text = "" ∨ text ∈ asked) := by
    rw [← ledger.held, missing]
    exact Bool.false_ne_true
  obtain ⟨filled, new⟩ := not_or.mp absent
  have found := ledger.sound.toOrderly.find?_push missing room
  refine ⟨ledger.sound.push_count missing room, ?_, ?_, ?_, ?_, ?_⟩
  · rw [List.map_append, ledger.order, firsts_concat_of_new filled new]
    rfl
  · intro other
    change ((pool.push text).find? other).isSome = true ↔ _
    by_cases own : other = text
    · subst own
      simp [found]
    · rw [Option.isSome_iff_ne_none, Ne, find?_push_of_ne pool own, ← Ne,
        ← Option.isSome_iff_ne_none, ledger.held]
      simp [own]
  · intro entry member
    rcases List.mem_append.mp member with old | last
    · obtain ⟨symbol, own, shard⟩ := ledger.shards entry old
      exact ⟨symbol, ledger.sound.toOrderly.find?_of_grows
        (ledger.sound.push_count missing room).toOrderly (grows_push pool text) own, shard⟩
    · rw [List.mem_singleton.mp last]
      exact ⟨_, found, congrArg Fin.val (Handle.shard_pack _ _ room)⟩
  · rw [List.map_append, ledger.totals, List.length_append, List.length_singleton,
      List.range'_1_concat, ledger.count, Nat.add_comm 2, List.map_singleton]
  · change pool.total + 1 = _
    rw [ledger.count, List.length_append, List.length_singleton]

end Ledger

section Interning

variable {pool : Interner} {asked : List String} {entries : List Entry}

/-- Only a full shard fails, and then nothing has happened. -/
theorem intern_of_error {text : String} {reason : InternError}
    (failed : (intern text pool).answer = .error reason) :
    intern text pool = ⟨.error reason, pool, []⟩ := by
  cases missing : pool.find? text with
  | some symbol =>
      rw [intern_of_found missing] at failed
      cases failed
  | none =>
      by_cases room : (pool.shardFor text).length ≤ Handle.maxPosition
      · rw [intern_of_room missing room] at failed
        cases failed
      · rw [intern_of_full missing room] at failed ⊢
        cases failed
        rfl

/-- One interning: the ledger gains what is reported. -/
theorem intern_ledger (ledger : pool.Ledger asked entries) (text : String) :
    (intern text pool).state.Ledger (asked ++ (intern text pool).state.known [text])
      (entries ++ entriesOf (intern text pool).notices) := by
  cases missing : pool.find? text with
  | some symbol =>
      rw [intern_of_found missing]
      exact (List.append_nil entries).symm ▸ ledger.known [text]
  | none =>
      by_cases room : (pool.shardFor text).length ≤ Handle.maxPosition
      · have found : (pool.push text).count.find? text = _ :=
          ledger.sound.toOrderly.find?_push missing room
        have held : (pool.push text).count.known [text] = [text] := by simp [Interner.known, found]
        rw [intern_of_room missing room, held]
        exact ledger.push missing room
      · rw [intern_of_full missing room]
        exact (List.append_nil entries).symm ▸ ledger.known [text]

/-- One text after the other. After a failure the rest is not asked for; what of it is held was
there before. -/
theorem each_intern_ledger (ledger : pool.Ledger asked entries) (texts : List String) :
    (Action.each intern texts pool).state.Ledger
      (asked ++ (Action.each intern texts pool).state.known texts)
      (entries ++ entriesOf (Action.each intern texts pool).notices) := by
  induction texts generalizing pool asked entries with
  | nil =>
      change pool.Ledger (asked ++ []) (entries ++ [])
      rw [List.append_nil, List.append_nil]
      exact ledger
  | cons text rest ih =>
      cases result : (intern text pool).answer with
      | error reason =>
          rw [Action.each_cons_of_error intern text rest pool reason result,
            intern_of_error result]
          exact (List.append_nil entries).symm ▸ ledger.known (text :: rest)
      | ok symbol =>
          have kept := intern_keeps ledger.sound text
          have found := kept.answer symbol result
          have later := each_intern_keeps kept.fit rest
          have foundLater := Orderly.find?_of_grows kept.fit.toOrderly later.fit.toOrderly
            later.grown found
          have first := intern_ledger ledger text
          have held : (intern text pool).state.known [text] = [text] := by
            simp [Interner.known, found]
          rw [held] at first
          have whole := ih first
          rw [Action.each_cons_state_of_ok intern text rest pool symbol result,
            Action.each_cons_notices_of_ok intern text rest pool symbol result, entriesOf_append,
            ← List.append_assoc]
          have heldLater : (Action.each intern rest (intern text pool).state).state.known
              (text :: rest) =
                [text] ++ (Action.each intern rest (intern text pool).state).state.known rest := by
            simp [Interner.known, foundLater]
          rw [heldLater, ← List.append_assoc]
          exact whole

theorem intern_reports (text : String) (pool : Interner) :
    ∃ entries : List Entry, (intern text pool).notices = entries.map Entry.notice ∧
      (entries.map Entry.text).Sublist [text] := by
  cases missing : pool.find? text with
  | some symbol =>
      rw [intern_of_found missing]
      exact ⟨[], rfl, List.nil_sublist _⟩
  | none =>
      by_cases room : (pool.shardFor text).length ≤ Handle.maxPosition
      · rw [intern_of_room missing room]
        exact ⟨[⟨text, shardOf text, pool.total + 1⟩], rfl, List.Sublist.refl _⟩
      · rw [intern_of_full missing room]
        exact ⟨[], rfl, List.nil_sublist _⟩

/-- Texts are reported in the order in which they are interned, and nothing else is reported. -/
theorem each_intern_reports (texts : List String) (pool : Interner) :
    ∃ entries : List Entry, (Action.each intern texts pool).notices = entries.map Entry.notice ∧
      (entries.map Entry.text).Sublist texts := by
  induction texts generalizing pool with
  | nil => exact ⟨[], rfl, List.Sublist.refl []⟩
  | cons text rest ih =>
      obtain ⟨entries, reported, left⟩ := intern_reports text pool
      cases result : (intern text pool).answer with
      | error reason =>
          rw [Action.each_cons_of_error intern text rest pool reason result]
          exact ⟨entries, reported, left.trans (List.sublist_append_left [text] rest)⟩
      | ok symbol =>
          obtain ⟨more, further, right⟩ := ih (intern text pool).state
          rw [Action.each_cons_notices_of_ok intern text rest pool symbol result, reported, further]
          refine ⟨entries ++ more, List.map_append.symm, ?_⟩
          rw [List.map_append]
          exact left.append right

/-- To intern the names of labels is to intern their texts. -/
theorem slots_eq_each (labels : List Label) (pool : Interner) :
    (slots labels pool).state = (Action.each intern (labels.filterMap Label.text?) pool).state ∧
      (slots labels pool).notices =
        (Action.each intern (labels.filterMap Label.text?) pool).notices := by
  induction labels generalizing pool with
  | nil => exact ⟨rfl, rfl⟩
  | cons label rest ih =>
      rw [slots]
      cases label with
      | positional =>
          rw [Action.each_cons_state_of_ok slot _ rest pool .positional rfl,
            Action.each_cons_notices_of_ok slot _ rest pool .positional rfl]
          exact ih pool
      | unmatched =>
          rw [Action.each_cons_state_of_ok slot _ rest pool .unmatched rfl,
            Action.each_cons_notices_of_ok slot _ rest pool .unmatched rfl]
          exact ih pool
      | named text =>
          have texts : (Label.named text :: rest).filterMap Label.text? =
              text :: rest.filterMap Label.text? := rfl
          have state : (slot (.named text) pool).state = (intern text pool).state :=
            Action.state_reply (intern text) Slot.named pool
          have notices : (slot (.named text) pool).notices = (intern text pool).notices :=
            Action.notices_reply (intern text) Slot.named pool
          rw [texts]
          cases result : (intern text pool).answer with
          | error reason =>
              have failed : (slot (.named text) pool).answer = .error reason := by
                rw [slot, Action.bind_of_error _ _ pool reason result]
              rw [Action.each_cons_of_error slot _ rest pool reason failed,
                Action.each_cons_of_error intern text _ pool reason result]
              exact ⟨state, notices⟩
          | ok symbol =>
              have success : (slot (.named text) pool).answer = .ok (.named symbol) := by
                rw [slot, Action.bind_of_ok _ _ pool symbol result]
                rfl
              rw [Action.each_cons_state_of_ok slot _ rest pool _ success,
                Action.each_cons_notices_of_ok slot _ rest pool _ success, state, notices,
                Action.each_cons_state_of_ok intern text _ pool symbol result,
                Action.each_cons_notices_of_ok intern text _ pool symbol result]
              exact ⟨(ih _).1, congrArg _ (ih _).2⟩

theorem slots_ledger (ledger : pool.Ledger asked entries) (labels : List Label) :
    (slots labels pool).state.Ledger
      (asked ++ (slots labels pool).state.known (labels.filterMap Label.text?))
      (entries ++ entriesOf (slots labels pool).notices) := by
  obtain ⟨state, notices⟩ := slots_eq_each labels pool
  rw [state, notices]
  exact each_intern_ledger ledger _

theorem slots_reports (labels : List Label) (pool : Interner) :
    ∃ entries : List Entry, (slots labels pool).notices = entries.map Entry.notice ∧
      (entries.map Entry.text).Sublist (labels.filterMap Label.text?) := by
  rw [(slots_eq_each labels pool).2]
  exact each_intern_reports _ pool

/-- A new interner has the presets in its ledger, in their order. -/
theorem initial_ledger : initial.Ledger presets (entriesOf start.notices) := by
  have held : initial.known presets = presets := by
    rw [known, List.filter_eq_self]
    intro text preset
    rw [Option.isSome_iff_ne_none]
    exact fun missing => ((find?_initial_eq_none_iff text).mp missing).2 preset
  have ledger := each_intern_ledger Ledger.blank presets
  rw [List.nil_append, List.nil_append] at ledger
  exact held ▸ ledger

end Interning

section Run

/-- The texts that a request asks the interner to take in. -/
def Request.texts : Request → List String
  | .internSymbol text => [text]
  | .internHandle text => [text]
  | .find _ => []
  | .textAt _ => []

/-- Everything that the requests reported, in order. -/
def noticesOf : List Request → Interner → List Notice
  | [], _ => []
  | request :: rest, pool =>
      (request.perform pool).notices ++ noticesOf rest (request.perform pool).state

/-- The texts that were interned in a run, in order, as often as they were: one that was refused is
not held then. -/
def interned : List Request → Interner → List String
  | [], _ => []
  | request :: rest, pool =>
      (request.perform pool).state.known request.texts ++
        interned rest (request.perform pool).state

variable {pool : Interner} {asked : List String} {entries : List Entry}

theorem perform_ledger (ledger : pool.Ledger asked entries) (request : Request) :
    (request.perform pool).state.Ledger
      (asked ++ (request.perform pool).state.known request.texts)
      (entries ++ entriesOf (request.perform pool).notices) := by
  cases request with
  | internSymbol text => exact intern_ledger ledger text
  | internHandle text => exact intern_ledger ledger text
  | find text => exact (List.append_nil entries).symm ▸ ledger.known []
  | textAt handle => exact (List.append_nil entries).symm ▸ ledger.known []

theorem after_ledger (ledger : pool.Ledger asked entries) (requests : List Request) :
    (after requests pool).Ledger (asked ++ interned requests pool)
      (entries ++ entriesOf (noticesOf requests pool)) := by
  induction requests generalizing pool asked entries with
  | nil =>
      change pool.Ledger (asked ++ []) (entries ++ [])
      rw [List.append_nil, List.append_nil]
      exact ledger
  | cons request rest ih =>
      rw [interned, noticesOf, entriesOf_append, ← List.append_assoc, ← List.append_assoc]
      exact ih (perform_ledger ledger request)

end Run

end Interner

end CallShape

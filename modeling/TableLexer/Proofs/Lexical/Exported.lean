import Mathlib.Data.List.Nodup
import Mathlib.Data.List.ProdSigma
import TableLexer.Proofs.Json.Archives
import TableLexer.Proofs.Scan.Simulation
namespace TableLexer

open Lexical Scan

theorem filter_map_of_unique {α β : Type} [DecidableEq α] {xs : List α} (hnodup : xs.Nodup) {x : α}
    (hx : x ∈ xs) {f : α → β} {p : β → Bool} (hp : ∀ y, p (f y) ↔ y = x) :
    (xs.map f).filter p = [f x] := by
  have heq : p ∘ f = fun y => y == x := by
    funext y
    rw [Bool.eq_iff_iff, beq_iff_eq]
    exact hp y
  rw [List.filter_map, heq, List.filter_beq, List.count_eq_one_of_mem hnodup hx]
  rfl

namespace TableArchive

/-- Where the transitions from a state lead on a symbol, by name. -/
def targets (d : TableArchive) (name : String) (c : Char) : List String :=
  (d.transitions.filter fun t => t.1 = name ∧ t.2.1 = c).map fun t => t.2.2

/-- The flags of the states with a name. -/
def flags (d : TableArchive) (name : String) : List Bool :=
  (d.states.filter fun s => s.name = name).map NamedState.isFinal

/-- The states that a word leads through, each with its flag. There is none where the names leave
a choice, or none at all. -/
def trail? (d : TableArchive) : String → List Char → Option (List NamedState)
  | _, [] => some []
  | name, c :: word =>
    match d.targets name c with
    | [target] =>
      match d.flags target with
      | [isFinal] => (d.trail? target word).map (⟨target, isFinal⟩ :: ·)
      | _ => none
    | _ => none

end TableArchive

/-- Takes a word symbol by symbol. After each one stands what the answer was and the state. -/
def Automaton.visits (a : Automaton) :
    List Char → Except AutomatonError (List (Bool × Option State))
  | [] => .ok []
  | c :: word => do
    let (isFinal, next) ← a.advance c
    return (isFinal, State.ofId? next.session.current) :: (← next.visits word)

theorem Automaton.advance_of_advance? {a : Automaton} {c : Char} {next : Session StateId}
    (h : a.session.advance? a.machine c = some next) :
    a.advance c = .ok (a.isFinal next.current, { a with session := next }) := by
  rw [advance, h]

/-- The states that a word leads through. -/
def Lexical.State.trail (s : State) : List Char → List State
  | [] => []
  | c :: word => s.next c :: (s.next c).trail word

namespace Lexical.Table

/-- A table as it is built: the states in their order, and transitions that follow the rules. -/
structure Complete (t : Table) : Prop where
  states : t.automaton.states.toList = State.all.map State.named
  follows : t.Follows

namespace Complete

variable {t : Table} (h : t.Complete)
include h

theorem implements (p : Policy) : Implements t.automaton ⟨t.machine, t.alphabet, p⟩ :=
  implements_of_table h.follows h.states p

theorem target? (s : State) {c : Char} (hc : c ∈ t.alphabet.symbols) :
    t.automaton.target? s.id c = some (s.next c).id :=
  (h.implements .recover).target? s c (Alphabet.contains_iff.mpr hc)

theorem name (s : State) : t.automaton.name s.id = s.name := by
  have hnamed : t.automaton.states[s.id.position]? = some s.named := by
    rw [← Array.getElem?_toList, h.states]
    cases s <;> rfl
  rw [Automaton.name, hnamed]
  rfl

theorem stateIds : t.automaton.stateIds = State.all.map State.id := by
  have hsize : t.automaton.states.size = 38 := by
    rw [← Array.length_toList, h.states]
    rfl
  rw [Automaton.stateIds, hsize]
  rfl

theorem states_ofTable : (TableArchive.ofTable t).states = State.all.map State.named := by
  rw [TableArchive.ofTable, h.stateIds, List.map_map]
  refine List.map_congr_left fun s _ => ?_
  simp only [Function.comp_def, h.name, (h.implements .recover).isFinal]
  rfl

theorem transitions_ofTable :
    (TableArchive.ofTable t).transitions = (State.all.product t.alphabet.symbols).map
      fun x => (x.1.name, x.2, (x.1.next x.2).name) := by
  rw [TableArchive.ofTable, h.stateIds, List.flatMap_map, List.product, List.map_flatMap]
  refine List.flatMap_congr fun s _ => ?_
  rw [List.map_map, ← List.filterMap_eq_map]
  refine List.filterMap_congr fun c hc => ?_
  rw [h.target? s hc, Option.map_some, h.name, h.name]
  rfl

theorem targets_ofTable (s : State) {c : Char} (hc : c ∈ t.alphabet.symbols) :
    (TableArchive.ofTable t).targets s.name c = [(s.next c).name] := by
  have hcells : (State.all.product t.alphabet.symbols).Nodup :=
    List.Nodup.product (by decide) t.alphabet.nodup
  have hcell : (s, c) ∈ State.all.product t.alphabet.symbols :=
    List.mem_product.mpr ⟨s.mem_all, hc⟩
  rw [TableArchive.targets, h.transitions_ofTable, filter_map_of_unique hcells hcell]
  · rfl
  · rintro ⟨s', c'⟩
    simp only [decide_eq_true_eq, Prod.mk.injEq]
    exact and_congr_left fun _ => ⟨State.name_injective, congrArg State.name⟩

theorem flags_ofTable (s : State) : (TableArchive.ofTable t).flags s.name = [s.isFinal] := by
  have hstates : State.all.Nodup := by decide
  rw [TableArchive.flags, h.states_ofTable, filter_map_of_unique hstates s.mem_all]
  · rfl
  · intro s'
    rw [decide_eq_true_eq]
    exact ⟨State.name_injective, congrArg State.name⟩

theorem trail?_ofTable {word : List Char} (hword : ∀ c ∈ word, c ∈ t.alphabet.symbols)
    (s : State) :
    (TableArchive.ofTable t).trail? s.name word = some ((s.trail word).map State.named) := by
  induction word generalizing s with
  | nil => rfl
  | cons c word ih =>
    obtain ⟨hc, hrest⟩ := List.forall_mem_cons.mp hword
    rw [TableArchive.trail?, h.targets_ofTable s hc]
    simp only [h.flags_ofTable, ih hrest]
    rfl

theorem exists_advance {session : Session StateId} {s : State} (hs : session.current = s.id)
    {c : Char} (hc : c ∈ t.alphabet.symbols) :
    ∃ next : Session StateId, ({ t.automaton with session } : Automaton).advance c =
        .ok ((s.next c).isFinal, { t.automaton with session := next }) ∧
      next.current = (s.next c).id := by
  have htarget : t.automaton.machine.next? session.current c = some (s.next c).id := by
    rw [hs]
    exact h.target? s hc
  obtain ⟨next, hnext, hcurrent⟩ : ∃ next, session.advance? t.automaton.machine c = some next ∧
      next.current = (s.next c).id := by
    rw [Session.advance?, htarget]
    exact ⟨_, rfl, rfl⟩
  refine ⟨next, ?_, hcurrent⟩
  have hfinal : t.automaton.isFinal next.current = (s.next c).isFinal := by
    rw [hcurrent]
    exact (h.implements .recover).isFinal _
  rw [← hfinal]
  exact Automaton.advance_of_advance? hnext

theorem visits {word : List Char} (hword : ∀ c ∈ word, c ∈ t.alphabet.symbols) {s : State}
    {session : Session StateId} (hs : session.current = s.id) :
    ({ t.automaton with session } : Automaton).visits word =
      .ok ((s.trail word).map fun s => (s.isFinal, some s)) := by
  induction word generalizing s session with
  | nil => rfl
  | cons c word ih =>
    obtain ⟨hc, hrest⟩ := List.forall_mem_cons.mp hword
    obtain ⟨next, hadvance, hnext⟩ := h.exists_advance hs hc
    rw [Automaton.visits, hadvance]
    simp only [bind, Except.bind, ih hrest hnext, hnext, State.ofId?_id]
    rfl

end Complete

theorem exists_complete : ∃ t, standard.result = .ok t ∧ t.Complete := by
  obtain ⟨t, ht, _, hfollows, hstates, _⟩ := exists_build Alphabet.standard
  exact ⟨t, ht, hstates, hfollows⟩

end Lexical.Table

/-- The table on file is the machine that scans. Read back, it has the symbols of the alphabet, and
on any word over these it leads by names from state to state, with just one way to go on, while the
automaton, restarted wherever it was, takes the word without an error. Both go through the same
states, and what is final for one is final for the other. -/
theorem exported_table_scans :
    ∃ t d, Table.standard.result = .ok t ∧
      TableArchive.load? (TableArchive.ofTable t).toJson.pretty.toUTF8 = some d ∧
      d.alphabet.toList = t.alphabet.symbols ∧
      ∀ (word : List Char) (session : Session StateId), (∀ c ∈ word, c ∈ d.alphabet.toList) →
        ∃ states : List State,
          ({ t.automaton with session } : Automaton).restart.visits word =
            .ok (states.map fun s => (s.isFinal, some s)) ∧
          d.trail? "initial" word = some (states.map fun s => ⟨s.name, s.isFinal⟩) := by
  obtain ⟨t, ht, h⟩ := Table.exists_complete
  have hsymbols : (TableArchive.ofTable t).alphabet.toList = t.alphabet.symbols :=
    String.toList_ofList
  refine ⟨t, TableArchive.ofTable t, ht, TableArchive.load?_of_parse (Json.parse_pretty _),
    hsymbols, fun word session hword => ?_⟩
  rw [hsymbols] at hword
  exact ⟨State.initial.trail word, h.visits hword rfl, h.trail?_ofTable hword .initial⟩

/-- A word that goes on behind the end of a token. -/
theorem exported_table_scans_assign :
    let word := ":=.5 ".toList
    ∃ t d, Table.standard.result = .ok t ∧
      TableArchive.load? (TableArchive.ofTable t).toJson.pretty.toUTF8 = some d ∧
      (∀ c ∈ word, c ∈ d.alphabet.toList) ∧
      ∃ states : List State,
        t.automaton.restart.visits word = .ok (states.map fun s => (s.isFinal, some s)) ∧
          d.trail? "initial" word = some (states.map fun s => ⟨s.name, s.isFinal⟩) := by
  intro word
  obtain ⟨t, d, ht, hload, hsymbols, hruns⟩ := exported_table_scans
  obtain ⟨t', ht', halphabet, _⟩ := Table.exists_build Alphabet.standard
  obtain rfl : t' = t := Except.ok.inj (ht'.symm.trans ht)
  have hall : word.all Alphabet.sigma.toList.contains := by decide +kernel
  have hword : ∀ c ∈ word, c ∈ d.alphabet.toList := by
    intro c hc
    rw [hsymbols, halphabet, ← Alphabet.contains_iff, Alphabet.contains_standard]
    exact List.all_eq_true.mp hall c hc
  exact ⟨t', d, ht, hload, hword, hruns word t'.automaton.session hword⟩

end TableLexer

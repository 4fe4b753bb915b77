import TableLexer.Proofs.Lexicon.Archive
import TableLexer.Proofs.Scan.Recording
namespace TableLexer

open Scan

namespace Lexicon

/-- What a lexicon is used for. -/
inductive Use where
  | classify (lexeme : String) (terminal : Terminal)
  | scan (scanner : Scanner) (source : String) (report : Report)

/-- What a use comes to. -/
inductive Answer where
  | token (token : Token)
  | outcome (outcome : Scanner.Outcome)

def use (k : Lexicon) : Use → Answer × Lexicon
  | .classify lexeme terminal =>
    let (token, next) := k.register lexeme terminal
    (.token token, next)
  | .scan scanner source report =>
    let outcome := scanner.scanOnto source k report
    (.outcome outcome, outcome.lexicon)

def useAll (k : Lexicon) : List Use → List Answer × Lexicon
  | [] => ([], k)
  | u :: rest =>
    let (answer, next) := k.use u
    let (answers, last) := next.useAll rest
    (answer :: answers, last)

/-- The tokens that an answer hands out. -/
def Answer.tokens : Answer → List Token
  | .token t => [t]
  | .outcome o => o.observed

theorem exists_registerAll_use (k : Lexicon) (u : Use) :
    ∃ xs, (k.use u).1.tokens = (k.registerAll xs).1 ∧ (k.use u).2 = (k.registerAll xs).2 := by
  cases u with
  | classify lexeme terminal => exact ⟨[(terminal, lexeme)], rfl, rfl⟩
  | scan scanner source report =>
    have hw := scanner.wrote_recording source k report
    refine ⟨(scanner.move source).findings.toList.filterMap Finding.filed?, ?_, ?_⟩
    · rw [use, Answer.tokens, Scanner.observed_scanOnto]
      exact hw.observed.trans (List.nil_append _)
    · rw [use, Scanner.lexicon_scanOnto]
      exact hw.lexicon

theorem exists_registerAll_useAll (k : Lexicon) (uses : List Use) :
    ∃ xs, (k.useAll uses).1.flatMap Answer.tokens = (k.registerAll xs).1 ∧
      (k.useAll uses).2 = (k.registerAll xs).2 := by
  induction uses generalizing k with
  | nil => exact ⟨[], rfl, rfl⟩
  | cons u uses ih =>
    obtain ⟨xs, htokens, hnext⟩ := exists_registerAll_use k u
    obtain ⟨ys, hrest, hlast⟩ := ih (k.use u).2
    refine ⟨xs ++ ys, ?_, ?_⟩
    · rw [Lexicon.registerAll_append, ← hnext, ← htokens, ← hrest]
      rfl
    · rw [Lexicon.registerAll_append, ← hnext, ← hlast]
      rfl

/-- The lexicons there are: reserved words, and what any uses leave of them. -/
def Reached (k : Lexicon) : Prop :=
  ∃ (words : List String) (uses : List Use), ((ofReserved words).useAll uses).2 = k

/-- Every token handed out leads to a lexeme. -/
def Sound (k : Lexicon) : Prop := ∀ t ∈ k.tokens, (k.lexeme? t).isSome

theorem sound_ofReserved (words : List String) : (ofReserved words).Sound := by
  intro t ht
  simp [ofReserved] at ht

theorem Sound.register {k : Lexicon} (h : k.Sound) (lexeme : String) (t : Terminal) :
    (k.register lexeme t).2.Sound := by
  intro token hm
  obtain hm | rfl : token ∈ k.tokens ∨ token = (k.register lexeme t).1 := Array.mem_push.mp hm
  · obtain ⟨w, hw⟩ := Option.isSome_iff_exists.mp (h token hm)
    have hlater : (k.register lexeme t).2.lexeme? token = some w :=
      LexemeTable.lexeme?_of_prefix (lexemes_prefix_register k lexeme t token.category) hw
    rw [hlater]
    rfl
  · rw [lexeme?_register]
    rfl

theorem Sound.registerAll {k : Lexicon} (h : k.Sound) (xs : List (Terminal × String)) :
    (k.registerAll xs).2.Sound := by
  induction xs generalizing k with
  | nil => exact h
  | cons x xs ih => exact ih (h.register x.2 x.1)

theorem Sound.useAll {k : Lexicon} (h : k.Sound) (uses : List Use) :
    (k.useAll uses).2.Sound := by
  obtain ⟨xs, _, hlast⟩ := exists_registerAll_useAll k uses
  rw [hlast]
  exact h.registerAll xs

theorem Reached.sound {k : Lexicon} (h : k.Reached) : k.Sound := by
  obtain ⟨words, uses, rfl⟩ := h
  exact (sound_ofReserved words).useAll uses

theorem Sound.index_lt {k : Lexicon} (h : k.Sound) :
    ∀ t ∈ k.tokens, t.index < (k.table t.category).size := by
  intro t ht
  obtain ⟨w, hw⟩ := Option.isSome_iff_exists.mp (h t ht)
  exact (List.getElem?_eq_some_iff.mp hw).1

/-- Saving and loading a lexicon goes unnoticed: what is restored has the same tokens and tables,
and finds each lexeme where it stood, so that all later uses come to the same. No table holds more
lexemes than there are indices, which are machine words. -/
theorem restore_of_saved {k : Lexicon} (h : k.Reached)
    (hsize : ∀ c, (k.table c).size ≤ Token.indexBound) {text : String}
    (htext : text = (LexiconArchive.ofLexicon k).toJson.compact ∨
      text = (LexiconArchive.ofLexicon k).toJson.pretty) :
    ∃ archive restored, LexiconArchive.load? text.toUTF8 = some archive ∧
      archive.restore = .ok restored ∧ restored.tokens = k.tokens ∧ restored.tables = k.tables ∧
      (∀ c lexeme i, (restored.table c).get? lexeme = some i ↔
        (k.table c).lexeme? i = some lexeme) ∧
      ∀ uses, restored.useAll uses = k.useAll uses := by
  have hindex : ∀ t ∈ (LexiconArchive.ofLexicon k).tokens, t.index < Token.indexBound := by
    intro t ht
    have hlt := h.sound.index_lt t (Array.mem_toList_iff.mp ht)
    have hle := hsize t.category
    omega
  have hparse : Json.parse text = .ok (LexiconArchive.ofLexicon k).toJson := by
    rcases htext with rfl | rfl
    · exact Json.parse_compact _
    · exact Json.parse_pretty _
  exact ⟨_, k, LexiconArchive.load?_of_parse hindex hparse,
    LexiconArchive.restore_ofLexicon h.sound, rfl, rfl,
    fun _ _ _ => LexemeTable.get?_eq_some_iff, fun _ => rfl⟩

/-- A keyword and an illegal lexeme that JSON has to escape. -/
def sample : Lexicon :=
  ((ofReserved ["if"]).useAll
    [.classify "if" .identifierEnd, .classify "'\"\\\n" .illegal]).2

theorem restore_of_saved_sample :
    ∃ archive restored,
      LexiconArchive.load? (LexiconArchive.ofLexicon sample).toJson.compact.toUTF8 = some archive ∧
        archive.restore = .ok restored ∧
        restored.tokens = #[⟨.keyword, 0⟩, ⟨.illegal, 0⟩] := by
  have hsize : ∀ c, (sample.table c).size ≤ Token.indexBound := by
    intro c
    cases c <;> decide
  obtain ⟨archive, restored, hload, hrestore, htokens, _⟩ :=
    restore_of_saved ⟨_, _, rfl⟩ hsize (.inl rfl)
  exact ⟨archive, restored, hload, hrestore, htokens.trans (by decide)⟩

end Lexicon

end TableLexer

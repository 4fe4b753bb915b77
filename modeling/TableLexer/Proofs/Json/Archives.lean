import TableLexer.Lexical.Archive
import TableLexer.Proofs.Lexicon.Archive
namespace TableLexer

open Json

theorem NamedState.ofJson?_toJson (s : NamedState) : NamedState.ofJson? s.toJson = some s := by
  have hr : s.toJson.record? ["name", "is_final"] = some [ofText s.name, ofBool s.isFinal] :=
    record?_ofFields (by simp)
  simp only [NamedState.ofJson?, hr, Option.bind_eq_bind, Option.bind_some, text?_ofText]
  rfl

theorem char?_toString (c : Char) : (ofText c.toString).char? = some c := by
  simp [char?, text?_ofText]

theorem NamedTransition.ofJson?_toJson (t : NamedTransition) :
    NamedTransition.ofJson? (NamedTransition.toJson t) = some t := by
  have hi : (NamedTransition.toJson t).items? =
      some [ofText t.1, ofText t.2.1.toString, ofText t.2.2] := rfl
  simp only [NamedTransition.ofJson?, hi, Option.bind_eq_bind, Option.bind_some, text?_ofText,
    char?_toString]
  rfl

namespace TableArchive

theorem ofJson?_toJson (a : TableArchive) : ofJson? a.toJson = some a := by
  have hr : a.toJson.record? ["alphabet", "states", "transitions"] =
      some [ofText a.alphabet, ofList NamedState.toJson a.states,
        ofList NamedTransition.toJson a.transitions] := record?_ofFields (by simp)
  have hstates : (ofList NamedState.toJson a.states).listOf? NamedState.ofJson? =
      some a.states := listOf?_ofList fun s _ => NamedState.ofJson?_toJson s
  have htransitions : (ofList NamedTransition.toJson a.transitions).listOf?
      NamedTransition.ofJson? = some a.transitions :=
    listOf?_ofList fun t _ => NamedTransition.ofJson?_toJson t
  simp only [ofJson?, hr, Option.bind_eq_bind, Option.bind_some, text?_ofText, hstates,
    htransitions]
  rfl

/-- The bytes of a JSON text that says an archive load as that archive. -/
theorem load?_of_parse {a : TableArchive} {text : String} (hp : Json.parse text = .ok a.toJson) :
    load? text.toUTF8 = some a := by
  rw [load?, parseBytes_toUTF8, hp]
  exact ofJson?_toJson a

end TableArchive

/-- Nothing is lost on file, in either layout: archives load as what was written, whatever their
texts and symbols are, and whatever their indices, as long as these have 64 bits. -/
theorem load?_print (lexicon : LexiconArchive)
    (hindex : ∀ t ∈ lexicon.tokens, t.index < Token.indexBound) (table : TableArchive) :
    LexiconArchive.load? lexicon.toJson.compact.toUTF8 = some lexicon ∧
      LexiconArchive.load? lexicon.toJson.pretty.toUTF8 = some lexicon ∧
      TableArchive.load? table.toJson.compact.toUTF8 = some table ∧
      TableArchive.load? table.toJson.pretty.toUTF8 = some table :=
  ⟨LexiconArchive.load?_of_parse hindex (Json.parse_compact _),
    LexiconArchive.load?_of_parse hindex (Json.parse_pretty _),
    TableArchive.load?_of_parse (Json.parse_compact _),
    TableArchive.load?_of_parse (Json.parse_pretty _)⟩

/-- The greatest index there is, a token and tables that fit no lexicon, and characters that JSON
has to escape. -/
theorem load?_print_extremes :
    let lexicon : LexiconArchive :=
      ⟨[⟨.comment, Token.indexBound - 1⟩],
        [⟨.illegal, "", ["\"\\/\x00\n\x1fä\uFFFF", ""]⟩, ⟨.illegal, "😀", []⟩]⟩
    let table : TableArchive :=
      ⟨"\t", [⟨"\r\n", true⟩, ⟨"", false⟩], [("\x08\x0c", '"', "'"), ("é", '\x7f', "\u2028")]⟩
    LexiconArchive.load? lexicon.toJson.compact.toUTF8 = some lexicon ∧
      LexiconArchive.load? lexicon.toJson.pretty.toUTF8 = some lexicon ∧
      TableArchive.load? table.toJson.compact.toUTF8 = some table ∧
      TableArchive.load? table.toJson.pretty.toUTF8 = some table := by
  intro lexicon table
  have hindex : ∀ t ∈ lexicon.tokens, t.index < Token.indexBound := by decide
  exact load?_print lexicon hindex table

end TableLexer

import TableLexer.Scan.Scanner
namespace TableLexer.Scan

open Lexical

/-- The automaton with its run in progress, and where the token being read started. -/
structure Engine where
  automaton : Automaton
  tokenStart : Position

/-- What came of one character: the lexemes handed on, how often a character was read again behind
a token that it ended, where that left the engine, and why it gave up if it did. -/
structure Effect where
  tokens : List (Terminal × String)
  rereads : Nat
  engine : Engine
  failure? : Option LexError

namespace Engine

/-- The state of the language with the id of the one that the automaton is in. Without one there is
no telling how to go on. -/
def state? (e : Engine) : Option State := State.ofId? e.automaton.session.current

def lexeme (e : Engine) : String := e.automaton.session.lexeme

def restart (e : Engine) : Engine := { e with automaton := e.automaton.restart }

/-- The state of an engine, and the engine that has marked where a token starts in the initial
one. -/
def mark? (position : Position) (e : Engine) : Option (State × Engine) :=
  e.state?.map fun s => (s, if s = .initial then { e with tokenStart := position } else e)

def process (c : Char) (e : Engine) : Except AutomatonError Engine :=
  (e.automaton.advance c).map fun x => { e with automaton := x.2 }

def stay (e : Engine) : Effect := ⟨[], 0, e, none⟩

def fail (e : Engine) (error : LexError) : Effect := ⟨[], 0, e, some error⟩

/-- What is done about a lexeme that is no token. -/
def refuse (policy : Policy) (error : LexError) (lexeme : String) (e : Engine) : Effect :=
  match policy with
  | .failFast => e.fail error
  | .recover => ⟨[(.illegal, lexeme)], 0, e.restart, none⟩

def close? (policy : Policy) (e : Engine) : Option Effect :=
  e.state?.map fun s =>
    if s = .initial then e.stay
    else e.refuse policy (.unterminated e.tokenStart e.lexeme s.name) e.lexeme

end Engine

/-- An engine taking one character, with as many calls of itself as that takes: on the same
character behind a token, and on a blank in front of a foreign one. Where no rule applies the engine
is stuck, and where the calls do not come to an end there is no effect either. -/
inductive Feeds (alphabet : Alphabet) (policy : Policy) :
    Engine → Position × Char → Effect → Prop where
  | foreign {e marked : Engine} {s : State} {position : Position} {c : Char} :
      e.mark? position = some (s, marked) → alphabet.contains c = false →
      (policy = .recover → Cursor.endsPending s = false) →
      Feeds alphabet policy e (position, c)
        (marked.refuse policy (.outsideAlphabet position c) (marked.lexeme.push c))
  | pending {e marked : Engine} {s : State} {position : Position} {c : Char} {m : Effect} :
      e.mark? position = some (s, marked) → alphabet.contains c = false →
      policy = .recover → Cursor.endsPending s → Feeds alphabet policy marked (position, ' ') m →
      m.failure? = none →
      Feeds alphabet policy e (position, c)
        ⟨m.tokens ++ [(.illegal, m.engine.lexeme.push c)], m.rereads, m.engine.restart, none⟩
  | pendingFails {e marked : Engine} {s : State} {position : Position} {c : Char} {m : Effect}
      {error : LexError} : e.mark? position = some (s, marked) → alphabet.contains c = false →
      policy = .recover → Cursor.endsPending s → Feeds alphabet policy marked (position, ' ') m →
      m.failure? = some error → Feeds alphabet policy e (position, c) m
  | undefined {e marked : Engine} {s : State} {position : Position} {c : Char}
      {error : AutomatonError} : e.mark? position = some (s, marked) → alphabet.contains c →
      marked.process c = .error error →
      Feeds alphabet policy e (position, c) (marked.fail (.automaton error))
  | within {e marked moved : Engine} {s t : State} {position : Position} {c : Char} :
      e.mark? position = some (s, marked) → alphabet.contains c → marked.process c = .ok moved →
      moved.state? = some t → t.terminal? = none →
      Feeds alphabet policy e (position, c) moved.stay
  | spoils {e marked moved : Engine} {s t : State} {position : Position} {c : Char} :
      e.mark? position = some (s, marked) → alphabet.contains c → marked.process c = .ok moved →
      moved.state? = some t → t.terminal? = some .illegal →
      Feeds alphabet policy e (position, c)
        (moved.refuse policy (.illegal position (moved.lexeme.push c)) (moved.lexeme.push c))
  | ends {e marked moved : Engine} {s t : State} {position : Position} {c : Char}
      {terminal : Terminal} {m : Effect} : e.mark? position = some (s, marked) →
      alphabet.contains c → marked.process c = .ok moved → moved.state? = some t →
      t.terminal? = some terminal → terminal ≠ .illegal →
      Feeds alphabet policy moved.restart (position, c) m →
      Feeds alphabet policy e (position, c)
        ⟨(terminal, moved.lexeme) :: m.tokens, m.rereads + 1, m.engine, m.failure?⟩

/-- An engine taking all of its input and closing behind it: what came of every character that it
went on from, and what came last, of closing or of the character it gave up at. -/
inductive Drives (alphabet : Alphabet) (policy : Policy) :
    Engine → List (Position × Char) → List Effect → Effect → Prop where
  | close {e : Engine} {last : Effect} : e.close? policy = some last →
      Drives alphabet policy e [] [] last
  | stop {e : Engine} {i : Position × Char} {rest : List (Position × Char)} {last : Effect}
      {error : LexError} : Feeds alphabet policy e i last → last.failure? = some error →
      Drives alphabet policy e (i :: rest) [] last
  | more {e : Engine} {i : Position × Char} {rest : List (Position × Char)} {m last : Effect}
      {log : List Effect} : Feeds alphabet policy e i m → m.failure? = none →
      Drives alphabet policy m.engine rest log last →
      Drives alphabet policy e (i :: rest) (m :: log) last

variable {alphabet : Alphabet} {policy : Policy}

theorem Feeds.unique {e : Engine} {i : Position × Char} {m n : Effect}
    (hm : Feeds alphabet policy e i m) (hn : Feeds alphabet policy e i n) : n = m := by
  -- two rules never apply at once, and what one of them calls came to is settled by induction
  induction hm generalizing n with
  | foreign | undefined | within | spoils => cases hn <;> grind
  | pending | pendingFails | ends => cases hn <;> grind

theorem Drives.unique {e : Engine} {input : List (Position × Char)} {log log' : List Effect}
    {last last' : Effect} (h : Drives alphabet policy e input log last)
    (h' : Drives alphabet policy e input log' last') : log' = log ∧ last' = last := by
  induction h generalizing log' last' with
  | close hclose =>
    cases h' with
    | close hclose' => exact ⟨rfl, Option.some.inj (hclose'.symm.trans hclose)⟩
  | stop hfeeds hfail =>
    cases h' with
    | stop hfeeds' _ => exact ⟨rfl, hfeeds.unique hfeeds'⟩
    | more hfeeds' hok _ =>
      rw [hfeeds.unique hfeeds', hfail] at hok
      cases hok
  | more hfeeds hok _ ih =>
    cases h' with
    | stop hfeeds' hfail =>
      rw [hfeeds.unique hfeeds', hok] at hfail
      cases hfail
    | more hfeeds' _ hrest =>
      obtain rfl := hfeeds.unique hfeeds'
      obtain ⟨rfl, rfl⟩ := ih hrest
      exact ⟨rfl, rfl⟩

end TableLexer.Scan

import Std.Data.TreeMap
namespace TableLexer

/-- The position of a state among the declared ones. It has 16 bits, so the 65537th state shares
the id of the first. -/
structure StateId where
  index : UInt16
deriving DecidableEq, Repr

namespace StateId

def initial : StateId := ⟨0⟩

def ofPosition (n : Nat) : StateId := ⟨n.toUInt16⟩

def position (s : StateId) : Nat := s.index.toNat

end StateId

/-- A partial function from states and symbols to states. -/
structure Transitions where
  entries : Std.TreeMap Nat StateId

namespace Transitions

/-- Tells any two pairs of a state and a symbol apart. -/
def key (s : StateId) (c : Char) : Nat := s.position * 0x110000 + c.toNat

def empty : Transitions := ⟨∅⟩

def target? (t : Transitions) (s : StateId) (c : Char) : Option StateId := t.entries[key s c]?

def insert (t : Transitions) (s : StateId) (c : Char) (target : StateId) : Transitions :=
  ⟨t.entries.insert (key s c) target⟩

theorem key_inj {s₁ s₂ : StateId} {c₁ c₂ : Char} :
    key s₁ c₁ = key s₂ c₂ ↔ s₁ = s₂ ∧ c₁ = c₂ := by
  constructor
  · intro h
    have h₁ : c₁.toNat < 0x110000 := by have := c₁.valid; unfold Char.toNat; grind
    have h₂ : c₂.toNat < 0x110000 := by have := c₂.valid; unfold Char.toNat; grind
    unfold key at h
    have hs : s₁.position = s₂.position := by omega
    have hc : c₁.toNat = c₂.toNat := by omega
    refine ⟨?_, Char.toNat_inj.1 hc⟩
    cases s₁; cases s₂
    simpa [StateId.position, UInt16.toNat_inj] using hs
  · rintro ⟨rfl, rfl⟩; rfl

theorem target?_empty (s : StateId) (c : Char) : empty.target? s c = none := by
  simp [empty, target?]

theorem target?_insert (t : Transitions) (s s' target : StateId) (c c' : Char) :
    (t.insert s c target).target? s' c' =
      if s = s' ∧ c = c' then some target else t.target? s' c' := by
  simp [insert, target?, Std.TreeMap.getElem?_insert, key_inj]

end Transitions

end TableLexer

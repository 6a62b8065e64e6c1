import Holdem.Table.Config

/-!
# Settings that a table can be opened with

A table is only opened with settings that pass one check after another. The last of them looks at
every seat bought in at the most, and past it all arithmetic on the settings is exact: no buy-in
is capped, and the chips of the full table can as well be worked out in words, one factor after
the other.
-/
namespace Holdem

/-- A chain of checks is passed if each of them is. -/
theorem ite_error_eq_ok_iff {ε α : Type} {p : Prop} [Decidable p] {e : ε} {a : α}
    {rest : Except ε α} : (if p then .error e else rest) = .ok a ↔ ¬ p ∧ rest = .ok a := by
  split <;> simp [*]

/-- A product of chips, if it can be counted. -/
def product? (a b : Chips) : Option Chips := if a * b ≤ maxChips then some (a * b) else none

section Words
variable {a b : Chips}

theorem product?_eq (h : a * b ≤ maxChips) : product? a b = some (a * b) := if_pos h

theorem product?_eq_none (h : maxChips < a * b) : product? a b = none :=
  if_neg (Nat.not_le_of_lt h)

theorem cappedMul_eq (h : a * b ≤ maxChips) : cappedMul a b = a * b := Nat.min_eq_left h

end Words

namespace TableConfig
variable {c : TableConfig} {stack : Chips}

/-- Every seat bought in at the most, worked out in words. A number of seats that is too long for
a word loses what does not fit. -/
def fullTable? (c : TableConfig) : Option Chips := do
  product? (← product? c.maxBuyInBlinds c.bigBlind) (c.maxPlayers % (maxChips + 1))

/-- Blinds, buy-ins and seats that make sense, and chips that can be counted. -/
structure Sound (c : TableConfig) : Prop where
  blind : 0 < c.smallBlind
  blinds : c.smallBlind < c.bigBlind
  buyIn : 0 < c.minBuyInBlinds
  buyIns : c.minBuyInBlinds ≤ c.maxBuyInBlinds
  two : 2 ≤ c.maxPlayers
  seats : c.maxPlayers ≤ maxSeats
  chips : c.fullTable ≤ maxChips

theorem validate_eq_ok_iff : c.validate = .ok () ↔ c.Sound := by
  simp only [validate, ite_error_eq_ok_iff, not_or, Nat.not_lt, Nat.not_le, and_true]
  constructor
  · rintro ⟨hblind, hblinds, ⟨hbuyIns, hbuyIn⟩, ⟨htwo, hseats⟩, hchips⟩
    exact
      { blind := Nat.pos_of_ne_zero hblind
        blinds := hblinds
        buyIn := Nat.pos_of_ne_zero hbuyIn
        buyIns := hbuyIns
        two := htwo
        seats := hseats
        chips := hchips }
  · intro h
    exact ⟨Nat.ne_of_gt h.blind, h.blinds, ⟨h.buyIns, Nat.ne_of_gt h.buyIn⟩, ⟨h.two, h.seats⟩,
      h.chips⟩

theorem checkBuyIn_eq_ok_iff :
    c.checkBuyIn stack = .ok () ↔ c.minBuyIn ≤ stack ∧ stack ≤ c.maxBuyIn := by
  simp only [checkBuyIn, ite_error_eq_ok_iff, not_or, Nat.not_lt, and_true]

/-- One seat bought in at the most is part of the full table. -/
theorem most_le_fullTable (htwo : 2 ≤ c.maxPlayers) :
    c.maxBuyInBlinds * c.bigBlind ≤ c.fullTable :=
  Nat.le_mul_of_pos_right _ (Nat.lt_of_lt_of_le Nat.two_pos htwo)

/-- For every number of seats that a table can have, words count the full table or notice that
they cannot. -/
theorem fullTable?_eq (htwo : 2 ≤ c.maxPlayers) (hseats : c.maxPlayers ≤ maxSeats) :
    c.fullTable? = if c.fullTable ≤ maxChips then some c.fullTable else none := by
  have hword : c.maxPlayers % (maxChips + 1) = c.maxPlayers :=
    Nat.mod_eq_of_lt (Nat.lt_of_le_of_lt hseats (by decide))
  rw [fullTable?, hword]
  rcases Nat.lt_or_ge maxChips (c.maxBuyInBlinds * c.bigBlind) with hmany | hfits
  · -- The first product is too much already, and the second one is never taken.
    have hfull : maxChips < c.fullTable := Nat.lt_of_lt_of_le hmany (most_le_fullTable htwo)
    rw [product?_eq_none hmany, if_neg (Nat.not_le_of_lt hfull)]
    rfl
  · rw [product?_eq hfits]
    rfl

/-- With more seats the words can be wrong, which is why the seats are looked at first. -/
example : fullTable? { maxPlayers := 4294967298 } = some 2000 := by decide

/-- Buy-ins that are what the settings say, in chips that can be counted at every seat. -/
structure Exact (c : TableConfig) : Prop where
  least : c.minBuyIn = c.bigBlind * c.minBuyInBlinds
  most : c.maxBuyIn = c.bigBlind * c.maxBuyInBlinds
  positive : 0 < c.minBuyIn
  range : c.minBuyIn ≤ c.maxBuyIn
  full : c.fullTable? = some (c.maxBuyIn * c.maxPlayers)

namespace Sound

theorem most_le (h : c.Sound) : c.bigBlind * c.maxBuyInBlinds ≤ maxChips := by
  rw [Nat.mul_comm]
  exact Nat.le_trans (most_le_fullTable h.two) h.chips

theorem maxBuyIn_eq (h : c.Sound) : c.maxBuyIn = c.bigBlind * c.maxBuyInBlinds :=
  cappedMul_eq h.most_le

theorem minBuyIn_eq (h : c.Sound) : c.minBuyIn = c.bigBlind * c.minBuyInBlinds :=
  cappedMul_eq (Nat.le_trans (Nat.mul_le_mul_left _ h.buyIns) h.most_le)

theorem fullTable_eq (h : c.Sound) : c.fullTable = c.maxBuyIn * c.maxPlayers := by
  rw [h.maxBuyIn_eq, Nat.mul_comm c.bigBlind, fullTable]

/-- As many of the highest buy-ins as there are seats can be counted. -/
theorem buyIns_le {n : Nat} (h : c.Sound) (hn : n ≤ c.maxPlayers) : n * c.maxBuyIn ≤ maxChips :=
  calc
    n * c.maxBuyIn ≤ c.maxPlayers * c.maxBuyIn := Nat.mul_le_mul_right _ hn
    _ = c.fullTable := by rw [h.fullTable_eq, Nat.mul_comm]
    _ ≤ maxChips := h.chips

theorem exact (h : c.Sound) : c.Exact where
  least := h.minBuyIn_eq
  most := h.maxBuyIn_eq
  positive := by
    rw [h.minBuyIn_eq]
    exact Nat.mul_pos (Nat.zero_lt_of_lt h.blinds) h.buyIn
  range := by
    rw [h.minBuyIn_eq, h.maxBuyIn_eq]
    exact Nat.mul_le_mul_left _ h.buyIns
  full := by rw [fullTable?_eq h.two h.seats, if_pos h.chips, h.fullTable_eq]

end Sound
end TableConfig
end Holdem

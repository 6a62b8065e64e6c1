import Holdem.Proofs.Table.Happenings
import Holdem.Startup
import Mathlib.Data.Nat.ModEq

/-!
# The seeds of the tables opened at startup

A table keeps its settings, so that the deck of a hand there depends on their seed and the number
of the hand alone. Startup spreads its seed over the tables by their index, and a table spreads its
own over the hands by their number. Both count up from the same seed: two tables shuffle alike in
hands whose numbers are as far apart as the tables are, the other way round.
-/
namespace Holdem

/-- The seed of the deck for a hand at the startup table with this index. -/
def Startup.handSeed (s : Startup) (index number : Nat) : Option Nat :=
  (s.table index).shuffleSeed.map (Table.deckSeed · number)

/-- Tables are apart by less than the seeds go round. -/
theorem Startup.tableCount_lt {s : Startup} (h : s.validate = .ok ()) :
    s.tableCount < UInt64.size := by
  unfold validate at h
  split at h
  · cases h
  · next hcount =>
      have hmost : s.tableCount ≤ maxStartupTables := Nat.le_of_not_lt fun hlt => hcount (.inr hlt)
      exact Nat.lt_of_le_of_lt hmost (by decide)

/-- Startup tables can be opened if the settings they share are right. -/
theorem Startup.validate_table {s : Startup} (h : s.validate = .ok ()) (index : Nat) :
    (s.table index).validate = .ok () := by
  have hsame : (s.table index).validate = s.tableDefaults.validate := rfl
  rw [hsame]
  unfold validate at h
  split at h
  · cases h
  · cases hdefaults : s.tableDefaults.validate with
    | ok => rfl
    | error e =>
        rw [hdefaults] at h
        cases h

namespace Table
variable {t : Table} {config : TableConfig}

/-! ## Settings stay -/

theorem Happens.config_eq {a b : Table × Floor} (h : Happens a b) : b.1.config = a.1.config := by
  cases h with
  | clears => exact config_endHand
  | deals | goesOn | sitsDown | standsUp | talks | stops => rfl

theorem Goes.config_eq {a b : Table × Floor} (h : Goes a b) : b.1.config = a.1.config :=
  h.keeps (P := fun c => c.1.config = a.1.config) (fun hstep hc => hstep.config_eq.trans hc) rfl

theorem Ready.config_run (h : t.Ready) (visits : List Visit) :
    (t.run visits).1.config = t.config := by
  induction visits generalizing t with
  | nil => rfl
  | cons v rest ih =>
      have hfirst : (t.handle v.floor v.message).1.config = t.config :=
        config_handle.trans (respond_goes (f := v.floor) h.toWaiting h.quiet _).config_eq
      exact (ih (h.handle v.floor v.message)).trans hfirst

/-! ## Decks -/

/-- At some moment of some run a table that was opened with these settings deals the hand with
this number from this deck. -/
def DealtFrom (config : TableConfig) (number : Nat) (deck : Deck) : Prop :=
  ∃ (id : TableId) (visits : List Visit) (floor : Floor) (t : Table) (f : Floor)
    (dealer : PlayerId) (s : Spot),
    Goes (((create id config).run visits).1, floor) (t, f) ∧ t.hand = none ∧
      t.Deals f dealer s ∧ t.handsPlayed + 1 = number ∧ t.deck f number = deck

/-- With a seed the deck of a hand is known before it is dealt. -/
theorem DealtFrom.deck_eq {number seed : Nat} {deck : Deck} (h : DealtFrom config number deck)
    (hconfig : config.validate = .ok ()) (hseed : config.shuffleSeed = some seed) :
    deck = .seeded (deckSeed seed number) := by
  obtain ⟨id, visits, floor, t, f, dealer, s, hgoes, -, -, -, rfl⟩ := h
  have hsame : t.config = config :=
    hgoes.config_eq.trans ((create_ready id hconfig).config_run visits)
  rw [deck, hsame, hseed]

/-- The seed of a hand at a startup table counts up with the table as well as with the hand. -/
theorem handSeed_eq {s : Startup} {seed : Nat} (hseed : s.tableDefaults.shuffleSeed = some seed)
    (index number : Nat) :
    s.handSeed index number = some ((seed + (index + number)) % UInt64.size) := by
  have hround : Startup.maxWord64 + 1 = UInt64.size := rfl
  have htable : (s.table index).shuffleSeed = some ((seed + index) % UInt64.size) := by
    rw [Startup.table, hseed, hround]
    rfl
  rw [Startup.handSeed, htable, Option.map_some, deckSeed, Nat.mod_add_mod, Nat.add_assoc]

/-- The decks at startup tables come from a seed for the table and the hand. Those of two tables
come from the same one exactly if the table and the number of the hand add up to the same, going
round at 64 bits. In hands of the same number two tables never share a seed. -/
theorem share_seed_iff {s : Startup} {seed i j m n : Nat} {d e : Deck}
    (hs : s.validate = .ok ()) (hseed : s.tableDefaults.shuffleSeed = some seed)
    (hi : i < s.tableCount) (hj : j < s.tableCount) (hne : i ≠ j)
    (hd : DealtFrom (s.table i) m d) (he : DealtFrom (s.table j) n e) :
    ∃ x y, s.handSeed i m = some x ∧ s.handSeed j n = some y ∧ d = .seeded x ∧ e = .seeded y ∧
      (x = y ↔ i + m ≡ j + n [MOD UInt64.size]) ∧ (m = n → x ≠ y) := by
  have hdeck : ∀ {k number : Nat} {deck : Deck}, DealtFrom (s.table k) number deck →
      deck = .seeded ((seed + (k + number)) % UInt64.size) := by
    intro k number deck hdealt
    obtain ⟨own, hown, hsum⟩ := Option.map_eq_some_iff.mp (handSeed_eq hseed k number)
    rw [hdealt.deck_eq (Startup.validate_table hs k) hown, hsum]
  have hsame : (seed + (i + m)) % UInt64.size = (seed + (j + n)) % UInt64.size ↔
      i + m ≡ j + n [MOD UInt64.size] :=
    ⟨Nat.ModEq.add_left_cancel' seed, Nat.ModEq.add_left seed⟩
  refine ⟨_, _, handSeed_eq hseed i m, handSeed_eq hseed j n, hdeck hd, hdeck he, hsame, ?_⟩
  rintro rfl heq
  have hindex : i ≡ j [MOD UInt64.size] := Nat.ModEq.add_right_cancel' m (hsame.mp heq)
  exact hne (hindex.eq_of_lt_of_lt (hi.trans (Startup.tableCount_lt hs))
    (hj.trans (Startup.tableCount_lt hs)))

/-- Two tables that are opened at startup with a seed. -/
def twoSeeded : Startup :=
  { tableDefaults := { autoStart := false, shuffleSeed := some 7 }, tableCount := 2 }

/-- A player sits down next to another, who asks for the first hand. -/
def firstHand : List Visit :=
  [⟨threeKnown, .join 1 "ann" 500 none⟩, ⟨threeKnown, .join 2 "bob" 500 none⟩,
    ⟨threeKnown, .deal 1⟩]

/-- The first hand ends as the second player leaves, who comes back for another one. -/
def secondHand : List Visit :=
  firstHand ++ [⟨threeKnown, .leave 2⟩, ⟨threeKnown, .join 2 "bob" 500 none⟩,
    ⟨threeKnown, .deal 1⟩]

/-- Two players or more who have chips and wait for a hand can be dealt one. -/
theorem dealtFrom_waiting (id : TableId) (visits : List Visit) {number : Nat} (f : Floor)
    (h : config.validate = .ok ())
    (hwaits : ((create id config).run visits).1.hand.isNone = true ∧
      2 ≤ ((create id config).run visits).1.roster.funded.length ∧
      ((create id config).run visits).1.roster.totalChips ≤ maxChips ∧
      ((create id config).run visits).1.handsPlayed + 1 = number) :
    DealtFrom config number (((create id config).run visits).1.deck f number) := by
  obtain ⟨hnone, htwo, hcount, hnumber⟩ := hwaits
  rw [Option.isNone_iff_eq_none] at hnone
  obtain ⟨dealer, s, -, -, hdeals, -⟩ := startHand_spec f true
    ((create_waiting id h).run visits).toInOrder htwo hnone hcount
  exact ⟨id, visits, f, _, f, dealer, s, .refl, hnone, hdeals, hnumber, rfl⟩

theorem share_seed_iff_two_seeded :
    ∃ d e, DealtFrom (twoSeeded.table 0) 1 d ∧ DealtFrom (twoSeeded.table 1) 1 e ∧
      ∃ x y, twoSeeded.handSeed 0 1 = some x ∧ twoSeeded.handSeed 1 1 = some y ∧
        d = .seeded x ∧ e = .seeded y ∧ (x = y ↔ 0 + 1 ≡ 1 + 1 [MOD UInt64.size]) ∧
        (1 = 1 → x ≠ y) := by
  have hzero : DealtFrom (twoSeeded.table 0) 1 _ :=
    dealtFrom_waiting 1 (firstHand.take 2) threeKnown (by decide) (by decide +kernel)
  have hone : DealtFrom (twoSeeded.table 1) 1 _ :=
    dealtFrom_waiting 2 (firstHand.take 2) threeKnown (by decide) (by decide +kernel)
  exact ⟨_, _, hzero, hone, share_seed_iff (by decide) rfl (by decide) (by decide) (by decide)
    hzero hone⟩

/-- Whoever saw their cards in the first hand at the second table knows what is dealt in the second
hand at the first table. -/
theorem next_door_dealt_alike :
    twoSeeded.validate = .ok () ∧ 1 < twoSeeded.tableCount ∧
      (∃ d, DealtFrom (twoSeeded.table 0) 2 d) ∧ (∃ e, DealtFrom (twoSeeded.table 1) 1 e) ∧
      twoSeeded.handSeed 0 2 = some 9 ∧ twoSeeded.handSeed 1 1 = some 9 ∧
      ((create 1 (twoSeeded.table 0)).run secondHand).1.hand.bind (·.pocket? 1) =
        some [⟨14, .spade⟩, ⟨2, .club⟩] ∧
      ((create 2 (twoSeeded.table 1)).run firstHand).1.hand.bind (·.pocket? 1) =
        some [⟨14, .spade⟩, ⟨2, .club⟩] := by
  have hsecond : DealtFrom (twoSeeded.table 0) 2 _ :=
    dealtFrom_waiting 1 (secondHand.take 5) threeKnown (by decide) (by decide +kernel)
  have hfirst : DealtFrom (twoSeeded.table 1) 1 _ :=
    dealtFrom_waiting 2 (firstHand.take 2) threeKnown (by decide) (by decide +kernel)
  exact ⟨by decide, by decide, ⟨_, hsecond⟩, ⟨_, hfirst⟩, by decide, by decide,
    by decide +kernel, by decide +kernel⟩

end Table
end Holdem

import Holdem.Proofs.Hand.Deal
import Holdem.Proofs.Overflow
import Holdem.Proofs.Table.SeatBook
import Holdem.Proofs.Table.Settings
import Mathlib.Algebra.Order.BigOperators.Group.List
import Mathlib.Algebra.Order.Group.Nat

/-!
# Room for every buy-in

Players sit down with stacks within the range of buy-ins and stand up again, in any order, and no
stack changes while they sit. Under the settings of a table the stacks can then always be counted,
and no stack is too much for a seat that is open. The chips are looked at before the seats, though:
once every seat is taken a player may be told that their stack is too much and not that there is no
seat left. The cards last for every seat and the whole board.
-/
namespace Holdem

namespace Roster
variable {r : Roster} {id : PlayerId} {name : String} {stack most c : Chips}
  {wanted : Option SeatIndex}

/-- Somebody new sits down in an open seat exactly if all chips, as they are counted, leave room. -/
theorem exists_add_iff :
    (∃ seat r', r.add id name stack wanted = .ok (seat, r')) ↔
      r.contains id = false ∧ r.countedChips + stack ≤ maxChips ∧
        ∃ seat, r.openSeat wanted = .ok seat := by
  constructor
  · rintro ⟨seat, r', hadd⟩
    obtain ⟨hnew, hfits, hseat, -⟩ := add_ok hadd
    exact ⟨hnew, hfits, seat, hseat⟩
  · rintro ⟨hnew, hfits, seat, hseat⟩
    refine ⟨seat, { r with seats := r.seats.set seat (some ⟨id, name, stack, seat⟩) }, ?_⟩
    rw [add, hnew, if_neg Bool.false_ne_true, if_neg (Nat.not_lt.mpr hfits), hseat]
    rfl

theorem openSeat_ne_tooManyChips : r.openSeat wanted ≠ .error (.tooManyChips c) := by
  cases wanted with
  | some seat =>
      simp only [openSeat]
      split <;> simp
  | none =>
      simp only [openSeat]
      split <;> simp

/-- Chips are looked at before the seats are, and after it is known who asks. -/
theorem add_eq_tooManyChips_iff :
    r.add id name stack wanted = .error (.tooManyChips c) ↔
      c = stack ∧ r.contains id = false ∧ maxChips < r.countedChips + stack := by
  unfold add
  split
  · next hin => simp [hin]
  · next hnew =>
      split
      · next hmany => simp [hnew, hmany, eq_comm]
      · next hfits =>
          cases hseat : r.openSeat wanted with
          | ok seat => simp [Except.map, hfits]
          | error e =>
              have hother : e ≠ .tooManyChips c := fun h =>
                openSeat_ne_tooManyChips (hseat.trans (congrArg _ h))
              simp [Except.map, hfits, hother]

theorem size_le_capacity (r : Roster) : r.size ≤ r.capacity := List.length_filterMap_le _ _

/-- With a seat open there are fewer players than seats, as one more can still sit down. -/
theorem size_lt_of_open {i : SeatIndex} (h : r.seats[i]? = some none) : r.size < r.capacity := by
  let more : Roster := { r with seats := r.seats.set i (some default) }
  have hperm : more.players.Perm (default :: r.players) := players_perm_of_seat h
  have hcapacity : more.capacity = r.capacity := List.length_set
  calc
    r.size < (default :: r.players).length := Nat.lt_succ_self _
    _ = more.size := hperm.length_eq.symm
    _ ≤ r.capacity := hcapacity ▸ more.size_le_capacity

/-- The first open seat is found as long as there are fewer players than seats. -/
theorem exists_openSeat_iff : (∃ seat, r.openSeat none = .ok seat) ↔ r.size < r.capacity := by
  constructor
  · rintro ⟨seat, hseat⟩
    exact size_lt_of_open (openSeat_spec hseat)
  · intro hfewer
    cases hfound : r.seats.findIdx? Option.isNone with
    | some seat => exact ⟨seat, by simp only [openSeat, hfound]⟩
    | none =>
        have htaken : ∀ o ∈ r.seats, o.isSome = true := fun o ho => by
          simpa using List.findIdx?_eq_none_iff.mp hfound o ho
        have hfull : r.size = r.capacity := by
          rw [size, players, List.length_filterMap_eq_countP, capacity]
          exact List.countP_eq_length.mpr htaken
        exact absurd hfull (Nat.ne_of_lt hfewer)

/-- So many players with no more than so many chips each. -/
theorem totalChips_le (h : ∀ x ∈ r.players, x.stack ≤ most) : r.totalChips ≤ r.size * most := by
  have hsum := List.sum_le_card_nsmul (r.players.map (·.stack)) most fun c hc => by
    obtain ⟨x, hx, rfl⟩ := List.mem_map.mp hc
    exact h x hx
  rwa [List.length_map, Nat.nsmul_eq_mul] at hsum

end Roster

/-! ## Sitting down with a buy-in, and standing up -/

namespace TableConfig

/-- Nobody sits down with anything but a buy-in, and no stack changes. -/
def Allows (c : TableConfig) : SeatChange → Prop
  | .add _ _ stack _ => c.checkBuyIn stack = .ok ()
  | .remove _ => True
  | .setStack _ _ => False

instance (c : TableConfig) (change : SeatChange) : Decidable (c.Allows change) :=
  match change with
  | .add _ _ stack _ => inferInstanceAs (Decidable (c.checkBuyIn stack = .ok ()))
  | .remove _ => inferInstanceAs (Decidable True)
  | .setStack _ _ => inferInstanceAs (Decidable False)

/-- The cards that go out in a hand at a full table, with everything up to the river. -/
def cardsNeeded (c : TableConfig) : Nat :=
  2 * c.maxPlayers + (Phase.preFlop.streets.map (·.2)).sum

/-- Everybody at the table sits in one of its seats with no more than the highest buy-in. -/
structure Seats (c : TableConfig) (r : Roster) : Prop where
  valid : r.Valid
  capacity : r.capacity = c.maxPlayers
  afforded : ∀ x ∈ r.players, x.stack ≤ c.maxBuyIn

/-- The stacks can be counted, one after another in any order. Whoever comes with a buy-in gets the
seat they ask for if it is open, and their stack is only called too much where no seat is. -/
structure HasRoom (c : TableConfig) (r : Roster) : Prop where
  counted : ∀ chips, chips.Perm (r.players.map (·.stack)) → total? chips = some r.totalChips
  vacant : (∃ seat, r.openSeat none = .ok seat) ↔ r.size < c.maxPlayers
  seated : ∀ id name stack wanted, c.checkBuyIn stack = .ok () →
    ((∃ seat r', r.add id name stack wanted = .ok (seat, r')) ↔
      r.contains id = false ∧ ∃ seat, r.openSeat wanted = .ok seat)
  tooMany : ∀ id name stack wanted refused, c.checkBuyIn stack = .ok () →
    (r.add id name stack wanted = .error (.tooManyChips refused) ↔
      refused = stack ∧ r.contains id = false ∧ r.size = c.maxPlayers ∧
        maxChips < r.totalChips + stack)

variable {c : TableConfig} {r : Roster} {stack : Chips}

theorem seats_empty : c.Seats (Roster.empty c.maxPlayers) where
  valid := Roster.valid_empty c.maxPlayers
  capacity := List.length_replicate
  afforded x hx := by
    rw [Roster.players_empty] at hx
    cases hx

theorem Seats.change {change : SeatChange} (h : c.Seats r) (hallows : c.Allows change) :
    c.Seats (r.change change).2 := by
  cases change with
  | add id name stack wanted =>
      rw [Roster.change]
      cases hadd : r.add id name stack wanted with
      | error e => exact h
      | ok s =>
          obtain ⟨-, -, hv, hcap, -, hperm⟩ := Roster.add_spec h.valid hadd
          refine ⟨hv, hcap.trans h.capacity, fun x hx => ?_⟩
          rcases List.mem_cons.mp (hperm.mem_iff.mp hx) with rfl | hx
          · exact (checkBuyIn_eq_ok_iff.mp hallows).2
          · exact h.afforded x hx
  | remove id =>
      rw [Roster.change]
      cases hremove : r.remove id with
      | error e => exact h
      | ok s =>
          obtain ⟨-, hv, hcap, -, hperm⟩ := Roster.remove_spec h.valid hremove
          refine ⟨hv, hcap.trans h.capacity, fun x hx => h.afforded x ?_⟩
          exact hperm.mem_iff.mpr (List.mem_cons_of_mem _ hx)
  | setStack id stack => cases hallows

theorem Seats.changed {changes : List SeatChange} (h : c.Seats r)
    (hallows : ∀ change ∈ changes, c.Allows change) : c.Seats (r.changed changes) := by
  induction changes generalizing r with
  | nil => exact h
  | cons change rest ih =>
      exact ih (h.change (hallows change List.mem_cons_self)) fun later hlater =>
        hallows later (List.mem_cons_of_mem _ hlater)

/-! ## Counting what is there -/

theorem Seats.totalChips_le (h : c.Seats r) (hs : c.Sound) : r.totalChips ≤ maxChips :=
  Nat.le_trans (Roster.totalChips_le h.afforded)
    (hs.buyIns_le (h.capacity ▸ r.size_le_capacity))

/-- A buy-in for an open seat can be counted on top of the stacks that are there. -/
theorem Seats.room (h : c.Seats r) (hs : c.Sound) (hopen : r.size < c.maxPlayers)
    (hstack : stack ≤ c.maxBuyIn) : r.totalChips + stack ≤ maxChips :=
  calc
    r.totalChips + stack ≤ r.size * c.maxBuyIn + c.maxBuyIn :=
      Nat.add_le_add (Roster.totalChips_le h.afforded) hstack
    _ = (r.size + 1) * c.maxBuyIn := (Nat.succ_mul ..).symm
    _ ≤ maxChips := hs.buyIns_le hopen

theorem Seats.hasRoom (h : c.Seats r) (hs : c.Sound) : c.HasRoom r where
  counted chips hperm := by
    have hsum : chips.sum = r.totalChips := hperm.sum_eq
    rw [total?_eq (hsum ▸ h.totalChips_le hs), hsum]
  vacant := by rw [Roster.exists_openSeat_iff, h.capacity]
  seated id name stack wanted hbuyIn := by
    rw [Roster.exists_add_iff, Roster.countedChips_eq (h.totalChips_le hs)]
    constructor
    · rintro ⟨hnew, -, hseat⟩
      exact ⟨hnew, hseat⟩
    · rintro ⟨hnew, seat, hseat⟩
      have hopen := Roster.size_lt_of_open (Roster.openSeat_spec hseat)
      exact ⟨hnew, h.room hs (h.capacity ▸ hopen) (checkBuyIn_eq_ok_iff.mp hbuyIn).2, seat, hseat⟩
  tooMany id name stack wanted refused hbuyIn := by
    rw [Roster.add_eq_tooManyChips_iff, Roster.countedChips_eq (h.totalChips_le hs)]
    constructor
    · rintro ⟨hsame, hnew, hmany⟩
      have hfull : ¬ r.size < c.maxPlayers := fun hopen =>
        Nat.not_le_of_lt hmany (h.room hs hopen (checkBuyIn_eq_ok_iff.mp hbuyIn).2)
      have hsize : r.size ≤ c.maxPlayers := h.capacity ▸ r.size_le_capacity
      exact ⟨hsame, hnew, Nat.le_antisymm hsize (Nat.le_of_not_lt hfull), hmany⟩
    · rintro ⟨hsame, hnew, -, hmany⟩
      exact ⟨hsame, hnew, hmany⟩

/-! ## A full table -/

theorem Sound.cardsNeeded_le (hs : c.Sound) : c.cardsNeeded ≤ Card.fullDeck.length := by
  have hboard : (Phase.preFlop.streets.map (·.2)).sum = 5 := rfl
  have hseats : c.maxPlayers ≤ 23 := hs.seats
  rw [cardsNeeded, hboard, Card.length_fullDeck]
  omega

/-- A full deck that was shuffled has cards for every seat and the board. -/
theorem Sound.length_drawUpTo (hs : c.Sound) {deck : Deck}
    (hdeck : Card.fullDeck.length ≤ deck.cards.size) :
    (deck.reset.drawUpTo c.cardsNeeded).1.length = c.cardsNeeded :=
  (Spot.drawUpTo_spec (Hand.deckSuffices_reset hdeck hs.seats)).1

/-- Settings that pass the check have room for a full table, in chips and in cards, whoever has sat
down there with a buy-in and stood up again. -/
theorem room_for_every_buy_in {config : TableConfig} (h : config.validate = .ok ())
    (changes : List SeatChange) (hallows : ∀ change ∈ changes, config.Allows change) :
    config.Exact ∧ config.HasRoom ((Roster.empty config.maxPlayers).changed changes) ∧
      config.cardsNeeded ≤ Card.fullDeck.length ∧
      ∀ deck : Deck, Card.fullDeck.length ≤ deck.cards.size →
        (deck.reset.drawUpTo config.cardsNeeded).1.length = config.cardsNeeded := by
  have hs := validate_eq_ok_iff.mp h
  exact ⟨hs.exact, (seats_empty.changed hallows).hasRoom hs, hs.cardsNeeded_le,
    fun _ hdeck => hs.length_drawUpTo hdeck⟩

/-- A table for two at which two of the highest buy-ins can be counted together, but not three. -/
def highRollers : TableConfig := { maxPlayers := 2, smallBlind := 10000000, bigBlind := 20000000 }

/-- Two players buy in at the most. -/
def bothAtTheMost : List SeatChange :=
  [.add 1 "ann" 2000000000 none, .add 2 "bob" 2000000000 none]

theorem room_for_every_buy_in_high_rollers :
    highRollers.validate = .ok () ∧ (∀ change ∈ bothAtTheMost, highRollers.Allows change) ∧
      highRollers.Exact ∧
      highRollers.HasRoom ((Roster.empty highRollers.maxPlayers).changed bothAtTheMost) ∧
      highRollers.cardsNeeded ≤ Card.fullDeck.length ∧
      ∀ deck : Deck, Card.fullDeck.length ≤ deck.cards.size →
        (deck.reset.drawUpTo highRollers.cardsNeeded).1.length = highRollers.cardsNeeded :=
  ⟨by decide, by decide, room_for_every_buy_in (by decide) bothAtTheMost (by decide)⟩

/-- Where two sit with the most, a third with as much is not told that the table is full. -/
theorem too_many_chips_for_a_full_table :
    ¬ ∀ (config : TableConfig) (changes : List SeatChange) (change : SeatChange) (stack : Chips),
      config.validate = .ok () → (∀ c ∈ changes ++ [change], config.Allows c) →
        (((Roster.empty config.maxPlayers).changed changes).change change).1 ≠
          .refused (.tooManyChips stack) := by
  intro h
  exact h highRollers bothAtTheMost (.add 3 "carl" 2000000000 none) 2000000000 (by decide)
    (by decide) (by decide)

end TableConfig
end Holdem

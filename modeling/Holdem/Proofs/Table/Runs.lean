import Holdem.HandValue.Best
import Holdem.Proofs.Hand.Runs
import Holdem.Proofs.Table.Messages
import Holdem.Proofs.Table.Settings

/-!
# Tables from their opening on

A table deals with one message after another. Each finds the house in some state, which other
tables and players may have changed in the meantime. From the opening of a table on it is always
in order, and the log of the messages tells where every chip at the table came from.
-/
namespace Holdem

/-- A message to a table, and the floor it finds. -/
structure Visit where
  floor : Floor
  message : Message

/-- What a table answered to a message, and what everybody at the table was told. -/
structure Entry where
  message : Message
  reply : Reply
  told : List GameEvent

namespace Entry

def broughtIn (e : Entry) : Chips := e.message.broughtIn e.reply

def takenAway (e : Entry) : Chips := e.message.takenAway e.reply

end Entry

namespace Table
variable {t : Table} {f : Floor}

def visit (t : Table) (v : Visit) : Table × Entry :=
  ((t.handle v.floor v.message).1,
    { message := v.message
      reply := (t.handle v.floor v.message).2.2
      told := (t.respond v.floor v.message).table.outbox })

/-- Deals with messages one after another, keeping a log. -/
def run (t : Table) : List Visit → Table × List Entry
  | [] => (t, [])
  | v :: rest =>
      let after := (t.visit v).1.run rest
      (after.1, (t.visit v).2 :: after.2)

/-! ## One message -/

section Handle
variable {m : Message}

theorem reply_handle : (t.handle f m).2.2 = (t.respond f m).reply := rfl

theorem hand_handle : (t.handle f m).1.hand = (t.respond f m).table.hand := by
  simp only [handle, tellAll]
  split <;> rfl

theorem roster_handle : (t.handle f m).1.roster = (t.respond f m).table.roster := by
  simp only [handle, tellAll]
  split <;> rfl

theorem handsPlayed_handle : (t.handle f m).1.handsPlayed = (t.respond f m).table.handsPlayed := by
  simp only [handle, tellAll]
  split <;> rfl

theorem button_handle : (t.handle f m).1.button = (t.respond f m).table.button := by
  simp only [handle, tellAll]
  split <;> rfl

theorem config_handle : (t.handle f m).1.config = (t.respond f m).table.config := by
  simp only [handle, tellAll]
  split <;> rfl

theorem onTable_handle : (t.handle f m).1.onTable = (t.respond f m).table.onTable := by
  rw [onTable, onTable, middle, middle, hand_handle, roster_handle]

theorem outbox_handle : (t.handle f m).1.outbox = [] := rfl

/-- A message leaves a table without a hand or waiting for somebody. -/
theorem Waiting.handle (hw : t.Waiting) (f : Floor) (m : Message) : (t.handle f m).1.Waiting := by
  have hs := (respond_settles (f := f) hw m).waiting
  refine { valid := ?_, seats := ?_, goes := ?_, heard := ?_, told := ?_, live := ?_ }
  · rw [roster_handle]
    exact hs.valid
  · rw [roster_handle]
    exact hs.seats
  · rw [roster_handle, hand_handle]
    exact hs.goes
  · rw [hand_handle]
    exact hs.heard
  · rw [outbox_handle]
    simp
  · rw [roster_handle, hand_handle]
    exact hs.live

/-- Chips come and go with messages only. -/
theorem handle_chips (hw : t.Waiting) :
    (t.handle f m).1.onTable + m.takenAway (t.handle f m).2.2 =
      t.onTable + m.broughtIn (t.handle f m).2.2 := by
  rw [onTable_handle, reply_handle]
  exact (respond_settles hw m).chips

end Handle

/-! ## Many messages -/

theorem run_append (t : Table) (first rest : List Visit) :
    t.run (first ++ rest) =
      (((t.run first).1.run rest).1, (t.run first).2 ++ ((t.run first).1.run rest).2) := by
  induction first generalizing t with
  | nil => rfl
  | cons v more ih =>
      rw [List.cons_append, run, ih]
      rfl

theorem Waiting.run (hw : t.Waiting) (visits : List Visit) : (t.run visits).1.Waiting := by
  induction visits generalizing t with
  | nil => exact hw
  | cons v rest ih => exact ih (hw.handle v.floor v.message)

/-- The chips at a table are those that were there, with what was brought and without what was
taken away since. -/
theorem run_chips (hw : t.Waiting) (visits : List Visit) :
    (t.run visits).1.onTable + ((t.run visits).2.map Entry.takenAway).sum =
      t.onTable + ((t.run visits).2.map Entry.broughtIn).sum := by
  induction visits generalizing t with
  | nil => rfl
  | cons v rest ih =>
      have hone := handle_chips (f := v.floor) (m := v.message) hw
      have hmany := ih (hw.handle v.floor v.message)
      simp only [Table.run, List.map_cons, List.sum_cons]
      show _ + (v.message.takenAway _ + _) = _ + (v.message.broughtIn _ + _)
      simp only [visit] at hmany ⊢
      lia

/-- No entry of the log tells of a fault. -/
theorem run_faultless (hw : t.Waiting) (visits : List Visit) :
    ∀ e ∈ (t.run visits).2, (∀ p a, e.message = .act p a → e.reply.isFault = false) ∧
      ∀ g ∈ e.told, g.isAbort = false := by
  induction visits generalizing t with
  | nil => simp [Table.run]
  | cons v rest ih =>
      intro e he
      rcases List.mem_cons.mp he with rfl | he
      · have hs := respond_settles (f := v.floor) hw v.message
        exact ⟨hs.faultless, hs.waiting.told⟩
      · exact ih (hw.handle v.floor v.message) e he

/-! ## From the opening on -/

section Opened
variable {id : TableId} {config : TableConfig}

/-- A table that is opened with settings it can be opened with is in order. -/
theorem create_waiting (id : TableId) (h : config.validate = .ok ()) :
    (create id config).Waiting where
  valid := Roster.valid_empty config.maxPlayers
  seats := by
    show (List.replicate config.maxPlayers none).length ≤ maxSeats
    rw [List.length_replicate]
    exact (TableConfig.validate_eq_ok_iff.mp h).seats
  goes := fun _ hh => by cases hh
  heard := fun _ hh => by cases hh
  told := fun _ he => by cases he
  live := fun _ hh => by cases hh

theorem onTable_create : (create id config).onTable = 0 := by
  show ((Roster.empty config.maxPlayers).players.map (·.stack)).sum + 0 = 0
  rw [Roster.players_empty]
  rfl

end Opened

/-! ## Where the chips are -/

/-- At every table, whatever happens there, the stacks that players sat down with are in front of
the players seated now, in the middle, or were taken away by players who left. -/
theorem chips_accounted_for {id : TableId} {config : TableConfig} (h : config.validate = .ok ())
    (visits : List Visit) :
    (((create id config).run visits).2.map Entry.broughtIn).sum =
      ((create id config).run visits).1.roster.totalChips +
        ((create id config).run visits).1.middle +
        (((create id config).run visits).2.map Entry.takenAway).sum := by
  have hchips := run_chips (create_waiting id h) visits
  rw [onTable_create, Nat.zero_add] at hchips
  exact hchips.symm

/-- A floor on which three players are known and hands are worth what they are. -/
def threeKnown : Floor :=
  { lobby := ((({} : Lobby).register 1 "ann").register 2 "bob").register 3 "carl"
    evaluator := { value := fun _ => HandValue.best } }

/-- Two players sit down and are dealt a hand. -/
def headsUp : List Visit :=
  [⟨threeKnown, .join 1 "ann" 500 none⟩, ⟨threeKnown, .join 2 "bob" 700 none⟩]

theorem chips_accounted_for_heads_up :
    TableConfig.validate {} = .ok () ∧
      (((create 1 {}).run headsUp).2.map Entry.broughtIn).sum =
        ((create 1 {}).run headsUp).1.roster.totalChips + ((create 1 {}).run headsUp).1.middle +
          (((create 1 {}).run headsUp).2.map Entry.takenAway).sum :=
  ⟨by decide, chips_accounted_for (by decide) headsUp⟩

/-! ## Nothing goes wrong -/

/-- A hand that is dealt never meets a fault of the game, whatever its players do, and so no table
answers an action with one or tells of an aborted hand. -/
theorem hands_never_fault :
    (∀ (r : Roster) (dealer : PlayerId) (number : Nat) (blinds : Blinds) (deck : Deck)
      (ev : Evaluator), r.Valid → 2 ≤ r.funded.length → r.funded.length ≤ maxSeats →
      r.totalChips ≤ maxChips → dealer ∈ r.funded → Card.fullDeck.length ≤ deck.cards.size →
      ∃ s : Spot, Hand.start number r dealer blinds deck ev = (s.roster, s.evaluator, .ok s.hand) ∧
        s.checkConservation = .ok () ∧ ∀ moves, (s.play moves).Sound) ∧
    ∀ (id : TableId) (config : TableConfig), config.validate = .ok () →
      ∀ (visits : List Visit), ∀ e ∈ ((create id config).run visits).2,
        (∀ p a reason, e.message = .act p a → e.reply ≠ .error (.action (.internal reason))) ∧
        ∀ number reason, .handAborted number reason ∉ e.told := by
  constructor
  · intro r dealer number blinds deck ev hv htwo hmost hcount hdealer hdeck
    obtain ⟨s, hstart, hbegun⟩ := Hand.deal_spec number blinds ev hv htwo hdealer
      (Hand.deckSuffices_reset hdeck hmost) hcount
    have hplay := Spot.InPlay.of_begun hv hbegun
    exact ⟨s, hstart, Spot.checkConservation_of_goes hbegun.goes, fun moves =>
      (hplay.play moves).sound⟩
  · intro id config h visits e he
    obtain ⟨hact, htold⟩ := run_faultless (create_waiting id h) visits e he
    refine ⟨fun p a reason hm hfault => ?_, fun number reason htells => ?_⟩
    · have hblame := hact p a hm
      rw [hfault] at hblame
      cases hblame
    · cases htold _ htells

/-- Two players with an empty seat between them. -/
def twoSeated : Roster :=
  { seats := [some ⟨1, "ann", 500, 0⟩, none, some ⟨2, "bob", 700, 2⟩] }

theorem hands_never_fault_heads_up :
    (∃ s : Spot, Hand.start 1 twoSeated 1 ⟨5, 10⟩ (.seeded 7) threeKnown.evaluator =
        (s.roster, s.evaluator, .ok s.hand) ∧ s.checkConservation = .ok () ∧
        ∀ moves, (s.play moves).Sound) ∧
      ∀ e ∈ ((create 1 {}).run headsUp).2,
        (∀ p a reason, e.message = .act p a → e.reply ≠ .error (.action (.internal reason))) ∧
        ∀ number reason, .handAborted number reason ∉ e.told :=
  ⟨hands_never_fault.1 twoSeated 1 1 ⟨5, 10⟩ (.seeded 7) threeKnown.evaluator (by decide)
      (by decide) (by decide) (by decide) (by decide) (Nat.le_of_eq rfl),
    hands_never_fault.2 1 {} (by decide) headsUp⟩

/-- A hand that is dealt waits for somebody who can act until it is over, and a table never has a
hand that is over or waits for nobody. -/
theorem hands_never_stall :
    (∀ (r r' : Roster) (dealer : PlayerId) (number : Nat) (blinds : Blinds) (deck : Deck)
      (ev ev' : Evaluator) (h : Hand), r.Valid → r.funded.length ≤ maxSeats →
      Card.fullDeck.length ≤ deck.cards.size →
      Hand.start number r dealer blinds deck ev = (r', ev', .ok h) →
      ∀ moves, (Spot.play ⟨h, r', ev'⟩ moves).hand.isOver = true ∨
        (∃ p, (Spot.play ⟨h, r', ev'⟩ moves).WaitsFor p) ∧
          (Spot.play ⟨h, r', ev'⟩ moves).TurnsHold) ∧
    ∀ (id : TableId) (config : TableConfig), config.validate = .ok () →
      ∀ (visits : List Visit) (h : Hand), ((create id config).run visits).1.hand = some h →
        h.isOver = false ∧ ∀ ev,
          (∃ p, Spot.WaitsFor ⟨h, ((create id config).run visits).1.roster, ev⟩ p) ∧
            Spot.TurnsHold ⟨h, ((create id config).run visits).1.roster, ev⟩ := by
  constructor
  · intro r r' dealer number blinds deck ev ev' h hv hmost hdeck hstart moves
    have hbegun := Hand.begun_of_deal hv (Hand.deckSuffices_reset hdeck hmost) hstart
    exact ((Spot.InPlay.of_begun hv hbegun).play moves).waits
  · intro id config h visits hand hhand
    have hl := ((create_waiting id h).run visits).live hand hhand
    refine ⟨hl.not_over, fun ev => ⟨?_, ?_⟩⟩
    · exact Spot.exists_waitsFor (s := ⟨hand, _, ev⟩) hl
    · exact Spot.turnsHold_of_places (s := ⟨hand, _, ev⟩) hl.places

theorem hands_never_stall_heads_up :
    (∃ s : Spot, Hand.start 1 twoSeated 1 ⟨5, 10⟩ (.seeded 7) threeKnown.evaluator =
        (s.roster, s.evaluator, .ok s.hand) ∧
        ∀ moves, (s.play moves).hand.isOver = true ∨
          (∃ p, (s.play moves).WaitsFor p) ∧ (s.play moves).TurnsHold) ∧
      ∃ h, ((create 1 {}).run headsUp).1.hand = some h ∧ h.isOver = false ∧ ∀ ev,
        (∃ p, Spot.WaitsFor ⟨h, ((create 1 {}).run headsUp).1.roster, ev⟩ p) ∧
          Spot.TurnsHold ⟨h, ((create 1 {}).run headsUp).1.roster, ev⟩ := by
  have hv : twoSeated.Valid := by decide
  have hdeck : Card.fullDeck.length ≤ (Deck.seeded 7).cards.size := Nat.le_of_eq rfl
  constructor
  · have hdealer : 1 ∈ twoSeated.funded := by decide
    obtain ⟨s, hs, -⟩ := Hand.deal_spec 1 ⟨5, 10⟩ threeKnown.evaluator hv (by decide) hdealer
      (Hand.deckSuffices_reset hdeck (by decide)) (by decide)
    exact ⟨s, hs, hands_never_stall.1 twoSeated s.roster 1 1 ⟨5, 10⟩ (.seeded 7) _ _ s.hand hv
      (by decide) hdeck hs⟩
  · have hsome : ((create 1 {}).run headsUp).1.hand.isSome = true := by decide +kernel
    obtain ⟨h, hh⟩ := Option.isSome_iff_exists.mp hsome
    exact ⟨h, hh, hands_never_stall.2 1 {} (by decide) headsUp h hh⟩

end Table
end Holdem

import Holdem.Proofs.Hand.Deal
import Holdem.Proofs.Hand.Play
import Holdem.Proofs.Table.Seats
import Holdem.Table.Dealing

/-!
# Hands dealt one after another

A table is in order when its roster is, no hand in it is at fault and none was said to be aborted.
Dealing hands keeps it so and changes nothing about the chips on the table. It fails when fewer
than two players have chips, or when all the chips in their stacks together can not be counted;
nothing has happened then. When it is done the table has no hand, or one that waits for a player.
-/
namespace Holdem

namespace Hand
variable {h : Hand} {r : Roster}

theorem Live.quiet (hl : h.Live r) : Hand.Live { h with events := [] } r where
  places := { hl.places with }
  bets := { hl.bets with }
  books := { hl.books with }
  balanced := { hl.balanced with }
  betting := hl.betting
  stocked := hl.stocked
  contested := hl.contested
  waits := hl.waits

theorem Settled.quiet (hs : h.Settled r) : Hand.Settled { h with events := [] } r where
  ended := hs.ended
  empty := hs.empty
  balanced := { hs.balanced with }

end Hand

theorem totalChips_of_begun {r : Roster} {s : Spot} (hv : r.Valid) (hb : Hand.Begun r s) :
    s.roster.totalChips + s.hand.potTotal = r.totalChips := by
  rw [Roster.totalChips_eq_chipsOf (hb.restacked.valid hv), Roster.totalChips_eq_chipsOf hv,
    hb.restacked.ids_eq]
  exact hb.pooled r.ids hv.distinct (Roster.funded_sublist r).subset

namespace Table
variable {t : Table} {f : Floor} {fromWaiting : Bool}

/-- The chips that were put in and not paid out yet. -/
def middle (t : Table) : Chips := t.hand.elim 0 Hand.potTotal

/-- All chips at a table. -/
def onTable (t : Table) : Chips := t.roster.totalChips + t.middle

/-- A table at which nothing went wrong. -/
structure InOrder (t : Table) : Prop where
  valid : t.roster.Valid
  seats : t.roster.capacity ≤ maxSeats
  goes : ∀ h, t.hand = some h → h.Live t.roster ∨ h.Settled t.roster
  heard : ∀ h, t.hand = some h → ∀ e ∈ h.events, e.isAbort = false
  told : ∀ e ∈ t.outbox, e.isAbort = false

/-- A table in order that has no hand or one that waits for a player. -/
structure Waiting (t : Table) : Prop extends t.InOrder where
  live : ∀ h, t.hand = some h → h.Live t.roster

theorem InOrder.funded_le (hi : t.InOrder) : t.roster.funded.length ≤ maxSeats :=
  Nat.le_trans (Roster.length_funded_le _) hi.seats

/-- Somebody with chips has the button. -/
theorem chooseDealer_spec (hv : t.roster.Valid) (h : t.roster.funded ≠ []) :
    ∃ p ∈ t.roster.funded, t.chooseDealer = some p := by
  unfold chooseDealer
  split
  · obtain ⟨p, rest, hp⟩ := List.exists_cons_of_ne_nil h
    exact ⟨p, by rw [hp]; exact List.mem_cons_self, by rw [hp]; rfl⟩
  · next player seat hbutton =>
      split
      · next hpos =>
          refine ⟨player, (Roster.mem_funded_iff hv).mpr ?_, rfl⟩
          cases hs : t.roster.stack? player with
          | none => simp [hs] at hpos
          | some c => exact ⟨c, rfl, by simpa [hs] using hpos⟩
      · exact Roster.fundedAfter_spec hv h

/-! ## After a hand -/

@[simp] theorem hand_endHand : t.endHand.hand = none := by
  unfold endHand
  split
  · next h => exact h
  · rfl

@[simp] theorem roster_endHand : t.endHand.roster = t.roster := by
  unfold endHand
  split <;> rfl

@[simp] theorem outbox_endHand : t.endHand.outbox = t.outbox := by
  unfold endHand
  split <;> rfl

@[simp] theorem handsPlayed_endHand : t.endHand.handsPlayed = t.handsPlayed := by
  unfold endHand
  split <;> rfl

@[simp] theorem config_endHand : t.endHand.config = t.config := by
  unfold endHand
  split <;> rfl

@[simp] theorem id_endHand : t.endHand.id = t.id := by
  unfold endHand
  split <;> rfl

theorem InOrder.waiting_of_none (hi : t.InOrder) (hnone : t.hand = none) : t.Waiting :=
  { hi with live := fun h hh => by rw [hnone] at hh; cases hh }

/-- A hand that is over can be cleared away without a chip. -/
theorem InOrder.endHand (hi : t.InOrder) (hover : t.hand.any Hand.isOver = true) :
    t.endHand.Waiting ∧ t.endHand.onTable = t.onTable := by
  obtain ⟨h, hhand⟩ : ∃ h, t.hand = some h := by
    cases hhand : t.hand with
    | none => simp [hhand] at hover
    | some h => exact ⟨h, rfl⟩
  have hdone : h.isOver = true := by simpa [hhand] using hover
  have hzero : h.potTotal = 0 := by
    rcases hi.goes h hhand with hl | hs
    · rw [hl.not_over] at hdone
      cases hdone
    · exact hs.empty
  constructor
  · refine InOrder.waiting_of_none ⟨?_, ?_, ?_, ?_, ?_⟩ hand_endHand
    · rw [roster_endHand]
      exact hi.valid
    · rw [roster_endHand]
      exact hi.seats
    · simp
    · simp
    · rw [outbox_endHand]
      exact hi.told
  · rw [onTable, onTable, middle, middle, hand_endHand, roster_endHand, hhand]
    exact congrArg (t.roster.totalChips + ·) hzero.symm

/-- A hand that is not over waits for somebody. -/
theorem InOrder.waiting (hi : t.InOrder) (hover : t.hand.any Hand.isOver = false) : t.Waiting :=
  { hi with
    live := fun h hh => by
      rcases hi.goes h hh with hl | hs
      · exact hl
      · rw [hh, Option.any_some, hs.ended] at hover
        cases hover }

/-! ## Taking note of a step -/

theorem absorb_ok {h : Hand} (hh : t.hand = some h)
    (hgoes : h.Live t.roster ∨ h.Settled t.roster) : t.absorb f (.ok ()) = (t.drain h, .ok ()) := by
  have hcheck := Spot.checkConservation_of_goes (s := ⟨h, t.roster, f.evaluator⟩) hgoes
  simp only [absorb, hh, Except.bind, hcheck]

theorem absorb_error {h : Hand} {e : ActionError} (hh : t.hand = some h)
    (he : e.isInternal = false) : t.absorb f (.error e) = (t.drain h, .error e) := by
  simp only [absorb, hh, Except.bind]
  split
  · next heq =>
      cases heq
      cases he
  · rfl

theorem InOrder.drain {h : Hand} (hi : t.InOrder) (hh : t.hand = some h) :
    (t.drain h).InOrder ∧ (t.drain h).onTable = t.onTable := by
  constructor
  · refine ⟨hi.valid, hi.seats, fun h' hh' => ?_, fun h' hh' => ?_, fun e he => ?_⟩
    · cases hh'
      exact (hi.goes h hh).imp (·.quiet) (·.quiet)
    · cases hh'
      simp
    · rcases List.mem_append.mp he with he | he
      · exact hi.told e he
      · exact hi.heard h hh e he
  · rw [onTable, onTable, middle, middle, hh]
    rfl

/-! ## Dealing -/

/-- The fault of a roster whose chips can not be counted. -/
def overflow : ActionError := .internal "chips in play overflow"

/-- Whatever a hand is dealt from, it is a full deck. -/
theorem deckSuffices_deck (t : Table) (f : Floor) (hand : Nat) {players : Nat}
    (hp : players ≤ maxSeats) : Hand.deckSuffices (t.deck f hand).reset players := by
  apply Hand.deckSuffices_reset _ hp
  unfold deck
  split
  · exact Nat.le_of_eq rfl
  · exact Nat.le_of_eq rfl

theorem startHand_of_few (hfew : t.roster.funded.length < 2) (hnone : t.hand = none) :
    t.startHand f fromWaiting = (t, f, .error .notEnoughPlayers) := by
  unfold startHand
  rw [if_neg (by rw [hnone]; exact Bool.false_ne_true)]
  cases hdealer : t.chooseDealer with
  | none => rfl
  | some dealer =>
      have hstart : ∀ deck, Hand.start (t.handsPlayed + 1) t.roster dealer t.config.blinds deck
          f.evaluator = (t.roster, f.evaluator, .error .notEnoughPlayers) := fun deck => by
        rw [Hand.start, Hand.deal, Hand.setUp, if_pos hfew]
      simp only [hstart]

theorem startHand_of_uncountable (hi : t.InOrder) (htwo : 2 ≤ t.roster.funded.length)
    (hnone : t.hand = none) (hmany : maxChips < t.roster.totalChips) :
    t.startHand f fromWaiting = (t, f, .error overflow) := by
  obtain ⟨dealer, hdealer, hchoose⟩ :=
    chooseDealer_spec hi.valid (List.ne_nil_of_length_pos (Nat.lt_of_lt_of_le Nat.two_pos htwo))
  have hstart := Hand.deal_of_uncountable (t.handsPlayed + 1) t.config.blinds
    f.evaluator hi.valid htwo hdealer
    (Hand.deckDeals_of_suffices (deckSuffices_deck t f (t.handsPlayed + 1) hi.funded_le)) hmany
  unfold startHand
  rw [if_neg (by rw [hnone]; exact Bool.false_ne_true), hchoose]
  simp only [Hand.start, hstart]
  rfl

/-- A hand that was dealt to the players of a table keeps the table in order. -/
theorem InOrder.begun {t' : Table} {s : Spot} (hi : t.InOrder) (hb : Hand.Begun t.roster s)
    (hroster : t'.roster = s.roster) (hhand : t'.hand = some s.hand)
    (houtbox : t'.outbox = t.outbox) : t'.InOrder := by
  refine ⟨?_, ?_, fun h hh => ?_, fun h hh => ?_, ?_⟩
  · rw [hroster]
    exact hb.restacked.valid hi.valid
  · rw [hroster, hb.restacked.capacity_eq]
    exact hi.seats
  · rw [hroster]
    cases hhand.symm.trans hh
    exact hb.goes
  · cases hhand.symm.trans hh
    exact hb.told
  · rw [houtbox]
    exact hi.told

/-- A table after a hand was dealt there, with what the hand had to tell noted. -/
def dealtTo (t : Table) (s : Spot) (news : List ServerEvent) : Table :=
  drain
    { t with
      roster := s.roster
      handsPlayed := t.handsPlayed + 1
      announcements := t.announcements ++ news } s.hand

/-- The floor after a hand was dealt at a table. Everybody seated there is at the game. -/
def joined (f : Floor) (id : TableId) (s : Spot) : Floor :=
  { f with
    evaluator := s.evaluator
    lobby := (s.roster.players.map (·.id)).foldl (follow id) f.lobby }

/-- A hand that is dealt to the players of a table next. -/
structure Deals (t : Table) (f : Floor) (dealer : PlayerId) (s : Spot) : Prop where
  start : Hand.start (t.handsPlayed + 1) t.roster dealer t.config.blinds
    (t.deck f (t.handsPlayed + 1)) f.evaluator = (s.roster, s.evaluator, .ok s.hand)
  begun : Hand.Begun t.roster s

/-- A hand is started when two players have chips and all chips can be counted. -/
theorem startHand_spec (f : Floor) (fromWaiting : Bool) (hi : t.InOrder)
    (htwo : 2 ≤ t.roster.funded.length) (hnone : t.hand = none)
    (hcount : t.roster.totalChips ≤ maxChips) :
    ∃ dealer s news, t.chooseDealer = some dealer ∧ t.Deals f dealer s ∧
      t.startHand f fromWaiting = (t.dealtTo s news, joined f t.id s, .ok ()) ∧
      (t.dealtTo s news).InOrder ∧ (t.dealtTo s news).onTable = t.onTable := by
  obtain ⟨dealer, hdealer, hchoose⟩ :=
    chooseDealer_spec hi.valid (List.ne_nil_of_length_pos (Nat.lt_of_lt_of_le Nat.two_pos htwo))
  obtain ⟨s, hdeal, hbegun⟩ := Hand.deal_spec (t.handsPlayed + 1) t.config.blinds f.evaluator
    hi.valid htwo hdealer (deckSuffices_deck t f (t.handsPlayed + 1) hi.funded_le) hcount
  let news : List ServerEvent :=
    if fromWaiting then [.gameStarted t.id (t.handsPlayed + 1)] else []
  let started : Table :=
    { t with
      roster := s.roster
      hand := some s.hand
      handsPlayed := t.handsPlayed + 1
      announcements := t.announcements ++ news }
  have horder : started.InOrder := hi.begun hbegun rfl rfl rfl
  obtain ⟨hdrained, hchips⟩ := horder.drain rfl
  refine ⟨dealer, s, news, hchoose, ⟨hdeal, hbegun⟩, ?_, hdrained, hchips.trans ?_⟩
  · have habsorb := absorb_ok (f := joined f t.id s) (t := started) rfl hbegun.goes
    unfold startHand
    rw [if_neg (by rw [hnone]; exact Bool.false_ne_true), hchoose]
    simp only [Hand.start, hdeal]
    exact congrArg (fun o => (o.1, joined f t.id s, o.2)) habsorb
  · have hsum := totalChips_of_begun hi.valid hbegun
    rw [onTable, onTable, middle, middle, hnone]
    exact hsum

/-- Dealing leaves the chips on the table as they are, and the table without a hand or waiting
for a player. The induction is over the hands that may still be dealt. -/
theorem dealHands_spec (n : Nat) (fromWaiting : Bool) (f : Floor) (hi : t.InOrder)
    (hnone : t.hand = none) :
    (dealHands n fromWaiting t f).1.Waiting ∧
      (dealHands n fromWaiting t f).1.onTable = t.onTable := by
  induction n generalizing t f fromWaiting with
  | zero => exact ⟨hi.waiting_of_none hnone, rfl⟩
  | succ n ih =>
      rcases Nat.lt_or_ge t.roster.funded.length 2 with hfew | htwo
      · simp only [dealHands, startHand_of_few hfew hnone]
        exact ⟨hi.waiting_of_none hnone, trivial⟩
      · rcases Nat.lt_or_ge maxChips t.roster.totalChips with hmany | hcount
        · simp only [dealHands, startHand_of_uncountable hi htwo hnone hmany]
          exact ⟨hi.waiting_of_none hnone, trivial⟩
        · obtain ⟨dealer, s, news, -, -, hstart, hi', hchips⟩ :=
            startHand_spec f fromWaiting hi htwo hnone hcount
          simp only [dealHands, hstart]
          cases hover : (t.dealtTo s news).hand.any Hand.isOver with
          | false => exact ⟨hi'.waiting hover, hchips⟩
          | true =>
              obtain ⟨hended, hkept⟩ := hi'.endHand hover
              split
              · next h => cases h
              · split
                · exact ⟨hended, hkept.trans hchips⟩
                · obtain ⟨hw, hsame⟩ := ih false (joined f t.id s) hended.toInOrder
                    hand_endHand
                  exact ⟨hw, hsame.trans (hkept.trans hchips)⟩

theorem onTable_of_none (hnone : t.hand = none) : t.onTable = t.roster.totalChips := by
  rw [onTable, middle, hnone]
  rfl

/-- With two players who have chips dealing fails only when there are too many chips. -/
theorem dealHands_ok (n : Nat) (fromWaiting : Bool) (f : Floor) (hi : t.InOrder)
    (htwo : 2 ≤ t.roster.funded.length) (hnone : t.hand = none)
    (hcount : t.roster.totalChips ≤ maxChips) :
    (dealHands n fromWaiting t f).2.2 = .ok () := by
  induction n generalizing t f fromWaiting with
  | zero => rfl
  | succ n ih =>
      obtain ⟨dealer, s, news, -, -, hstart, hi', hchips⟩ :=
        startHand_spec f fromWaiting hi htwo hnone hcount
      simp only [dealHands, hstart]
      cases hover : (t.dealtTo s news).hand.any Hand.isOver with
      | false => rfl
      | true =>
          obtain ⟨hended, hkept⟩ := hi'.endHand hover
          split
          · rfl
          · split
            · rfl
            · next hfunded =>
                refine ih false (joined f t.id s) hended.toInOrder (Nat.le_of_not_lt hfunded)
                  hand_endHand ?_
                rw [← onTable_of_none hand_endHand, hkept, hchips, onTable_of_none hnone]
                exact hcount

/-- A hand that is over makes way for the next one. -/
theorem finishIfOver_spec (hi : t.InOrder) :
    (t.finishIfOver f).1.Waiting ∧ (t.finishIfOver f).1.onTable = t.onTable := by
  unfold finishIfOver
  cases hover : t.hand.any Hand.isOver with
  | false => exact ⟨hi.waiting hover, rfl⟩
  | true =>
      obtain ⟨hended, hkept⟩ := hi.endHand hover
      split
      · next h => cases h
      · split
        · exact ⟨hended, hkept⟩
        · obtain ⟨hw, hsame⟩ := dealHands_spec maxUnattendedHands false f hended.toInOrder
            hand_endHand
          exact ⟨hw, hsame.trans hkept⟩

end Table
end Holdem

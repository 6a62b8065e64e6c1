import Holdem.Proofs.Hand.Deal
import Holdem.Proofs.Hand.Waiting
import Holdem.Table.Message

/-!
# Hands from the deal to the end

While a hand is played its players act in any order, some get up and leave, and others sit down at
the table. Every such move keeps a live hand live or ends it, so whatever holds of live hands holds
at every point of every hand before its end.
-/
namespace Holdem

/-- What can happen to a spot. Whoever leaves is taken out of the hand and gets up. -/
inductive Move where
  | act (player : PlayerId) (action : Action)
  | leave (player : PlayerId)
  | sitDown (player : PlayerId) (name : String) (stack : Chips) (wanted : Option SeatIndex)
deriving Repr, DecidableEq

namespace Spot

/-- Makes a move. Somebody who cannot sit down is sent away. -/
def move (s : Spot) : Move → Outcome
  | .act player action => s.act player action
  | .leave player =>
      match s.removePlayer player with
      | (s, .ok ()) => done { s with roster := Table.vacate s.roster player }
      | (s, .error e) => s.fail e
  | .sitDown player name stack wanted =>
      match s.roster.add player name stack wanted with
      | .ok (_, roster) => done { s with roster }
      | .error _ => s.done

/-- The spot after some moves, made one after another. -/
def play (s : Spot) (moves : List Move) : Spot := moves.foldl (fun s m => (s.move m).1) s

/-- No player can make anything go wrong. Actions and departures go through, but for actions that
are refused as a mistake and then change nothing, and as long as the hand is played its chips add
up, also after the next move. -/
structure Sound (s : Spot) : Prop where
  acts : ∀ p a, (∃ s' : Spot, s.act p a = s'.done) ∨
    ∃ e, s.act p a = s.fail e ∧ e.isInternal = false
  leaves : ∀ p, ∃ s' : Spot, s.removePlayer p = s'.done
  conserved : s.hand.isOver = false →
    s.checkConservation = .ok () ∧ ∀ m, (s.move m).1.checkConservation = .ok ()

/-- A hand between its first prompt and its end, or after it, at a roster in order. -/
structure InPlay (s : Spot) : Prop where
  valid : s.roster.Valid
  goes : s.hand.Live s.roster ∨ s.hand.isOver = true

section Seats
variable {r : Roster} {p : PlayerId}

theorem stack?_vacate {q : PlayerId} (hv : r.Valid) (hq : q ≠ p) :
    (Table.vacate r p).stack? q = r.stack? q := by
  unfold Table.vacate
  split
  · next hremove => exact Roster.stack?_remove hv hremove hq
  · rfl

theorem valid_vacate (hv : r.Valid) : (Table.vacate r p).Valid := by
  unfold Table.vacate
  split
  · next hremove => exact (Roster.remove_spec hv hremove).2.1
  · exact hv

end Seats

variable {s : Spot}

theorem InPlay.of_goes {s' : Spot} (hv : s'.roster.Valid)
    (h : s'.hand.Live s'.roster ∨ s'.hand.Settled s'.roster) : s'.InPlay :=
  ⟨hv, h.imp_right (·.ended)⟩

theorem InPlay.live (h : s.InPlay) (hlive : s.hand.isOver = false) : s.hand.Live s.roster :=
  h.goes.resolve_right fun hover => Bool.false_ne_true (hlive.symm.trans hover)

/-- A move in a live hand leaves it live or settled. -/
theorem move_spec (hv : s.roster.Valid) (hl : s.hand.Live s.roster) (m : Move) :
    (s.move m).1.roster.Valid ∧
      ((s.move m).1.hand.Live (s.move m).1.roster ∨
        (s.move m).1.hand.Settled (s.move m).1.roster) := by
  cases m with
  | act p a =>
      rcases act_spec (p := p) (a := a) hl with ⟨s', hact, hmoves, hgoes⟩ | ⟨e, hact, -⟩
      · rw [move, hact]
        exact ⟨hmoves.restacked.valid hv, hgoes⟩
      · rw [move, hact]
        exact ⟨hv, .inl hl⟩
  | leave p =>
      obtain ⟨s', hremove, hmoves, hgoes, hout, -⟩ := removePlayer_spec hl p
      have hv' := hmoves.restacked.valid hv
      have hstacks : ∀ q ∈ s'.hand.dealtIn.order,
          (Table.vacate s'.roster p).stack? q = s'.roster.stack? q := fun q hq =>
        stack?_vacate hv' (ne_of_mem_of_not_mem hq hout)
      simp only [move, hremove, done]
      exact ⟨valid_vacate hv', hgoes.imp (·.of_stacks hstacks) (·.of_stacks hstacks)⟩
  | sitDown p name stack wanted =>
      simp only [move]
      split
      · next seat roster hadd =>
          refine ⟨(Roster.add_spec hv hadd).2.2.1, .inl (hl.of_stacks fun q hq => ?_)⟩
          exact Roster.stack?_add hv hadd (hl.places.seated q hq)
      · exact ⟨hv, .inl hl⟩

/-- Nothing but the seats changes once a hand is over. -/
theorem hand_move_of_over (h : s.hand.isOver = true) (m : Move) : (s.move m).1.hand = s.hand := by
  cases m with
  | act p a =>
      rw [move, act_of_over h]
      rfl
  | leave p => simp only [move, removePlayer_of_over h, done]
  | sitDown p name stack wanted =>
      simp only [move]
      split <;> rfl

theorem move_of_over (hv : s.roster.Valid) (h : s.hand.isOver = true) (m : Move) :
    (s.move m).1.roster.Valid ∧ (s.move m).1.hand = s.hand := by
  refine ⟨?_, hand_move_of_over h m⟩
  cases m with
  | act p a =>
      rw [move, act_of_over h]
      exact hv
  | leave p =>
      simp only [move, removePlayer_of_over h, done]
      exact valid_vacate hv
  | sitDown p name stack wanted =>
      simp only [move]
      split
      · next seat roster hadd => exact (Roster.add_spec hv hadd).2.2.1
      · exact hv

theorem InPlay.move (h : s.InPlay) (m : Move) : (s.move m).1.InPlay := by
  rcases h.goes with hl | hover
  · obtain ⟨hv, hgoes⟩ := move_spec h.valid hl m
    exact .of_goes hv hgoes
  · obtain ⟨hv, hsame⟩ := move_of_over h.valid hover m
    exact ⟨hv, .inr (hsame ▸ hover)⟩

/-- From the first prompt on a hand is live until it is over. -/
theorem InPlay.play (h : s.InPlay) (moves : List Move) : (s.play moves).InPlay := by
  induction moves generalizing s with
  | nil => exact h
  | cons m rest ih => exact ih (h.move m)

theorem InPlay.sound (h : s.InPlay) : s.Sound := by
  rcases h.goes with hl | hover
  · refine ⟨fun p a => ?_, fun p => ?_, fun _ => ⟨hl.balanced.checkConservation, fun m => ?_⟩⟩
    · exact (act_spec hl).imp_left fun ⟨s', hact, _⟩ => ⟨s', hact⟩
    · obtain ⟨s', hremove, -⟩ := removePlayer_spec hl p
      exact ⟨s', hremove⟩
    · exact checkConservation_of_goes (move_spec h.valid hl m).2
  · refine ⟨fun p a => .inr ⟨_, act_of_over hover, rfl⟩, fun p => ?_, fun hplayed => ?_⟩
    · exact ⟨s, removePlayer_of_over hover⟩
    · rw [hover] at hplayed
      cases hplayed

/-- A hand that is not over waits for somebody. -/
theorem InPlay.waits (h : s.InPlay) :
    s.hand.isOver = true ∨ (∃ p, s.WaitsFor p) ∧ s.TurnsHold := by
  rcases h.goes with hl | hover
  · exact .inr ⟨exists_waitsFor hl, turnsHold_of_places hl.places⟩
  · exact .inl hover

theorem InPlay.of_begun {r : Roster} (hv : r.Valid) (hb : Hand.Begun r s) : s.InPlay :=
  .of_goes (hb.restacked.valid hv) hb.goes

end Spot
end Holdem

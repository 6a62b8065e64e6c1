import Holdem.Proofs.Hand.Button
import Holdem.Proofs.Hand.Observer

/-!
# Who is named in a hand

A hand names who is to have the button next and who opened the street. The button passes on whenever
whoever is to have it leaves. The opening of the street passes on too if they leave while they have
a turn, and every street names somebody anew. Whoever opened the street, folds and only then leaves
is the one who stays named, until the street is over.
-/
namespace Holdem

/-- Who opens the street in `h'`, if the hand moved on to there from `h`: the same player as in `h`,
or on another street the leader. -/
inductive Hand.Designates (h h' : Hand) : Prop
  | stays : h'.phase = h.phase → h'.firstToAct = h.firstToAct → Designates h h'
  | leads : h.leader? = some h'.firstToAct → Designates h h'
  | ended : h'.isOver = true → Designates h h'

/-- Who opens the street after somebody is taken out of the hand. Only whoever has a turn passes it
on. -/
def Hand.openerWithout (h : Hand) (p : PlayerId) : PlayerId :=
  if h.firstToAct = p ∧ p ∈ h.turns.order then (h.turns.nextTo p).toOption.getD h.firstToAct
  else h.firstToAct

namespace Spot
variable {s s' mid t : Spot} {p : PlayerId} {plan : Plan} {news : List GameEvent} {m : Move}
  {moves : List Move}

/-! ## Moving on -/

theorem openStreet_first {h : Hand} (phase : Phase) (hleader : h.leader? = some p) :
    (openStreet h phase).firstToAct = p := by
  simp only [openStreet, find?_asked phase hleader]

/-- The leader opens the street that is dealt. -/
theorem dealStreet_first {phase : Phase} {count : Nat} (h : s.dealStreet phase count = s'.done)
    (hleader : s.hand.leader? = some p) : s'.hand.firstToAct = p := by
  unfold dealStreet at h
  dsimp only at h
  split at h
  · cases h
  · cases h
    let dealt : Hand :=
      { s.hand with
        deck := (s.hand.deck.drawUpTo count).2
        board := s.hand.board ++ (s.hand.deck.drawUpTo count).1 }
    exact openStreet_first (h := dealt) phase hleader

/-- A hand that goes on after a street was dealt has somebody who can bet, so the leader opened
it. -/
theorem designates_street {phase : Phase} {count : Nat} (hs : s.hand.Steady s.roster)
    (hmid : mid.hand.Steady mid.roster)
    (hdeal : (s.mapHand Hand.collectRound).dealStreet phase count = mid.done)
    (hturn : mid.hand.TurnMoves s'.hand) (h : mid.hand.Designates s'.hand) :
    s.hand.Designates s'.hand := by
  obtain ⟨-, -, hleader, -⟩ := dealStreet_turn hs.places.collectRound hdeal
  have hled : mid.hand.leader? = s.hand.leader? := hleader
  cases h with
  | stays _ hfirst =>
      have hopened : ∀ q, mid.hand.leader? = some q → s.hand.Designates s'.hand := fun q hq => by
        have hmidFirst : mid.hand.firstToAct = q := dealStreet_first hdeal (hleader ▸ hq)
        exact .leads (by rw [hfirst, hmidFirst, ← hled, hq])
      cases hturn with
      | sameStreet _ _ _ _ hfind =>
          have howes := Round.owesAction_iff.mp (List.find?_some hfind)
          obtain ⟨q, hq⟩ := exists_leader hmid.places (hmid.bets.able _ howes)
          exact hopened q hq
      | newStreet _ hl => exact hopened _ hl
      | ended hended => exact .ended hended
  | leads hl => exact .leads (hled ▸ hl)
  | ended hended => exact .ended hended

/-- Who opens the street after a hand moved on. Between two streets the leader is the same. -/
theorem advance_designates (hs : s.hand.Steady s.roster) (h : s.advance = s'.done) :
    s.hand.Designates s'.hand := by
  refine advance_induct (P := fun s s' => s.hand.Designates s'.hand) .ended ?_ ?_ hs h
  · intro s s' _ _ _ hprompted
    obtain ⟨p, i, -, -, rfl⟩ := prompt_turn hprompted
    exact .stays rfl rfl
  · intro s mid s' phase count later hs _ hmid hdeal hrest hdesignates
    exact designates_street hs hmid hdeal (advance_turn hmid hrest) hdesignates

/-- While a hand goes on, its opener is dealt in or has been named before. -/
theorem opener_dealtIn_or_stays {h h' : Hand} {r : Roster} (hd : h.Designates h')
    (hp : h.Places r) (hlive : h'.isOver = false) :
    h'.firstToAct ∈ h.dealtIn.order ∨ h'.phase = h.phase ∧ h'.firstToAct = h.firstToAct := by
  cases hd with
  | stays hphase hfirst => exact .inr ⟨hphase, hfirst⟩
  | leads hl => exact .inl (hp.turns_subset (Hand.mem_ableToAct.mp (able_of_leader hl)).1)
  | ended hended =>
      rw [hlive] at hended
      cases hended

/-! ## What a move does to the opener -/

theorem Acts.firstToAct (h : s.Acts plan news mid) : mid.hand.firstToAct = s.hand.firstToAct := by
  cases h with
  | check | fold => rfl
  | commit => exact Hand.firstToAct_withBet

theorem foldOut_first (h : s.foldOut p = mid.done) :
    mid.hand.firstToAct = s.hand.firstToAct := by
  unfold foldOut at h
  split at h
  · cases hremove : s.hand.turns.remove p with
    | error e =>
        simp only [mapHand, Hand.markFolded, hremove] at h
        cases h
    | ok turns =>
        simp only [mapHand, Hand.markFolded, hremove] at h
        cases h
        rfl
  · cases h

theorem takeOut_first {goesOn : Bool} (ha : s.hand.Awake s.roster)
    (h : s.takeOut p = (mid.done, goesOn)) :
    mid.hand.firstToAct = s.hand.openerWithout p := by
  rw [takeOut, if_neg (by rw [ha.not_over]; exact Bool.false_ne_true)] at h
  by_cases hturn : p ∈ s.hand.turns.order
  · obtain ⟨place, hremove, -⟩ :=
      TurnOrder.remove_of_mem ha.places.nodup (ha.places.turns_subset hturn)
    have hheld : ∀ dealtIn, (s.strikeOff p dealtIn).hand.turns.contains p = true := fun _ =>
      List.contains_iff_mem.mpr hturn
    simp only [hremove, hheld, if_true, foldedOut, Prod.mk.injEq] at h
    rw [foldOut_first h.1, Hand.openerWithout]
    by_cases hfirst : s.hand.firstToAct = p
    · rw [if_pos ⟨hfirst, hturn⟩]
      exact congrArg Hand.firstToAct (if_pos hfirst)
    · rw [if_neg fun hboth => hfirst hboth.1]
      exact (congrArg Hand.firstToAct (if_neg hfirst)).trans rfl
  · rw [Hand.openerWithout, if_neg fun hboth => hturn hboth.2]
    have hheld : ∀ dealtIn, (s.strikeOff p dealtIn).hand.turns.contains p = false := fun _ =>
      Bool.eq_false_iff.mpr fun hin => hturn (List.contains_iff_mem.mp hin)
    split at h
    · cases h
      rfl
    · simp only [hheld] at h
      cases h
      rfl

/-- What a move does to the opener. Somebody is named who is dealt in, or the same player as before
is, and then they were gone before or are leaving now after they folded. -/
inductive OpenerMoves (s : Spot) (m : Move) (t : Spot) : Prop
  | present : t.hand.firstToAct ∈ t.hand.dealtIn.order → OpenerMoves s m t
  | absent : t.hand.phase = s.hand.phase → t.hand.firstToAct = s.hand.firstToAct →
      s.hand.firstToAct ∉ s.hand.dealtIn.order → OpenerMoves s m t
  | walksOut : t.hand.phase = s.hand.phase → t.hand.firstToAct = s.hand.firstToAct →
      s.hand.firstToAct ∈ s.hand.dealtIn.order → m = .leave s.hand.firstToAct →
      s.hand.isFolded s.hand.firstToAct = true → OpenerMoves s m t

theorem openerMoves_of_kept (hphase : t.hand.phase = s.hand.phase)
    (hfirst : t.hand.firstToAct = s.hand.firstToAct) (hdealtIn : t.hand.dealtIn = s.hand.dealtIn) :
    s.OpenerMoves m t := by
  by_cases hin : s.hand.firstToAct ∈ s.hand.dealtIn.order
  · exact .present (by rw [hfirst, hdealtIn]; exact hin)
  · exact .absent hphase hfirst hin

theorem openerMoves_of_same (h : t.hand = s.hand) : s.OpenerMoves m t :=
  openerMoves_of_kept (by rw [h]) (by rw [h]) (by rw [h])

theorem act_opener (hl : s.hand.Live s.roster) (a : Action)
    (hlive : (s.move (.act p a)).1.hand.isOver = false) :
    s.OpenerMoves (.act p a) (s.move (.act p a)).1 := by
  cases hv : s.validate p a with
  | error e =>
      refine openerMoves_of_same ?_
      rw [move, act_eq_fail hv]
      rfl
  | ok plan =>
      obtain ⟨told, mid, hact, -, hacts, hsteady⟩ := act_carries hl.toAwake hv
      obtain ⟨news, s', hs', hon⟩ := advance_movesOn hsteady (hacts.alters.stocked hl.stocked)
      have hmove : (s.move (.act p a)).1 = s' := by
        rw [move, hact, hs']
        rfl
      obtain ⟨-, hdealtIn, -⟩ := hon.sameSeats
      rw [hmove] at hlive ⊢
      rcases opener_dealtIn_or_stays (advance_designates hsteady hs') hsteady.places hlive with
        hin | ⟨hphase, hfirst⟩
      · exact .present (hdealtIn.symm ▸ hin)
      · exact openerMoves_of_kept (hphase.trans hacts.alters.phase)
          (hfirst.trans hacts.firstToAct) (hdealtIn.trans hacts.sameSeats.2)

/-- After somebody was taken out a hand stays as it is or moves on. -/
theorem leave_designates {goesOn : Bool} (hl : s.hand.Live s.roster)
    (htakeOut : s.takeOut p = (mid.done, goesOn)) (htakes : s.TakesOut p mid goesOn) :
    mid.hand.Designates (s.move (.leave p)).1.hand ∧
      (s.move (.leave p)).1.hand.dealtIn = mid.hand.dealtIn := by
  have hremove : s.removePlayer p = goOn (mid.done, goesOn) := by
    rw [removePlayer_goesOn, htakeOut]
  cases goesOn with
  | false =>
      have hhand : (s.move (.leave p)).1.hand = mid.hand := by
        simp only [move, hremove, goOn, done]
      rw [hhand]
      exact ⟨.stays rfl rfl, rfl⟩
  | true =>
      obtain ⟨told, hdeparts⟩ := htakes.departs
      obtain ⟨news, s', hs', hon⟩ := advance_movesOn htakes.steady (hdeparts.stocked hl.stocked)
      have hhand : (s.move (.leave p)).1.hand = s'.hand := by
        simp only [move, hremove, goOn, andThen, done, hs']
      rw [hhand]
      exact ⟨advance_designates htakes.steady hs', hon.sameSeats.2.1⟩

/-- An opener who has a turn passes the opening on to somebody else who has one. -/
theorem openerWithout_of_turn (ha : s.hand.Awake s.roster) (hfirst : s.hand.firstToAct = p)
    (hp : p ∈ s.hand.turns.order) :
    s.hand.openerWithout p ∈ s.hand.dealtIn.order ∧ s.hand.openerWithout p ≠ p := by
  obtain ⟨q, hq, hnext⟩ := TurnOrder.nextTo_of_mem hp
  have hpassed : s.hand.openerWithout p = q := by
    rw [Hand.openerWithout, if_pos ⟨hfirst, hp⟩, hnext]
    rfl
  rw [hpassed]
  exact ⟨ha.places.turns_subset hq,
    TurnOrder.ne_of_nextTo ha.places.turns_nodup ha.contested hp hnext⟩

theorem leave_opener (hl : s.hand.Live s.roster) (p : PlayerId)
    (hlive : (s.move (.leave p)).1.hand.isOver = false) :
    s.OpenerMoves (.leave p) (s.move (.leave p)).1 := by
  obtain ⟨mid, goesOn, htakeOut, htakes⟩ := takeOut_spec hl.toAwake p
  obtain ⟨hdesignates, hdealtIn⟩ := leave_designates hl htakeOut htakes
  obtain ⟨told, hdeparts⟩ := htakes.departs
  have hmid := takeOut_first hl.toAwake htakeOut
  have hstays : ∀ q ∈ s.hand.dealtIn.order, q ≠ p →
      q ∈ (s.move (.leave p)).1.hand.dealtIn.order := fun q hq hne => by
    rw [hdealtIn, htakes.without.dealtIn]
    exact List.mem_filter.mpr ⟨hq, decide_eq_true hne⟩
  rcases opener_dealtIn_or_stays hdesignates htakes.steady.places hlive with hin | ⟨hphase, hfirst⟩
  · exact .present (hdealtIn.symm ▸ hin)
  · by_cases hleaver : s.hand.firstToAct = p ∧ p ∈ s.hand.turns.order
    · obtain ⟨hin, hne⟩ := openerWithout_of_turn hl.toAwake hleaver.1 hleaver.2
      rw [← hmid, ← hfirst] at hin hne
      exact .present (hstays _ hin hne)
    · have hsame := hfirst.trans (hmid.trans (if_neg hleaver))
      have hstreet := hphase.trans (hdeparts.alters.elim (·.phase) (·.phase))
      by_cases hin : s.hand.firstToAct ∈ s.hand.dealtIn.order
      · by_cases hp : s.hand.firstToAct = p
        · have hfolded : s.hand.isFolded p = true :=
            Classical.byContradiction fun hstands => hleaver ⟨hp, hl.places.mem_turns.mpr
              ⟨hp ▸ hin, Bool.eq_false_iff.mpr hstands⟩⟩
          exact .walksOut hstreet hsame hin (hp ▸ rfl) (hp ▸ hfolded)
        · exact .present (hsame ▸ hstays _ hin hp)
      · exact .absent hstreet hsame hin

/-- What any move does to the opener, as long as the hand goes on. -/
theorem move_opener (hplay : s.InPlay) (m : Move) (hlive : (s.move m).1.hand.isOver = false) :
    s.OpenerMoves m (s.move m).1 := by
  have hl : s.hand.Live s.roster := hplay.goes.resolve_right fun hover => by
    rw [hand_move_of_over hover, hover] at hlive
    cases hlive
  cases m with
  | act p a => exact act_opener hl a hlive
  | leave p => exact leave_opener hl p hlive
  | sitDown p name stack wanted =>
      refine openerMoves_of_same ?_
      simp only [move]
      split <;> rfl

/-! ## What moves do -/

/-- During some moves, on the street that is played after them, a player who opened it and had
folded left the table. -/
def WalkedOut (s : Spot) (moves : List Move) (p : PlayerId) : Prop :=
  ∃ before after, moves = before ++ .leave p :: after ∧
    (s.play before).hand.phase = (s.play moves).hand.phase ∧
    (s.play before).hand.firstToAct = p ∧ p ∈ (s.play before).hand.dealtIn.order ∧
    (s.play before).hand.isFolded p = true

theorem play_append (s : Spot) (moves moves' : List Move) :
    s.play (moves ++ moves') = (s.play moves).play moves' :=
  List.foldl_append

theorem dealtIn_move_subset (hplay : s.InPlay) (m : Move) :
    (s.move m).1.hand.dealtIn.order ⊆ s.hand.dealtIn.order := by
  cases move_cases hplay.atRest m with
  | unfolds _ hunfolds _ hhand => exact hhand ▸ hunfolds.moves.remain
  | same _ hhand => exact hhand ▸ List.Subset.refl _
  | short _ hfault => exact absurd hfault (hplay.not_faulty m)

/-- Nobody is dealt in later on. -/
theorem dealtIn_play_subset (hplay : s.InPlay) (moves : List Move) :
    (s.play moves).hand.dealtIn.order ⊆ s.hand.dealtIn.order := by
  induction moves generalizing s with
  | nil => exact List.Subset.refl _
  | cons m rest ih => exact List.Subset.trans (ih (hplay.move m)) (dealtIn_move_subset hplay m)

theorem not_dealtIn_leave (hplay : s.InPlay) (hlive : s.hand.isOver = false) (p : PlayerId) :
    p ∉ (s.move (.leave p)).1.hand.dealtIn.order := by
  obtain ⟨s', hremove, -, -, hout, -⟩ := removePlayer_spec (hplay.live hlive) p
  simpa only [move, hremove, done] using hout

/-- A hand that goes on after some moves went on before. -/
theorem live_of_play (moves : List Move) (hlive : (s.play moves).hand.isOver = false) :
    s.hand.isOver = false := by
  induction moves generalizing s with
  | nil => exact hlive
  | cons m rest ih =>
      refine Bool.eq_false_iff.mpr fun hover => ?_
      have hnext := ih hlive
      rw [hand_move_of_over hover, hover] at hnext
      cases hnext

theorem walkedOut_of_leave
    (hphase : (s.play (moves ++ [.leave p])).hand.phase = (s.play moves).hand.phase)
    (hfirst : (s.play moves).hand.firstToAct = p) (hin : p ∈ (s.play moves).hand.dealtIn.order)
    (hfolded : (s.play moves).hand.isFolded p = true) : s.WalkedOut (moves ++ [.leave p]) p :=
  ⟨moves, [], rfl, hphase.symm, hfirst, hin, hfolded⟩

theorem WalkedOut.append (h : s.WalkedOut moves p)
    (hphase : (s.play (moves ++ [m])).hand.phase = (s.play moves).hand.phase) :
    s.WalkedOut (moves ++ [m]) p := by
  obtain ⟨before, after, rfl, hstreet, hrest⟩ := h
  refine ⟨before, after ++ [m], ?_, hstreet.trans hphase.symm, hrest⟩
  rw [List.append_assoc, List.cons_append]

/-- As long as a hand goes on its opener is dealt in, unless they walked out. The induction takes
the moves from the last one back, as it is the street after the last that counts. -/
theorem opener_dealtIn_or_walkedOut (hplay : s.InPlay)
    (hfirst : s.hand.isOver = false → s.hand.firstToAct ∈ s.hand.dealtIn.order)
    (moves : List Move) (hlive : (s.play moves).hand.isOver = false) :
    (s.play moves).hand.firstToAct ∈ (s.play moves).hand.dealtIn.order ∨
      s.WalkedOut moves (s.play moves).hand.firstToAct := by
  induction moves using List.reverseRecOn with
  | nil => exact .inl (hfirst hlive)
  | append_singleton moves m ih =>
      have hlast : ((s.play moves).move m).1 = s.play (moves ++ [m]) :=
        (play_append s moves [m]).symm
      have hmoves := move_opener (hplay.play moves) m (by rw [hlast]; exact hlive)
      rw [hlast] at hmoves
      cases hmoves with
      | present hin => exact .inl hin
      | absent hphase hsame hout =>
          have hbefore : (s.play moves).hand.isOver = false :=
            live_of_play [m] (play_append s moves [m] ▸ hlive)
          rw [hsame]
          exact .inr (((ih hbefore).resolve_left hout).append hphase)
      | walksOut hphase hsame hin hleaves hfolded =>
          subst hleaves
          rw [hsame]
          exact .inr (walkedOut_of_leave hphase rfl hin hfolded)

theorem WalkedOut.not_dealtIn (h : s.WalkedOut moves p) (hplay : s.InPlay)
    (hlive : (s.play moves).hand.isOver = false) : p ∉ (s.play moves).hand.dealtIn.order := by
  obtain ⟨before, after, rfl, -⟩ := h
  rw [play_append] at hlive ⊢
  have hnow := live_of_play _ hlive
  have hbefore := hplay.play before
  exact fun hin => not_dealtIn_leave hbefore hnow p (dealtIn_play_subset (hbefore.move _) after hin)

/-- Whoever leaves or acts, the button is passed on as it is to be. -/
theorem passesButton_move {seats : List PlayerId} {dealer : PlayerId} (hplay : s.InPlay)
    (hn : seats.Nodup) (hb : s.hand.PassesButton seats dealer) (m : Move) :
    (s.move m).1.hand.PassesButton seats dealer := by
  rcases hplay.goes with hl | hover
  · cases m with
    | act p a =>
        cases hv : s.validate p a with
        | error e =>
            rw [move, act_eq_fail hv]
            exact hb
        | ok plan =>
            rcases act_unfolds hl.toAwake hv with ⟨news, s', hact, -, hkeeps⟩ | ⟨hshort, -⟩
            · rw [move, hact]
              exact hb.keeps hkeeps
            · exact absurd hl.stocked hshort
    | leave p =>
        rcases removePlayer_unfolds hl.toAwake p with
          ⟨news, s', hremove, -, -, hwithout⟩ | ⟨hshort, -⟩
        · simp only [move, hremove, done]
          exact hb.without hn hl.two_dealtIn hwithout
        · exact absurd hl.stocked hshort
    | sitDown p name stack wanted =>
        simp only [move]
        split <;> exact hb
  · rw [hand_move_of_over hover]
    exact hb

theorem passesButton_play {seats : List PlayerId} {dealer : PlayerId} (hplay : s.InPlay)
    (hn : seats.Nodup) (hb : s.hand.PassesButton seats dealer) (moves : List Move) :
    (s.play moves).hand.PassesButton seats dealer := by
  induction moves generalizing s with
  | nil => exact hb
  | cons m rest ih => exact ih (hplay.move m) (passesButton_move hplay hn hb m)

/-- Whom a hand names after some moves from `s`. -/
structure Names (s : Spot) (moves : List Move) : Prop where
  nextDealer : (s.play moves).hand.nextDealer ∈ (s.play moves).hand.dealtIn.order
  firstToAct : (s.play moves).hand.firstToAct ∈ (s.play moves).hand.dealtIn.order ↔
    ¬ s.WalkedOut moves (s.play moves).hand.firstToAct
  seated : ∀ p ∈ (s.play moves).hand.dealtIn.order, (s.play moves).roster.contains p = true

end Spot

/-! ## From the deal on -/

namespace Hand
section Deal
variable {number : Nat} {r r' : Roster} {dealer : PlayerId} {blinds : Blinds} {deck : Deck}
  {ev ev' : Evaluator} {h : Hand}

theorem Opens.firstToAct {d mid : Spot} {news : List GameEvent} (h : Opens d news mid) :
    mid.hand.firstToAct = d.hand.firstToAct := by
  cases h with
  | blinds => exact firstToAct_withBet.trans firstToAct_withBet

/-- The opener of a hand that was just dealt is dealt in. -/
theorem opener_of_deal (hv : r.Valid)
    (hdeal : deal number r dealer blinds deck ev = (r', ev', .ok h)) (hlive : h.isOver = false) :
    h.firstToAct ∈ h.dealtIn.order := by
  obtain ⟨pos, news, hsetUp, hopened, hadvance⟩ := opened_of_deal hv hdeal
  obtain ⟨told, hon, -, -⟩ := hopened.movesOn hv hadvance
  obtain ⟨-, hdealer, -⟩ := canDeal_of_deal hv hdeal
  obtain ⟨-, -, -, rest, hleft⟩ :=
    positionsIn_clockwise (Roster.funded_nodup hv) hdealer (positions_of_setUp hsetUp)
  have hsteady := hopened.opens.steady hopened.dealt
  rcases Spot.opener_dealtIn_or_stays (Spot.advance_designates hsteady hadvance) hsteady.places
      hlive with hin | ⟨-, hstays⟩
  · exact hon.sameSeats.2.1 ▸ hin
  · have hfirst : h.firstToAct = pos.firstToAct := hstays.trans hopened.opens.firstToAct
    rw [hfirst, hopened.dealtIn_eq hon]
    exact mem_leftOf.mp (hleft ▸ List.mem_cons_self)

/-- Until a hand is over it names players who are dealt in and seated. Only its opener may be gone,
namely after folding and leaving on the same street. -/
theorem named_players_are_dealt_in (r r' : Roster) (dealer : PlayerId) (number : Nat)
    (blinds : Blinds) (deck : Deck) (ev ev' : Evaluator) (h : Hand) (hv : r.Valid)
    (hmost : r.funded.length ≤ maxSeats) (hdeck : Card.fullDeck.length ≤ deck.cards.size)
    (hstart : start number r dealer blinds deck ev = (r', ev', .ok h)) (moves : List Move)
    (hlive : (Spot.play ⟨h, r', ev'⟩ moves).hand.isOver = false) :
    Spot.Names ⟨h, r', ev'⟩ moves := by
  have hplay : Spot.InPlay ⟨h, r', ev'⟩ :=
    .of_begun hv (begun_of_deal hv (deckSuffices_reset hdeck hmost) hstart)
  have hbutton := Spot.passesButton_play hplay (Roster.funded_nodup hv)
    (passesButton_of_deal hv hstart) moves
  have hopener := Spot.opener_dealtIn_or_walkedOut hplay (opener_of_deal hv hstart) moves hlive
  exact
    { nextDealer := hbutton.next_dealtIn
      firstToAct := ⟨fun hin hwalked => hwalked.not_dealtIn hplay hlive hin, hopener.resolve_right⟩
      seated := ((hplay.play moves).live hlive).places.seated }

theorem named_players_are_dealt_in_short_stack :
    ∃ s : Spot, start 1 shortSeated 1 ⟨5, 10⟩ (.seeded 7) { value := fun _ => HandValue.best } =
        (s.roster, s.evaluator, .ok s.hand) ∧
      (s.play [.act 1 .call, .leave 1]).hand.isOver = false ∧
      s.Names [.act 1 .call, .leave 1] := by
  have hgoes : (spotOf? (start 1 shortSeated 1 ⟨5, 10⟩ (.seeded 7)
      { value := fun _ => HandValue.best })).map (fun s =>
        (s.play [.act 1 .call, .leave 1]).hand.isOver) = some false := by decide +kernel
  obtain ⟨s, hs, hlive⟩ := Option.map_eq_some_iff.mp hgoes
  exact ⟨s, eq_of_spotOf? hs, hlive, named_players_are_dealt_in shortSeated s.roster 1 1 ⟨5, 10⟩
    (.seeded 7) _ s.evaluator s.hand (by decide) (by decide) (Nat.le_of_eq rfl) (eq_of_spotOf? hs)
    [.act 1 .call, .leave 1] hlive⟩

/-- The opener folds and leaves, and is named although they are gone. -/
theorem opener_named_after_leaving :
    shortSeated.Valid ∧
      ∃ s : Spot, start 1 shortSeated 1 ⟨5, 10⟩ (.seeded 7) { value := fun _ => HandValue.best } =
          (s.roster, s.evaluator, .ok s.hand) ∧
        (s.play [.act 1 .fold, .leave 1]).hand.isOver = false ∧
        (s.play [.act 1 .fold, .leave 1]).hand.firstToAct ∉
          (s.play [.act 1 .fold, .leave 1]).hand.dealtIn.order := by
  have hgone : (spotOf? (start 1 shortSeated 1 ⟨5, 10⟩ (.seeded 7)
      { value := fun _ => HandValue.best })).map (fun s =>
        ((s.play [.act 1 .fold, .leave 1]).hand.isOver,
          decide ((s.play [.act 1 .fold, .leave 1]).hand.firstToAct ∈
            (s.play [.act 1 .fold, .leave 1]).hand.dealtIn.order))) = some (false, false) := by
    decide +kernel
  obtain ⟨s, hs, hnamed⟩ := Option.map_eq_some_iff.mp hgone
  obtain ⟨hlive, hout⟩ := Prod.mk.inj hnamed
  exact ⟨by decide, s, eq_of_spotOf? hs, hlive, of_decide_eq_false hout⟩

end Deal
end Hand
end Holdem

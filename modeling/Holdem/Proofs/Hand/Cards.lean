import Holdem.HandValue.Best
import Holdem.Proofs.Hand.Course
import Holdem.Proofs.Shuffling
import Mathlib.Data.List.Perm.Subperm

/-!
# No card is dealt twice

The pockets that were dealt and the board are together the part of the deck that is out, and with
every street both grow by the same cards. A deck in which no card is found twice so never shows one
twice in a hand. How many cards the board has goes with the street, and all five are out when hands
are shown.
-/
namespace Holdem

/-! ## Maps and what is put into them -/

namespace NatMap
universe u v
variable {α : Type u} {β : Type v}

theorem map_place {k : Nat} {a b : α} {l : List (Nat × α)} (g : α → β) (hg : g b = g a)
    (h : l.Pairwise (fun a b => a.1 < b.1)) (hfind : find k l = some a) :
    (place k b l).map (fun e => (e.1, g e.2)) = l.map (fun e => (e.1, g e.2)) := by
  induction l with
  | nil => cases hfind
  | cons e rest ih =>
      obtain ⟨j, c⟩ := e
      have hj := List.pairwise_cons.mp h
      rw [find] at hfind
      split at hfind
      · next hkj =>
          subst hkj
          cases hfind
          simp [place, hg]
      · next hkj =>
          have hlt : j < k := hj.1 (k, a) ((mem_iff_find hj.2).mpr hfind)
          rw [place, if_neg (Nat.lt_asymm hlt), if_neg hkj, List.map_cons, ih hj.2 hfind,
            List.map_cons]

/-- What a change to one value leaves alone stays as it was in all of them. -/
theorem map_modify {m : NatMap α} {k : Nat} {f : α → α} (g : α → β) (hg : ∀ a, g (f a) = g a) :
    (m.modify k f).entries.map (fun e => (e.1, g e.2)) =
      m.entries.map (fun e => (e.1, g e.2)) := by
  unfold modify
  split
  · next a hget => exact map_place g (hg a) m.ascending hget
  · rfl

theorem perm_place {k : Nat} {a : α} {l : List (Nat × α)} (h : k ∉ l.map Prod.fst) :
    (place k a l).Perm ((k, a) :: l) := by
  induction l with
  | nil => exact .refl _
  | cons e rest ih =>
      obtain ⟨j, b⟩ := e
      rw [List.map_cons, List.mem_cons, not_or] at h
      rw [place]
      split
      · exact .refl _
      · rw [if_neg h.1]
        exact ((ih h.2).cons _).trans (.swap ..)

theorem perm_foldl_insert {l : List (Nat × α)} {m : NatMap α}
    (h : ((m.entries ++ l).map Prod.fst).Nodup) :
    (l.foldl (fun m e => m.insert e.1 e.2) m).entries.Perm (m.entries ++ l) := by
  induction l generalizing m with
  | nil => exact .of_eq (List.append_nil _).symm
  | cons e rest ih =>
      obtain ⟨k, a⟩ := e
      have hnew : k ∉ m.entries.map Prod.fst := by
        rw [List.map_append, List.nodup_append] at h
        exact fun hk => h.2.2 k hk k List.mem_cons_self rfl
      have hstep : ((m.insert k a).entries ++ rest).Perm (m.entries ++ (k, a) :: rest) :=
        ((perm_place hnew).append_right rest).trans List.perm_middle.symm
      exact (ih ((hstep.map Prod.fst).nodup_iff.mpr h)).trans hstep

/-- With different keys everything that is put into a map is kept. -/
theorem perm_ofList {l : List (Nat × α)} (h : (l.map Prod.fst).Nodup) :
    (ofList l).entries.Perm l :=
  perm_foldl_insert (m := ∅) h

end NatMap

/-! ## Cards that are out -/

namespace Hand

/-- The pockets that were dealt, also those of players who folded or left since. -/
def pocketsDealt (h : Hand) : List (PlayerId × List Card) :=
  h.holdings.entries.map fun e => (e.1, e.2.pocket)

/-- The cards in pockets and on the board. -/
def cardsOut (h : Hand) : List Card := h.pocketsDealt.flatMap Prod.snd ++ h.board

/-- A hand whose cards came from the top of a deck in which no card is found twice. The streets to
come would complete the board, and hands were shown only when it was complete. -/
structure FairlyDealt (h : Hand) : Prop where
  distinct : h.deck.cards.toList.Nodup
  out : h.cardsOut.Perm (h.deck.cards.toList.take h.deck.drawn)
  pockets : ∀ e ∈ h.pocketsDealt, e.2.length = 2
  board : h.phase.isBetting = true → h.board.length + (h.phase.streets.map (·.2)).sum = 5
  unshown : h.phase.isBetting = true → .showdown ∉ h.closed
  shown : .showdown ∈ h.closed → h.board.length = 5

section Same
variable {h h' : Hand} {p : PlayerId} {round : Round} {allIn : Bool}

theorem mem_pocketsDealt {cards : List Card} :
    (p, cards) ∈ h.pocketsDealt ↔ h.pocket? p = some cards := by
  rw [pocketsDealt, List.mem_map, pocket?, Option.map_eq_some_iff]
  constructor
  · rintro ⟨⟨q, held⟩, he, heq⟩
    cases heq
    exact ⟨held, NatMap.mem_entries_iff.mp he, rfl⟩
  · rintro ⟨held, hget, rfl⟩
    exact ⟨(p, held), NatMap.mem_entries_iff.mpr hget, rfl⟩

/-- A step of a hand that touches no card and closes no round. -/
structure SameCards (h h' : Hand) : Prop where
  pockets : h'.pocketsDealt = h.pocketsDealt
  board : h'.board = h.board
  deck : h'.deck = h.deck
  phase : h'.phase = h.phase
  closed : h'.closed = h.closed

theorem FairlyDealt.of_same (hf : h.FairlyDealt) (hsame : SameCards h h') : h'.FairlyDealt where
  distinct := hsame.deck ▸ hf.distinct
  out := by
    rw [cardsOut, hsame.pockets, hsame.board, hsame.deck]
    exact hf.out
  pockets := hsame.pockets ▸ hf.pockets
  board := by
    rw [hsame.phase, hsame.board]
    exact hf.board
  unshown := by
    rw [hsame.phase, hsame.closed]
    exact hf.unshown
  shown := by
    rw [hsame.closed, hsame.board]
    exact hf.shown

theorem pocketsDealt_markAllIn : (h.markAllIn p).pocketsDealt = h.pocketsDealt :=
  NatMap.map_modify Holding.pocket fun _ => rfl

theorem pocketsDealt_markFolded : (h.markFolded p).pocketsDealt = h.pocketsDealt :=
  NatMap.map_modify Holding.pocket fun _ => rfl

theorem pocketsDealt_withBet : (h.withBet p round allIn).pocketsDealt = h.pocketsDealt := by
  cases allIn
  · rfl
  · exact pocketsDealt_markAllIn

end Same
end Hand

/-! ## What happens in a hand -/

namespace Spot
variable {s s' mid : Spot} {p : PlayerId} {news : List GameEvent}

theorem Acts.sameCards {plan : Plan} (h : s.Acts plan news mid) :
    Hand.SameCards s.hand mid.hand where
  pockets := by
    cases h with
    | check => rfl
    | commit => exact Hand.pocketsDealt_withBet
    | fold => exact Hand.pocketsDealt_markFolded
  board := by
    cases h with
    | check | fold => rfl
    | commit => exact Hand.board_withBet
  deck := h.alters.deck
  phase := h.alters.phase
  closed := h.alters.closed

theorem Departs.sameCards (h : s.Departs p news mid) : Hand.SameCards s.hand mid.hand where
  pockets := by
    cases h with
    | absent | folded => rfl
    | standing => exact Hand.pocketsDealt_markFolded
  board := by cases h <;> rfl
  deck := h.alters.elim (·.deck) (·.deck)
  phase := h.alters.elim (·.phase) (·.phase)
  closed := h.alters.elim (·.closed) (·.closed)

/-- The cards of a street go from the deck to the board. -/
theorem fairlyDealt_onStreet {phase : Phase} {count i : Nat} {later : List (Phase × Nat)}
    {first : PlayerId} (hf : s.hand.FairlyDealt) (hs : s.hand.Steady s.roster)
    (hstreets : s.hand.phase.streets = (phase, count) :: later)
    (hlen : (s.hand.deck.drawUpTo count).1.length = count) :
    (s.hand.onStreet phase count first i).FairlyDealt := by
  have hcards : (s.hand.deck.drawUpTo count).1 =
      (s.hand.deck.cards.toList.drop s.hand.deck.drawn).take count :=
    s.hand.deck.cards_drawUpTo count
  have hdeck : (s.hand.deck.drawUpTo count).2 =
      { s.hand.deck with drawn := s.hand.deck.drawn + count } := by
    obtain ⟨hcount, hrest⟩ := drawUpTo_eq s.hand.deck count
    rw [hrest, ← hcount, hlen]
  have hclosed : (s.hand.onStreet phase count first i).closed = s.hand.closed ++ [phase] :=
    Hand.closed_emit ..
  have hnot : .showdown ∉ s.hand.closed ++ [phase] := by
    rw [List.mem_append, List.mem_singleton, not_or]
    refine ⟨hf.unshown hs.betting, ?_⟩
    rintro rfl
    exact absurd (isBetting_of_streets_eq_cons hstreets) (by decide)
  have hboard : s.hand.board.length + (count + (later.map (·.2)).sum) = 5 := by
    have h := hf.board hs.betting
    rwa [hstreets, List.map_cons, List.sum_cons] at h
  constructor
  case distinct =>
    show (s.hand.deck.drawUpTo count).2.cards.toList.Nodup
    rw [hdeck]
    exact hf.distinct
  case out =>
    show (s.hand.pocketsDealt.flatMap Prod.snd ++
        (s.hand.board ++ (s.hand.deck.drawUpTo count).1)).Perm
      ((s.hand.deck.drawUpTo count).2.cards.toList.take (s.hand.deck.drawUpTo count).2.drawn)
    rw [hdeck, hcards, ← List.append_assoc, List.take_add]
    exact hf.out.append_right _
  case pockets => exact hf.pockets
  case board =>
    intro _
    show (s.hand.board ++ (s.hand.deck.drawUpTo count).1).length + (phase.streets.map (·.2)).sum = 5
    rw [Phase.streets_of_streets_eq_cons hstreets, List.length_append, hlen, Nat.add_assoc]
    exact hboard
  case unshown => exact fun _ => hclosed ▸ hnot
  case shown => exact fun h => absurd (hclosed ▸ h) hnot

/-- When hands are shown there are no streets to come. -/
theorem Payoff.fairlyDealt {payouts : Payouts} {shown : NatMap ShownHand} {evaluator : Evaluator}
    (h : s.Payoff payouts shown) (hf : s.hand.FairlyDealt) (hs : s.hand.Steady s.roster) :
    (s.concluded payouts shown evaluator).hand.FairlyDealt where
  distinct := hf.distinct
  out := hf.out
  pockets := hf.pockets
  board hbetting := by cases hbetting
  unshown hbetting := by cases hbetting
  shown htold := by
    have hclosed : (s.concluded payouts shown evaluator).hand.closed = s.hand.closed ++
        (GameEvent.handEnded s.hand.number payouts shown s.hand.board).closes?.toList :=
      Hand.closed_emit ..
    rw [hclosed, List.mem_append] at htold
    rcases h.shows with ⟨-, hnone⟩ | ⟨-, hlast, -⟩
    · rw [hnone] at htold
      rcases htold with htold | htold
      · exact absurd htold (hf.unshown hs.betting)
      · cases htold
    · have hboard := hf.board hs.betting
      rwa [hlast] at hboard

theorem MovesOn.fairlyDealt (h : MovesOn s news s') (hf : s.hand.FairlyDealt) :
    s'.hand.FairlyDealt := by
  induction h with
  | prompt => exact hf.of_same ⟨rfl, rfl, rfl, rfl, (Hand.closed_emit ..).trans (List.append_nil _)⟩
  | ended hs hpay => exact hpay.fairlyDealt hf hs
  | street hs hstreets hlen _ ih => exact ih (fairlyDealt_onStreet hf hs hstreets hlen)

theorem Unfolds.fairlyDealt (h : s.Unfolds news s') (hf : s.hand.FairlyDealt) :
    s'.hand.FairlyDealt := by
  cases h with
  | acts _ hacts hon => exact hon.fairlyDealt (hf.of_same hacts.sameCards)
  | leaves hdeparts hon => exact hon.fairlyDealt (hf.of_same hdeparts.sameCards)
  | stays hdeparts => exact hf.of_same hdeparts.sameCards

theorem InPlay.fairlyDealt_move (h : s.InPlay) (hf : s.hand.FairlyDealt) (m : Move) :
    (s.move m).1.hand.FairlyDealt := by
  cases move_cases h.atRest m with
  | unfolds _ hunfolds _ hhand => exact hhand ▸ hunfolds.fairlyDealt hf
  | same _ hhand => exact hhand ▸ hf
  | short _ hfault => exact absurd hfault (h.not_faulty m)

theorem InPlay.fairlyDealt_play (h : s.InPlay) (hf : s.hand.FairlyDealt) (moves : List Move) :
    (s.play moves).hand.FairlyDealt := by
  induction moves generalizing s with
  | nil => exact hf
  | cons m rest ih => exact ih (h.move m) (h.fairlyDealt_move hf m)

end Spot

/-! ## The deal -/

namespace Hand

theorem perm_flatMap_zip (first second : List Card) (h : first.length = second.length) :
    ((first.zip second).flatMap fun e => [e.1, e.2]).Perm (first ++ second) := by
  induction first generalizing second with
  | nil => rw [List.eq_nil_of_length_eq_zero h.symm]; exact .refl _
  | cons a first ih =>
      cases second with
      | nil => cases h
      | cons b second =>
          have hrest := ih second (Nat.succ.inj h)
          exact ((hrest.cons b).trans List.perm_middle.symm).cons a

/-- Every card is dealt to somebody, two to each. -/
theorem pockets_cards {order : List PlayerId} {cards : List Card} (hn : order.Nodup)
    (hlen : cards.length = 2 * order.length) :
    (((pockets order cards).entries.map fun e => (e.1, e.2.pocket)).flatMap Prod.snd).Perm cards ∧
      ∀ e ∈ (pockets order cards).entries, e.2.pocket.length = 2 := by
  let first := cards.take order.length
  let second := cards.drop order.length
  have hfirst : first.length = order.length := by
    rw [List.length_take]
    omega
  have hsecond : second.length = order.length := by
    rw [List.length_drop]
    omega
  have hzip : (first.zip second).length = order.length := by
    rw [List.length_zip, hfirst, hsecond, Nat.min_self]
  let dealt : List (PlayerId × Holding) :=
    (order.zip (first.zip second)).map fun e => (e.1, { pocket := [e.2.1, e.2.2] })
  have hkeys : dealt.map Prod.fst = order := by
    rw [List.map_map]
    exact List.map_fst_zip (Nat.le_of_eq hzip.symm)
  have hperm : (pockets order cards).entries.Perm dealt := by
    have heq : pockets order cards = NatMap.ofList dealt := by
      simp only [pockets, List.splitAt_eq]
      rfl
    rw [heq]
    exact NatMap.perm_ofList (hkeys.symm ▸ hn)
  have hpockets : (dealt.map fun e => (e.1, e.2.pocket)).flatMap Prod.snd =
      (first.zip second).flatMap fun e => [e.1, e.2] := by
    rw [List.map_map, List.flatMap_map]
    conv_rhs => rw [← List.map_snd_zip (Nat.le_of_eq hzip), List.flatMap_map]
    rfl
  constructor
  · refine ((hperm.map _).flatMap_right _).trans ?_
    rw [hpockets]
    refine (perm_flatMap_zip first second (hfirst.trans hsecond.symm)).trans (.of_eq ?_)
    exact List.take_append_drop _ _
  · intro e he
    obtain ⟨d, -, rfl⟩ := List.mem_map.mp (hperm.mem_iff.mp he)
    rfl

section Deal
variable {number : Nat} {r r' : Roster} {dealer : PlayerId} {pos : Positions} {blinds : Blinds}
  {deck : Deck} {ev ev' : Evaluator} {h : Hand} {s mid : Spot} {news : List GameEvent}

/-- A hand that was just dealt from the top of a deck has its first cards in the pockets. -/
theorem fairlyDealt_fresh (hdistinct : deck.cards.toList.Nodup) (htop : deck.drawn = 0)
    (hn : pos.order.Nodup) (hlen : pos.order.length = r.funded.length)
    (hdeck : deckDeals deck r.funded.length) :
    (fresh number r dealer pos blinds deck).FairlyDealt := by
  obtain ⟨hcards, htwo⟩ := pockets_cards hn (length_pocketCards hlen hdeck)
  refine
    { distinct := hdistinct
      out := ?_
      pockets := fun e he => ?_
      board := fun _ => rfl
      unshown := fun _ hshown => by cases hshown
      shown := fun hshown => by cases hshown }
  · rw [cardsOut]
    show (_ ++ []).Perm (deck.cards.toList.take (deck.drawn + 2 * r.funded.length))
    rw [List.append_nil, htop, Nat.zero_add]
    refine hcards.trans (.of_eq ?_)
    rw [Deck.cards_drawUpTo, htop, List.drop_zero]
  · obtain ⟨d, hd, rfl⟩ := List.mem_map.mp he
    exact htwo d hd

theorem Opens.sameCards (h : Opens s news mid) : SameCards s.hand mid.hand where
  pockets := by
    cases h
    exact pocketsDealt_withBet.trans pocketsDealt_withBet
  board := by
    cases h
    exact board_withBet.trans board_withBet
  deck := h.deck
  phase := h.phase
  closed := by
    rw [closed, h.events, List.filterMap_append]
    cases h
    exact List.append_nil _

/-- So does every hand that is dealt, up to its first prompt. -/
theorem fairlyDealt_of_deal (hv : r.Valid) (hdistinct : deck.cards.toList.Nodup)
    (htop : deck.drawn = 0) (hdeal : deal number r dealer blinds deck ev = (r', ev', .ok h)) :
    h.FairlyDealt := by
  obtain ⟨htwo, hdealer, hdeck, hcount⟩ := canDeal_of_deal hv hdeal
  obtain ⟨pos, hlen, hsetUp⟩ := setUp_opened number blinds ev hv htwo hdealer hcount
  obtain ⟨hsetUp, news, hopened⟩ := hsetUp deck hdeck
  rw [deal_eq number blinds ev hsetUp] at hdeal
  obtain ⟨told, hon, -⟩ := hopened.movesOn hv (eq_done_of_dealOutcome hdeal)
  have hn : pos.order.Nodup := by
    have hsub : r.funded.Subperm pos.order :=
      List.Nodup.subperm (Roster.funded_nodup hv) fun p hp =>
        hopened.dealt.places.placed p (hopened.order ▸ hp)
    exact (hsub.perm_of_length_le (Nat.le_of_eq hlen)).nodup_iff.mp (Roster.funded_nodup hv)
  exact hon.fairlyDealt
    ((fairlyDealt_fresh hdistinct htop hn hlen hdeck).of_same hopened.opens.sameCards)

end Deal

/-! ## From any deck on -/

/-- The cards of a hand are in order: two in every pocket, on the board as many as belong to the
street and all five once hands were shown, and nowhere one of them twice. -/
structure CardsInOrder (h : Hand) : Prop where
  pockets : ∀ p, h.isDealtIn p = true → ∃ a b, h.pocket? p = some [a, b]
  preFlop : h.phase = .preFlop → h.board.length = 0
  flop : h.phase = .flop → h.board.length = 3
  turn : h.phase = .turn → h.board.length = 4
  river : h.phase = .river → h.board.length = 5
  shown : ∀ number payouts shown board, .handEnded number payouts shown board ∈ h.events →
    shown.entries ≠ [] → h.board.length = 5
  distinct : (h.holdings.values.flatMap Holding.pocket ++ h.board).Nodup

theorem FairlyDealt.cardsInOrder {h : Hand} (hf : h.FairlyDealt) : h.CardsInOrder := by
  have hboard : ∀ phase n, h.phase = phase → phase.isBetting = true →
      n + (phase.streets.map (·.2)).sum = 5 → h.board.length = n := by
    rintro phase n rfl hbetting hsum
    have := hf.board hbetting
    omega
  constructor
  case pockets =>
    intro p hp
    obtain ⟨cards, hcards⟩ := exists_pocket hp
    obtain ⟨a, b, rfl⟩ := List.length_eq_two.mp (hf.pockets _ (mem_pocketsDealt.mpr hcards))
    exact ⟨a, b, hcards⟩
  case preFlop => exact fun hp => hboard .preFlop 0 hp rfl rfl
  case flop => exact fun hp => hboard .flop 3 hp rfl rfl
  case turn => exact fun hp => hboard .turn 4 hp rfl rfl
  case river => exact fun hp => hboard .river 5 hp rfl rfl
  case shown =>
    intro number payouts shown board he hshown
    refine hf.shown (List.mem_filterMap.mpr ⟨_, he, ?_⟩)
    rw [GameEvent.closes?, if_neg (by simpa using hshown)]
  case distinct =>
    have hsame : h.holdings.values.flatMap Holding.pocket = h.pocketsDealt.flatMap Prod.snd := by
      rw [NatMap.values, pocketsDealt, List.flatMap_map, List.flatMap_map]
    rw [hsame]
    exact hf.out.nodup_iff.mpr (hf.distinct.sublist (List.take_sublist _ _))

end Hand

/-- However a full deck is shuffled and drawn from, it keeps its fifty-two cards; a shuffle swaps
each place with one at or before it, and after it the cards come out one by one, none of them
twice, until there are none left. In a hand that is started with it no card is ever found twice, in
two pockets, in a pocket and on the board, or on the board. -/
theorem Deck.never_deals_twice (word : Nat → UInt32) (uses : List Use) :
    ((ofWords word).after uses).cards.toList.Perm Card.fullDeck ∧
      (((ofWords word).after uses).swapsToCome.map Prod.fst = List.range 52 ∧
        (∀ e ∈ ((ofWords word).after uses).swapsToCome, e.1 < 52 ∧ e.2 < 52) ∧
        ((ofWords word).after uses).reset.cards =
          ((ofWords word).after uses).swapsToCome.foldl
            (fun cards e => cards.swapIfInBounds e.1 e.2) ((ofWords word).after uses).cards) ∧
      (∃ order : List Card, order.Perm Card.fullDeck ∧ order.Nodup ∧ ∀ n,
        draws n ((ofWords word).after uses).reset =
          (order.take n).map .ok ++ List.replicate (n - 52) (.error .exhausted)) ∧
      ∀ number r dealer blinds ev r' ev' h, r.Valid → r.funded.length ≤ maxSeats →
        Hand.start number r dealer blinds ((ofWords word).after uses) ev = (r', ev', .ok h) →
        ∀ moves, (Spot.play ⟨h, r', ev'⟩ moves).hand.CardsInOrder := by
  let d := (ofWords word).after uses
  have hperm : d.cards.toList.Perm Card.fullDeck := perm_after_ofWords word uses
  have hreset : d.reset.cards.toList.Perm Card.fullDeck := d.perm_reset.trans hperm
  have hsize : d.cards.size = 52 := hperm.length_eq
  have hnodup : d.reset.cards.toList.Nodup := hreset.nodup_iff.mpr Card.nodup_fullDeck
  refine ⟨hperm, ⟨?_, ?_, cards_reset⟩, ⟨d.reset.cards.toList, hreset, hnodup, fun n => ?_⟩, ?_⟩
  · exact hsize ▸ d.swapsToCome_spec.1
  · intro e he
    obtain ⟨hle, hlt⟩ := d.swapsToCome_spec.2 e he
    exact ⟨hsize ▸ hlt, Nat.lt_of_le_of_lt hle (hsize ▸ hlt)⟩
  · have hlength : d.reset.cards.toList.length = 52 := hreset.length_eq
    have hdraws := draws_eq n d.reset
    rw [hlength] at hdraws
    exact hdraws
  · intro number r dealer blinds ev r' ev' h hv hmost hstart moves
    have hdeck : Card.fullDeck.length ≤ d.cards.size := Nat.le_of_eq hperm.length_eq.symm
    have hsuffices := Hand.deckSuffices_reset hdeck hmost
    have hplay := Spot.InPlay.of_begun hv (Hand.begun_of_deal hv hsuffices hstart)
    have hdealt := Hand.fairlyDealt_of_deal hv hnodup rfl hstart
    exact (hplay.fairlyDealt_play hdealt moves).cardsInOrder

theorem Deck.never_deals_twice_heads_up :
    ∃ s : Spot, Hand.start 1 Hand.unevenSeated 1 ⟨5, 10⟩
        ((ofWords (ChaCha.word 7)).after [.reset, .draw]) { value := fun _ => HandValue.best } =
          (s.roster, s.evaluator, .ok s.hand) ∧
      ∀ moves, (s.play moves).hand.CardsInOrder := by
  have hv : Hand.unevenSeated.Valid := by decide
  have hdealer : 1 ∈ Hand.unevenSeated.funded := by decide
  have hdeck : Card.fullDeck.length ≤
      ((ofWords (ChaCha.word 7)).after [.reset, .draw]).cards.size :=
    Nat.le_of_eq (perm_after_ofWords _ _).length_eq.symm
  obtain ⟨s, hs, -⟩ := Hand.deal_spec 1 ⟨5, 10⟩ { value := fun _ => HandValue.best } hv
    (by decide) hdealer (Hand.deckSuffices_reset hdeck (by decide)) (by decide)
  obtain ⟨-, -, -, hhands⟩ := never_deals_twice (ChaCha.word 7) [.reset, .draw]
  exact ⟨s, hs,
    hhands 1 Hand.unevenSeated 1 ⟨5, 10⟩ _ s.roster s.evaluator s.hand hv (by decide) hs⟩

end Holdem

import Holdem.Hand.Deal
import Holdem.Proofs.Hand.Betting
import Holdem.Table.Config

/-!
# Dealing puts a hand in order

Whoever has chips is dealt in, and the button and the blinds are among them. Between the deal and
the first prompt everything but the bets is as in a hand in order: nobody has been asked to act.
With the blinds posted somebody is, and the hand moves on. A deck has cards for twenty-three
players and the board.
-/
namespace Holdem

section Shuffled
variable {α : Type}

theorem size_swaps (places : List Nat) (cards : Array α) (c : Shuffle.Chunk) (w : WordStream) :
    (Shuffle.swaps places cards c w).1.size = cards.size := by
  induction places generalizing cards c w with
  | nil => rfl
  | cons i rest ih =>
      rw [Shuffle.swaps, ih]
      exact Array.size_swapIfInBounds

theorem size_reset (d : Deck) : d.reset.cards.size = d.cards.size :=
  size_swaps _ _ _ _

end Shuffled

namespace Hand

/-! ## Positions -/

/-- With two players or more there is somebody for every position. -/
theorem positionsIn_spec {players : List PlayerId} {dealer : PlayerId}
    (hd : dealer ∈ players) :
    ∃ pos, positionsIn { order := players } dealer = .ok pos ∧ pos.dealtIn.order = players ∧
      pos.order.length = players.length ∧ (∀ p, p ∈ pos.order ↔ p ∈ players) ∧
      pos.smallBlind ∈ players ∧ pos.bigBlind ∈ players ∧ pos.firstToAct ∈ players := by
  obtain ⟨i, hset, hi, -⟩ := TurnOrder.setCurrent_of_mem (t := { order := players }) hd
  obtain ⟨next, hnext, hnextOk⟩ := TurnOrder.nextTo_of_mem (t := ⟨players, i⟩) hd
  obtain ⟨q, j, hturn, -⟩ := TurnOrder.next_of_pos (t := ⟨players, i⟩) (Nat.zero_lt_of_lt hi)
  obtain ⟨big, hbig, hbigOk⟩ := TurnOrder.nextTo_of_mem (t := ⟨players, i⟩) hnext
  obtain ⟨first, hfirst, hfirstOk⟩ := TurnOrder.nextTo_of_mem (t := ⟨players, i⟩) hbig
  have hmem : ∀ p, p ∈ (⟨players, j⟩ : TurnOrder).lap ↔ p ∈ players := fun p =>
    TurnOrder.mem_lap
  simp only [positionsIn, hset, hnextOk, hturn, bind, Except.bind]
  by_cases htwo : (⟨players, i⟩ : TurnOrder).size = 2
  · rw [if_pos htwo]
    exact ⟨_, rfl, rfl, TurnOrder.length_lap, hmem, hd, hnext, hd⟩
  · rw [if_neg htwo, hbigOk]
    simp only [hfirstOk]
    exact ⟨_, rfl, rfl, TurnOrder.length_lap, hmem, hnext, hbig, hfirst⟩

/-! ## Cards -/

/-- Everybody in the order is dealt a fresh hand, and nobody else is. -/
theorem pockets_spec (order : List PlayerId) (cards : List Card)
    (hlen : cards.length = 2 * order.length) :
    (∀ p, (pockets order cards).contains p = true ↔ p ∈ order) ∧
      ∀ p held, (pockets order cards).get? p = some held →
        held.folded = false ∧ held.allIn = false := by
  constructor
  · intro p
    have hfst : ((order.zip ((cards.splitAt order.length).1.zip
        (cards.splitAt order.length).2)).map Prod.fst) = order := by
      apply List.map_fst_zip
      rw [List.splitAt_eq, List.length_zip, List.length_take, List.length_drop]
      omega
    simp only [pockets]
    rw [NatMap.contains_ofList, List.map_map]
    exact Iff.of_eq (congrArg (p ∈ ·) hfst)
  · intro p held hget
    obtain ⟨⟨q, a, b⟩, -, heq⟩ := List.mem_map.mp (NatMap.mem_of_get?_ofList hget)
    cases heq
    exact ⟨rfl, rfl⟩

/-! ## Blinds -/

/-- A hand in order in which nobody has been asked to act. -/
structure Dealt (h : Hand) (r : Roster) : Prop where
  places : h.Places r
  books : h.Books
  balanced : h.Balanced r
  betting : h.phase.isBetting = true
  highest : ∀ p, h.round.contribution p ≤ h.round.highestBet
  countable : h.round.highestBet ≤ maxChips

section Blinds
variable {s : Spot} {p : PlayerId} {stack : Chips}

/-- A forced bet that somebody can pay keeps the hand in order. -/
theorem Dealt.withBet {h : Hand} {r : Roster} {chips : Chips} {allIn : Bool}
    (hs : h.Dealt r) (hp : p ∈ h.turns.order) (hstack : r.stack? p = some stack)
    (hle : chips ≤ stack) (hall : allIn = true ↔ stack = chips) :
    (h.withBet p (h.round.postBlind p chips) allIn).Dealt (r.setStack p (stack - chips)) := by
  have hin := hs.places.turns_subset hp
  have hbet : ∀ q, (h.round.postBlind p chips).contribution q =
      h.round.contribution q + if q = p then chips else 0 := fun q =>
    Round.contribution_commit
  have hhighest : (h.round.postBlind p chips).highestBet =
      max h.round.highestBet ((h.round.postBlind p chips).contribution p) := rfl
  refine
    { places := hs.places.withBet hp hstack hle hall
      books := hs.books.withBet hs.places hp hstack hall.mp rfl
      balanced := hs.balanced.withBet hs.places.nodup hin hstack hle rfl
      betting := by rw [phase, round_withBet]; exact hs.betting
      highest := fun q => ?_
      countable := ?_ }
  · rw [round_withBet, hhighest]
    by_cases hqp : q = p
    · exact hqp ▸ Nat.le_max_right _ _
    · rw [hbet q, if_neg hqp]
      exact Nat.le_trans (hs.highest q) (Nat.le_max_left _ _)
  · have hcount := hs.balanced.bet_le hs.places.nodup hin hstack hle
    rw [round_withBet, hhighest, hbet p, if_pos rfl]
    exact Nat.max_le.mpr ⟨hs.countable, hcount⟩

/-- A spot after a blind was posted from a stack. -/
def posted (s : Spot) (b : BlindPost) (stack : Chips) : Spot :=
  { s with
    roster := s.roster.setStack b.player (stack - b.amount)
    hand := s.hand.withBet b.player (s.hand.round.postBlind b.player b.amount)
      (decide (stack = b.amount)) }

theorem postBlind_eq (amount : Chips) (hstack : (s.roster.stack? p).getD 0 = stack) :
    postBlind s p amount = (posted s ⟨p, min amount stack⟩ stack, ⟨p, min amount stack⟩) := by
  simp only [postBlind, hstack, posted, withBet, decide_eq_true_eq]

/-- A blind that can be paid. -/
structure Payable (s : Spot) (b : BlindPost) (stack : Chips) : Prop where
  turn : b.player ∈ s.hand.turns.order
  stack_eq : s.roster.stack? b.player = some stack
  le : b.amount ≤ stack

section Payable
variable {b : BlindPost}

theorem Payable.dealt (h : Payable s b stack) (hs : s.hand.Dealt s.roster) :
    (posted s b stack).hand.Dealt (posted s b stack).roster :=
  hs.withBet h.turn h.stack_eq h.le decide_eq_true_iff

theorem Payable.moves (h : Payable s b stack) (hp : s.hand.Places s.roster) :
    s.Moves (posted s b stack) :=
  .bet (hp.turns_subset h.turn) h.stack_eq h.le rfl

theorem turns_posted : (posted s b stack).hand.turns = s.hand.turns := turns_withBet

theorem turns_postBlind {amount : Chips} : (postBlind s p amount).1.hand.turns = s.hand.turns := by
  rw [postBlind_eq amount rfl]
  exact turns_posted

theorem phase_posted : (posted s b stack).hand.phase = s.hand.phase := by
  rw [phase, posted, round_withBet]
  rfl

theorem potTotal_posted : (posted s b stack).hand.potTotal = s.hand.potTotal + b.amount :=
  potTotal_withBet rfl

end Payable

/-- Whoever has a turn can post a blind, or what they have of it. -/
theorem payable_of_turn (amount : Chips) (hp : s.hand.Places s.roster)
    (hturn : p ∈ s.hand.turns.order) :
    ∃ b stack, postBlind s p amount = (posted s b stack, b) ∧ Payable s b stack := by
  obtain ⟨stack, hstack⟩ := Roster.contains_iff.mp (hp.seated p (hp.turns_subset hturn))
  refine ⟨_, stack, postBlind_eq amount ?_, ⟨hturn, hstack, Nat.min_le_right _ _⟩⟩
  rw [hstack, Option.getD_some]

/-- A hand in which everybody who can act has just been asked to. -/
def asked (h : Hand) (first : PlayerId) (small big : BlindPost) : Hand :=
  let asking :=
    { h with
      round := { h.round with pending := .ofList h.ableToAct }
      turns := (h.turns.setCurrent first).toOption.getD h.turns }
  (asking.emit (.handStarted h.number h.dealer small big h.order)).emitPot

theorem asked_spec (first : PlayerId) (small big : BlindPost) (hs : s.hand.Dealt s.roster)
    (hfirst : first ∈ s.hand.turns.order) :
    (s.hand.asked first small big).Steady s.roster ∧
      s.Moves (s.mapHand (·.asked first small big)) := by
  obtain ⟨i, hset, hi, -⟩ := TurnOrder.setCurrent_of_mem hfirst
  constructor
  · simp only [asked, hset]
    refine Steady.emit (Steady.emit ?_)
    exact
      { places := { hs.places with pointer := hi }
        bets :=
          { able := fun p hp => NatSet.mem_ofList.mp hp
            matched := fun p hable hnot => absurd (NatSet.mem_ofList.mpr hable) hnot
            highest := hs.highest
            countable := hs.countable }
        books := { hs.books with }
        balanced := { hs.balanced with }
        betting := hs.betting }
  · refine Spot.Moves.of_mapHand rfl (List.Subset.refl _) ⟨[_, _], List.append_assoc _ _ _, ?_⟩
    simp [GameEvent.isAbort]

/-- What posting the blinds does by itself, and what is told of it. -/
inductive Opens (s : Spot) : List GameEvent → Spot → Prop
  | blinds {small big : BlindPost} {stack stack' : Chips} (first : PlayerId) :
      Payable s small stack → Payable (posted s small stack) big stack' →
      first ∈ s.hand.turns.order →
      Opens s
        [.handStarted s.hand.number s.hand.dealer small big s.hand.order,
          .potChanged (s.hand.potTotal + small.amount + big.amount) s.hand.pots]
        ((posted (posted s small stack) big stack').mapHand (·.asked first small big))

namespace Opens
variable {news : List GameEvent} {mid : Spot}

theorem steady (h : Opens s news mid) (hs : s.hand.Dealt s.roster) :
    mid.hand.Steady mid.roster := by
  cases h with
  | blinds first hsmall hbig hfirst =>
      refine (asked_spec _ _ _ (hbig.dealt (hsmall.dealt hs)) ?_).1
      rw [turns_posted, turns_posted]
      exact hfirst

theorem moves (h : Opens s news mid) (hs : s.hand.Dealt s.roster) : s.Moves mid := by
  cases h with
  | @blinds small big stack stack' first hsmall hbig hfirst =>
      have hdealt := hsmall.dealt hs
      have hasked := asked_spec first small big (hbig.dealt hdealt)
        (by rw [turns_posted, turns_posted]; exact hfirst)
      exact ((hsmall.moves hs.places).trans (hbig.moves hdealt.places)).trans hasked.2

/-- No card is drawn for the blinds. -/
theorem deck (h : Opens s news mid) : mid.hand.deck = s.hand.deck := by
  cases h
  exact deck_withBet.trans deck_withBet

theorem phase (h : Opens s news mid) : mid.hand.phase = s.hand.phase := by
  cases h with
  | @blinds small big stack stack' =>
      show (posted (posted s small stack) big stack').hand.phase = _
      exact phase_posted.trans phase_posted

theorem number (h : Opens s news mid) : mid.hand.number = s.hand.number := by
  cases h
  exact number_withBet.trans number_withBet

theorem stocked (h : Opens s news mid) (hst : s.hand.Stocked) : mid.hand.Stocked := by
  rw [Stocked, h.deck, h.phase]
  exact hst

theorem events (h : Opens s news mid) : mid.hand.events = s.hand.events ++ news := by
  cases h with
  | @blinds small big stack stack' first =>
      let blinds := (posted (posted s small stack) big stack').hand
      have hpot : blinds.potTotal = s.hand.potTotal + small.amount + big.amount := by
        rw [potTotal_posted, potTotal_posted]
      have hevents : blinds.events = s.hand.events := events_withBet.trans events_withBet
      have hasked : (blinds.asked first small big).events = (blinds.events ++
          [.handStarted blinds.number blinds.dealer small big blinds.order]) ++
            [.potChanged blinds.potTotal blinds.pots] := rfl
      have hpots : blinds.pots = s.hand.pots :=
        congrArg Stakes.pots (stakes_withBet.trans stakes_withBet)
      have hnumber : blinds.number = s.hand.number := number_withBet.trans number_withBet
      have hdealer : blinds.dealer = s.hand.dealer := dealer_withBet.trans dealer_withBet
      have horder : blinds.order = s.hand.order := order_withBet.trans order_withBet
      show (blinds.asked first small big).events = _
      rw [hasked, hpot, hevents, hpots, hnumber, hdealer, horder]
      exact List.append_assoc _ _ _

end Opens

/-- With the blinds posted somebody can be asked to act. -/
theorem opening_opens {pos : Positions} (hs : s.hand.Dealt s.roster)
    (hsmall : pos.smallBlind ∈ s.hand.turns.order) (hbig : pos.bigBlind ∈ s.hand.turns.order)
    (hfirst : pos.firstToAct ∈ s.hand.turns.order) : ∃ news, Opens s news (opening s pos) := by
  obtain ⟨small, stack, hpost, hpay⟩ := payable_of_turn s.hand.blinds.small hs.places hsmall
  obtain ⟨big, stack', hpost', hpay'⟩ :=
    payable_of_turn (s := posted s small stack) (p := pos.bigBlind)
      (posted s small stack).hand.blinds.big (hpay.dealt hs).places
      (by rw [turns_posted]; exact hbig)
  have hopening : opening s pos =
      (posted (posted s small stack) big stack').mapHand (·.asked pos.firstToAct small big) := by
    simp only [opening, hpost, hpost']
    rfl
  rw [hopening]
  exact ⟨_, .blinds pos.firstToAct hpay hpay' hfirst⟩

/-- Whoever posts a blind is seated, and whoever is to act first has a turn. So no stack and no turn is
made up when a hand opens. -/
structure Exact (s : Spot) (pos : Positions) : Prop where
  small : s.roster.contains pos.smallBlind = true
  big : (postBlind s pos.smallBlind s.hand.blinds.small).1.roster.contains pos.bigBlind = true
  first : s.hand.turns.setCurrent pos.firstToAct = .ok (opening s pos).hand.turns

theorem exact_of_turns {pos : Positions} (hs : s.hand.Dealt s.roster)
    (hsmall : pos.smallBlind ∈ s.hand.turns.order) (hbig : pos.bigBlind ∈ s.hand.turns.order)
    (hfirst : pos.firstToAct ∈ s.hand.turns.order) : Exact s pos where
  small := hs.places.seated _ (hs.places.turns_subset hsmall)
  big := by
    obtain ⟨b, stack, hpost, hpay⟩ := payable_of_turn s.hand.blinds.small hs.places hsmall
    have hafter := (hpay.dealt hs).places
    rw [hpost]
    exact hafter.seated _ (hafter.turns_subset (turns_posted.symm ▸ hbig))
  first := by
    let big := postBlind (postBlind s pos.smallBlind s.hand.blinds.small).1 pos.bigBlind
      (postBlind s pos.smallBlind s.hand.blinds.small).1.hand.blinds.big
    have hturns : big.1.hand.turns = s.hand.turns := turns_postBlind.trans turns_postBlind
    obtain ⟨i, hset, -⟩ := TurnOrder.setCurrent_of_mem hfirst
    show _ = Except.ok ((big.1.hand.turns.setCurrent pos.firstToAct).toOption.getD big.1.hand.turns)
    rw [hturns, hset]
    rfl

end Blinds

/-! ## From a shuffled deck to the first prompt -/

section Deal
variable {number : Nat} {r : Roster} {dealer : PlayerId} {pos : Positions} {blinds : Blinds}
  {deck : Deck} {ev : Evaluator}

/-- The hand that is dealt to the funded players of a roster. -/
def fresh (number : Nat) (r : Roster) (dealer : PlayerId) (pos : Positions) (blinds : Blinds)
    (deck : Deck) : Hand :=
  { number, dealer, blinds
    deck := { deck with drawn := deck.drawn + 2 * r.funded.length }
    nextDealer := pos.nextDealer
    firstToAct := pos.firstToAct
    turns := { order := r.funded }
    dealtIn := pos.dealtIn
    order := pos.order
    holdings := pockets pos.order (deck.drawUpTo (2 * r.funded.length)).1
    round := { phase := .preFlop, minRaise := blinds.big }
    startingChips := r.totalChips }

/-- A deck from which a hand can be dealt to so many players. -/
def deckDeals (deck : Deck) (players : Nat) : Prop := deck.drawn + 2 * players ≤ deck.cards.size

/-- A deck with which it can also be played to the end. -/
def deckSuffices (deck : Deck) (players : Nat) : Prop :=
  deck.drawn + (2 * players + 5) ≤ deck.cards.size

theorem deckDeals_of_suffices {players : Nat} (h : deckSuffices deck players) :
    deckDeals deck players :=
  Nat.le_trans (Nat.add_le_add_left (Nat.le_add_right _ _) _) h

theorem length_pocketCards (hlen : pos.order.length = r.funded.length)
    (hdeck : deckDeals deck r.funded.length) :
    (deck.drawUpTo (2 * r.funded.length)).1.length = 2 * pos.order.length := by
  rw [(Spot.drawUpTo_spec hdeck).1, hlen]

theorem dealt_eq (hv : r.Valid) (hpos : pos.dealtIn.order = r.funded)
    (hdeck : deckDeals deck r.funded.length) :
    dealt number r dealer pos blinds deck =
      if maxChips < r.totalChips then .error (.internal "chips in play overflow")
      else .ok (fresh number r dealer pos blinds deck) := by
  obtain ⟨hcards, hleft⟩ := Spot.drawUpTo_spec hdeck
  have hchips : (r.funded.filterMap r.stack?).sum = r.totalChips := Roster.chipsOf_funded hv
  simp only [dealt, hpos, hleft, hchips]
  rw [if_neg (by rw [hcards]; exact Nat.lt_irrefl _)]
  rfl

/-- Everybody who is dealt in starts with neither mark. -/
theorem fresh_unmarked (hlen : pos.order.length = r.funded.length)
    (hdeck : deckDeals deck r.funded.length) (p : PlayerId) :
    (fresh number r dealer pos blinds deck).isFolded p = false ∧
      (fresh number r dealer pos blinds deck).isAllIn p = false := by
  have hcards := length_pocketCards hlen hdeck
  unfold isFolded isAllIn
  cases hget : (fresh number r dealer pos blinds deck).holdings.get? p with
  | none => exact ⟨rfl, rfl⟩
  | some held => exact (pockets_spec _ _ hcards).2 p held hget

theorem isDealtIn_fresh (hlen : pos.order.length = r.funded.length)
    (hmem : ∀ p, p ∈ pos.order ↔ p ∈ r.funded) (hdeck : deckDeals deck r.funded.length)
    (p : PlayerId) :
    (fresh number r dealer pos blinds deck).isDealtIn p = true ↔ p ∈ r.funded :=
  ((pockets_spec _ _ (length_pocketCards hlen hdeck)).1 p).trans (hmem p)

theorem fresh_places (hv : r.Valid) (hfunded : 0 < r.funded.length)
    (hpos : pos.dealtIn.order = r.funded) (hlen : pos.order.length = r.funded.length)
    (hmem : ∀ p, p ∈ pos.order ↔ p ∈ r.funded) (hdeck : deckDeals deck r.funded.length) :
    (fresh number r dealer pos blinds deck).Places r where
  nodup := hpos ▸ Roster.funded_nodup hv
  seated p hp := Roster.contains_of_mem_funded (hpos ▸ hp)
  dealt p hp := (isDealtIn_fresh hlen hmem hdeck p).mpr (hpos ▸ hp)
  placed p hp := (hmem p).mpr (hpos ▸ hp)
  gone p hp hout := absurd (hpos ▸ (isDealtIn_fresh hlen hmem hdeck p).mp hp) hout
  turns_eq := by
    show r.funded = pos.dealtIn.order.filter _
    rw [hpos, List.filter_eq_self.mpr fun p _ => by rw [(fresh_unmarked hlen hdeck p).1]; rfl]
  pointer := hfunded
  allIn_iff p hp := by
    obtain ⟨c, hc, hpos⟩ := (Roster.mem_funded_iff hv).mp hp
    simp [(fresh_unmarked hlen hdeck p).2, hc, Nat.ne_of_gt hpos]

/-- Nothing is in the middle yet. -/
theorem fresh_books (hlen : pos.order.length = r.funded.length)
    (hdeck : deckDeals deck r.funded.length) :
    (fresh number r dealer pos blinds deck).Books where
  folded p := by
    rw [(fresh_unmarked hlen hdeck p).1]
    exact ⟨fun h => absurd h (NatSet.not_mem_empty p), fun h => absurd h Bool.false_ne_true⟩
  stakers p hp := by
    rw [show (fresh number r dealer pos blinds deck).stakes.contributions = ∅ from rfl,
      NatMap.contains_empty] at hp
    cases hp
  bettors p hp := by
    rw [show (fresh number r dealer pos blinds deck).round.contributions = ∅ from rfl,
      NatMap.contains_empty] at hp
    cases hp
  invested htotal := absurd htotal (Nat.lt_irrefl 0)
  allIn p _ hmark := by
    rw [(fresh_unmarked hlen hdeck p).2] at hmark
    cases hmark

theorem fresh_dealt (hv : r.Valid) (hfunded : 0 < r.funded.length)
    (hpos : pos.dealtIn.order = r.funded) (hlen : pos.order.length = r.funded.length)
    (hmem : ∀ p, p ∈ pos.order ↔ p ∈ r.funded) (hdeck : deckDeals deck r.funded.length)
    (hcount : r.totalChips ≤ maxChips) : (fresh number r dealer pos blinds deck).Dealt r where
  places := fresh_places hv hfunded hpos hlen hmem hdeck
  books := fresh_books hlen hdeck
  balanced :=
    { sum := by
        show r.chipsOf pos.dealtIn.order + 0 + 0 = r.totalChips
        rw [hpos, Roster.chipsOf_funded hv]
        rfl
      countable := hcount }
  betting := rfl
  highest p := Nat.le_refl 0
  countable := Nat.zero_le _

variable (number) (blinds) (ev)

/-- The positions do not depend on the deck. -/
theorem setUp_eq (hv : r.Valid) (htwo : 2 ≤ r.funded.length) (hdealer : dealer ∈ r.funded) :
    ∃ pos, pos.order.length = r.funded.length ∧
      pos.smallBlind ∈ r.funded ∧ pos.bigBlind ∈ r.funded ∧ pos.firstToAct ∈ r.funded ∧
      ∀ deck, deckDeals deck r.funded.length →
        (r.totalChips ≤ maxChips → (fresh number r dealer pos blinds deck).Dealt r ∧
          (fresh number r dealer pos blinds deck).dealtIn.order = r.funded) ∧
        setUp number r dealer blinds deck =
          if maxChips < r.totalChips then .error (.internal "chips in play overflow")
          else .ok (fresh number r dealer pos blinds deck, pos) := by
  obtain ⟨pos, hpositions, hpos, hlen, hmem, hsmall, hbig, hfirst⟩ := positionsIn_spec hdealer
  refine ⟨pos, hlen, hsmall, hbig, hfirst, fun deck hdeck => ⟨fun hcount => ⟨?_, hpos⟩, ?_⟩⟩
  · exact fresh_dealt hv (Nat.lt_of_lt_of_le Nat.two_pos htwo) hpos hlen hmem hdeck hcount
  · rw [setUp, if_neg (Nat.not_lt.mpr htwo), hpositions]
    simp only [dealt_eq hv hpos hdeck]
    split
    · rfl
    · rfl

/-- A spot in which a hand was just dealt to the players of a roster. -/
def freshSpot (number : Nat) (r : Roster) (dealer : PlayerId) (pos : Positions) (blinds : Blinds)
    (deck : Deck) (ev : Evaluator) : Spot :=
  ⟨fresh number r dealer pos blinds deck, r, ev⟩

/-- How a hand that was dealt to the players of a roster opens. -/
structure Opened (r : Roster) (d : Spot) (news : List GameEvent) (s : Spot) : Prop where
  dealt : d.hand.Dealt d.roster
  order : d.hand.dealtIn.order = r.funded
  opens : Opens d news s

/-- Two or more funded players whose chips can be counted are dealt a hand, which opens. -/
theorem setUp_opened (hv : r.Valid) (htwo : 2 ≤ r.funded.length) (hdealer : dealer ∈ r.funded)
    (hcount : r.totalChips ≤ maxChips) :
    ∃ pos, pos.order.length = r.funded.length ∧ ∀ deck, deckDeals deck r.funded.length →
      setUp number r dealer blinds deck = .ok (fresh number r dealer pos blinds deck, pos) ∧
        ∃ news, Opened r (freshSpot number r dealer pos blinds deck ev) news
          (opening (freshSpot number r dealer pos blinds deck ev) pos) := by
  obtain ⟨pos, hlen, hsmall, hbig, hfirst, hsetUp⟩ := setUp_eq number blinds hv htwo hdealer
  refine ⟨pos, hlen, fun deck hdeck => ?_⟩
  obtain ⟨hfresh, hsetUp⟩ := hsetUp deck hdeck
  obtain ⟨hdealt, horder⟩ := hfresh hcount
  obtain ⟨news, hopens⟩ :=
    opening_opens (s := freshSpot number r dealer pos blinds deck ev) hdealt hsmall hbig hfirst
  exact ⟨hsetUp.trans (if_neg (Nat.not_lt.mpr hcount)), news, hdealt, horder, hopens⟩

/-- What a hand that was opened and moved on comes to. -/
def dealOutcome : Outcome → Roster × Evaluator × Except ActionError Hand
  | (s, .error e) => (s.roster, s.evaluator, .error e)
  | (s, .ok ()) => (s.roster, s.evaluator, .ok s.hand)

/-- A hand that is set up opens and moves on. -/
theorem deal_eq (hsetUp : setUp number r dealer blinds deck =
      .ok (fresh number r dealer pos blinds deck, pos)) :
    deal number r dealer blinds deck ev =
      dealOutcome (opening (freshSpot number r dealer pos blinds deck ev) pos).advance := by
  simp only [deal, hsetUp]
  rfl

theorem eq_done_of_dealOutcome {o : Outcome} {r' : Roster} {ev' : Evaluator} {h : Hand}
    (ho : dealOutcome o = (r', ev', .ok h)) : o = Spot.done ⟨h, r', ev'⟩ := by
  obtain ⟨s, e | ⟨⟩⟩ := o
  · cases ho
  · cases ho
    rfl

/-- What the first prompt finds, after a hand was dealt to the players of a roster. -/
structure Begun (r : Roster) (s : Spot) : Prop where
  restacked : r.Restacked r.funded s.roster
  pooled : ∀ ids : List PlayerId, ids.Nodup → r.funded ⊆ ids →
    s.roster.chipsOf ids + s.hand.potTotal = r.chipsOf ids
  remain : s.hand.dealtIn.order ⊆ r.funded
  told : ∀ e ∈ s.hand.events, e.isAbort = false
  goes : s.hand.Live s.roster ∨ s.hand.Settled s.roster

/-- With a deck that suffices, two or more funded players whose chips can be counted are dealt a
hand that goes on to its first prompt. -/
theorem deal_spec (hv : r.Valid) (htwo : 2 ≤ r.funded.length) (hdealer : dealer ∈ r.funded)
    (hdeck : deckSuffices deck r.funded.length) (hcount : r.totalChips ≤ maxChips) :
    ∃ s : Spot, deal number r dealer blinds deck ev = (s.roster, s.evaluator, .ok s.hand) ∧
      Begun r s := by
  obtain ⟨pos, -, hopened⟩ := setUp_opened number blinds ev hv htwo hdealer hcount
  obtain ⟨hsetUp, news, hdealt, horder, hopens⟩ := hopened deck (deckDeals_of_suffices hdeck)
  have hstocked : (freshSpot number r dealer pos blinds deck ev).hand.Stocked :=
    Nat.le_trans (Nat.le_of_eq (Nat.add_assoc _ _ _)) hdeck
  obtain ⟨s, hadvance, hmoves, hend⟩ :=
    Spot.advance_spec (hopens.steady hdealt) (hopens.stocked hstocked)
  have hall := (hopens.moves hdealt).trans hmoves
  refine ⟨s, ?_, ?_⟩
  · rw [deal_eq number blinds ev hsetUp, hadvance]
    rfl
  · refine
      { restacked := horder ▸ hall.restacked
        pooled := fun ids hn hsub => hall.pooled ids hn (horder ▸ hsub)
        remain := horder ▸ hall.remain
        told := ?_
        goes := hend }
    obtain ⟨news, hnews, htold⟩ := hall.told
    rw [hnews]
    exact htold

/-- When their chips can not be counted nothing happens. -/
theorem deal_of_uncountable (hv : r.Valid) (htwo : 2 ≤ r.funded.length)
    (hdealer : dealer ∈ r.funded) (hdeck : deckDeals deck r.funded.length)
    (hmany : maxChips < r.totalChips) :
    deal number r dealer blinds deck ev =
      (r, ev, .error (.internal "chips in play overflow")) := by
  obtain ⟨pos, -, -, -, -, hsetUp⟩ := setUp_eq number blinds hv htwo hdealer
  simp only [deal, (hsetUp deck hdeck).2, if_pos hmany]

variable {number} {blinds} {ev}

/-- What it takes to deal a hand. -/
def CanDeal (r : Roster) (dealer : PlayerId) (deck : Deck) : Prop :=
  2 ≤ r.funded.length ∧ dealer ∈ r.funded ∧ deckDeals deck r.funded.length ∧
    r.totalChips ≤ maxChips

/-- If a hand can not be dealt, why not depends on the deck only by how many cards it has. -/
theorem setUp_error (number : Nat) (blinds : Blinds) (hv : r.Valid)
    (hnot : ¬ CanDeal r dealer deck) :
    ∃ e, ∀ deck', (deckDeals deck' r.funded.length ↔ deckDeals deck r.funded.length) →
      setUp number r dealer blinds deck' = .error e := by
  by_cases htwo : r.funded.length < 2
  · exact ⟨_, fun _ _ => by rw [setUp, if_pos htwo]⟩
  by_cases hdealer : dealer ∈ r.funded
  · by_cases hdeck : deckDeals deck r.funded.length
    · have hmany : maxChips < r.totalChips := Nat.lt_of_not_le fun hcount =>
        hnot ⟨Nat.le_of_not_lt htwo, hdealer, hdeck, hcount⟩
      obtain ⟨pos, -, -, -, -, hsetUp⟩ :=
        setUp_eq number blinds hv (Nat.le_of_not_lt htwo) hdealer
      exact ⟨_, fun deck' hsame => (hsetUp deck' (hsame.mpr hdeck)).2.trans (if_pos hmany)⟩
    · obtain ⟨pos, hpositions, hpos, -⟩ := positionsIn_spec hdealer
      refine ⟨.internal DeckError.exhausted.message, fun deck' hsame => ?_⟩
      have hshort : ¬ deckDeals deck' r.funded.length := fun h => hdeck (hsame.mp h)
      have hless : (deck'.drawUpTo (2 * r.funded.length)).1.length < 2 * r.funded.length := by
        rw [(Spot.drawUpTo_eq deck' _).1]
        unfold deckDeals at hshort
        omega
      rw [setUp, if_neg htwo, hpositions]
      simp only [dealt, hpos]
      rw [if_pos hless]
      rfl
  · have hnone : positionsIn { order := r.funded } dealer = .error (.notFound dealer) := by
      rw [positionsIn, TurnOrder.setCurrent, TurnOrder.place_of_not_mem hdealer]
      rfl
    exact ⟨_, fun _ _ => by rw [setUp, if_neg htwo, hnone]⟩

theorem canDeal_of_setUp {h : Hand} (hv : r.Valid)
    (hsetUp : setUp number r dealer blinds deck = .ok (h, pos)) : CanDeal r dealer deck := by
  apply Classical.byContradiction
  intro hnot
  obtain ⟨e, herror⟩ := setUp_error number blinds hv hnot
  rw [herror deck Iff.rfl] at hsetUp
  cases hsetUp

theorem opening_exact {h : Hand} (ev : Evaluator) (hv : r.Valid)
    (hsetUp : setUp number r dealer blinds deck = .ok (h, pos)) : Exact ⟨h, r, ev⟩ pos := by
  obtain ⟨htwo, hdealer, hdeck, hcount⟩ := canDeal_of_setUp hv hsetUp
  obtain ⟨pos', -, hsmall, hbig, hfirst, hfresh⟩ := setUp_eq number blinds hv htwo hdealer
  obtain ⟨hdealt, hsame⟩ := hfresh deck hdeck
  rw [hsetUp, if_neg (Nat.not_lt.mpr hcount)] at hsame
  cases hsame
  exact exact_of_turns (s := freshSpot number r dealer pos blinds deck ev) (hdealt hcount).1 hsmall
    hbig hfirst

/-- Every hand that is dealt can be. -/
theorem canDeal_of_deal {r' : Roster} {ev' : Evaluator} {h : Hand} (hv : r.Valid)
    (hdeal : deal number r dealer blinds deck ev = (r', ev', .ok h)) : CanDeal r dealer deck := by
  unfold deal at hdeal
  split at hdeal
  · cases hdeal
  · next hsetUp => exact canDeal_of_setUp hv hsetUp

theorem begun_of_deal {r' : Roster} {ev' : Evaluator} {h : Hand} (hv : r.Valid)
    (hdeck : deckSuffices deck r.funded.length)
    (hdeal : deal number r dealer blinds deck ev = (r', ev', .ok h)) : Begun r ⟨h, r', ev'⟩ := by
  obtain ⟨htwo, hdealer, -, hcount⟩ := canDeal_of_deal hv hdeal
  obtain ⟨s, hok, hbegun⟩ := deal_spec number blinds ev hv htwo hdealer hdeck hcount
  rw [hok] at hdeal
  cases hdeal
  exact hbegun

/-- With its blinds posted, a hand that is dealt moves on to its first prompt. -/
theorem opened_of_deal {r' : Roster} {ev' : Evaluator} {h : Hand} (hv : r.Valid)
    (hdeal : deal number r dealer blinds deck ev = (r', ev', .ok h)) :
    ∃ pos news, setUp number r dealer blinds deck =
        .ok (fresh number r dealer pos blinds deck, pos) ∧
      Opened r (freshSpot number r dealer pos blinds deck ev) news
        (opening (freshSpot number r dealer pos blinds deck ev) pos) ∧
      (opening (freshSpot number r dealer pos blinds deck ev) pos).advance =
        Spot.done ⟨h, r', ev'⟩ := by
  obtain ⟨htwo, hdealer, hdeck, hcount⟩ := canDeal_of_deal hv hdeal
  obtain ⟨pos, -, hopened⟩ := setUp_opened number blinds ev hv htwo hdealer hcount
  obtain ⟨hsetUp, news, hopened⟩ := hopened deck hdeck
  rw [deal_eq number blinds ev hsetUp] at hdeal
  exact ⟨pos, news, hsetUp, hopened, eq_done_of_dealOutcome hdeal⟩

/-- A shuffled deck suffices for the most players that can be seated. -/
theorem deckSuffices_reset {d : Deck} {players : Nat} (hd : Card.fullDeck.length ≤ d.cards.size)
    (hp : players ≤ maxSeats) : deckSuffices d.reset players := by
  have hcards : Card.fullDeck.length = 52 := by decide
  have hsize := size_reset d
  unfold maxSeats at hp
  show 0 + _ ≤ _
  omega

end Deal

/-- Two players with different stacks. -/
def unevenSeated : Roster :=
  { seats := [some ⟨1, "ann", 40, 0⟩, some ⟨2, "bob", 25, 1⟩] }

end Hand
end Holdem

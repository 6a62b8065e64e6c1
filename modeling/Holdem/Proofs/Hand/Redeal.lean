import Holdem.Proofs.Hand.Course

/-!
# The same hand with other cards

Nothing that is done in a hand looks at the pockets, or at cards that are still in the deck, but for
a showdown. So everything else does the same to a hand that was redealt, with other pockets and with
a deck that has the same cards to come: the answers are the same, and what is left behind is the
same hand redealt.
-/
namespace Holdem

/-! ## Maps whose values are changed -/

namespace NatMap
universe u
variable {α : Type u} {m n : NatMap α} {k j : Nat}

theorem ext_get? (h : ∀ k, m.get? k = n.get? k) : m = n := by
  have hnodup : ∀ m : NatMap α, m.entries.Nodup := by
    intro m
    apply m.ascending.imp
    rintro a b hlt rfl
    exact Nat.lt_irrefl _ hlt
  have hperm : m.entries.Perm n.entries := by
    rw [List.perm_ext_iff_of_nodup (hnodup m) (hnodup n)]
    rintro ⟨k, a⟩
    rw [mem_entries_iff, mem_entries_iff, h k]
  apply eq_of_entries
  apply hperm.eq_of_pairwise _ m.ascending n.ascending
  intro a b _ _ hab hba
  exact absurd (Nat.lt_trans hab hba) (Nat.lt_irrefl _)

/-- Changes every value, knowing the key it is under. -/
def mapValues (m : NatMap α) (f : Nat → α → α) : NatMap α where
  entries := m.entries.map fun e => (e.1, f e.1 e.2)
  ascending := List.pairwise_map.mpr m.ascending

theorem get?_mapValues {f : Nat → α → α} : (m.mapValues f).get? k = (m.get? k).map (f k) := by
  have hfind : ∀ l : List (Nat × α),
      find k (l.map fun e => (e.1, f e.1 e.2)) = (find k l).map (f k) := by
    intro l
    induction l with
    | nil => rfl
    | cons e rest ih =>
        rw [List.map_cons, find, find]
        split
        · next h => rw [h]; rfl
        · exact ih
  exact hfind m.entries

theorem contains_mapValues {f : Nat → α → α} : (m.mapValues f).contains k = m.contains k := by
  rw [contains, get?_mapValues, Option.isSome_map]
  rfl

/-- Changes that have nothing to do with each other may be made in any order. -/
theorem modify_mapValues (f : Nat → α → α) (g : α → α) (h : ∀ a, g (f k a) = f k (g a)) :
    (m.mapValues f).modify k g = (m.modify k g).mapValues f := by
  apply ext_get?
  intro i
  rw [get?_modify, get?_mapValues, get?_mapValues, get?_modify]
  split
  · next hik =>
      subst hik
      cases m.get? i with
      | none => rfl
      | some a => exact congrArg some (h a)
  · rfl

end NatMap

/-! ## Redealing -/

/-- The cards that a hand is redealt with. -/
structure Redeal where
  pocket : PlayerId → List Card
  cards : Array Card
  words : WordStream

def Deck.redeal (d : Deck) (c : Redeal) : Deck :=
  { cards := c.cards, drawn := d.drawn, words := c.words }

def Hand.redeal (h : Hand) (c : Redeal) : Hand :=
  { h with
    holdings := h.holdings.mapValues fun p held => { held with pocket := c.pocket p }
    deck := h.deck.redeal c }

def Spot.redeal (s : Spot) (c : Redeal) : Spot := { s with hand := s.hand.redeal c }

/-- What a step leaves behind, redealt, with the same answer. -/
def redealt (o : Outcome) (c : Redeal) : Outcome := (o.1.redeal c, o.2)

/-- A redeal that leaves the cards to come as they are. -/
def Redeal.Agrees (c : Redeal) (d : Deck) : Prop := ∀ i, d.drawn ≤ i → c.cards[i]? = d.cards[i]?

variable {c : Redeal}

theorem Redeal.Agrees.of_drawn {d d' : Deck} (h : c.Agrees d) (hcards : d'.cards = d.cards)
    (hdrawn : d.drawn ≤ d'.drawn) : c.Agrees d' := by
  intro i hi
  rw [hcards]
  exact h i (Nat.le_trans hdrawn hi)

/-- The cards that are drawn next are the same. -/
theorem Deck.drawUpTo_redeal {d : Deck} {n : Nat} (h : c.Agrees d) :
    (d.redeal c).drawUpTo n = ((d.drawUpTo n).1, (d.drawUpTo n).2.redeal c) := by
  induction n generalizing d with
  | zero => rfl
  | succ n ih =>
      have htop : c.cards[d.drawn]? = d.cards[d.drawn]? := h d.drawn (Nat.le_refl _)
      simp only [drawUpTo, draw]
      rw [show (d.redeal c).cards[(d.redeal c).drawn]? = d.cards[d.drawn]? from htop]
      cases d.cards[d.drawn]? with
      | none => rfl
      | some card =>
          have hrest := ih (d := { d with drawn := d.drawn + 1 })
            (h.of_drawn rfl (Nat.le_succ _))
          have hsame : ({ d.redeal c with drawn := (d.redeal c).drawn + 1 } : Deck) =
              Deck.redeal { d with drawn := d.drawn + 1 } c := rfl
          dsimp only
          rw [hsame, hrest]

namespace Hand
variable {h : Hand} {p : PlayerId}

@[simp] theorem round_redeal : (h.redeal c).round = h.round := rfl

@[simp] theorem phase_redeal : (h.redeal c).phase = h.phase := rfl

@[simp] theorem turns_redeal : (h.redeal c).turns = h.turns := rfl

@[simp] theorem dealtIn_redeal : (h.redeal c).dealtIn = h.dealtIn := rfl

@[simp] theorem currentPlayer_redeal : (h.redeal c).currentPlayer = h.currentPlayer := rfl

@[simp] theorem isDealtIn_redeal : (h.redeal c).isDealtIn p = h.isDealtIn p :=
  NatMap.contains_mapValues

@[simp] theorem isFolded_redeal : (h.redeal c).isFolded p = h.isFolded p := by
  unfold isFolded redeal
  rw [NatMap.get?_mapValues, Option.map_map]
  rfl

@[simp] theorem isAllIn_redeal : (h.redeal c).isAllIn p = h.isAllIn p := by
  unfold isAllIn redeal
  rw [NatMap.get?_mapValues, Option.map_map]
  rfl

@[simp] theorem ableToAct_redeal : (h.redeal c).ableToAct = h.ableToAct := by
  unfold ableToAct
  simp only [isAllIn_redeal]
  rfl

@[simp] theorem bettingIsOver_redeal : (h.redeal c).bettingIsOver = h.bettingIsOver := by
  unfold bettingIsOver
  rw [ableToAct_redeal]
  rfl

theorem markAllIn_redeal : (h.redeal c).markAllIn p = (h.markAllIn p).redeal c := by
  have hmarks := NatMap.modify_mapValues (m := h.holdings) (k := p)
    (fun p held => { held with pocket := c.pocket p }) (fun held => { held with allIn := true })
    fun _ => rfl
  exact congrArg (fun holdings => { h.redeal c with holdings }) hmarks

theorem markFolded_redeal : (h.redeal c).markFolded p = (h.markFolded p).redeal c := by
  have hmarks := NatMap.modify_mapValues (m := h.holdings) (k := p)
    (fun p held => { held with pocket := c.pocket p }) (fun held => { held with folded := true })
    fun _ => rfl
  exact congrArg (fun holdings => { h.redeal c with holdings }) hmarks

end Hand

namespace Spot
variable {s : Spot} {p : PlayerId}

@[simp] theorem hand_redeal : (s.redeal c).hand = s.hand.redeal c := rfl

@[simp] theorem roster_redeal : (s.redeal c).roster = s.roster := rfl

theorem mapHand_redeal {f : Hand → Hand} (h : f (s.hand.redeal c) = (f s.hand).redeal c) :
    (s.redeal c).mapHand f = (s.mapHand f).redeal c := by
  rw [mapHand, mapHand, redeal, redeal, h]

/-! ## Moving on -/

theorem settle_redeal {payouts : Payouts} {shown : NatMap ShownHand} :
    (s.redeal c).settle payouts shown = redealt (s.settle payouts shown) c := by
  unfold settle
  rw [show (s.redeal c).roster = s.roster from rfl]
  cases payouts.keys.find? fun p => !s.roster.contains p <;> rfl

theorem finishUncontested_redeal :
    (s.redeal c).finishUncontested = redealt s.finishUncontested c := by
  unfold finishUncontested
  rw [show (s.redeal c).hand.turns = s.hand.turns from rfl]
  cases s.hand.turns.now with
  | error e => rfl
  | ok winner => exact settle_redeal (s := s.mapHand Hand.collectRound)

theorem prompt_redeal : (s.redeal c).prompt = redealt s.prompt c := by
  unfold prompt
  dsimp only
  rw [show (s.redeal c).hand.turns = s.hand.turns from rfl,
    show (s.redeal c).hand.round = s.hand.round from rfl]
  cases s.hand.turns.lap.find? s.hand.round.owesAction with
  | none => rfl
  | some p =>
      dsimp only
      cases s.hand.turns.setCurrent p <;> rfl

theorem openStreet_redeal (h : Hand) (phase : Phase) :
    openStreet (h.redeal c) phase = (openStreet h phase).redeal c := by
  unfold openStreet
  rw [Hand.ableToAct_redeal, show (h.redeal c).order = h.order from rfl,
    show (h.redeal c).blinds = h.blinds from rfl]
  dsimp only
  split <;> rfl

theorem dealStreet_redeal (phase : Phase) (count : Nat) (hc : c.Agrees s.hand.deck) :
    (s.redeal c).dealStreet phase count = redealt (s.dealStreet phase count) c := by
  unfold dealStreet
  rw [show (s.redeal c).hand.deck = s.hand.deck.redeal c from rfl, Deck.drawUpTo_redeal hc]
  dsimp only
  split
  · rfl
  · let (dealt, deck) := s.hand.deck.drawUpTo count
    let board := s.hand.board ++ dealt
    let told := GameEvent.roundAdvanced phase dealt board
    have hopen := openStreet_redeal (c := c) { s.hand with deck, board } phase
    exact congrArg (fun hand => done { s with hand := hand.emit told }) hopen

/-! ## A step by itself -/

theorem turnPassed_redeal : (s.redeal c).turnPassed = redealt s.turnPassed c := by
  unfold turnPassed
  rw [show (s.redeal c).hand.turns = s.hand.turns from rfl]
  cases s.hand.turns.next <;> rfl

theorem foldOut_redeal : (s.redeal c).foldOut p = redealt (s.foldOut p) c := by
  unfold foldOut
  rw [show (s.redeal c).hand.isDealtIn p = s.hand.isDealtIn p from Hand.isDealtIn_redeal]
  split
  · have hmarked := mapHand_redeal (c := c) (s := s) (f := fun h =>
      { h.markFolded p with stakes := h.stakes.fold p, round := h.round.settleAction p })
      (congrArg (fun h : Hand =>
        { h with stakes := s.hand.stakes.fold p, round := s.hand.round.settleAction p })
        Hand.markFolded_redeal)
    rw [hmarked]
    dsimp only [mapHand, redeal, Hand.redeal, Hand.markFolded]
    cases s.hand.turns.remove p <;> rfl
  · rfl

theorem commitChips_redeal {h : Hand} {chips : Chips} :
    commitChips (h.redeal c) p chips = (commitChips h p chips).redeal c := by
  unfold commitChips
  rw [Hand.ableToAct_redeal]
  rfl

theorem carryOut_redeal {plan : Plan} :
    (s.redeal c).carryOut plan = redealt (s.carryOut plan) c := by
  cases plan with
  | check p =>
      exact turnPassed_redeal (s := s.mapHand fun h =>
        { h with round := h.round.settleAction p }.emit (.playerActed p .check 0))
  | commit p a chips allIn =>
      simp only [carryOut]
      rw [show (s.redeal c).roster = s.roster from rfl]
      cases (s.roster.stack? p).filter (chips ≤ ·) with
      | none => rfl
      | some stack =>
          dsimp only
          rw [show (s.redeal c).hand = s.hand.redeal c from rfl, commitChips_redeal,
            Hand.markAllIn_redeal]
          let bet := commitChips s.hand p chips
          let roster := s.roster.setStack p (stack - chips)
          cases allIn with
          | false =>
              let hand := (bet.emit (.playerActed p a chips)).emitPot
              exact turnPassed_redeal (s := { s with roster, hand })
          | true =>
              let hand := ((bet.markAllIn p).emit (.playerAllIn p chips)).emitPot
              exact turnPassed_redeal (s := { s with roster, hand })
  | fold p => exact foldOut_redeal

/-- An action is refused or accepted whatever the cards. -/
theorem validate_redeal {a : Action} : (s.redeal c).validate p a = s.validate p a := by
  have hplan : ∀ stack, (s.redeal c).planFor p stack a = s.planFor p stack a := by
    intro stack
    cases a
    all_goals simp only [planFor, sizingPlan, commitPlan, hand_redeal, roster_redeal,
      Hand.round_redeal]
    all_goals rfl
  simp only [validate, hand_redeal, roster_redeal, Hand.phase_redeal, Hand.isDealtIn_redeal,
    Hand.currentPlayer_redeal, hplan]

theorem foldedOut_redeal :
    (s.redeal c).foldedOut p = (redealt (s.foldedOut p).1 c, (s.foldedOut p).2) := by
  have hfirst : (s.redeal c).mapHand (fun h =>
      if h.firstToAct = p then
        { h with firstToAct := (h.turns.nextTo p).toOption.getD h.firstToAct }
      else h) = (s.mapHand fun h =>
        if h.firstToAct = p then
          { h with firstToAct := (h.turns.nextTo p).toOption.getD h.firstToAct }
        else h).redeal c := by
    apply mapHand_redeal
    show (if s.hand.firstToAct = p then _ else _) =
      Hand.redeal (if s.hand.firstToAct = p then _ else _) c
    split <;> rfl
  unfold foldedOut
  rw [hfirst, foldOut_redeal]
  simp only [redealt, hand_redeal, Hand.turns_redeal, Hand.bettingIsOver_redeal,
    Hand.currentPlayer_redeal]

/-- Whoever leaves is taken out whatever the cards. -/
theorem takeOut_redeal :
    (s.redeal c).takeOut p = (redealt (s.takeOut p).1 c, (s.takeOut p).2) := by
  unfold takeOut
  by_cases hover : s.hand.isOver = true
  · have hover' : (s.redeal c).hand.isOver = true := hover
    rw [if_pos hover, if_pos hover']
    rfl
  · have hover' : ¬ (s.redeal c).hand.isOver = true := hover
    rw [if_neg hover, if_neg hover', hand_redeal, Hand.dealtIn_redeal]
    cases s.hand.dealtIn.remove p with
    | error e => rfl
    | ok dealtIn =>
        have hstrike : (s.redeal c).strikeOff p dealtIn = (s.strikeOff p dealtIn).redeal c := rfl
        dsimp only
        rw [hstrike, hand_redeal, Hand.turns_redeal]
        split
        · exact foldedOut_redeal
        · rfl

end Spot

/-! ## Opening a hand -/

namespace Hand
variable {s : Spot} {p : PlayerId}

theorem withBet_redeal {h : Hand} {round : Round} {allIn : Bool} :
    (h.redeal c).withBet p round allIn = (h.withBet p round allIn).redeal c := by
  cases allIn with
  | false => rfl
  | true => exact markAllIn_redeal (h := { h with round })

theorem posted_redeal {b : BlindPost} {stack : Chips} :
    posted (s.redeal c) b stack = (posted s b stack).redeal c :=
  congrArg (fun hand => ({ s with
    roster := s.roster.setStack b.player (stack - b.amount)
    hand } : Spot)) withBet_redeal

theorem postBlind_redeal {amount : Chips} :
    postBlind (s.redeal c) p amount =
      ((postBlind s p amount).1.redeal c, (postBlind s p amount).2) := by
  have hstack : ((s.redeal c).roster.stack? p).getD 0 = (s.roster.stack? p).getD 0 := rfl
  rw [postBlind_eq amount hstack, postBlind_eq amount rfl, posted_redeal]

/-- The blinds are posted whatever the cards. -/
theorem opening_redeal {pos : Positions} :
    opening (s.redeal c) pos = (opening s pos).redeal c := by
  have hasked : ∀ (s : Spot) small big,
      (s.redeal c).mapHand (·.asked pos.firstToAct small big) =
        (s.mapHand (·.asked pos.firstToAct small big)).redeal c := by
    intro s small big
    apply Spot.mapHand_redeal
    unfold asked
    rw [ableToAct_redeal]
    rfl
  have hopening : ∀ s : Spot, opening s pos =
      let small := postBlind s pos.smallBlind s.hand.blinds.small
      let big := postBlind small.1 pos.bigBlind small.1.hand.blinds.big
      big.1.mapHand (·.asked pos.firstToAct small.2 big.2) := fun _ => rfl
  rw [hopening, hopening, postBlind_redeal]
  dsimp only
  rw [postBlind_redeal]
  exact hasked _ _ _

end Hand
end Holdem

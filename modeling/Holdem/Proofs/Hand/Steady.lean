import Holdem.Hand.State
import Holdem.Proofs.PotShares
import Holdem.Proofs.Seating
import Holdem.Proofs.Turns

/-!
# Hands in good order

What holds of a hand whenever somebody can act in it: where its players are, how the bets of the
round stand, whose chips are in the middle, and that nothing is missing. The first three are kept
apart since most steps touch only one of them. A hand is awake when in addition it waits for a
player who owes an action, live when its deck also has the cards of the streets to come, and
settled when it is over and the middle is empty.
-/
namespace Holdem

theorem Round.owesAction_iff {r : Round} {p : PlayerId} : r.owesAction p = true ↔ p ∈ r.pending :=
  decide_eq_true_iff

namespace Hand
variable {h : Hand} {r : Roster} {p q : PlayerId}

/-- Where the players of a hand are. Those who left have folded. -/
structure Places (h : Hand) (r : Roster) : Prop where
  nodup : h.dealtIn.order.Nodup
  seated : ∀ p ∈ h.dealtIn.order, r.contains p = true
  dealt : ∀ p ∈ h.dealtIn.order, h.isDealtIn p = true
  placed : ∀ p ∈ h.dealtIn.order, p ∈ h.order
  gone : ∀ p, h.isDealtIn p = true → p ∉ h.dealtIn.order → h.isFolded p = true
  turns_eq : h.turns.order = h.dealtIn.order.filter fun p => !h.isFolded p
  pointer : h.turns.current < h.turns.order.length
  allIn_iff : ∀ p ∈ h.turns.order, h.isAllIn p = true ↔ r.stack? p = some 0

/-- How the bets of the round stand: whoever can act and owes nothing has matched the highest. -/
structure Bets (h : Hand) : Prop where
  able : ∀ p ∈ h.round.pending, p ∈ h.ableToAct
  matched : ∀ p ∈ h.ableToAct, p ∉ h.round.pending → h.round.contribution p = h.round.highestBet
  highest : ∀ p, h.round.contribution p ≤ h.round.highestBet
  countable : h.round.highestBet ≤ maxChips

/-- Whose chips are in the middle. Once any were collected, everybody standing has some there. -/
structure Books (h : Hand) : Prop where
  folded : ∀ p, p ∈ h.stakes.folded ↔ h.isFolded p = true
  stakers : ∀ p, h.stakes.contributions.contains p = true → h.isDealtIn p = true
  bettors : ∀ p, h.round.contributions.contains p = true → h.isDealtIn p = true
  invested : 0 < h.stakes.total → ∀ p ∈ h.turns.order, 0 < h.stakes.contribution p
  allIn : ∀ p ∈ h.turns.order, h.isAllIn p = true →
    0 < h.stakes.contribution p + h.round.contribution p

/-- No chip is missing, and all of them can be counted. -/
structure Balanced (h : Hand) (r : Roster) : Prop where
  sum : r.chipsOf h.dealtIn.order + h.potTotal + h.departedChips = h.startingChips
  countable : h.startingChips ≤ maxChips

/-- The deck has the cards of the streets to come. -/
def Stocked (h : Hand) : Prop := h.deck.drawn + (h.phase.streets.map (·.2)).sum ≤ h.deck.cards.size

/-- A hand in which bets are made and everything is in order. -/
structure Steady (h : Hand) (r : Roster) : Prop where
  places : h.Places r
  bets : h.Bets
  books : h.Books
  balanced : h.Balanced r
  betting : h.phase.isBetting = true

/-- A hand in order that is contested and whose turn is with a player who owes an action. -/
structure Awake (h : Hand) (r : Roster) : Prop extends h.Steady r where
  contested : 1 < h.turns.order.length
  waits : ∃ p ∈ h.round.pending, h.turns.now = .ok p

/-- A hand that waits for a player and can be played to the end with its deck. -/
structure Live (h : Hand) (r : Roster) : Prop extends h.Awake r where
  stocked : h.Stocked

/-- A hand that is over, with every chip paid out. -/
structure Settled (h : Hand) (r : Roster) : Prop where
  ended : h.isOver = true
  empty : h.potTotal = 0
  balanced : h.Balanced r

/-! ## Marks -/

@[simp] theorem isDealtIn_markAllIn : (h.markAllIn p).isDealtIn q = h.isDealtIn q :=
  NatMap.contains_modify

@[simp] theorem isDealtIn_markFolded : (h.markFolded p).isDealtIn q = h.isDealtIn q :=
  NatMap.contains_modify

@[simp] theorem isFolded_markAllIn : (h.markAllIn p).isFolded q = h.isFolded q := by
  simp only [isFolded, markAllIn, NatMap.get?_modify]
  split <;> cases h.holdings.get? q <;> rfl

@[simp] theorem isAllIn_markFolded : (h.markFolded p).isAllIn q = h.isAllIn q := by
  simp only [isAllIn, markFolded, NatMap.get?_modify]
  split <;> cases h.holdings.get? q <;> rfl

theorem isAllIn_markAllIn (hp : h.isDealtIn p = true) :
    (h.markAllIn p).isAllIn q = (decide (q = p) || h.isAllIn q) := by
  simp only [isAllIn, markAllIn, NatMap.get?_modify]
  split
  · next hqp =>
      subst hqp
      obtain ⟨held, hheld⟩ := NatMap.contains_iff.mp hp
      simp [hheld]
  · next hqp => simp [hqp]

theorem isFolded_markFolded (hp : h.isDealtIn p = true) :
    (h.markFolded p).isFolded q = (decide (q = p) || h.isFolded q) := by
  simp only [isFolded, markFolded, NatMap.get?_modify]
  split
  · next hqp =>
      subst hqp
      obtain ⟨held, hheld⟩ := NatMap.contains_iff.mp hp
      simp [hheld]
  · next hqp => simp [hqp]

theorem exists_pocket (hp : h.isDealtIn p = true) : ∃ cards, h.pocket? p = some cards := by
  obtain ⟨held, hheld⟩ := NatMap.contains_iff.mp hp
  exact ⟨held.pocket, by rw [pocket?, hheld, Option.map_some]⟩

/-! ## Who is where -/

theorem mem_ableToAct : p ∈ h.ableToAct ↔ p ∈ h.turns.order ∧ h.isAllIn p = false := by
  simp [ableToAct]

theorem Places.mem_turns (hp : h.Places r) :
    p ∈ h.turns.order ↔ p ∈ h.dealtIn.order ∧ h.isFolded p = false := by
  simp [hp.turns_eq]

theorem Places.mem_turns_iff (hp : h.Places r) :
    p ∈ h.turns.order ↔ h.isDealtIn p = true ∧ h.isFolded p = false := by
  rw [hp.mem_turns]
  constructor
  · rintro ⟨hd, hf⟩
    exact ⟨hp.dealt p hd, hf⟩
  · rintro ⟨hd, hf⟩
    refine ⟨Classical.byContradiction fun hout => ?_, hf⟩
    rw [hp.gone p hd hout] at hf
    cases hf

theorem Places.turns_subset (hp : h.Places r) : h.turns.order ⊆ h.dealtIn.order :=
  fun _ hq => (hp.mem_turns.mp hq).1

theorem Places.turns_nodup (hp : h.Places r) : h.turns.order.Nodup := by
  rw [hp.turns_eq]
  exact hp.nodup.filter _

theorem Places.stack_pos (hp : h.Places r) (hq : q ∈ h.ableToAct) :
    ∃ c, r.stack? q = some c ∧ 0 < c := by
  obtain ⟨hturn, hall⟩ := mem_ableToAct.mp hq
  obtain ⟨c, hc⟩ := Roster.contains_iff.mp (hp.seated q (hp.turns_subset hturn))
  refine ⟨c, hc, Nat.pos_of_ne_zero fun hzero => ?_⟩
  rw [(hp.allIn_iff q hturn).mpr (by rw [hc, hzero])] at hall
  cases hall

/-- Other stacks than those of the hand may change, and anybody else may come or go. -/
theorem Places.of_stacks {r' : Roster} (hp : h.Places r)
    (hs : ∀ p ∈ h.dealtIn.order, r'.stack? p = r.stack? p) : h.Places r' :=
  { hp with
    seated := fun p hd => by
      obtain ⟨c, hc⟩ := Roster.contains_iff.mp (hp.seated p hd)
      exact Roster.contains_of_stack ((hs p hd).trans hc)
    allIn_iff := fun p ht => by rw [hs p (hp.turns_subset ht)]; exact hp.allIn_iff p ht }

theorem Balanced.of_stacks {r' : Roster} (hb : h.Balanced r)
    (hs : ∀ p ∈ h.dealtIn.order, r'.stack? p = r.stack? p) : h.Balanced r' :=
  { hb with sum := by rw [Roster.chipsOf_congr hs]; exact hb.sum }

theorem Awake.of_stacks {r' : Roster} (ha : h.Awake r)
    (hs : ∀ p ∈ h.dealtIn.order, r'.stack? p = r.stack? p) : h.Awake r' :=
  { ha with places := ha.places.of_stacks hs, balanced := ha.balanced.of_stacks hs }

theorem Live.of_stacks {r' : Roster} (hl : h.Live r)
    (hs : ∀ p ∈ h.dealtIn.order, r'.stack? p = r.stack? p) : h.Live r' :=
  { hl.toAwake.of_stacks hs with stocked := hl.stocked }

theorem Settled.of_stacks {r' : Roster} (hs : h.Settled r)
    (hsame : ∀ p ∈ h.dealtIn.order, r'.stack? p = r.stack? p) : h.Settled r' :=
  { hs with balanced := hs.balanced.of_stacks hsame }

/-- A hand with the turn at a place. -/
def turnTo (h : Hand) (place : Nat) : Hand := { h with turns := { h.turns with current := place } }

/-- Whose turn it is does not matter, as long as it is somebody's. -/
theorem Steady.turnTo {i : Nat} (hs : h.Steady r) (hi : i < h.turns.order.length) :
    (h.turnTo i).Steady r where
  places := { hs.places with pointer := hi }
  bets := { hs.bets with }
  books := { hs.books with }
  balanced := { hs.balanced with }
  betting := hs.betting

/-- Neither does what is told. -/
theorem Steady.emit {e : GameEvent} (hs : h.Steady r) : (h.emit e).Steady r where
  places := { hs.places with }
  bets := { hs.bets with }
  books := { hs.books with }
  balanced := { hs.balanced with }
  betting := hs.betting

theorem isOver_eq_false_of_betting (hb : h.phase.isBetting = true) : h.isOver = false := by
  unfold isOver
  unfold phase at hb
  cases hph : h.round.phase <;> simp [hph, Phase.isBetting] at hb ⊢

theorem Steady.not_over (hs : h.Steady r) : h.isOver = false :=
  isOver_eq_false_of_betting hs.betting

/-- While bets are made, a player on turn who owes an action is waited for. -/
theorem currentPlayer_eq (hbetting : h.phase.isBetting = true) (hp : p ∈ h.round.pending)
    (hnow : h.turns.now = .ok p) : h.currentPlayer = some p := by
  have hclosed : h.round.isClosed = false :=
    Bool.eq_false_iff.mpr fun hc => NatSet.isEmpty_iff.mp hc p hp
  rw [currentPlayer, isOver_eq_false_of_betting hbetting, hclosed, hnow]
  rfl

/-- Somebody is waited for only while the hand is played. -/
theorem not_over_of_current (hcur : h.currentPlayer = some p) : h.isOver = false := by
  refine Bool.eq_false_iff.mpr fun hover => ?_
  rw [currentPlayer, hover, Bool.true_or, if_pos rfl] at hcur
  cases hcur

theorem Awake.currentPlayer (ha : h.Awake r) :
    ∃ p ∈ h.round.pending, h.turns.now = .ok p ∧ h.currentPlayer = some p := by
  obtain ⟨p, hp, hnow⟩ := ha.waits
  exact ⟨p, hp, hnow, currentPlayer_eq ha.betting hp hnow⟩

/-- Whoever is waited for owes an action. -/
theorem Awake.owes_of_current (ha : h.Awake r) (hp : h.currentPlayer = some p) :
    p ∈ h.round.pending := by
  obtain ⟨q, howes, -, hq⟩ := ha.currentPlayer
  obtain rfl : q = p := Option.some_inj.mp (hq.symm.trans hp)
  exact howes

theorem Awake.mem_turns_of_current (ha : h.Awake r) (hp : h.currentPlayer = some p) :
    p ∈ h.turns.order :=
  (mem_ableToAct.mp (ha.bets.able p (ha.owes_of_current hp))).1

/-! ## Chips in the middle -/

theorem Bets.total_eq_zero (hb : h.Bets) (hz : h.round.highestBet = 0) : h.round.total = 0 :=
  NatMap.totalChips_eq_zero fun p => Nat.le_zero.mp (hz ▸ hb.highest p)

theorem foldl_cappedAdd (l : List Chips) (a : Chips) (h : a + l.sum ≤ maxChips) :
    l.foldl cappedAdd a = a + l.sum := by
  induction l generalizing a with
  | nil => rfl
  | cons c rest ih =>
      rw [List.sum_cons] at h
      have hcap : cappedAdd a c = a + c := by
        unfold cappedAdd
        lia
      rw [List.foldl_cons, hcap, ih _ (by lia), List.sum_cons]
      lia

/-- Counting the chips of a balanced hand finds no fault. -/
theorem Balanced.checkConservation {s : Spot} (hb : s.hand.Balanced s.roster) :
    s.checkConservation = .ok () := by
  have hsum := hb.sum
  have hmax := hb.countable
  have hstacks : (s.hand.dealtIn.order.filterMap s.roster.stack?).foldl cappedAdd 0 =
      s.roster.chipsOf s.hand.dealtIn.order := by
    rw [foldl_cappedAdd _ _ (by unfold Roster.chipsOf at hsum; lia), Nat.zero_add]
    rfl
  have hplay : s.chipsInPlay = s.hand.startingChips := by
    simp only [Spot.chipsInPlay, hstacks, cappedAdd]
    lia
  rw [Spot.checkConservation, if_pos hplay]

/-! ## Collecting the bets -/

section Collect
variable {s : Stakes} {es : List (PlayerId × Chips)}

theorem contribution_foldl (hes : es.Pairwise (fun a b => a.1 < b.1)) :
    (es.foldl (fun s e => s.contribute e.1 e.2) s).contribution p =
      s.contribution p + (NatMap.find p es).getD 0 := by
  induction es generalizing s with
  | nil => rfl
  | cons e rest ih =>
      obtain ⟨j, b⟩ := e
      have hj := List.pairwise_cons.mp hes
      rw [List.foldl_cons, ih hj.2, Stakes.contribution_contribute, NatMap.find]
      split
      · next hpj =>
          have hnone : NatMap.find p rest = none :=
            NatMap.find_eq_none fun x hx => Nat.ne_of_gt (hpj ▸ hj.1 x hx)
          simp [hnone]
      · simp

theorem total_foldl :
    (es.foldl (fun s e => s.contribute e.1 e.2) s).total = s.total + (es.map Prod.snd).sum := by
  induction es generalizing s with
  | nil => rfl
  | cons e rest ih =>
      rw [List.foldl_cons, ih, Stakes.total_contribute, List.map_cons, List.sum_cons, Nat.add_assoc]

theorem folded_foldl : (es.foldl (fun s e => s.contribute e.1 e.2) s).folded = s.folded := by
  induction es generalizing s with
  | nil => rfl
  | cons e rest ih => rw [List.foldl_cons, ih, Stakes.folded_contribute]

theorem contains_foldl
    (hp : (es.foldl (fun s e => s.contribute e.1 e.2) s).contributions.contains p = true) :
    s.contributions.contains p = true ∨ p ∈ es.map Prod.fst := by
  induction es generalizing s with
  | nil => exact .inl hp
  | cons e rest ih =>
      rw [List.foldl_cons] at hp
      rw [List.map_cons, List.mem_cons]
      rcases ih hp with hp | hp
      · rcases Stakes.contains_contribute hp with hp | hp
        · exact .inr (.inl hp)
        · exact .inl hp
      · exact .inr (.inr hp)

end Collect

@[simp] theorem contribution_collectRound :
    h.collectRound.stakes.contribution p = h.stakes.contribution p + h.round.contribution p :=
  contribution_foldl h.round.contributions.ascending

@[simp] theorem total_collectRound :
    h.collectRound.stakes.total = h.stakes.total + h.round.total :=
  total_foldl

@[simp] theorem folded_collectRound : h.collectRound.stakes.folded = h.stakes.folded :=
  folded_foldl

theorem potTotal_collectRound : h.collectRound.potTotal = h.potTotal := by
  rw [potTotal, total_collectRound]
  rfl

theorem Places.collectRound (hp : h.Places r) : h.collectRound.Places r := { hp with }

theorem Balanced.collectRound (hb : h.Balanced r) : h.collectRound.Balanced r :=
  { hb with sum := by rw [potTotal_collectRound]; exact hb.sum }

/-- When betting is over for the round, whoever can act has matched the highest bet. -/
theorem Bets.matched_of_done (hb : h.Bets)
    (hdone : h.round.isClosed = false → h.bettingIsOver = true) (hable : p ∈ h.ableToAct) :
    h.round.contribution p = h.round.highestBet := by
  cases hc : h.round.isClosed with
  | true => exact hb.matched p hable (NatSet.isEmpty_iff.mp hc p)
  | false =>
      have hover := hdone hc
      unfold bettingIsOver at hover
      split at hover
      · next hnil => simp [hnil] at hable
      · next q hone =>
          rw [hone, List.mem_singleton] at hable
          exact Nat.le_antisymm (hb.highest p) (hable ▸ of_decide_eq_true hover)
      · cases hover

/-- When betting is over for the round, everybody standing has chips in the middle if anybody. -/
theorem Steady.books_collectRound (hs : h.Steady r)
    (hclosed : h.round.isClosed = false → h.bettingIsOver = true) : h.collectRound.Books := by
  refine
    { folded := fun p => by rw [folded_collectRound]; exact hs.books.folded p
      stakers := fun p hp => ?_
      bettors := fun p hp => by cases hp
      invested := fun hpos p hp => ?_
      allIn := fun p hp hall => ?_ }
  · rcases contains_foldl hp with hp | hp
    · exact hs.books.stakers p hp
    · exact hs.books.bettors p (NatMap.mem_keys_iff.mp hp)
  · rw [total_collectRound] at hpos
    rw [contribution_collectRound]
    cases hall : h.isAllIn p with
    | true => exact hs.books.allIn p hp hall
    | false =>
        have hable : p ∈ h.ableToAct := mem_ableToAct.mpr ⟨hp, hall⟩
        have hmatched := hs.bets.matched_of_done hclosed hable
        -- Without a bet in this round the middle is what was collected before.
        by_cases hzero : h.round.highestBet = 0
        · rw [hs.bets.total_eq_zero hzero, Nat.add_zero] at hpos
          exact Nat.add_pos_left (hs.books.invested hpos p hp) _
        · exact Nat.add_pos_right _ (hmatched ▸ Nat.pos_of_ne_zero hzero)
  · rw [contribution_collectRound]
    exact Nat.add_pos_left (hs.books.allIn p hp hall) _

end Hand
end Holdem

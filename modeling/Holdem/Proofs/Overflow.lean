import Holdem.Proofs.PotShares

/-!
# Chips that have to be counted

Chips are kept in words that hold no more than `maxChips` and nothing below zero. The sums and
differences of this module are those of such words: where a result does not fit there is none. The
stakes, the pots and the payouts are worked out again with them, one operation after another. As
long as the stakes together can be counted no operation on the way fails, and what comes out is
what comes out of exact numbers.
-/
namespace Holdem

/-- A sum of chips, if it can be counted. -/
def sum? (a b : Chips) : Option Chips := if a + b ≤ maxChips then some (a + b) else none

/-- What is left of some chips after others were taken from them, if there were enough. -/
def diff? (a b : Chips) : Option Chips := if b ≤ a then some (a - b) else none

/-- Chips added up one after another. -/
def total? (chips : List Chips) : Option Chips := chips.foldlM sum? 0

section Words
variable {a b : Chips} {chips : List Chips}

theorem sum?_eq (h : a + b ≤ maxChips) : sum? a b = some (a + b) := if_pos h

theorem diff?_eq (h : b ≤ a) : diff? a b = some (a - b) := if_pos h

/-- Steps that each add their weight to a count at most, and go through as long as the count fits,
go through one after another as long as all the weight does. -/
theorem foldlM_counted {α σ : Type} (inv : σ → Prop) (count : σ → Chips) (weight : α → Chips)
    {f? : σ → α → Option σ} {f : σ → α → σ}
    (step : ∀ m e, inv m → count m + weight e ≤ maxChips →
      f? m e = some (f m e) ∧ inv (f m e) ∧ count (f m e) ≤ count m + weight e)
    {m : σ} {es : List α} (hm : inv m) (h : count m + (es.map weight).sum ≤ maxChips) :
    es.foldlM f? m = some (es.foldl f m) := by
  induction es generalizing m with
  | nil => rfl
  | cons e rest ih =>
      rw [List.map_cons, List.sum_cons, ← Nat.add_assoc] at h
      obtain ⟨hstep, hinv, hcount⟩ := step m e hm (Nat.le_trans (Nat.le_add_right _ _) h)
      rw [List.foldlM_cons, hstep]
      exact ih hinv (Nat.le_trans (Nat.add_le_add_right hcount _) h)

theorem total?_eq (h : chips.sum ≤ maxChips) : total? chips = some chips.sum := by
  rw [List.sum_eq_foldl]
  exact foldlM_counted (fun _ => True) id id
    (fun a b _ hle => ⟨sum?_eq hle, trivial, Nat.le_refl _⟩) trivial
    (by rwa [List.map_id, id, Nat.zero_add])

/-- Differences that all exist, taken one after another. -/
theorem mapM_diff? {f g : Chips → Chips} (h : ∀ c, g c ≤ f c) (chips : List Chips) :
    (chips.mapM fun c => diff? (f c) (g c)) = some (chips.map fun c => f c - g c) := by
  rw [funext fun c => diff?_eq (h c)]
  exact List.mapM_pure

end Words

/-! ## Maps of chips -/

namespace NatMap
variable {m : NatMap Chips} {p : PlayerId} {c : Chips}

def addChips? (m : NatMap Chips) (player : PlayerId) (amount : Chips) : Option (NatMap Chips) :=
  (sum? (m.chips player) amount).map (m.insert player)

def totalChips? (m : NatMap Chips) : Option Chips := total? m.values

theorem addChips?_eq (h : m.totalChips + c ≤ maxChips) :
    m.addChips? p c = some (m.addChips p c) := by
  have hp : m.chips p + c ≤ maxChips :=
    Nat.le_trans (Nat.add_le_add_right chips_le_totalChips c) h
  rw [addChips?, sum?_eq hp]
  rfl

theorem totalChips?_eq (h : m.totalChips ≤ maxChips) : m.totalChips? = some m.totalChips :=
  total?_eq h

end NatMap

/-! ## Stakes and pots -/

namespace Stakes
variable {s : Stakes} {p : PlayerId} {c low high dead : Chips} {levels : List Chips}

def contribute? (s : Stakes) (player : PlayerId) (amount : Chips) : Option Stakes :=
  if amount = 0 then some s
  else (s.contributions.addChips? player amount).map fun contributions => { s with contributions }

def total? (s : Stakes) : Option Chips := s.contributions.totalChips?

def between? (s : Stakes) (low high : Chips) : Option Chips := do
  Holdem.total? (← s.contributions.values.mapM fun c => diff? (min c high) (min c low))

def above? (s : Stakes) (low : Chips) : Option Chips := do
  Holdem.total? (← s.contributions.values.mapM fun c => diff? c (min c low))

/-- A pot for each level above a height, holding what lies between it and the level below. -/
def layers? (s : Stakes) (low : Chips) : List Chips → Option (List Pot)
  | [] => some []
  | level :: rest => do
      let amount ← s.between? low level
      let later ← s.layers? level rest
      return ⟨amount, s.reaching level⟩ :: later

/-- Chips that nobody standing reaches join the last pot, or make one that nobody can win. -/
def addDead? (dead : Chips) : List Pot → Option (List Pot)
  | [] => some [⟨dead, ∅⟩]
  | [last] => do return [{ last with amount := ← sum? last.amount dead }]
  | pot :: rest => (addDead? dead rest).map (pot :: ·)

/-- The layers above a height, with the chips above the last of them added to it. -/
def potsAbove? (s : Stakes) (low : Chips) (levels : List Chips) : Option (List Pot) := do
  let layers ← s.layers? low levels
  let dead ← s.above? (levels.getLastD low)
  if dead = 0 then return layers else addDead? dead layers

def pots? (s : Stakes) : Option (List Pot) := s.potsAbove? 0 s.levels

def awardAll? (s : Stakes) (winner : PlayerId) : Option Payouts := do
  let total ← s.total?
  return if total = 0 then ∅ else (∅ : Payouts).insert winner total

theorem contribute?_eq (h : s.total + c ≤ maxChips) :
    s.contribute? p c = some (s.contribute p c) := by
  unfold contribute? contribute
  split
  · rfl
  · rw [NatMap.addChips?_eq h]
    rfl

theorem total?_eq (h : s.total ≤ maxChips) : s.total? = some s.total := NatMap.totalChips?_eq h

theorem awardAll?_eq (h : s.total ≤ maxChips) : s.awardAll? p = some (s.awardAll p) := by
  rw [awardAll?, total?_eq h]
  rfl

theorem above_le_total : s.above low ≤ s.total := by
  rw [← above_zero, ← between_add_above (Nat.zero_le low)]
  exact Nat.le_add_left _ _

theorem above?_eq (h : s.total ≤ maxChips) : s.above? low = some (s.above low) := by
  rw [above?, mapM_diff? fun c => Nat.min_le_left c low]
  exact Holdem.total?_eq (Nat.le_trans above_le_total h)

theorem between?_eq (hle : low ≤ high) (h : s.total ≤ maxChips) :
    s.between? low high = some (s.between low high) := by
  have hbetween : s.between low high ≤ s.above low := by
    rw [← between_add_above hle]
    exact Nat.le_add_right _ _
  rw [between?, mapM_diff? fun c => by lia]
  exact Holdem.total?_eq (Nat.le_trans hbetween (Nat.le_trans above_le_total h))

theorem addDead?_cons {pot next : Pot} {later : List Pot} :
    addDead? dead (pot :: next :: later) = (addDead? dead (next :: later)).map (pot :: ·) := by
  rw [addDead?]
  exact List.cons_ne_nil _ _

/-- Only the last pot is touched by the chips above it. -/
theorem potsAbove?_cons {level next : Chips} {more : List Chips} {pots : List Pot}
    (hbetween : s.between? low level = some c)
    (hpots : s.potsAbove? level (next :: more) = some pots) :
    s.potsAbove? low (level :: next :: more) = some (⟨c, s.reaching level⟩ :: pots) := by
  rw [potsAbove?, List.getLastD_cons, layers?, hbetween]
  rw [potsAbove?] at hpots
  obtain ⟨layers, hlayers, hpots⟩ := Option.bind_eq_some_iff.mp hpots
  obtain ⟨dead, hdead, hpots⟩ := Option.bind_eq_some_iff.mp hpots
  simp only [hlayers, hdead, Option.bind_eq_bind, Option.bind_some, Option.pure_def]
  rw [layers?] at hlayers
  obtain ⟨amount, -, hlayers⟩ := Option.bind_eq_some_iff.mp hlayers
  obtain ⟨later, -, hlayers⟩ := Option.bind_eq_some_iff.mp hlayers
  cases hlayers
  split at hpots
  · next hzero =>
      cases hpots
      rw [if_pos hzero]
  · next hpos => rw [if_neg hpos, addDead?_cons, hpots, Option.map_some]

/-- Putting the chips above the last layer into it makes the pots that are read off at once. -/
theorem potsAbove?_eq (hne : levels ≠ []) (hasc : (low :: levels).Pairwise (· ≤ ·))
    (h : s.total ≤ maxChips) : s.potsAbove? low levels = some (s.potsAbove low levels) := by
  induction levels generalizing low with
  | nil => exact absurd rfl hne
  | cons level rest ih =>
      have hlow := List.pairwise_cons.mp hasc
      have hle : low ≤ level := hlow.1 level List.mem_cons_self
      cases rest with
      | nil =>
          have hsum := between_add_above (s := s) hle
          have hfits : s.between low level + s.above level ≤ maxChips :=
            hsum ▸ Nat.le_trans above_le_total h
          simp only [potsAbove?, layers?, between?_eq hle h, above?_eq h, List.getLastD_cons,
            List.getLastD_nil, Option.bind_eq_bind, Option.bind_some, Option.pure_def, potsAbove]
          split
          · next hzero => rw [← hsum, hzero, Nat.add_zero]
          · rw [addDead?, sum?_eq hfits, hsum]
            rfl
      | cons next more =>
          exact potsAbove?_cons (between?_eq hle h) (ih (List.cons_ne_nil _ _) hlow.2)

theorem pots?_eq (h : s.total ≤ maxChips) : s.pots? = some s.pots := by
  cases hlevels : s.levels with
  | nil =>
      simp only [pots?, pots, hlevels, potsAbove?, layers?, above?_eq h, List.getLastD_nil,
        above_zero, Option.bind_eq_bind, Option.bind_some, Option.pure_def, addDead?]
      split <;> rfl
  | cons level rest =>
      have hasc : (level :: rest).Pairwise (· ≤ ·) :=
        hlevels ▸ (NatSet.ofList _).ascending.imp fun h => Nat.le_of_lt h
      rw [pots?, pots, hlevels]
      exact potsAbove?_eq (List.cons_ne_nil _ _)
        (List.pairwise_cons.mpr ⟨fun l _ => Nat.zero_le l, hasc⟩) h

end Stakes

/-! ## Payouts -/

namespace Pot
variable {pot : Pot} {hands : NatMap HandValue} {order ws : List PlayerId} {paid : Payouts}

/-- What the next winner gets of a pot, and the odd chips that remain after them. -/
def nextShare? (share remainder : Chips) : Option (Chips × Chips) :=
  if 0 < remainder then do return (← sum? share 1, ← diff? remainder 1)
  else some (share, remainder)

def payOne? (payouts : Payouts) (winner : PlayerId) (won : Chips) : Option Payouts :=
  if won = 0 then some payouts else payouts.addChips? winner won

/-- Pays the winners one after another. -/
def payShares? (share : Chips) : List PlayerId → Chips → Payouts → Option Payouts
  | [], _, payouts => some payouts
  | w :: rest, remainder, payouts => do
      let (won, remainder) ← nextShare? share remainder
      payShares? share rest remainder (← payOne? payouts w won)

/-- Awards one pot on top of earlier payouts. A pot without winners is passed over. -/
def award? (p : Pot) (hands : NatMap HandValue) (order : List PlayerId) (payouts : Payouts) :
    Option (Except PotError Payouts) :=
  match p.eligible.members.find? fun q => !hands.contains q with
  | some q => some (.error (.missingHand q))
  | none =>
      match p.winners hands order with
      | [] => some (.ok payouts)
      | w :: ws =>
          let winners := w :: ws
          (payShares? (p.amount / winners.length) winners (p.amount % winners.length) payouts).map
            .ok

/-- Awards pots one after another. -/
def awardEach? (hands : NatMap HandValue) (order : List PlayerId) :
    List Pot → Payouts → Option (Except PotError Payouts)
  | [], payouts => some (.ok payouts)
  | pot :: rest, payouts => do
      match ← pot.award? hands order payouts with
      | .error e => return .error e
      | .ok payouts => awardEach? hands order rest payouts

/-- What the winner in some place gets, the odd chips going one each to the first of them. -/
def shareAt (share odd place : Nat) : Chips := share + if place < odd then 1 else 0

theorem nextShare?_eq {share odd i : Nat} (h : shareAt share odd i ≤ maxChips) :
    nextShare? share (odd - i) = some (shareAt share odd i, odd - (i + 1)) := by
  unfold nextShare? shareAt at *
  split
  · next hodd =>
      have hi : i < odd := Nat.lt_of_sub_pos hodd
      rw [if_pos hi] at h ⊢
      rw [sum?_eq h, diff?_eq hodd, Nat.sub_sub]
      rfl
  · next hodd =>
      rw [if_neg (by lia)]
      congr 2
      lia

theorem payOne?_eq {p : PlayerId} {won : Chips} (h : paid.totalChips + won ≤ maxChips) :
    payOne? paid p won = some (if won = 0 then paid else paid.addChips p won) := by
  unfold payOne?
  split
  · rfl
  · exact NatMap.addChips?_eq h

theorem totalChips_payOne (p : PlayerId) (won : Chips) :
    (if won = 0 then paid else paid.addChips p won).totalChips = paid.totalChips + won := by
  split
  · next h => rw [h, Nat.add_zero]
  · exact NatMap.totalChips_addChips _ _ _

/-- The loop over the winners pays the shares of an even split, wherever in it it stands. -/
theorem payShares?_eq {share odd i : Nat}
    (h : paid.totalChips + ((ws.zipIdx i).map fun e => shareAt share odd e.2).sum ≤ maxChips) :
    payShares? share ws (odd - i) paid =
      some (pay paid ((ws.zipIdx i).map fun (w, j) => (w, shareAt share odd j))) := by
  induction ws generalizing i paid with
  | nil => rfl
  | cons w rest ih =>
      rw [List.zipIdx_cons, List.map_cons, List.sum_cons, ← Nat.add_assoc] at h
      have hpaid : paid.totalChips + shareAt share odd i ≤ maxChips :=
        Nat.le_trans (Nat.le_add_right _ _) h
      rw [payShares?, nextShare?_eq (Nat.le_trans (Nat.le_add_left _ _) hpaid)]
      simp only [Option.bind_eq_bind, Option.bind_some]
      rw [payOne?_eq hpaid, Option.bind_some, ih (by rwa [totalChips_payOne])]
      rfl

theorem payShares?_split {amount : Chips} (hne : ws ≠ [])
    (h : paid.totalChips + amount ≤ maxChips) :
    payShares? (amount / ws.length) ws (amount % ws.length) paid =
      some (pay paid (split amount ws)) := by
  have hsum : (ws.zipIdx.map fun e =>
      shareAt (amount / ws.length) (amount % ws.length) e.2).sum = amount := by
    have hsplit := sum_split amount hne
    rw [split, List.map_map] at hsplit
    exact hsplit
  exact payShares?_eq (i := 0) (Nat.le_trans (Nat.le_of_eq (congrArg _ hsum)) h)

theorem award?_eq (h : paid.totalChips + pot.amount ≤ maxChips) :
    pot.award? hands order paid = some (pot.award hands order paid) := by
  unfold award? award
  cases pot.eligible.members.find? fun q => !hands.contains q with
  | some q => rfl
  | none =>
      cases pot.winners hands order with
      | nil => rfl
      | cons w rest =>
          show (payShares? _ (w :: rest) _ paid).map Except.ok = _
          rw [payShares?_split (List.cons_ne_nil w rest) h]
          rfl

/-- Awarding a pot pays its amount at most. -/
theorem totalChips_award_le {out : Payouts} (h : pot.award hands order paid = .ok out) :
    out.totalChips ≤ paid.totalChips + pot.amount := by
  unfold award at h
  split at h
  · cases h
  · cases h
    rw [totalChips_pay]
    cases hwinners : pot.winners hands order with
    | nil => exact Nat.le_add_right _ _
    | cons w rest => rw [sum_split _ (List.cons_ne_nil w rest)]

theorem awardEach?_eq {pots : List Pot}
    (h : paid.totalChips + (pots.map amount).sum ≤ maxChips) :
    awardEach? hands order pots paid =
      some (pots.foldlM (fun paid pot => pot.award hands order paid) paid) := by
  induction pots generalizing paid with
  | nil => rfl
  | cons pot rest ih =>
      rw [List.map_cons, List.sum_cons, ← Nat.add_assoc] at h
      rw [awardEach?, award?_eq (Nat.le_trans (Nat.le_add_right _ _) h), List.foldlM_cons]
      cases haward : pot.award hands order paid with
      | error e => rfl
      | ok mid =>
          exact ih (Nat.le_trans (Nat.add_le_add_right (totalChips_award_le haward) _) h)

theorem totalChips_foldlM_award_le {pots : List Pot} {out : Payouts}
    (h : pots.foldlM (fun paid pot => pot.award hands order paid) paid = .ok out) :
    out.totalChips ≤ paid.totalChips + (pots.map amount).sum := by
  induction pots generalizing paid with
  | nil => cases h; exact Nat.le_refl _
  | cons pot rest ih =>
      rw [List.foldlM_cons] at h
      cases haward : pot.award hands order paid with
      | error e => rw [haward] at h; cases h
      | ok mid =>
          rw [haward] at h
          rw [List.map_cons, List.sum_cons, ← Nat.add_assoc]
          exact Nat.le_trans (ih h) (Nat.add_le_add_right (totalChips_award_le haward) _)

end Pot

def Stakes.distribute? (s : Stakes) (hands : NatMap HandValue) (order : List PlayerId) :
    Option (Except PotError Payouts) := do
  Pot.awardEach? hands order (← s.pots?) ∅

section Distribute
variable {s : Stakes} {hands : NatMap HandValue} {order : List PlayerId}

theorem Stakes.distribute?_eq (h : s.total ≤ maxChips) :
    s.distribute? hands order = some (s.distribute hands order) := by
  rw [distribute?, pots?_eq h]
  apply Pot.awardEach?_eq
  rw [NatMap.totalChips_empty, sum_pots, Nat.zero_add]
  exact h

/-- No more is paid out than was put in, whoever can win it. -/
theorem Stakes.totalChips_distribute_le {payouts : Payouts}
    (h : s.distribute hands order = .ok payouts) : payouts.totalChips ≤ s.total := by
  have hle := Pot.totalChips_foldlM_award_le h
  rwa [NatMap.totalChips_empty, sum_pots, Nat.zero_add] at hle

end Distribute
end Holdem

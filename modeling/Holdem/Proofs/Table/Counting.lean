import Holdem.Proofs.Table.Runs
import Mathlib.Data.List.Induction

/-!
# Counting the chips at a table

Whoever sits down is refused a seat if their stack and all stacks at the table together could not
be counted. The chips in the middle of a running hand are left out of that sum, and the sum of the
stacks itself goes round once they do not fit any more. So everything at a table can be counted, and
hands can be dealt, exactly as long as nobody is seated with a stack that does not fit on top of
everything that is there. The first time that happens a hand is played; after that the stacks may be
counted wrong, and it may happen between hands as well.
-/
namespace Holdem.Table
variable {t : Table} {f : Floor}

/-- The chips at a table, those it shows and those in front of the players can be counted, and
two players with chips are dealt a hand when one who is seated asks for it. -/
structure Countable (t : Table) : Prop where
  chips : t.onTable ≤ maxChips
  shown : t.snapshot.totalChips ≤ maxChips
  seated : t.roster.totalChips ≤ maxChips
  deals : ∀ f p, t.roster.contains p = true → t.hand = none → 2 ≤ t.roster.funded.length →
    (t.handle f (.deal p)).2.2 = .ok .done

/-- A player is seated whose stack does not fit on top of everything that is there. -/
def Overfills (t : Table) (v : Visit) : Prop :=
  ∃ p name stack wanted answer, v.message = .join p name stack wanted ∧
    (t.handle v.floor v.message).2.2 = .ok answer ∧ maxChips < t.onTable + stack

/-! ## What a table shows -/

theorem totalChips_publicView {id : TableId} {name : String} {r : Roster} {hand : Option Hand} :
    (publicView id name r hand).totalChips = r.totalChips + hand.elim 0 Hand.potTotal := by
  have hseats : ((r.players.map (seatView hand)).map (·.stack)).sum = r.totalChips := by
    rw [List.map_map]
    rfl
  cases hand with
  | none => exact congrArg (· + 0) hseats
  | some h => exact congrArg (· + h.potTotal) hseats

theorem handle_shows (hw : t.Waiting) (hshown : t.snapshot.totalChips = t.onTable) (m : Message) :
    (t.handle f m).1.snapshot.totalChips = (t.handle f m).1.onTable := by
  have hs := respond_settles (f := f) hw m
  rw [onTable_handle]
  simp only [handle, tellAll]
  split
  · exact totalChips_publicView
  · next hrenew =>
      obtain ⟨hsame, hchips⟩ := hs.unseen (Bool.eq_false_iff.mpr hrenew)
      rw [hsame, hchips, hshown]

/-- What a table shows of its chips is what is there. -/
theorem run_shows (hw : t.Waiting) (hshown : t.snapshot.totalChips = t.onTable)
    (visits : List Visit) :
    (t.run visits).1.snapshot.totalChips = (t.run visits).1.onTable := by
  induction visits generalizing t with
  | nil => exact hshown
  | cons v rest ih =>
      exact ih (hw.handle v.floor v.message) (handle_shows hw hshown v.message)

theorem countable_of_chips (hw : t.Waiting) (hshown : t.snapshot.totalChips = t.onTable)
    (hchips : t.onTable ≤ maxChips) : t.Countable where
  chips := hchips
  shown := Nat.le_trans (Nat.le_of_eq hshown) hchips
  seated := Nat.le_trans (Nat.le_add_right _ _) hchips
  deals f p hseated hnone htwo := by
    have hcount : t.roster.totalChips ≤ maxChips := Nat.le_trans (Nat.le_add_right _ _) hchips
    have hdealt := dealHands_ok maxUnattendedHands true f hw.toInOrder htwo
      hnone hcount
    show (t.respondDeal f p).reply = .ok .done
    rw [respondDeal, if_neg (by rw [hseated]; exact Bool.false_ne_true),
      if_neg (by rw [hnone]; exact Bool.false_ne_true)]
    simp only [hdealt]
    rfl

/-! ## Who overfills a table -/

/-- An accepted join fits on top of all stacks at the table, as they are counted. -/
theorem room_of_join {p : PlayerId} {name : String} {stack : Chips} {wanted : Option SeatIndex}
    {answer : Answer} (hw : t.Waiting)
    (h : (t.handle f (.join p name stack wanted)).2.2 = .ok answer) :
    t.roster.countedChips + stack ≤ maxChips := by
  have hreply : (t.respondJoin f p name stack wanted).reply = .ok answer := h
  unfold respondJoin at hreply
  split at hreply
  · cases hreply
  · next hseat => exact (Roster.add_spec hw.valid (takeSeat_ok hseat)).2.1

/-- A table whose stacks can be counted is only overfilled while a hand is played. -/
theorem hand_of_overfills {v : Visit} (hw : t.Waiting) (hcount : t.roster.totalChips ≤ maxChips)
    (h : t.Overfills v) : t.hand.isSome = true := by
  obtain ⟨p, name, stack, wanted, answer, hm, hreply, hmany⟩ := h
  rw [hm] at hreply
  have hroom := room_of_join hw hreply
  rw [Roster.countedChips_eq hcount] at hroom
  cases hhand : t.hand with
  | none =>
      rw [onTable_of_none hhand] at hmany
      exact absurd hroom (Nat.not_le_of_lt hmany)
  | some _ => rfl

theorem visit_of_overfills {v : Visit} (hw : t.Waiting) (h : t.Overfills v) :
    maxChips < (t.visit v).1.onTable := by
  obtain ⟨p, name, stack, wanted, answer, hm, hreply, hmany⟩ := h
  have hchips := handle_chips (f := v.floor) (m := v.message) hw
  rw [hreply, hm] at hchips
  have hout : (Message.join p name stack wanted).takenAway (.ok answer) = 0 := rfl
  have hin : (Message.join p name stack wanted).broughtIn (.ok answer) = stack := rfl
  rw [hout, hin, Nat.add_zero] at hchips
  simp only [visit]
  rw [hm, hchips]
  exact hmany

theorem visit_of_not_overfills {v : Visit} (hw : t.Waiting) (hchips : t.onTable ≤ maxChips)
    (h : ¬ t.Overfills v) : (t.visit v).1.onTable ≤ maxChips := by
  have hkept := handle_chips (f := v.floor) (m := v.message) hw
  have hfits : t.onTable + v.message.broughtIn (t.handle v.floor v.message).2.2 ≤ maxChips := by
    unfold Message.broughtIn
    split
    · next p name stack wanted answer hm hreply =>
        refine Nat.le_of_not_lt fun hmany => h ⟨p, name, stack, wanted, answer, hm, ?_, hmany⟩
        exact hreply
    · exact hchips
  exact Nat.le_trans (Nat.le_add_right _ _) (Nat.le_trans (Nat.le_of_eq hkept) hfits)

theorem run_concat (t : Table) (pre : List Visit) (v : Visit) :
    (t.run (pre ++ [v])).1 = ((t.run pre).1.visit v).1 := by
  rw [run_append]
  rfl

/-- Chips stay countable as long as nobody overfills the table. The induction adds the messages
one by one at the end. -/
theorem run_countable (hw : t.Waiting) (hchips : t.onTable ≤ maxChips) {visits : List Visit}
    (hfits : ∀ pre v, pre ++ [v] <+: visits → ¬ (t.run pre).1.Overfills v) (pre : List Visit)
    (hpre : pre <+: visits) : (t.run pre).1.onTable ≤ maxChips := by
  induction pre using List.reverseRecOn with
  | nil => exact hchips
  | append_singleton init v ih =>
      rw [run_concat]
      exact visit_of_not_overfills (hw.run init) (ih ((List.prefix_append _ _).trans hpre))
        (hfits init v hpre)

/-- From its opening on everything at a table can be counted exactly as long as nobody is seated
with a stack that does not fit on top of it. The first time, when all that is there can still be
counted, that happens during a hand. -/
theorem countable_iff_never_overfilled {id : TableId} {config : TableConfig}
    (h : config.validate = .ok ()) (visits : List Visit) :
    ((∀ pre, pre <+: visits → ((create id config).run pre).1.Countable) ↔
      ∀ pre v, pre ++ [v] <+: visits → ¬ ((create id config).run pre).1.Overfills v) ∧
    ∀ pre v, pre ++ [v] <+: visits →
      (∀ earlier, earlier <+: pre → ((create id config).run earlier).1.Countable) →
      ((create id config).run pre).1.Overfills v →
        ((create id config).run pre).1.hand.isSome = true := by
  have hw := create_waiting id h
  have hshown : (create id config).snapshot.totalChips = (create id config).onTable :=
    onTable_create.symm
  refine ⟨⟨fun hall pre v hpre hover => ?_, fun hfits pre hpre => ?_⟩, fun pre v _ hall hover => ?_⟩
  · have hmany := visit_of_overfills (hw.run pre) hover
    rw [← run_concat] at hmany
    exact Nat.not_le_of_lt hmany (hall _ hpre).chips
  · exact countable_of_chips (hw.run pre) (run_shows hw hshown pre)
      (run_countable hw (Nat.le_trans (Nat.le_of_eq onTable_create) (Nat.zero_le _)) hfits pre hpre)
  · exact hand_of_overfills (hw.run pre) (hall pre List.prefix_rfl).seated hover

theorem countable_iff_never_overfilled_heads_up :
    TableConfig.validate {} = .ok () ∧
      ((∀ pre, pre <+: headsUp → ((create 1 {}).run pre).1.Countable) ↔
        ∀ pre v, pre ++ [v] <+: headsUp → ¬ ((create 1 {}).run pre).1.Overfills v) ∧
      ∀ pre v, pre ++ [v] <+: headsUp →
        (∀ earlier, earlier <+: pre → ((create 1 {}).run earlier).1.Countable) →
        ((create 1 {}).run pre).1.Overfills v → ((create 1 {}).run pre).1.hand.isSome = true :=
  ⟨by decide, countable_iff_never_overfilled (by decide) headsUp⟩

/-- Messages that nothing comes between. -/
def undisturbed (t : Table) (f : Floor) : List Message → List Visit
  | [] => []
  | m :: rest => ⟨f, m⟩ :: undisturbed (t.handle f m).1 (t.handle f m).2.1 rest

/-- A table of three whose highest buy-ins add up to the most that can be counted. -/
def brimful : TableConfig :=
  { maxPlayers := 3, smallBlind := 1, bigBlind := 21845, minBuyInBlinds := 1
    maxBuyInBlinds := 65535, autoStart := false, shuffleSeed := some 7 }

/-- Three players buy in at the most, and one of them puts everything in, leaves and buys in
again while their first stack is still in the middle. -/
def overfilling : List Message :=
  [.join 1 "ann" 1431612075 none, .join 2 "bob" 1431612075 none, .join 3 "carl" 1431612075 none,
    .deal 1, .act 1 .allIn, .leave 1, .join 1 "ann" 1431612075 none]

theorem overfilled_by_rejoining :
    brimful.validate = .ok () ∧
      maxChips < ((create 1 brimful).run
        ((create 1 brimful).undisturbed threeKnown overfilling)).1.onTable := by
  decide +kernel

end Holdem.Table

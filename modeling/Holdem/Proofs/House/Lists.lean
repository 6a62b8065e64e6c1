import Holdem.Proofs.House.Traffic

/-!
# What the lists say

A new table is entered in the list and then made reachable, and a removal takes it off both one after
the other. Anything can occur in between. What is on the two lists is known at all times from how far
the opening of a table and the removals of it have come. So is which rosters are closed. A roster is
empty when a removal closes it, and nobody sits down at a closed one, so that it stays empty.
-/
namespace Holdem

theorem Roster.Restacked.closed_eq {ids : List PlayerId} {r r' : Roster}
    (h : r.Restacked ids r') : r'.closed = r.closed := by
  induction h with
  | same => rfl
  | write c _ _ ih => exact ih

theorem Roster.players_ne_nil {r : Roster} {p : PlayerId} (h : r.contains p = true) :
    r.players ≠ [] := by
  intro hnil
  rw [contains, get?, hnil] at h
  cases h

/-! ## Closed tables -/

namespace Table
variable {t : Table} {f : Floor}

/-- Nothing that happens at a table opens or closes its roster. -/
theorem Happens.closed_eq {a b : Table × Floor} (h : Happens a b) :
    b.1.roster.closed = a.1.roster.closed := by
  cases h with
  | deals news hv hnone hdeals => exact hdeals.begun.restacked.closed_eq
  | goesOn hh hquiet ha hunfolds => exact hunfolds.moves.restacked.closed_eq
  | clears => exact congrArg Roster.closed roster_endHand
  | sitsDown hv hadd hstate => exact (Roster.add_spec hv hadd).2.2.2.2.1
  | standsUp hv hremove => exact (Roster.remove_spec hv hremove).2.2.2.1
  | talks | stops => rfl

theorem Ready.closed_handle (h : t.Ready) (f : Floor) (m : Message) :
    (t.handle f m).1.roster.closed = t.roster.closed := by
  have hgoes := respond_goes (f := f) h.toWaiting h.quiet m
  rw [roster_handle]
  exact hgoes.keeps (P := fun a => a.1.roster.closed = t.roster.closed)
    (fun hstep hsame => hstep.closed_eq.trans hsame) rfl

/-- Nobody sits down at a closed table. -/
theorem takeSeat_of_closed (f : Floor) (p : PlayerId) (name : String) (stack : Chips)
    (wanted : Option SeatIndex) (hclosed : t.roster.closed = true) :
    ∃ e, t.takeSeat f p name stack wanted = .error e := by
  unfold takeSeat
  split
  · next e _ => exact ⟨.table e, rfl⟩
  · split
    · exact ⟨.tableClosed, rfl⟩
    · exact ⟨.table (.notFound t.id), rfl⟩

theorem respondJoin_of_closed (f : Floor) (p : PlayerId) (name : String) (stack : Chips)
    (wanted : Option SeatIndex) (hclosed : t.roster.closed = true) :
    ∃ e, t.respond f (.join p name stack wanted) = t.refuse f e := by
  obtain ⟨e, he⟩ := takeSeat_of_closed f p name stack wanted hclosed
  refine ⟨e, ?_⟩
  show t.respondJoin f p name stack wanted = _
  rw [respondJoin, he]

/-- A hand is played by players who are seated. -/
theorem Waiting.hand_of_empty (h : t.Waiting) (hempty : t.roster.players = []) :
    t.hand = none := by
  cases hh : t.hand with
  | none => rfl
  | some hand =>
      have hl := h.live hand hh
      obtain ⟨p, -, hnow⟩ := hl.waits
      have hturn := List.mem_of_getElem? (TurnOrder.now_eq_ok_iff.mp hnow)
      have hseated := hl.places.seated p (hl.places.turns_subset hturn)
      exact absurd hempty (Roster.players_ne_nil hseated)

/-- Nobody comes to an empty table by anything but a join, and by none to a closed one. -/
theorem Waiting.roster_of_empty (h : t.Waiting) (hempty : t.roster.players = []) (m : Message)
    (hjoin : ∀ p name stack wanted, m = .join p name stack wanted → t.roster.closed = true) :
    (t.respond f m).table.roster = t.roster := by
  have hnone := h.hand_of_empty hempty
  have hout : ∀ p, t.roster.contains p = false := fun p =>
    Bool.eq_false_iff.mpr fun hin => Roster.players_ne_nil hin hempty
  cases m with
  | act p a => simp only [respond, respondAct, hnone, refuse]
  | deal p => simp only [respond, respondDeal, hout, refuse, Bool.not_false, if_true]
  | join p name stack wanted =>
      obtain ⟨e, he⟩ := respondJoin_of_closed f p name stack wanted (hjoin _ _ _ _ rfl)
      rw [he]
      rfl
  | leave p => simp only [respond, respondLeave, hout, refuse, Bool.not_false, if_true]
  | say p message => simp only [respond, respondSay, hout, refuse, Bool.not_false, if_true]
  | pocket p => simp only [respond, respondPocket, hnone, Option.bind_none, refuse]
  | close => rfl

end Table

/-! ## How far removals have come -/

namespace RemovalStage

def hasClosed : RemovalStage → Bool
  | waiting | refused => false
  | shut | unlisted | released _ | removed _ => true

def hasUnlisted : RemovalStage → Bool
  | waiting | refused | shut => false
  | unlisted | released _ | removed _ => true

/-- Whether the table was found on the second list as well. -/
def hasReached : RemovalStage → Bool
  | released reached | removed reached => reached
  | waiting | refused | shut | unlisted => false

/-- Whether the table was taken off the first list and not found on the second. -/
def hasMissed : RemovalStage → Bool
  | released reached | removed reached => !reached
  | waiting | refused | shut | unlisted => false

/-- What a removal answers in the end, if that is settled. -/
def answer? : RemovalStage → Option Bool
  | waiting => none
  | refused => some false
  | shut | unlisted | released _ | removed _ => some true

/-- What a removal that goes on does not lose again. -/
def Lasting (has : RemovalStage → Bool) : Prop :=
  ∀ {tr : Traffic} {id : TableId} {old new : RemovalStage} {house : House}
    {sent : List (TableId × Message)}, tr.Goes id old house new sent →
      has old = true → has new = true

theorem lasting_hasClosed : Lasting hasClosed := by
  intro tr id old new house sent hgoes hold
  cases hgoes <;> first | rfl | cases hold

theorem lasting_hasUnlisted : Lasting hasUnlisted := by
  intro tr id old new house sent hgoes hold
  cases hgoes <;> first | rfl | cases hold

theorem lasting_hasReached : Lasting hasReached := by
  intro tr id old new house sent hgoes hold
  cases hgoes <;> first | exact hold | cases hold

theorem lasting_hasMissed : Lasting hasMissed := by
  intro tr id old new house sent hgoes hold
  cases hgoes <;> first | exact hold | cases hold

theorem hasClosed_of_hasUnlisted {stage : RemovalStage} (h : stage.hasUnlisted = true) :
    stage.hasClosed = true := by
  cases stage <;> first | rfl | cases h

theorem hasClosed_of_answer {stage : RemovalStage} (h : stage.answer? = some true) :
    stage.hasClosed = true := by
  cases stage <;> first | rfl | cases h

theorem hasUnlisted_of_hasReached {stage : RemovalStage} (h : stage.hasReached = true) :
    stage.hasUnlisted = true := by
  cases stage <;> first | rfl | cases h

/-- A table that was taken off the first list is still on its way to the second, or was found there
or not. -/
theorem cases_of_hasUnlisted {stage : RemovalStage} (h : stage.hasUnlisted = true) :
    stage = .unlisted ∨ stage.hasReached = true ∨ stage.hasMissed = true := by
  cases stage with
  | waiting | refused | shut => cases h
  | unlisted => exact .inl rfl
  | released reached | removed reached => cases reached <;> simp [hasReached, hasMissed]

end RemovalStage

namespace Traffic
open RemovalStage (hasClosed hasUnlisted hasReached)
variable {tr : Traffic} {id other : TableId} {place : Nat}

/-- Some removal of a table has come so far. -/
def Has (tr : Traffic) (has : RemovalStage → Bool) (id : TableId) : Prop :=
  ∃ r ∈ tr.removals, r.table = id ∧ has r.stage = true

theorem Has.imp {has has' : RemovalStage → Bool} (h : tr.Has has id)
    (himp : ∀ {stage : RemovalStage}, has stage = true → has' stage = true) : tr.Has has' id := by
  obtain ⟨r, hr, hid, hhas⟩ := h
  exact ⟨r, hr, hid, himp hhas⟩

/-- A table was entered in the list. -/
def Entered (tr : Traffic) (id : TableId) : Prop :=
  ∃ o, tr.openings.get? id = some o ∧ o.stage ≠ .setUp

/-- A table could be reached once. -/
def Connected (tr : Traffic) (id : TableId) : Prop :=
  ∃ o, tr.openings.get? id = some o ∧ o.stage = .opened

theorem Connected.entered (h : tr.Connected id) : tr.Entered id := by
  obtain ⟨o, ho, hstage⟩ := h
  exact ⟨o, ho, by rw [hstage]; nofun⟩

section Has
variable {has : RemovalStage → Bool} {tr' : Traffic} {old new : RemovalStage}

/-- A removal that begins has not come far. -/
theorem has_remove (hwaiting : has .waiting = false) (hrefused : has .refused = false) :
    (tr.remove id).Has has other ↔ tr.Has has other := by
  constructor
  · rintro ⟨r, hr, hid, hhas⟩
    rcases List.mem_append.mp hr with hr | hr
    · exact ⟨r, hr, hid, hhas⟩
    · rw [List.mem_singleton.mp hr] at hhas
      by_cases hin : id ∈ tr.house.listed <;> simp [hin, hwaiting, hrefused] at hhas
  · rintro ⟨r, hr, hid, hhas⟩
    exact ⟨r, List.mem_append_left _ hr, hid, hhas⟩

theorem has_set (hr : tr.removals[place]? = some ⟨id, old⟩)
    (hset : tr'.removals = tr.removals.set place ⟨id, new⟩)
    (hkept : has old = true → has new = true) :
    tr'.Has has other ↔ tr.Has has other ∨ other = id ∧ has new = true := by
  obtain ⟨hlt, -⟩ := List.getElem?_eq_some_iff.mp hr
  have hnew : ⟨id, new⟩ ∈ tr'.removals := by
    rw [hset]
    exact List.mem_set hlt _
  constructor
  · rintro ⟨r, hmem, hid, hhas⟩
    rw [hset] at hmem
    rcases List.mem_or_eq_of_mem_set hmem with hmem | rfl
    · exact .inl ⟨r, hmem, hid, hhas⟩
    · exact .inr ⟨hid.symm, hhas⟩
  · rintro (⟨r, hmem, rfl, hhas⟩ | ⟨rfl, hhas⟩)
    · obtain ⟨i, hi⟩ := List.mem_iff_getElem?.mp hmem
      by_cases hplace : place = i
      · rw [← hplace, hr] at hi
        cases hi
        exact ⟨⟨id, new⟩, hnew, rfl, hkept hhas⟩
      · refine ⟨r, List.mem_of_getElem? (i := i) ?_, rfl, hhas⟩
        rw [hset, List.getElem?_set_ne hplace, hi]
    · exact ⟨⟨other, new⟩, hnew, rfl, hhas⟩

end Has

/-! ## The two lists -/

/-- What the two lists say of a table, by how far its opening and the removals of it have come. A
table is closed once a removal has done so, and it is empty then. Nobody comes to it before it can be
reached, and no join is on its way there. -/
structure Lists (tr : Traffic) : Prop where
  numbered : ∀ id o, tr.openings.get? id = some o → id < tr.house.nextTable
  known : ∀ id t, tr.house.tables.get? id = some t → ∃ o, tr.openings.get? id = some o
  there : ∀ id o, tr.openings.get? id = some o → ∃ t, tr.house.tables.get? id = some t
  listed_iff : ∀ id, id ∈ tr.house.listed ↔ tr.Entered id ∧ ¬ tr.Has hasUnlisted id
  reachable_iff : ∀ id, id ∈ tr.house.reachable ↔ tr.Connected id ∧ ¬ tr.Has hasReached id
  closed_iff : ∀ id t, tr.house.tables.get? id = some t →
    (t.roster.closed = true ↔ tr.Has hasClosed id)
  deserted : ∀ id t, tr.house.tables.get? id = some t → t.roster.closed = true →
    t.roster.players = []
  unvisited : ∀ id t, tr.house.tables.get? id = some t → ¬ tr.Connected id → t.roster.players = []
  joins : ∀ id p name stack wanted, (id, .join p name stack wanted) ∈ tr.onTheWay → tr.Connected id
  found : ∀ r ∈ tr.removals, r.stage ≠ .refused → tr.Entered r.table
  reached : ∀ id, tr.Has hasReached id → tr.Connected id

section Steps
variable {tr' : Traffic}

/-- Nothing that matters for the lists has changed, and no join was sent. -/
theorem Lists.of_same (h : tr.Lists) (htables : tr'.house.tables = tr.house.tables)
    (hlisted : tr'.house.listed = tr.house.listed)
    (hreachable : tr'.house.reachable = tr.house.reachable)
    (hnext : tr'.house.nextTable = tr.house.nextTable) (hopenings : tr'.openings = tr.openings)
    (hremovals : tr'.removals = tr.removals)
    (hsent : ∀ id p name stack wanted, (id, .join p name stack wanted) ∈ tr'.onTheWay →
      tr.Connected id) : tr'.Lists := by
  have hentered : ∀ id, tr'.Entered id ↔ tr.Entered id := fun id => by rw [Entered, hopenings]; rfl
  have hconnected : ∀ id, tr'.Connected id ↔ tr.Connected id := fun id => by
    rw [Connected, hopenings]; rfl
  have hhas : ∀ has id, tr'.Has has id ↔ tr.Has has id := fun has id => by
    rw [Has, hremovals]; rfl
  constructor
  case numbered => rw [hopenings, hnext]; exact h.numbered
  case known => rw [hopenings, htables]; exact h.known
  case there => rw [hopenings, htables]; exact h.there
  case listed_iff => simpa only [hlisted, hentered, hhas] using h.listed_iff
  case reachable_iff => simpa only [hreachable, hconnected, hhas] using h.reachable_iff
  case closed_iff => simpa only [htables, hhas] using h.closed_iff
  case deserted => rw [htables]; exact h.deserted
  case unvisited => simpa only [htables, hconnected] using h.unvisited
  case joins => simpa only [hconnected] using hsent
  case found => simpa only [hremovals, hentered] using h.found
  case reached => simpa only [hhas, hconnected] using h.reached

/-- A table that is known can take another shape, if its roster is open or closed as before, and as
empty as it has to be. -/
theorem Lists.reshape {t t' : Table} (h : tr.Lists) (ht : tr.house.tables.get? id = some t)
    (htables : tr'.house.tables = tr.house.tables.insert id t')
    (hlisted : tr'.house.listed = tr.house.listed)
    (hreachable : tr'.house.reachable = tr.house.reachable)
    (hnext : tr'.house.nextTable = tr.house.nextTable) (hopenings : tr'.openings = tr.openings)
    (hremovals : tr'.removals = tr.removals)
    (hsent : ∀ entry ∈ tr'.onTheWay, entry ∈ tr.onTheWay)
    (hclosed : t'.roster.closed = t.roster.closed)
    (hempty : t.roster.players = [] → t.roster.closed = true ∨ ¬ tr.Connected id →
      t'.roster.players = []) : tr'.Lists := by
  have hsame : ({ tr' with house := tr.house } : Traffic).Lists :=
    h.of_same rfl rfl rfl rfl hopenings hremovals fun id p name stack wanted hm =>
      h.joins id p name stack wanted (hsent _ hm)
  have hcases : ∀ {other x}, tr'.house.tables.get? other = some x →
      other = id ∧ x = t' ∨ other ≠ id ∧ tr.house.tables.get? other = some x := fun hx =>
    NatMap.get?_insert_cases (htables ▸ hx)
  have hconnected : tr'.Connected id → tr.Connected id := fun ⟨o, ho, hstage⟩ =>
    ⟨o, hopenings ▸ ho, hstage⟩
  constructor
  case numbered => rw [hnext]; exact hsame.numbered
  case known =>
    intro other x hx
    rcases hcases hx with ⟨rfl, -⟩ | ⟨-, hx⟩
    · exact hsame.known other t ht
    · exact hsame.known other x hx
  case there =>
    intro other o ho
    rw [htables]
    exact NatMap.exists_get?_insert (.inr (hsame.there other o ho))
  case listed_iff => rw [hlisted]; exact hsame.listed_iff
  case reachable_iff => rw [hreachable]; exact hsame.reachable_iff
  case closed_iff =>
    intro other x hx
    rcases hcases hx with ⟨rfl, rfl⟩ | ⟨-, hx⟩
    · rw [hclosed]
      exact hsame.closed_iff other t ht
    · exact hsame.closed_iff other x hx
  case deserted =>
    intro other x hx hshut
    rcases hcases hx with ⟨rfl, rfl⟩ | ⟨-, hx⟩
    · rw [hclosed] at hshut
      exact hempty (h.deserted other t ht hshut) (.inl hshut)
    · exact hsame.deserted other x hx hshut
  case unvisited =>
    intro other x hx hnot
    rcases hcases hx with ⟨rfl, rfl⟩ | ⟨-, hx⟩
    · have hnot' : ¬ tr.Connected other := fun ⟨o, ho, hstage⟩ =>
        hnot ⟨o, hopenings ▸ ho, hstage⟩
      exact hempty (h.unvisited other t ht hnot') (.inr hnot')
    · exact hsame.unvisited other x hx hnot
  case joins => exact hsame.joins
  case found => exact hsame.found
  case reached => exact hsame.reached

/-- A message is dealt with by its table. -/
theorem Lists.arrive (h : tr.Lists) (ho : tr.Orderly) (place : Nat) : (tr.arrive place).Lists := by
  unfold Traffic.arrive
  split
  · exact h
  · next id m hm =>
      split
      · exact h
      · have hsent : ∀ entry ∈ tr.onTheWay.eraseIdx place, entry ∈ tr.onTheWay := fun _ he =>
          List.mem_of_mem_eraseIdx he
        by_cases hstopped : ∀ t, tr.house.tables.get? id = some t → t.stopped = true
        · rw [(House.send_closed hstopped m).1]
          exact h.of_same rfl rfl rfl rfl rfl rfl fun id p name stack wanted he =>
            h.joins id p name stack wanted (hsent _ he)
        · obtain ⟨t, hopen⟩ := not_forall.mp hstopped
          obtain ⟨ht, hrun⟩ := Classical.not_imp.mp hopen
          obtain ⟨-, hready, -⟩ := ho.tables id t ht
          rw [(House.send_running ht (Bool.eq_false_iff.mpr hrun) m).1]
          refine h.reshape ht rfl rfl rfl rfl rfl rfl hsent (hready.closed_handle _ m) ?_
          intro hempty hout
          rw [Table.roster_handle, hready.toWaiting.roster_of_empty hempty m, hempty]
          rintro p name stack wanted rfl
          exact hout.resolve_right fun hnot =>
            hnot (h.joins id p name stack wanted (List.mem_of_getElem? hm))

/-- A join is only sent to a table that can be reached. -/
theorem reachable_of_message? {h : House} {p q : PlayerId} {r : Request} {name : String}
    {stack : Chips} {wanted : Option SeatIndex}
    (hm : h.message? p r = some (id, .join q name stack wanted)) : id ∈ h.reachable := by
  cases r with
  | createTable => cases hm
  | joinTable table buyIn seat =>
      simp only [House.message?] at hm
      split at hm
      · split at hm
        · next hreach =>
            cases hm
            exact hreach
        · cases hm
      · cases hm
  | startGame | act | deal | leaveTable | pocketCards =>
      obtain ⟨-, hother⟩ := House.seatedAt_of_fromSeat? hm
      cases hother
  | say message =>
      simp only [House.message?] at hm
      split at hm <;> cases hm

theorem Lists.ask (h : tr.Lists) (p : PlayerId) (r : Request) : (tr.step (.ask p r)).Lists := by
  refine h.of_same rfl rfl rfl rfl rfl rfl fun id q name stack wanted he => ?_
  rcases List.mem_append.mp he with he | he
  · exact h.joins id q name stack wanted he
  · exact ((h.reachable_iff id).mp (reachable_of_message? (Option.mem_toList.mp he))).1

theorem entered_insert {o : Opening} (h : tr'.openings = tr.openings.insert id o) :
    tr'.Entered other ↔ if other = id then o.stage ≠ .setUp else tr.Entered other := by
  rw [Entered, h, NatMap.get?_insert]
  split
  · simp
  · rfl

theorem connected_insert {o : Opening} (h : tr'.openings = tr.openings.insert id o) :
    tr'.Connected other ↔ if other = id then o.stage = .opened else tr.Connected other := by
  rw [Connected, h, NatMap.get?_insert]
  split
  · simp
  · rfl

/-- A table that was not entered is not looked for by any removal. -/
theorem Lists.not_has {has : RemovalStage → Bool} (h : tr.Lists) (hnot : ¬ tr.Entered id)
    (hrefused : has .refused = false) : ¬ tr.Has has id := by
  rintro ⟨r, hr, rfl, hhas⟩
  refine hnot (h.found r hr fun hstage => ?_)
  rw [hstage, hrefused] at hhas
  cases hhas

/-- Nothing is entered under the next number. -/
theorem Lists.not_entered_next (h : tr.Lists) : ¬ tr.Entered tr.house.nextTable := by
  rintro ⟨o, ho, -⟩
  exact Nat.lt_irrefl _ (h.numbered _ o ho)

/-- An opening that begins is on none of the lists, and its number is nobody else's. -/
theorem Lists.begins {t : Table} {o : Opening} (h : tr.Lists)
    (hstage : o.stage = .setUp) (hopen : t.roster.closed = false) (hempty : t.roster.players = [])
    (htables : tr'.house.tables = tr.house.tables.insert tr.house.nextTable t)
    (hlisted : tr'.house.listed = tr.house.listed)
    (hreachable : tr'.house.reachable = tr.house.reachable)
    (hnext : tr'.house.nextTable = tr.house.nextTable + 1)
    (hopenings : tr'.openings = tr.openings.insert tr.house.nextTable o)
    (hremovals : tr'.removals = tr.removals) (hsent : tr'.onTheWay = tr.onTheWay) : tr'.Lists := by
  have hnot := h.not_entered_next
  have hentered : ∀ id, tr'.Entered id ↔ tr.Entered id := fun id => by
    rw [entered_insert hopenings]
    split
    · next heq => exact iff_of_false (fun hne => hne hstage) (heq ▸ hnot)
    · rfl
  have hconnected : ∀ id, tr'.Connected id ↔ tr.Connected id := fun id => by
    rw [connected_insert hopenings, hstage]
    split
    · next heq => exact iff_of_false nofun fun hc => hnot (heq ▸ hc.entered)
    · rfl
  have hhas : ∀ has id, tr'.Has has id ↔ tr.Has has id := fun has id => by
    rw [Has, hremovals]; rfl
  have hcases : ∀ {id x}, tr'.house.tables.get? id = some x →
      id = tr.house.nextTable ∧ x = t ∨
        id ≠ tr.house.nextTable ∧ tr.house.tables.get? id = some x := fun hx =>
    NatMap.get?_insert_cases (htables ▸ hx)
  have hopened : ∀ {id x}, tr'.openings.get? id = some x →
      id = tr.house.nextTable ∧ x = o ∨
        id ≠ tr.house.nextTable ∧ tr.openings.get? id = some x := fun hx =>
    NatMap.get?_insert_cases (hopenings ▸ hx)
  constructor
  case numbered =>
    intro id x hx
    rw [hnext]
    rcases hopened hx with ⟨rfl, -⟩ | ⟨-, hx⟩
    · exact Nat.lt_succ_self _
    · exact Nat.lt_succ_of_lt (h.numbered id x hx)
  case known =>
    intro id x hx
    rw [hopenings]
    exact NatMap.exists_get?_insert ((hcases hx).imp And.left fun hold => h.known id x hold.2)
  case there =>
    intro id x hx
    rw [htables]
    exact NatMap.exists_get?_insert ((hopened hx).imp And.left fun hold => h.there id x hold.2)
  case listed_iff => simpa only [hlisted, hentered, hhas] using h.listed_iff
  case reachable_iff => simpa only [hreachable, hconnected, hhas] using h.reachable_iff
  case closed_iff =>
    intro id x hx
    rw [hhas]
    rcases hcases hx with ⟨rfl, rfl⟩ | ⟨-, hx⟩
    · exact iff_of_false (Bool.eq_false_iff.mp hopen) (h.not_has hnot rfl)
    · exact h.closed_iff id x hx
  case deserted =>
    intro id x hx hclosed
    rcases hcases hx with ⟨-, rfl⟩ | ⟨-, hx⟩
    · exact hempty
    · exact h.deserted id x hx hclosed
  case unvisited =>
    intro id x hx hout
    rcases hcases hx with ⟨-, rfl⟩ | ⟨-, hx⟩
    · exact hempty
    · exact h.unvisited id x hx fun hc => hout ((hconnected id).mpr hc)
  case joins => simpa only [hconnected, hsent] using h.joins
  case found => simpa only [hremovals, hentered] using h.found
  case reached => simpa only [hhas, hconnected] using h.reached

theorem Lists.openTable (h : tr.Lists) (config : TableConfig) : (tr.openTable config).Lists := by
  unfold Traffic.openTable
  split
  · exact h
  · exact h.begins (t := .create tr.house.nextTable config) (o := ⟨config.name, .setUp⟩)
      rfl rfl (Roster.players_empty _) rfl rfl rfl rfl rfl rfl rfl

/-- An opening that is carried on, of a table that could not be reached, changes what is on the lists
of that table, and nothing else. -/
theorem Lists.opensOn {o : Opening} (h : tr.Lists) (o' : Opening)
    (ho : tr.openings.get? id = some o)
    (hbefore : o.stage ≠ .opened) (hafter : o'.stage ≠ .setUp)
    (htables : tr'.house.tables = tr.house.tables)
    (hnext : tr'.house.nextTable = tr.house.nextTable)
    (hopenings : tr'.openings = tr.openings.insert id o') (hremovals : tr'.removals = tr.removals)
    (hsent : tr'.onTheWay = tr.onTheWay)
    (hothers : ∀ other, other ≠ id → (other ∈ tr'.house.listed ↔ other ∈ tr.house.listed) ∧
      (other ∈ tr'.house.reachable ↔ other ∈ tr.house.reachable))
    (hlisted : id ∈ tr'.house.listed ↔ ¬ tr.Has hasUnlisted id)
    (hreachable : id ∈ tr'.house.reachable ↔ o'.stage = .opened ∧ ¬ tr.Has hasReached id) :
    tr'.Lists := by
  have hcases : ∀ {other x}, tr'.openings.get? other = some x →
      other = id ∧ x = o' ∨ other ≠ id ∧ tr.openings.get? other = some x := fun hx =>
    NatMap.get?_insert_cases (hopenings ▸ hx)
  have hhas : ∀ has other, tr'.Has has other ↔ tr.Has has other := fun has other => by
    rw [Has, hremovals]
    rfl
  have hout : ¬ tr.Connected id := fun ⟨x, hx, hstage⟩ => by
    rw [ho] at hx
    cases hx
    exact hbefore hstage
  have hentered : ∀ other, tr.Entered other → tr'.Entered other := fun other he => by
    rw [entered_insert hopenings]
    split
    · exact hafter
    · exact he
  have hconnected : ∀ other, tr.Connected other → tr'.Connected other := fun other hc => by
    rw [connected_insert hopenings, if_neg fun heq : other = id => hout (heq ▸ hc)]
    exact hc
  constructor
  case numbered =>
    intro other x hx
    rw [hnext]
    rcases hcases hx with ⟨rfl, -⟩ | ⟨-, hx⟩
    · exact h.numbered other o ho
    · exact h.numbered other x hx
  case known =>
    intro other t ht
    rw [hopenings]
    exact NatMap.exists_get?_insert (.inr (h.known other t (htables ▸ ht)))
  case there =>
    intro other x hx
    rw [htables]
    rcases hcases hx with ⟨rfl, -⟩ | ⟨-, hx⟩
    · exact h.there other o ho
    · exact h.there other x hx
  case listed_iff =>
    intro other
    rw [entered_insert hopenings, hhas]
    split
    · next heq => rw [heq, hlisted, and_iff_right hafter]
    · next hne => rw [(hothers other hne).1, h.listed_iff]
  case reachable_iff =>
    intro other
    rw [connected_insert hopenings, hhas]
    split
    · next heq => rw [heq, hreachable]
    · next hne => rw [(hothers other hne).2, h.reachable_iff]
  case closed_iff => simpa only [htables, hhas] using h.closed_iff
  case deserted => rw [htables]; exact h.deserted
  case unvisited =>
    intro other t ht hnot
    exact h.unvisited other t (htables ▸ ht) fun hc => hnot (hconnected other hc)
  case joins =>
    exact fun other p name stack wanted hm =>
      hconnected other (h.joins other p name stack wanted (hsent ▸ hm))
  case found => exact fun r hr hstage => hentered r.table (h.found r (hremovals ▸ hr) hstage)
  case reached => exact fun other hin => hconnected other (h.reached other ((hhas _ _).mp hin))

theorem Lists.carryOn (h : tr.Lists) (id : TableId) : (tr.carryOn id).Lists := by
  unfold Traffic.carryOn
  split
  · next name ho =>
      have hnot : ¬ tr.Entered id := fun ⟨o, ho', hstage⟩ => by
        rw [ho] at ho'
        cases ho'
        exact hstage rfl
      refine h.opensOn ⟨name, .listed⟩ ho nofun nofun rfl rfl rfl rfl rfl
        (fun other hne => ⟨NatSet.mem_insert.trans (or_iff_right hne), Iff.rfl⟩) ?_ ?_
      · exact iff_of_true (NatSet.mem_insert.mpr (.inl rfl)) (h.not_has hnot rfl)
      · exact iff_of_false (fun hin => hnot ((h.reachable_iff id).mp hin).1.entered)
          fun hboth => by cases hboth.1
  · next name ho =>
      have hin : tr.Entered id := ⟨_, ho, nofun⟩
      have hout : ¬ tr.Connected id := fun ⟨o, ho', hstage⟩ => by
        rw [ho] at ho'
        cases ho'
        cases hstage
      refine h.opensOn ⟨name, .opened⟩ ho nofun nofun rfl rfl rfl rfl rfl
        (fun other hne => ⟨Iff.rfl, NatSet.mem_insert.trans (or_iff_right hne)⟩) ?_ ?_
      · exact (h.listed_iff id).trans (and_iff_right hin)
      · exact iff_of_true (NatSet.mem_insert.mpr (.inl rfl))
          ⟨rfl, fun hhas => hout (h.reached id hhas)⟩
  · exact h

/-- A removal that begins has only looked at the list. -/
theorem Lists.remove (h : tr.Lists) (id : TableId) : (tr.remove id).Lists where
  numbered := h.numbered
  known := h.known
  there := h.there
  listed_iff other := by rw [has_remove rfl rfl]; exact h.listed_iff other
  reachable_iff other := by rw [has_remove rfl rfl]; exact h.reachable_iff other
  closed_iff other t ht := by rw [has_remove rfl rfl]; exact h.closed_iff other t ht
  deserted := h.deserted
  unvisited := h.unvisited
  joins := h.joins
  found r hr hstage := by
    rcases List.mem_append.mp hr with hr | hr
    · exact h.found r hr hstage
    · rw [List.mem_singleton.mp hr] at hstage ⊢
      by_cases hin : id ∈ tr.house.listed
      · exact ((h.listed_iff id).mp hin).1
      · exact absurd (if_neg hin) hstage
  reached other hhas := h.reached other ((has_remove rfl rfl).mp hhas)

/-- A removal sends nothing but the end of its table. -/
theorem Goes.no_join {old new : RemovalStage} {house : House} {sent : List (TableId × Message)}
    (hgoes : tr.Goes id old house new sent) (other : TableId) (p : PlayerId) (name : String)
    (stack : Chips) (wanted : Option SeatIndex) :
    (other, .join p name stack wanted) ∉ sent := by
  intro hm
  cases hgoes with
  | refuses | shuts | unlists | releases => cases hm
  | removes reached =>
      cases reached with
      | false => cases hm
      | true => cases List.mem_singleton.mp hm

/-- What a step of a removal does to the rosters: it closes the one of its table, which is empty
then, if the removal has come so far that it is closed, and leaves all others as they are. -/
theorem Lists.rosters_of_goes {old new : RemovalStage} {house : House}
    {sent : List (TableId × Message)} (h : tr.Lists) (hr : tr.removals[place]? = some ⟨id, old⟩)
    (hgoes : tr.Goes id old house new sent) :
    (∀ other t', house.tables.get? other = some t' →
      ∃ t, tr.house.tables.get? other = some t ∧ t'.roster.players = t.roster.players ∧
        (t'.roster.closed = true ↔
          t.roster.closed = true ∨ other = id ∧ new.hasClosed = true) ∧
        (t'.roster.closed = true → t.roster.players = [])) ∧
      (∀ other t, tr.house.tables.get? other = some t → ∃ t', house.tables.get? other = some t') ∧
      house.nextTable = tr.house.nextTable := by
  have hkept : (old.hasClosed = false → new.hasClosed = false) →
      ∀ other t, tr.house.tables.get? other = some t →
        (t.roster.closed = true ↔ t.roster.closed = true ∨ other = id ∧ new.hasClosed = true) := by
    intro hnew other t ht
    refine (or_iff_left_of_imp ?_).symm
    rintro ⟨rfl, hclosed⟩
    refine (h.closed_iff other t ht).mpr ⟨_, List.mem_of_getElem? hr, rfl, ?_⟩
    exact Bool.eq_true_of_not_eq_false fun hold => by rw [hnew hold] at hclosed; cases hclosed
  cases hgoes with
  | refuses | unlists | releases | removes =>
      exact ⟨fun other t ht =>
          ⟨t, ht, rfl, hkept (fun hold => by cases hold <;> rfl) other t ht, h.deserted other t ht⟩,
        fun other t ht => ⟨t, ht⟩, rfl⟩
  | shuts _ hclose =>
      obtain ⟨t, ht, hempty, rfl⟩ := House.closeIfEmpty_eq_some hclose
      refine ⟨fun other t' ht' => ?_, fun other x hx =>
        NatMap.exists_get?_insert (.inr ⟨x, hx⟩), rfl⟩
      rcases NatMap.get?_insert_cases ht' with ⟨rfl, rfl⟩ | ⟨hne, ht'⟩
      · exact ⟨t, ht, rfl, iff_of_true rfl (.inr ⟨rfl, rfl⟩), fun _ => hempty⟩
      · exact ⟨t', ht', rfl, (or_iff_left fun hboth => hne hboth.1).symm, h.deserted other t' ht'⟩

/-- What it does to the lists: it takes its table off them when it has come so far. -/
theorem Lists.lists_of_goes {old new : RemovalStage} {house : House}
    {sent : List (TableId × Message)} (h : tr.Lists) (hr : tr.removals[place]? = some ⟨id, old⟩)
    (hgoes : tr.Goes id old house new sent) :
    (∀ other, other ∈ house.listed ↔
      other ∈ tr.house.listed ∧ ¬ (other = id ∧ new.hasUnlisted = true)) ∧
      (∀ other, other ∈ house.reachable ↔
        other ∈ tr.house.reachable ∧ ¬ (other = id ∧ new.hasReached = true)) ∧
      (new.hasReached = true → tr.Connected id) ∧ (new ≠ .refused → tr.Entered id) := by
  have hmem : ⟨id, old⟩ ∈ tr.removals := List.mem_of_getElem? hr
  have hunlisted : old.hasUnlisted = true → ∀ other, other ∈ tr.house.listed →
      ¬ (other = id ∧ new.hasUnlisted = true) := by
    rintro hold other hin ⟨rfl, -⟩
    exact ((h.listed_iff other).mp hin).2 ⟨_, hmem, rfl, hold⟩
  have hgone : old.hasReached = true → ∀ other, other ∈ tr.house.reachable →
      ¬ (other = id ∧ new.hasReached = true) := by
    rintro hold other hin ⟨rfl, -⟩
    exact ((h.reachable_iff other).mp hin).2 ⟨_, hmem, rfl, hold⟩
  have hentered : old ≠ .refused → tr.Entered id := h.found _ hmem
  have hkept : ∀ {has : Bool} (list : NatSet), has = false → ∀ other,
      (other ∈ list ↔ other ∈ list ∧ ¬ (other = id ∧ has = true)) := fun _ hnot _ =>
    (and_iff_left fun hboth => Bool.eq_false_iff.mp hnot hboth.2).symm
  cases hgoes with
  | refuses => exact ⟨hkept _ rfl, hkept _ rfl, nofun, fun hne => absurd rfl hne⟩
  | shuts _ hclose =>
      obtain ⟨t, -, -, rfl⟩ := House.closeIfEmpty_eq_some hclose
      exact ⟨hkept _ rfl, hkept _ rfl, nofun, fun _ => hentered nofun⟩
  | unlists =>
      refine ⟨fun other => NatSet.mem_erase.trans (and_congr_right' ?_), hkept _ rfl, nofun,
        fun _ => hentered nofun⟩
      exact not_congr (and_iff_left rfl).symm
  | releases =>
      refine ⟨fun other => (and_iff_left_of_imp (hunlisted rfl other)).symm, fun other => ?_,
        fun hin => ?_, fun _ => hentered nofun⟩
      · refine NatSet.mem_erase.trans (and_congr_right fun hin => not_congr ?_)
        exact (and_iff_left_of_imp fun heq => decide_eq_true (heq ▸ hin)).symm
      · exact ((h.reachable_iff id).mp (of_decide_eq_true hin)).1
  | removes reached =>
      refine ⟨fun other => (and_iff_left_of_imp (hunlisted rfl other)).symm, fun other => ?_,
        fun hin => h.reached id ⟨_, hmem, rfl, hin⟩, fun _ => hentered nofun⟩
      refine (and_iff_left_of_imp fun hin hboth => ?_).symm
      exact hgone hboth.2 other hin hboth

theorem Lists.goOn (h : tr.Lists) (place : Nat) : (tr.goOn place).Lists := by
  rcases tr.goOn_cases place with hsame | ⟨id, old, house, new, sent, hr, hgoes, heq⟩
  · rwa [hsame]
  · rw [heq]
    obtain ⟨hrosters, hthere, hnext⟩ := h.rosters_of_goes hr hgoes
    obtain ⟨hlisted, hreachable, hreached, hfound⟩ := h.lists_of_goes hr hgoes
    have hhas : ∀ {has : RemovalStage → Bool}, RemovalStage.Lasting has → ∀ other,
        Traffic.Has { tr.reach place id house new with onTheWay := tr.onTheWay ++ sent } has other ↔
          tr.Has has other ∨ other = id ∧ has new = true := fun hlasting _ =>
      has_set hr rfl (hlasting hgoes)
    constructor
    case numbered =>
      intro other o ho
      show other < house.nextTable
      rw [hnext]
      exact h.numbered other o ho
    case known =>
      intro other t' ht'
      obtain ⟨t, ht, -⟩ := hrosters other t' ht'
      exact h.known other t ht
    case there =>
      intro other o ho
      obtain ⟨t, ht⟩ := h.there other o ho
      exact hthere other t ht
    case listed_iff =>
      intro other
      rw [hhas RemovalStage.lasting_hasUnlisted, not_or, ← and_assoc]
      exact (hlisted other).trans (and_congr_left' (h.listed_iff other))
    case reachable_iff =>
      intro other
      rw [hhas RemovalStage.lasting_hasReached, not_or, ← and_assoc]
      exact (hreachable other).trans (and_congr_left' (h.reachable_iff other))
    case closed_iff =>
      intro other t' ht'
      obtain ⟨t, ht, -, hclosed, -⟩ := hrosters other t' ht'
      rw [hhas RemovalStage.lasting_hasClosed, hclosed, h.closed_iff other t ht]
    case deserted =>
      intro other t' ht' hclosed
      obtain ⟨t, -, hplayers, -, hempty⟩ := hrosters other t' ht'
      exact hplayers.trans (hempty hclosed)
    case unvisited =>
      intro other t' ht' hnot
      obtain ⟨t, ht, hplayers, -⟩ := hrosters other t' ht'
      exact hplayers.trans (h.unvisited other t ht hnot)
    case joins =>
      intro other p name stack wanted hm
      rcases List.mem_append.mp hm with hold | hsent
      · exact h.joins other p name stack wanted hold
      · exact absurd hsent (hgoes.no_join other p name stack wanted)
    case found =>
      intro r hmem hstage
      rcases List.mem_or_eq_of_mem_set hmem with hmem | rfl
      · exact h.found r hmem hstage
      · exact hfound hstage
    case reached =>
      intro other hin
      rcases (hhas RemovalStage.lasting_hasReached other).mp hin with hold | ⟨rfl, hnew⟩
      · exact h.reached other hold
      · exact hreached hnew

/-- The lists say what they should, whatever occurs. -/
theorem Lists.step (h : tr.Lists) (ho : tr.Orderly) (o : Occurrence) : (tr.step o).Lists := by
  cases o with
  | register name => exact { h with }
  | openTable config => exact h.openTable config
  | carryOn id => exact h.carryOn id
  | listen p =>
      show (tr.listen p).Lists
      unfold listen
      split
      · exact { h with }
      · exact h
  | letGo held => exact { h with }
  | ask p r => exact h.ask p r
  | arrive place => exact h.arrive ho place
  | remove id => exact h.remove id
  | goOn place => exact h.goOn place

theorem Lists.run (h : tr.Lists) (ho : tr.Orderly) (steps : List Occurrence) :
    (tr.run steps).Lists := by
  induction steps generalizing tr with
  | nil => exact h
  | cons o rest ih => exact ih (h.step ho o) (ho.step o)

end Steps
end Traffic
end Holdem

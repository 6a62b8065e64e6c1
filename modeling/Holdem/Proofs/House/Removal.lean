import Holdem.Proofs.House.Changes
import Holdem.Proofs.House.Lists
import Mathlib.Data.List.Induction

/-!
# No table is removed with anybody at it

A removal looks a table up, waits for its roster, and only then looks whether anybody is seated. So
it decides on the roster as it is then, and on the list as it was before. Of two removals that find
the same table one after the other, before either has got hold of the roster, both remove it. But
whoever is seated, or has a session at a table, is at one that is on both lists, since nobody sits
down at a table once a removal has closed its roster.
-/
namespace Holdem

namespace House
variable {h : House} {id : TableId}

/-- Whether a table is there that nobody is seated at. -/
def vacant (h : House) (id : TableId) : Bool :=
  (h.tables.get? id).any (·.roster.isEmpty)

theorem closeIfEmpty_eq_none_iff : h.closeIfEmpty id = none ↔ h.vacant id = false := by
  unfold closeIfEmpty vacant
  cases h.tables.get? id with
  | none => exact iff_of_true rfl rfl
  | some t => cases hempty : t.roster.isEmpty <;> simp [hempty]

/-- A table that deals with a message stays on the lists. -/
theorem lists_send (h : House) (id : TableId) (m : Message) :
    (h.send id m).1.listed = h.listed ∧ (h.send id m).1.reachable = h.reachable := by
  unfold send
  split
  · exact ⟨rfl, rfl⟩
  · split <;> exact ⟨rfl, rfl⟩

/-- A table that is told to close tells nobody anything. -/
theorem mapLobby_send_close {t : Table} (f : Lobby → Lobby) (ht : h.tables.get? id = some t)
    (hnoted : t.outbox = []) (htold : t.announcements = []) :
    (h.send id .close).1.mapLobby f = ((h.mapLobby f).send id .close).1 := by
  cases hrun : t.stopped with
  | true =>
      have hclosed : ∀ x, h.tables.get? id = some x → x.stopped = true := fun x hx => by
        rw [ht] at hx
        cases hx
        exact hrun
      rw [(send_closed (h := h) hclosed .close).1, (send_closed (h := h.mapLobby f) hclosed .close).1]
  | false =>
      rw [send_eq ht hrun, send_eq (h := h.mapLobby f) ht hrun]
      simp [Table.handle, Table.respond, Table.tellAll, hnoted, htold, mapLobby]

/-- A listed table without anybody is on no list once somebody has tried to remove it. -/
theorem off_lists_of_removeIfEmpty (hin : id ∈ h.listed)
    (hempty : (h.removeIfEmpty id).2.vacant id = true) :
    id ∉ (h.removeIfEmpty id).2.listed ∧ id ∉ (h.removeIfEmpty id).2.reachable := by
  cases hretire : h.retire id with
  | none =>
      simp only [removeIfEmpty, hretire] at hempty
      rw [retire, if_pos hin, Option.map_eq_none_iff, closeIfEmpty_eq_none_iff] at hretire
      exact absurd hempty (Bool.eq_false_iff.mp hretire)
  | some retired =>
      obtain ⟨closed, -, -, rfl⟩ := retire_eq_some hretire
      have hout : ∀ {l : NatSet}, id ∉ l.erase id := fun hmem => (NatSet.mem_erase.mp hmem).2 rfl
      obtain ⟨hlisted, hreachable⟩ := lists_send ((closed.unlist id).disconnect id) id .close
      simp only [removeIfEmpty, hretire]
      split
      · exact ⟨fun hmem => hout (hlisted ▸ hmem), fun hmem => hout (hreachable ▸ hmem)⟩
      · exact ⟨hout, hout⟩

/-- Who gives up their seat is in a state that goes with it. -/
theorem state_of_seatedAt {p : PlayerId} {op : SessionOp} (hseat : h.seatedAt p op = .ok id) :
    ∃ s, h.floor.lobby.state? p = some s ∧ s.table? = some id := by
  unfold seatedAt guard at hseat
  split at hseat
  · cases hseat
  · next state hguard =>
      split at hguard
      · cases hguard
      · next s hs =>
          split at hguard
          · cases hguard
            split at hseat
            · next htable =>
                cases hseat
                exact ⟨_, Lobby.stateOf_eq_ok.mp hs, htable⟩
            · cases hseat
          · cases hguard

end House

namespace Traffic
open RemovalStage (hasClosed hasUnlisted hasReached hasMissed)
variable {tr₀ tr : Traffic} {steps more before : List Occurrence} {id other : TableId}
  {place : Nat}

theorem run_append (tr : Traffic) (steps more : List Occurrence) :
    tr.run (steps ++ more) = (tr.run steps).run more :=
  List.foldl_append

theorem run_concat (tr : Traffic) (steps : List Occurrence) (o : Occurrence) :
    tr.run (steps ++ [o]) = (tr.run steps).step o :=
  tr.run_append steps [o]

/-! ## What does not change any more -/

theorem listen_keeps (tr : Traffic) (p : PlayerId) :
    (tr.listen p).openings = tr.openings ∧ (tr.listen p).removals = tr.removals := by
  unfold listen
  split <;> exact ⟨rfl, rfl⟩

theorem arrive_keeps (tr : Traffic) (place : Nat) :
    (tr.arrive place).openings = tr.openings ∧ (tr.arrive place).removals = tr.removals := by
  unfold arrive
  split
  · exact ⟨rfl, rfl⟩
  · split <;> exact ⟨rfl, rfl⟩

/-- Every step leaves the removals as they are, but for one that begins and one that goes on. -/
theorem step_removals (tr : Traffic) (o : Occurrence) :
    (tr.step o).removals = tr.removals ∨
      (∃ id, o = .remove id ∧ (tr.step o).removals =
        tr.removals ++ [⟨id, if id ∈ tr.house.listed then .waiting else .refused⟩]) ∨
      ∃ place id old house new sent, o = .goOn place ∧ tr.removals[place]? = some ⟨id, old⟩ ∧
        tr.Goes id old house new sent ∧ (tr.step o).removals = tr.removals.set place ⟨id, new⟩ := by
  cases o with
  | register | letGo | ask => exact .inl rfl
  | openTable config =>
      left
      show (tr.openTable config).removals = _
      unfold openTable
      split <;> rfl
  | carryOn id =>
      left
      show (tr.carryOn id).removals = _
      unfold carryOn
      split <;> rfl
  | listen p => exact .inl (tr.listen_keeps p).2
  | arrive place => exact .inl (tr.arrive_keeps place).2
  | remove id => exact .inr (.inl ⟨id, rfl, rfl⟩)
  | goOn place =>
      rcases tr.goOn_cases place with hsame | ⟨id, old, house, new, sent, hr, hgoes, heq⟩
      · exact .inl (congrArg removals hsame)
      · exact .inr (.inr ⟨place, id, old, house, new, sent, rfl, hr, hgoes, congrArg removals heq⟩)

/-- What a removal has done stays done. -/
theorem Has.step {has : RemovalStage → Bool} (hlasting : RemovalStage.Lasting has)
    (h : tr.Has has id) (o : Occurrence) : (tr.step o).Has has id := by
  rcases tr.step_removals o with
    hsame | ⟨t, -, heq⟩ | ⟨place, t, old, house, new, sent, -, hr, hgoes, heq⟩
  · obtain ⟨r, hmem, hid⟩ := h
    exact ⟨r, hsame ▸ hmem, hid⟩
  · obtain ⟨r, hmem, hid⟩ := h
    exact ⟨r, heq ▸ List.mem_append_left _ hmem, hid⟩
  · exact (has_set hr heq (hlasting hgoes)).mpr (.inl h)

theorem Has.run {has : RemovalStage → Bool} (hlasting : RemovalStage.Lasting has)
    (h : tr.Has has id) (steps : List Occurrence) : (tr.run steps).Has has id := by
  induction steps generalizing tr with
  | nil => exact h
  | cons o rest ih => exact ih (h.step hlasting o)

/-- Openings are left as they are too, but for one that begins under the next number and one that
is carried on. -/
theorem step_openings (tr : Traffic) (o : Occurrence) :
    (tr.step o).openings = tr.openings ∨
      ∃ id opening, (tr.step o).openings = tr.openings.insert id opening ∧
        (id = tr.house.nextTable ∨ opening.stage ≠ .setUp) := by
  cases o with
  | register | letGo | ask | remove => exact .inl rfl
  | openTable config =>
      show (tr.openTable config).openings = _ ∨ ∃ id opening, (tr.openTable config).openings = _ ∧ _
      unfold openTable
      split
      · exact .inl rfl
      · exact .inr ⟨_, _, rfl, .inl rfl⟩
  | carryOn id =>
      show (tr.carryOn id).openings = _ ∨ ∃ id opening, (tr.carryOn _).openings = _ ∧ _
      unfold carryOn
      split
      · exact .inr ⟨_, _, rfl, .inr nofun⟩
      · exact .inr ⟨_, _, rfl, .inr nofun⟩
      · exact .inl rfl
  | listen p => exact .inl (tr.listen_keeps p).1
  | arrive place => exact .inl (tr.arrive_keeps place).1
  | goOn place =>
      left
      show (tr.goOn place).openings = _
      rcases tr.goOn_cases place with hsame | ⟨id, old, house, new, sent, -, -, heq⟩
      · rw [hsame]
      · rw [heq]
        rfl

/-- A number that was given stays given. -/
theorem opened_step (h : (tr.openings.get? id).isSome = true) (o : Occurrence) :
    ((tr.step o).openings.get? id).isSome = true := by
  rcases tr.step_openings o with hsame | ⟨t, opening, heq, -⟩
  · rwa [hsame]
  · rw [heq, NatMap.get?_insert]
    split
    · rfl
    · exact h

/-- A table that was entered in the list has been so from then on. -/
theorem Entered.step (he : tr.Entered id) (h : tr.Lists) (o : Occurrence) :
    (tr.step o).Entered id := by
  rcases tr.step_openings o with hsame | ⟨t, opening, heq, hlater⟩
  · rwa [Entered, hsame]
  · rw [entered_insert heq]
    split
    · next hid =>
        refine hlater.resolve_left fun hnext => ?_
        obtain ⟨before, hbefore, -⟩ := he
        exact Nat.lt_irrefl _ (hnext ▸ hid ▸ h.numbered id before hbefore)
    · exact he

theorem opened_run (h : (tr.openings.get? id).isSome = true) (steps : List Occurrence) :
    ((tr.run steps).openings.get? id).isSome = true := by
  induction steps generalizing tr with
  | nil => exact h
  | cons o rest ih => exact ih (opened_step h o)

theorem Entered.run (he : tr.Entered id) (h : tr.Lists) (ho : tr.Orderly)
    (steps : List Occurrence) : (tr.run steps).Entered id := by
  induction steps generalizing tr with
  | nil => exact he
  | cons o rest ih => exact ih (he.step h o) (h.step ho o) (ho.step o)

/-! ## How removals come to their answers -/

/-- Some removal has taken a table off the list in the meantime, which the one at a place has not. -/
def Overlapped (before now : Traffic) (place : Nat) (id : TableId) : Prop :=
  ∃ other stage, other ≠ place ∧ now.removals[other]? = some ⟨id, stage⟩ ∧
    stage.hasUnlisted = true ∧ ¬ before.Has hasUnlisted id

/-- How a removal of a table came to its answer, if it has answered. It looked the table up when it
began. If it found the table it waited for the roster, and answered by whether anybody was seated
when it got hold of it. Then the table is still on the list, unless another removal has overlapped
with this one. -/
inductive Course (tr₀ : Traffic) (steps : List Occurrence) (place : Nat) (id : TableId) :
    Option Bool → Prop
  | unfound {before : List Occurrence} :
      before ++ [.remove id] <+: steps → place = (tr₀.run before).removals.length →
      id ∉ (tr₀.run before).house.listed → Course tr₀ steps place id (some false)
  | waits {before : List Occurrence} :
      before ++ [.remove id] <+: steps → place = (tr₀.run before).removals.length →
      id ∈ (tr₀.run before).house.listed → Course tr₀ steps place id none
  | decides {before between : List Occurrence} :
      before ++ [.remove id] ++ between ++ [.goOn place] <+: steps →
      place = (tr₀.run before).removals.length → id ∈ (tr₀.run before).house.listed →
      (tr₀.run (before ++ [.remove id] ++ between)).locked id = false →
      id ∈ (tr₀.run (before ++ [.remove id] ++ between)).house.listed ∨
        Overlapped (tr₀.run before) (tr₀.run (before ++ [.remove id] ++ between)) place id →
      Course tr₀ steps place id
        (some ((tr₀.run (before ++ [.remove id] ++ between)).house.vacant id))

theorem Course.extend {answer : Option Bool} (h : Course tr₀ steps place id answer)
    (more : List Occurrence) : Course tr₀ (steps ++ more) place id answer := by
  have hmore : steps <+: steps ++ more := List.prefix_append ..
  cases h with
  | unfound hbefore hplace hout => exact .unfound (hbefore.trans hmore) hplace hout
  | waits hbefore hplace hin => exact .waits (hbefore.trans hmore) hplace hin
  | decides hbefore hplace hin hfree halone =>
      exact .decides (hbefore.trans hmore) hplace hin hfree halone

/-- A removal that goes on has its answer before and after, or gets it. -/
theorem Goes.answer?_eq {old new : RemovalStage} {house : House} {sent : List (TableId × Message)}
    (hgoes : tr.Goes id old house new sent) :
    new.answer? = old.answer? ∧ old ≠ .waiting ∨
      old = .waiting ∧ tr.locked id = false ∧ new.answer? = some (tr.house.vacant id) := by
  cases hgoes with
  | refuses hfree hclose =>
      exact .inr ⟨rfl, hfree, congrArg some (House.closeIfEmpty_eq_none_iff.mp hclose).symm⟩
  | shuts hfree hclose =>
      refine .inr ⟨rfl, hfree, congrArg some (Eq.symm ?_)⟩
      refine Bool.eq_true_of_not_eq_false fun hno => ?_
      rw [House.closeIfEmpty_eq_none_iff.mpr hno] at hclose
      cases hclose
  | unlists | releases | removes => exact .inl ⟨rfl, nofun⟩

/-- What holds of the lists after any run. -/
theorem Lists.now (h : tr₀.Lists) (ho : tr₀.Orderly) (steps : List Occurrence) :
    (tr₀.run steps).Lists ∧ (tr₀.run steps).Orderly :=
  ⟨h.run ho steps, ho.run steps⟩

/-- A table goes off the list only by a removal of it. -/
theorem Lists.overlapped (h : tr.Lists) (ho : tr.Orderly) (hin : id ∈ tr.house.listed)
    (hwaits : (tr.run steps).removals[place]? = some ⟨id, .waiting⟩) :
    id ∈ (tr.run steps).house.listed ∨ Overlapped tr (tr.run steps) place id := by
  obtain ⟨hentered, hnot⟩ := (h.listed_iff id).mp hin
  refine or_iff_not_imp_left.mpr fun hout => ?_
  have hhas : (tr.run steps).Has hasUnlisted id := by
    refine Classical.not_not.mp fun hno => hout ?_
    exact ((h.run ho steps).listed_iff id).mpr ⟨hentered.run h ho steps, hno⟩
  obtain ⟨⟨t, stage⟩, hmem, rfl, hstage⟩ := hhas
  obtain ⟨other, hother⟩ := List.mem_iff_getElem?.mp hmem
  refine ⟨other, stage, ?_, hother, hstage, hnot⟩
  rintro rfl
  rw [hwaits] at hother
  cases hother
  cases hstage

/-- Every removal has come to where it is in this way. -/
theorem Lists.course (h : tr₀.Lists) (ho : tr₀.Orderly) (hnone : tr₀.removals = [])
    (steps : List Occurrence) {r : Removal} (hr : (tr₀.run steps).removals[place]? = some r) :
    Course tr₀ steps place r.table r.stage.answer? := by
  induction steps using List.reverseRecOn generalizing place r with
  | nil =>
      rw [show tr₀.run [] = tr₀ from rfl, hnone] at hr
      cases hr
  | append_singleton steps o ih =>
      rw [run_concat] at hr
      rcases (tr₀.run steps).step_removals o with
        hsame | ⟨id, rfl, heq⟩ | ⟨at', id, old, house, new, sent, rfl, hold, hgoes, heq⟩
      · exact (ih (hsame ▸ hr)).extend [o]
      · rw [heq] at hr
        by_cases hplace : place < (tr₀.run steps).removals.length
        · rw [List.getElem?_append_left hplace] at hr
          exact (ih hr).extend _
        · obtain ⟨hlt, -⟩ := List.getElem?_eq_some_iff.mp hr
          rw [List.length_append, List.length_singleton] at hlt
          have hlast : place = (tr₀.run steps).removals.length := by omega
          rw [hlast, List.getElem?_concat_length] at hr
          cases hr
          by_cases hin : id ∈ (tr₀.run steps).house.listed
          · rw [if_pos hin]
            exact .waits (List.prefix_refl _) hlast hin
          · rw [if_neg hin]
            exact .unfound (List.prefix_refl _) hlast hin
      · by_cases hplace : at' = place
        · subst hplace
          obtain ⟨hlt, -⟩ := List.getElem?_eq_some_iff.mp hold
          rw [heq, List.getElem?_set_self hlt] at hr
          cases hr
          rcases hgoes.answer?_eq with ⟨hsame, -⟩ | ⟨rfl, hfree, hanswer⟩
          · rw [hsame]
            exact (ih hold).extend _
          · rw [hanswer]
            obtain - | ⟨⟨between, rfl⟩, hat, hin⟩ := ih hold
            rw [List.append_assoc, run_append] at hold
            obtain ⟨hbefore, hbefore'⟩ := h.now ho _
            have halone := hbefore.overlapped hbefore' hin hold
            rw [← run_append, ← List.append_assoc] at halone
            exact .decides (List.prefix_refl _) hat hin hfree halone
        · rw [heq, List.getElem?_set_ne hplace] at hr
          exact (ih hr).extend _

/-! ## Openings that are overtaken -/

/-- A table is between the two lists that it is entered in, or taken off, one after the other. -/
inductive Between (tr : Traffic) (id : TableId) : Prop
  | opening {name : String} : tr.openings.get? id = some ⟨name, .listed⟩ → Between tr id
  | removal : ⟨id, .unlisted⟩ ∈ tr.removals → Between tr id

/-- A removal has taken a table off the list while its opening was between the lists. -/
def Overtaken (tr₀ : Traffic) (steps : List Occurrence) (id : TableId) : Prop :=
  ∃ before name, before <+: steps ∧
    (tr₀.run before).openings.get? id = some ⟨name, .listed⟩ ∧ (tr₀.run before).Has hasUnlisted id

theorem Overtaken.extend (h : Overtaken tr₀ steps id) (more : List Occurrence) :
    Overtaken tr₀ (steps ++ more) id := by
  obtain ⟨before, name, hbefore, hopening, hhas⟩ := h
  exact ⟨before, name, hbefore.trans (List.prefix_append ..), hopening, hhas⟩

theorem Entered.cases (h : tr.Entered id) :
    tr.Connected id ∨ ∃ name, tr.openings.get? id = some ⟨name, .listed⟩ := by
  obtain ⟨⟨name, stage⟩, ho, hstage⟩ := h
  cases stage with
  | setUp => exact absurd rfl hstage
  | listed => exact .inr ⟨name, ho⟩
  | opened => exact .inl ⟨_, ho, rfl⟩

/-- A removal does not find a table that can be reached only if another one has been there, or if the
table was never to be reached yet. -/
theorem Lists.overtaken (h : tr₀.Lists) (ho : tr₀.Orderly) (hnone : tr₀.removals = [])
    (steps : List Occurrence) (hmissed : (tr₀.run steps).Has hasMissed id) :
    Overtaken tr₀ steps id ∨ (tr₀.run steps).Has hasReached id := by
  induction steps using List.reverseRecOn with
  | nil =>
      obtain ⟨r, hr, -⟩ := hmissed
      rw [show tr₀.run [] = tr₀ from rfl, hnone] at hr
      cases hr
  | append_singleton steps o ih =>
      rw [run_concat] at hmissed ⊢
      have hlater : (tr₀.run steps).Has hasMissed id → Overtaken tr₀ (steps ++ [o]) id ∨
          ((tr₀.run steps).step o).Has hasReached id := fun hold =>
        (ih hold).imp (·.extend [o]) (·.step RemovalStage.lasting_hasReached o)
      rcases (tr₀.run steps).step_removals o with
        hsame | ⟨t, rfl, -⟩ | ⟨at', t, old, house, new, sent, rfl, hr, hgoes, heq⟩
      · obtain ⟨r, hr, hid⟩ := hmissed
        exact hlater ⟨r, hsame ▸ hr, hid⟩
      · exact hlater ((has_remove rfl rfl).mp hmissed)
      · rcases (has_set hr heq (RemovalStage.lasting_hasMissed hgoes)).mp hmissed with
          hold | ⟨rfl, hnew⟩
        · exact hlater hold
        · have hmem : ⟨id, old⟩ ∈ (tr₀.run steps).removals := List.mem_of_getElem? hr
          cases hgoes with
          | refuses | shuts | unlists => cases hnew
          | removes reached => exact hlater ⟨_, hmem, rfl, hnew⟩
          | releases =>
              obtain ⟨hlists, -⟩ := h.now ho steps
              have hout : id ∉ (tr₀.run steps).house.reachable := by
                intro hin
                simp [hasMissed, hin] at hnew
              by_cases hreached : (tr₀.run steps).Has hasReached id
              · exact .inr (hreached.step RemovalStage.lasting_hasReached _)
              · left
                have hfound : RemovalStage.unlisted ≠ .refused := by decide
                obtain ⟨name, hname⟩ := (hlists.found _ hmem hfound).cases.resolve_left fun hc =>
                  hout ((hlists.reachable_iff id).mpr ⟨hc, hreached⟩)
                exact ⟨steps, name, List.prefix_append .., hname, _, hmem, rfl, rfl⟩

/-! ## Who is seated -/

section Seated
variable {p : PlayerId}

/-- Whoever is seated is at a table that no removal has closed, and that can be reached. -/
theorem Lists.of_seats (h : tr.Lists) (hin : tr.house.seats id p = true) :
    tr.Connected id ∧ ¬ tr.Has hasClosed id := by
  unfold House.seats at hin
  cases ht : tr.house.tables.get? id with
  | none => simp [ht] at hin
  | some t =>
      rw [ht, Option.any_some] at hin
      have hsomebody := Roster.players_ne_nil hin
      constructor
      · exact Classical.not_not.mp fun hnot => hsomebody (h.unvisited id t ht hnot)
      · exact fun hclosed => hsomebody (h.deserted id t ht ((h.closed_iff id t ht).mpr hclosed))

theorem Lists.on_lists_of_seats (h : tr.Lists) (hin : tr.house.seats id p = true) :
    id ∈ tr.house.listed ∧ id ∈ tr.house.reachable := by
  obtain ⟨hconnected, hopen⟩ := h.of_seats hin
  constructor
  · exact (h.listed_iff id).mpr ⟨hconnected.entered, fun hhas =>
      hopen (hhas.imp RemovalStage.hasClosed_of_hasUnlisted)⟩
  · exact (h.reachable_iff id).mpr ⟨hconnected, fun hhas =>
      hopen (hhas.imp fun hr =>
        RemovalStage.hasClosed_of_hasUnlisted (RemovalStage.hasUnlisted_of_hasReached hr))⟩

/-- A table that was closed stays so, and nobody is let in there. -/
theorem Lists.shut (h : tr.Lists) (hclosed : tr.Has hasClosed id) :
    (∀ p, tr.house.seats id p = false) ∧ ∀ p name stack wanted,
      ∃ e, (tr.house.send id (.join p name stack wanted)).2 = .error e := by
  constructor
  · exact fun p => Bool.eq_false_iff.mpr fun hin => (h.of_seats hin).2 hclosed
  · intro p name stack wanted
    cases ht : tr.house.tables.get? id with
    | none => exact ⟨.tableClosed, by rw [House.send, ht]⟩
    | some t =>
        cases hrun : t.stopped with
        | true => exact ⟨.tableClosed, by simp only [House.send, ht, hrun, if_true]⟩
        | false =>
            rw [House.send_eq ht hrun]
            obtain ⟨e, he⟩ := Table.respondJoin_of_closed tr.house.floor p name stack wanted
              ((h.closed_iff id t ht).mpr hclosed)
            exact ⟨e, congrArg Response.reply he⟩

end Seated

/-! ## With nothing in between -/

section Undisturbed
variable {house next : House} {old new : RemovalStage} {sent : List (TableId × Message)}

/-- A removal has come so far after all others, and has left the house so. -/
def removing (tr : Traffic) (id : TableId) (house : House) (stage : RemovalStage) : Traffic :=
  { tr with house, removals := tr.removals ++ [⟨id, stage⟩] }

theorem removing_last (house : House) (stage : RemovalStage) :
    (tr.removing id house stage).removals[tr.removals.length]? = some ⟨id, stage⟩ :=
  List.getElem?_concat_length

theorem goOn_removing (hgoes : (tr.removing id house old).Goes id old next new sent) :
    (tr.removing id house old).goOn tr.removals.length =
      { tr.removing id next new with onTheWay := tr.onTheWay ++ sent } := by
  rw [goOn_of_goes (removing_last house old) hgoes]
  simp [reach, removing]

theorem goOn_removing_quiet (hgoes : (tr.removing id house old).Goes id old next new []) :
    (tr.removing id house old).goOn tr.removals.length = tr.removing id next new := by
  rw [goOn_removing hgoes, List.append_nil]
  rfl

/-- A removal that was refused does nothing more. -/
theorem goOn_refused : (tr.removing id house .refused).goOn tr.removals.length =
    tr.removing id house .refused := by
  simp only [goOn, removing_last]

/-- The message that was sent last is dealt with, if one was sent. -/
theorem arrive_close (tr : Traffic) (id : TableId) {before : List (TableId × Message)} (reached : Bool)
    (hsent : tr.onTheWay = before ++ if reached then [(id, .close)] else []) :
    (tr.arrive before.length).house = if reached then (tr.house.send id .close).1 else tr.house := by
  cases reached with
  | true =>
      simp only [arrive, hsent, if_true, List.getElem?_concat_length, Message.needsRoster,
        Bool.false_and]
      rfl
  | false =>
      have hnone : tr.onTheWay[before.length]? = none := by simp [hsent]
      simp only [arrive, hnone]
      rfl

/-- A removal that nothing comes in between of is what the house does when it removes a table. -/
theorem Orderly.run_remove (ho : tr.Orderly)
    (htold : tr.house.Everywhere (·.announcements = []))
    (hfree : tr.locked id = false) :
    (tr.run [.remove id, .goOn tr.removals.length, .goOn tr.removals.length,
      .goOn tr.removals.length, .goOn tr.removals.length, .arrive tr.onTheWay.length]).house =
      (tr.house.removeIfEmpty id).2 := by
  have hfree' : (tr.removing id tr.house .waiting).locked id = false := by
    rw [locked, removing, List.any_append, ← locked, hfree, Bool.false_or, List.any_cons,
      List.any_nil, Bool.or_false]
    exact Bool.and_false _
  have hrefused : ((tr.removing id tr.house .refused).arrive tr.onTheWay.length).house = tr.house :=
    arrive_close (tr.removing id tr.house .refused) id false (List.append_nil _).symm
  show ((((((tr.removing id tr.house (if id ∈ tr.house.listed then .waiting else .refused)).goOn
    _).goOn _).goOn _).goOn _).arrive _).house = _
  by_cases hin : id ∈ tr.house.listed
  · rw [if_pos hin]
    cases hclose : tr.house.closeIfEmpty id with
    | none =>
        rw [goOn_removing_quiet (.refuses hfree' hclose), goOn_refused, goOn_refused, goOn_refused]
        refine hrefused.trans ?_
        simp only [House.removeIfEmpty, House.retire, if_pos hin, hclose, Option.map_none]
    | some closed =>
        rw [goOn_removing_quiet (.shuts hfree' hclose), goOn_removing_quiet .unlists,
          goOn_removing_quiet .releases, goOn_removing (.removes _)]
        refine (arrive_close _ id _ rfl).trans ?_
        obtain ⟨t, ht, -, hclosed⟩ := House.closeIfEmpty_eq_some hclose
        obtain ⟨-, hready, -⟩ := ho.tables id t ht
        have hlast : ((closed.unlist id).disconnect id).tables.get? id =
            some { t with roster := t.roster.close } := by
          rw [hclosed]
          exact NatMap.get?_insert_self
        have hsame := House.mapLobby_send_close (·.announce (.tableRemoved id)) hlast hready.noted
          (htold id t ht)
        simp only [House.removeIfEmpty, House.retire, if_pos hin, hclose, Option.map_some]
        rw [apply_ite (House.mapLobby · _), hsame]
        simp only [decide_eq_true_eq]
        subst hclosed
        rfl
  · rw [if_neg hin, goOn_refused, goOn_refused, goOn_refused, goOn_refused]
    refine hrefused.trans ?_
    simp only [House.removeIfEmpty, House.retire, if_neg hin]

/-- An opening that nothing comes in between of is what the house does when it opens a table. -/
theorem run_openTable {config : TableConfig} {opened : House}
    (hopen : tr.house.createTable config = .ok (id, opened)) :
    (tr.run [.openTable config, .carryOn id, .carryOn id]).house = opened := by
  obtain ⟨hv, rfl, rfl⟩ := House.createTable_ok hopen
  show (((tr.openTable config).carryOn _).carryOn _).house = _
  simp only [openTable, hv, carryOn, NatMap.get?_insert_self]

end Undisturbed

/-! ## Nobody is stranded -/

/-- The tables of a house after a run, with everything taken in the order in which it has occurred.

The two lists name the same tables, but for those between them and those removed while they were
being opened. The numbers given to tables from now on are new, and a table that is removed does not
come back. A removal has come to its answer as it should. From the moment it has closed a table
nobody is seated there, and no join is accepted. Whoever is seated, or has a session at a table, is
at one that is on both lists. A table that somebody leaves without anything in between, and that
is empty then, is on neither. -/
structure StrandsNobody (tr₀ : Traffic) (steps : List Occurrence) : Prop where
  lists : ∀ id, ¬ (tr₀.run steps).Between id → ¬ Overtaken tr₀ steps id →
    (id ∈ (tr₀.run steps).house.listed ↔ id ∈ (tr₀.run steps).house.reachable)
  opened : ∀ id, id ∈ (tr₀.run steps).house.listed ∨ id ∈ (tr₀.run steps).house.reachable →
    ((tr₀.run steps).openings.get? id).isSome = true
  numbers : ∀ id more, ((tr₀.run steps).openings.get? id).isSome = true →
    id < ((tr₀.run steps).run more).house.nextTable
  answers : ∀ place r, (tr₀.run steps).removals[place]? = some r →
    Course tr₀ steps place r.table r.stage.answer?
  gone : ∀ r more, r ∈ (tr₀.run steps).removals → r.stage.hasUnlisted = true →
    r.table ∉ ((tr₀.run steps).run more).house.listed
  shut : ∀ r more, r ∈ (tr₀.run steps).removals → r.stage.answer? = some true →
    (∀ p, ((tr₀.run steps).run more).house.seats r.table p = false) ∧ ∀ p name stack wanted,
      ∃ e, (((tr₀.run steps).run more).house.send r.table (.join p name stack wanted)).2 = .error e
  seated : ∀ p id, (tr₀.run steps).house.seats id p = true →
    id ∈ (tr₀.run steps).house.listed ∧ id ∈ (tr₀.run steps).house.reachable
  sessions : ∀ p id, (tr₀.run steps).house.floor.lobby.stateOf p = .ok (.seatedWaiting id) ∨
    (tr₀.run steps).house.floor.lobby.stateOf p = .ok (.playing id) →
    id ∈ (tr₀.run steps).house.listed ∧ id ∈ (tr₀.run steps).house.reachable
  left : ∀ p id after answer, (tr₀.run steps).house.seatedAt p .leaveTable = .ok id →
    (tr₀.run steps).house.request p .leaveTable = (after, .ok answer) → after.vacant id = true →
    id ∉ after.listed ∧ id ∉ after.reachable

theorem opening_lists {evaluator : Evaluator} {chance : TableId → Nat → Nat → UInt32} :
    (opening evaluator chance).Lists where
  numbered _ _ ho := by cases ho
  known _ _ ht := by cases ht
  there _ _ ho := by cases ho
  listed_iff id := iff_of_false (fun hin => by cases hin) fun hboth => by
    obtain ⟨⟨o, ho, -⟩, -⟩ := hboth
    cases ho
  reachable_iff id := iff_of_false (fun hin => by cases hin) fun hboth => by
    obtain ⟨⟨o, ho, -⟩, -⟩ := hboth
    cases ho
  closed_iff _ _ ht := by cases ht
  deserted _ _ ht := by cases ht
  unvisited _ _ ht := by cases ht
  joins _ _ _ _ _ hm := by cases hm
  found _ hr := by cases hr
  reached _ hhas := by
    obtain ⟨r, hr, -⟩ := hhas
    cases hr

/-- Whatever occurs, nobody is seated at a table that was removed, or will be. -/
theorem removal_strands_nobody (evaluator : Evaluator) (chance : TableId → Nat → Nat → UInt32)
    (steps : List Occurrence) : StrandsNobody (opening evaluator chance) steps := by
  have hlists : (opening evaluator chance).Lists := opening_lists
  have horderly : (opening evaluator chance).Orderly := opening_orderly
  obtain ⟨h, ho⟩ := hlists.now horderly steps
  constructor
  case lists =>
    intro id hbetween hovertaken
    rw [h.listed_iff, h.reachable_iff]
    constructor
    · rintro ⟨hentered, hnot⟩
      refine ⟨hentered.cases.resolve_right fun ⟨name, hname⟩ => hbetween (.opening hname), ?_⟩
      exact fun hreached => hnot (hreached.imp RemovalStage.hasUnlisted_of_hasReached)
    · rintro ⟨hconnected, hnot⟩
      refine ⟨hconnected.entered, ?_⟩
      rintro ⟨⟨t, stage⟩, hr, rfl, hunlisted⟩
      rcases RemovalStage.cases_of_hasUnlisted hunlisted with rfl | hreached | hmissed
      · exact hbetween (.removal hr)
      · exact hnot ⟨_, hr, rfl, hreached⟩
      · exact (hlists.overtaken horderly rfl steps ⟨_, hr, rfl, hmissed⟩).elim hovertaken hnot
  case opened =>
    intro id hin
    have hentered := hin.elim (fun hl => ((h.listed_iff id).mp hl).1)
      fun hr => ((h.reachable_iff id).mp hr).1.entered
    obtain ⟨o, hopening, -⟩ := hentered
    exact Option.isSome_of_mem hopening
  case numbers =>
    intro id more hopened
    obtain ⟨o, hopening⟩ := Option.isSome_iff_exists.mp (opened_run hopened more)
    exact (h.run ho more).numbered id o hopening
  case answers => exact fun place r hr => hlists.course horderly rfl steps hr
  case gone =>
    intro r more hr hunlisted hin
    have hhas : ((opening evaluator chance).run steps).Has RemovalStage.hasUnlisted r.table :=
      ⟨r, hr, rfl, hunlisted⟩
    exact (((h.run ho more).listed_iff r.table).mp hin).2
      (hhas.run RemovalStage.lasting_hasUnlisted more)
  case shut =>
    intro r more hr hanswer
    have hhas : ((opening evaluator chance).run steps).Has RemovalStage.hasClosed r.table :=
      ⟨r, hr, rfl, RemovalStage.hasClosed_of_answer hanswer⟩
    exact (h.run ho more).shut (hhas.run RemovalStage.lasting_hasClosed more)
  case seated => exact fun p id hin => h.on_lists_of_seats hin
  case sessions => exact fun p id hs => h.on_lists_of_seats (((ho.agrees p).seated id).mpr hs)
  case left =>
    intro p id after answer hseat hleaves hempty
    obtain ⟨s, hs, htable⟩ := House.state_of_seatedAt hseat
    obtain ⟨hin, -⟩ := h.on_lists_of_seats (ho.seats_of_state hs htable)
    obtain ⟨hlisted, -⟩ := House.lists_send ((opening evaluator chance).run steps).house id (.leave p)
    simp only [House.request, House.leaveTable, hseat] at hleaves
    split at hleaves
    · next hsent =>
        cases hleaves
        rw [hsent] at hlisted
        exact House.off_lists_of_removeIfEmpty (hlisted ▸ hin) hempty
    · cases hleaves

/-- A join that is on its way when its table is removed comes too late. -/
theorem removal_strands_nobody_late_join :
    let quiet := opening { value := fun _ => HandValue.best } fun _ _ _ => 0
    let steps := [.register "ann", .openTable {}, .carryOn 1, .carryOn 1, .openTable {}, .carryOn 2,
      .carryOn 2, .ask 1 (.joinTable 1 500 none), .remove 1, .goOn 0, .goOn 0, .goOn 0, .arrive 0,
      .goOn 0, .ask 1 (.joinTable 2 500 none), .arrive 1]
    let more := [.openTable {}, .carryOn 1]
    Course quiet steps 0 1 (some true) ∧ 1 < ((quiet.run steps).run more).house.nextTable ∧
      1 ∉ ((quiet.run steps).run more).house.listed ∧
      (∃ e, (((quiet.run steps).run more).house.send 1 (.join 1 "ann" 500 none)).2 = .error e) ∧
      (2 ∈ (quiet.run steps).house.listed ∧ 2 ∈ (quiet.run steps).house.reachable) ∧
      2 ∉ ((quiet.run steps).house.request 1 .leaveTable).1.listed := by
  intro quiet steps more
  have h : StrandsNobody quiet steps := removal_strands_nobody _ _ steps
  have hremoved : (quiet.run steps).removals[0]? = some ⟨1, .removed true⟩ := by decide +kernel
  have hmem : ⟨1, .removed true⟩ ∈ (quiet.run steps).removals := List.mem_of_getElem? hremoved
  have hopened : ((quiet.run steps).openings.get? 1).isSome = true := by decide +kernel
  have hseated : (quiet.run steps).house.seats 2 1 = true := by decide +kernel
  have hseat : (quiet.run steps).house.seatedAt 1 .leaveTable = .ok 2 := by decide +kernel
  have hanswer : ((quiet.run steps).house.request 1 .leaveTable).2 = .ok (.chips 500) := by
    decide +kernel
  have hempty : ((quiet.run steps).house.request 1 .leaveTable).1.vacant 2 = true := by
    decide +kernel
  have hleaves : (quiet.run steps).house.request 1 .leaveTable =
      (((quiet.run steps).house.request 1 .leaveTable).1, .ok (.chips 500)) := by rw [← hanswer]
  exact ⟨h.answers 0 _ hremoved, h.numbers 1 more hopened,
    h.gone ⟨1, .removed true⟩ more hmem rfl,
    (h.shut ⟨1, .removed true⟩ more hmem rfl).2 1 "ann" 500 none,
    h.seated 1 2 hseated, (h.left 1 2 _ _ hseat hleaves hempty).1⟩

/-- Two removals that have both found a table remove it one after the other. A removal that comes in
between when a table is opened leaves it reachable for good. And a table is still listed if the last
one there has left, who was not the one who tried to remove it. -/
theorem removals_overlap :
    let quiet := opening { value := fun _ => HandValue.best } fun _ _ _ => 0
    let removed := quiet.run [.openTable {}, .carryOn 1, .carryOn 1, .remove 1, .remove 1, .goOn 0,
      .goOn 0, .goOn 0, .goOn 0]
    let overtaken := quiet.run [.openTable {}, .carryOn 1, .remove 1, .goOn 0, .goOn 0, .goOn 0,
      .goOn 0, .carryOn 1]
    let two := (quiet.run [.register "ann", .register "bob", .openTable {}, .carryOn 1, .carryOn 1,
      .ask 1 (.joinTable 1 500 none), .arrive 0, .ask 2 (.joinTable 1 500 none), .arrive 0]).house
    let left := ((two.request 1 .leaveTable).1.send 1 (.leave 2)).1
    (1 ∉ removed.house.listed ∧ (removed.run [.goOn 1, .goOn 1, .goOn 1, .goOn 1]).removals =
        [⟨1, .removed true⟩, ⟨1, .removed false⟩]) ∧
      (1 ∉ overtaken.house.listed ∧ 1 ∈ overtaken.house.reachable) ∧
      (two.request 1 .leaveTable).2.isOk = true ∧ left.vacant 1 = true ∧ 1 ∈ left.listed := by
  decide +kernel

end Traffic
end Holdem

import Holdem.Proofs.House.Traffic

/-!
# How a house changes

A house changes by single steps: somebody is made known, a table is set up, entered in a list or
taken off it, deals with a message or has its roster closed, and the lobby tells things. Whatever
is asked for is made up of such steps, and so is whatever occurs while messages are on their way. It
is left open here which of them may follow which, so that what every step keeps holds of every house
that can come about.
-/
namespace Holdem

namespace House
variable {h h' h'' : House} {id : TableId}

/-- What changes in a house, one thing at a time. What the lobby tells, and who listens, changes
no session. -/
inductive Changes : House → House → Prop
  | registers {h : House} (name : String) : Changes h (h.registerPlayer name).2
  | setsUp {h : House} {config : TableConfig} :
      config.validate = .ok () → Changes h (h.setUp config)
  | enlists {h : House} (id : TableId) : Changes h (h.enlist id)
  | connects {h : House} (id : TableId) (name : String) : Changes h (h.connect id name)
  | dealsWith {h : House} (id : TableId) (m : Message) : Changes h (h.send id m).1
  | closes {h h' : House} {id : TableId} : h.closeIfEmpty id = some h' → Changes h h'
  | unlists {h : House} (id : TableId) : Changes h (h.unlist id)
  | disconnects {h : House} (id : TableId) : Changes h (h.disconnect id)
  | letsGo {h : House} (held : TableId → Bool) : Changes h (h.heldBy held)
  | tells {h : House} (f : Lobby → Lobby) :
      (∀ p, (f h.floor.lobby).state? p = h.floor.lobby.state? p) → Changes h (h.mapLobby f)

/-- One change after another, in any order. -/
abbrev Evolves : House → House → Prop := Relation.ReflTransGen Changes

/-- A house as it opens. -/
def opening (evaluator : Evaluator) (chance : TableId → Nat → Nat → UInt32) : House :=
  (Traffic.opening evaluator chance).house

/-! ## What every table keeps -/

/-- Something holds of every table, also of those that are gone. -/
def Everywhere (P : Table → Prop) (h : House) : Prop := ∀ id t, h.tables.get? id = some t → P t

section Everywhere
variable {P : Table → Prop}

theorem Everywhere.insert {t : Table} (hall : Everywhere P h)
    (htables : h'.tables = h.tables.insert id t) (ht : P t) : Everywhere P h' := by
  intro other t' ht'
  rcases NatMap.get?_insert_cases (htables ▸ ht') with ⟨-, rfl⟩ | ⟨-, hold⟩
  · exact ht
  · exact hall other t' hold

/-- What holds of new tables, and which no message changes, nor that the roster is closed. -/
theorem Everywhere.changes (hall : Everywhere P h)
    (hnew : ∀ id config, config.validate = .ok () → P (.create id config))
    (hhandle : ∀ t f m, P t → P (Table.handle t f m).1)
    (hclose : ∀ t : Table, P t → P { t with roster := t.roster.close })
    (hc : Changes h h') : Everywhere P h' := by
  cases hc with
  | registers | enlists | connects | unlists | disconnects | letsGo | tells => exact hall
  | setsUp hv => exact hall.insert rfl (hnew _ _ hv)
  | closes hclosed =>
      obtain ⟨t, ht, -, rfl⟩ := closeIfEmpty_eq_some hclosed
      exact hall.insert rfl (hclose t (hall _ t ht))
  | dealsWith id m =>
      by_cases hstopped : ∀ t, h.tables.get? id = some t → t.stopped = true
      · rw [(send_closed hstopped m).1]
        exact hall
      · obtain ⟨t, hopen⟩ := not_forall.mp hstopped
        obtain ⟨ht, hrun⟩ := Classical.not_imp.mp hopen
        rw [(send_running ht (Bool.eq_false_iff.mpr hrun) m).1]
        exact hall.insert rfl (hhandle t h.floor m (hall id t ht))

theorem Everywhere.evolves (hall : Everywhere P h)
    (hnew : ∀ id config, config.validate = .ok () → P (.create id config))
    (hhandle : ∀ t f m, P t → P (Table.handle t f m).1)
    (hclose : ∀ t : Table, P t → P { t with roster := t.roster.close })
    (hc : Evolves h h') : Everywhere P h' := by
  induction hc with
  | refl => exact hall
  | tail _ hlast ih => exact ih.changes hnew hhandle hclose hlast

/-- Every table waits for the next message. -/
theorem Evolves.ready {evaluator : Evaluator} {chance : TableId → Nat → Nat → UInt32}
    (hc : Evolves (opening evaluator chance) h) : Everywhere Table.Ready h :=
  Everywhere.evolves (fun _ _ ht => by cases ht) (fun _ _ => Table.create_ready _)
    (fun _ f m hready => hready.handle f m) (fun _ hready => hready.close) hc

/-- Every table has told what it had to tell the house. -/
theorem Evolves.allTold {evaluator : Evaluator} {chance : TableId → Nat → Nat → UInt32}
    (hc : Evolves (opening evaluator chance) h) : Everywhere (·.announcements = []) h :=
  Everywhere.evolves (fun _ _ ht => by cases ht) (fun _ _ _ => rfl) (fun _ _ _ _ => rfl)
    (fun _ htold => htold) hc

end Everywhere

/-! ## What players and the house do -/

section Operations
theorem evolves_send (h : House) (id : TableId) (m : Message) : Evolves h (h.send id m).1 :=
  .single (.dealsWith id m)

theorem evolves_announce (h : House) (e : ServerEvent) : Evolves h (h.mapLobby (·.announce e)) :=
  .single (.tells _ (Lobby.state?_of_sessions rfl))

theorem createTable_ok {config : TableConfig} (hopen : h.createTable config = .ok (id, h')) :
    config.validate = .ok () ∧ id = h.nextTable ∧
      h' = ((h.setUp config).enlist id).connect id config.name := by
  unfold createTable at hopen
  cases hv : config.validate with
  | error e => rw [hv] at hopen; cases hopen
  | ok _ =>
      rw [hv] at hopen
      cases hopen
      exact ⟨rfl, rfl, rfl⟩

theorem evolves_createTable {config : TableConfig}
    (hopen : h.createTable config = .ok (id, h')) : Evolves h h' := by
  obtain ⟨hv, rfl, rfl⟩ := createTable_ok hopen
  exact ((Relation.ReflTransGen.single (.setsUp hv)).tail (.enlists _)).tail (.connects _ _)

theorem retire_eq_some (hretire : h.retire id = some h') :
    ∃ closed, id ∈ h.listed ∧ h.closeIfEmpty id = some closed ∧
      h' = (closed.unlist id).disconnect id := by
  unfold retire at hretire
  split at hretire
  · next hin =>
      obtain ⟨closed, hclose, rfl⟩ := Option.map_eq_some_iff.mp hretire
      exact ⟨closed, hin, hclose, rfl⟩
  · cases hretire

theorem evolves_retire (hretire : h.retire id = some h') : Evolves h h' := by
  obtain ⟨closed, -, hclose, rfl⟩ := retire_eq_some hretire
  exact ((Relation.ReflTransGen.single (.closes hclose)).tail (.unlists id)).tail (.disconnects id)

theorem evolves_removeIfEmpty (h : House) (id : TableId) : Evolves h (h.removeIfEmpty id).2 := by
  unfold removeIfEmpty
  split
  · exact .refl
  · next retired hretire =>
      refine ((evolves_retire hretire).trans ?_).trans (evolves_announce _ _)
      split
      · exact evolves_send _ _ _
      · exact .refl

theorem evolves_fromSeat (h : House) (p : PlayerId) (op : SessionOp) (m : Message) :
    Evolves h (h.fromSeat p op m).1 := by
  unfold fromSeat
  split
  · exact .refl
  · exact evolves_send _ _ _

theorem evolves_joinTable (h : House) (p : PlayerId) (buyIn : Chips)
    (seat : Option SeatIndex) : Evolves h (h.joinTable p id buyIn seat).1 := by
  unfold joinTable
  split
  · exact .refl
  · split
    · split
      · exact .refl
      · exact evolves_send _ _ _
    · exact .refl

theorem evolves_createAndJoin (h : House) (p : PlayerId) (config : TableConfig) (buyIn : Chips) :
    Evolves h (h.createAndJoin p config buyIn).1 := by
  unfold createAndJoin
  split
  · exact .refl
  · split
    · exact .refl
    · split
      · exact .refl
      · next table opened hopen =>
          have hjoin : Evolves h (opened.joinTable p table buyIn none).1 :=
            (evolves_createTable hopen).trans (evolves_joinTable _ _ _ _)
          split
          · next hjoined => rwa [hjoined] at hjoin
          · next hjoined =>
              rw [hjoined] at hjoin
              exact hjoin.trans (evolves_removeIfEmpty _ _)

theorem evolves_leaveTable (h : House) (p : PlayerId) : Evolves h (h.leaveTable p).1 := by
  unfold leaveTable
  split
  · exact .refl
  · next table _ =>
      have hsend := evolves_send h table (.leave p)
      split
      · next hsent =>
          rw [hsent] at hsend
          exact hsend.trans (evolves_removeIfEmpty _ _)
      · next hsent => rwa [hsent] at hsend

/-- A request that nothing comes in between of is made up of such changes. -/
theorem evolves_request (h : House) (p : PlayerId) (r : Request) :
    Evolves h (h.request p r).1 := by
  cases r with
  | createTable config buyIn => exact evolves_createAndJoin h p config buyIn
  | joinTable table buyIn seat => exact evolves_joinTable h p buyIn seat
  | leaveTable => exact evolves_leaveTable h p
  | say message =>
      show Evolves h (h.sayFrom p message).1
      unfold sayFrom
      split
      · exact .refl
      · exact evolves_send _ _ _
      · exact evolves_announce _ _
  | startGame | act | deal | pocketCards => exact evolves_fromSeat h p _ _

end Operations

end House

namespace Traffic

/-- So is whatever occurs in a house with messages on their way. -/
theorem evolves_step (tr : Traffic) (o : Occurrence) :
    House.Evolves tr.house (tr.step o).house := by
  cases o with
  | register name => exact .single (.registers name)
  | openTable config =>
      show House.Evolves tr.house (tr.openTable config).house
      unfold openTable
      split
      · exact .refl
      · next hv => exact .single (.setsUp hv)
  | carryOn id =>
      show House.Evolves tr.house (tr.carryOn id).house
      unfold carryOn
      split
      · exact .single (.enlists id)
      · exact .single (.connects id _)
      · exact .refl
  | listen p =>
      show House.Evolves tr.house (tr.listen p).house
      unfold listen
      split
      · next box lobby hlisten =>
          exact .single (.tells (fun _ => lobby) (Lobby.state?_listen hlisten))
      · exact .refl
  | letGo held => exact .single (.letsGo held)
  | ask | remove => exact .refl
  | arrive place =>
      show House.Evolves tr.house (tr.arrive place).house
      unfold arrive
      split
      · exact .refl
      · split
        · exact .refl
        · exact House.evolves_send _ _ _
  | goOn place =>
      show House.Evolves tr.house (tr.goOn place).house
      rcases tr.goOn_cases place with hsame | ⟨id, old, house, new, sent, -, hgoes, heq⟩
      · rw [hsame]
      · rw [heq]
        cases hgoes with
        | refuses => exact .refl
        | shuts _ hclose => exact .single (.closes hclose)
        | unlists => exact .single (.unlists id)
        | releases => exact .single (.disconnects id)
        | removes => exact House.evolves_announce _ _

theorem evolves_run (tr : Traffic) (steps : List Occurrence) :
    House.Evolves tr.house (tr.run steps).house := by
  induction steps generalizing tr with
  | nil => exact .refl
  | cons o rest ih => exact (tr.evolves_step o).trans (ih (tr.step o))

end Traffic
end Holdem

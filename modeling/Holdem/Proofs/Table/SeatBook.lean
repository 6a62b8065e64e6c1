import Holdem.Proofs.ChipMaps
import Holdem.Proofs.Table.Seats

/-!
# Seats and guests

The seats of a table can be kept in two books, one of who sits where and one of what is known of
everybody by their number. Every operation writes both, one after the other, and looking somebody
up goes through both, where a number that stands in one of them only would go unnoticed. There is
none: whatever was asked before, the books say the same as a roster that has its players in their
seats.
-/
namespace Holdem

/-- What can be asked of the seats. -/
inductive SeatChange where
  | add (id : PlayerId) (name : String) (stack : Chips) (wanted : Option SeatIndex)
  | remove (id : PlayerId)
  | setStack (id : PlayerId) (stack : Chips)
deriving Repr, DecidableEq

inductive SeatAnswer where
  | added (seat : SeatIndex)
  | removed (player : Player)
  | written (seated : Bool)
  | refused (error : TableError)
deriving Repr, DecidableEq

/-- A roster after a change that was asked for. One that is refused leaves it as it is. -/
def Roster.change (r : Roster) : SeatChange → SeatAnswer × Roster
  | .add id name stack wanted =>
      match r.add id name stack wanted with
      | .ok (seat, r') => (.added seat, r')
      | .error e => (.refused e, r)
  | .remove id =>
      match r.remove id with
      | .ok (player, r') => (.removed player, r')
      | .error e => (.refused e, r)
  | .setStack id stack => (.written (r.contains id), r.setStack id stack)

def Roster.changed (r : Roster) (changes : List SeatChange) : Roster :=
  changes.foldl (fun r c => (r.change c).2) r

theorem NatMap.mem_values_iff {α : Type} {m : NatMap α} {a : α} :
    a ∈ m.values ↔ ∃ k, m.get? k = some a := by
  rw [values, List.mem_map]
  constructor
  · rintro ⟨⟨k, b⟩, he, rfl⟩
    exact ⟨k, mem_entries_iff.mp he⟩
  · rintro ⟨k, h⟩
    exact ⟨(k, a), mem_entries_iff.mpr h, rfl⟩

/-- In a seat stands the number of the player whose seat it is. -/
theorem Roster.getElem?_places_iff {r : Roster} {i : SeatIndex} {id : PlayerId} (hv : r.Valid) :
    r.places[i]? = some (some id) ↔ ∃ x, r.get? id = some x ∧ x.seat = i := by
  rw [places, List.getElem?_map, Option.map_eq_some_iff]
  constructor
  · rintro ⟨o, ho, hid⟩
    obtain ⟨x, rfl, rfl⟩ := Option.map_eq_some_iff.mp hid
    have hx : x ∈ r.players := List.mem_filterMap.mpr ⟨_, List.mem_of_getElem? ho, rfl⟩
    exact ⟨x, (get?_eq_some_iff hv).mpr ⟨hx, rfl⟩, hv.seat_eq ho⟩
  · rintro ⟨x, hget, rfl⟩
    obtain ⟨hx, rfl⟩ := (get?_eq_some_iff hv).mp hget
    obtain ⟨j, hj⟩ := exists_seat hx
    exact ⟨some x, hv.seat_eq hj ▸ hj, rfl⟩

/-- Who sits where, and everybody who sits by their number. -/
structure SeatBook where
  places : List (Option PlayerId)
  guests : NatMap Player

namespace SeatBook

def empty (capacity : Nat) : SeatBook := ⟨List.replicate capacity none, ∅⟩

def totalChips (b : SeatBook) : Chips := (b.guests.values.map (·.stack)).sum

def countedChips (b : SeatBook) : Chips := wrapped b.totalChips

def openSeat (b : SeatBook) : Option SeatIndex → Except TableError SeatIndex
  | some seat =>
      match b.places[seat]? with
      | none => .error (.noSuchSeat seat)
      | some (some _) => .error (.seatTaken seat)
      | some none => .ok seat
  | none =>
      match b.places.findIdx? Option.isNone with
      | none => .error .full
      | some seat => .ok seat

def add (b : SeatBook) (id : PlayerId) (name : String) (stack : Chips)
    (wanted : Option SeatIndex) : SeatAnswer × SeatBook :=
  if b.guests.contains id then (.refused (.alreadySeated id), b)
  else if maxChips < b.countedChips + stack then (.refused (.tooManyChips stack), b)
  else
    match b.openSeat wanted with
    | .error e => (.refused e, b)
    | .ok seat =>
        let b := { b with places := b.places.set seat (some id) }
        (.added seat, { b with guests := b.guests.insert id { id, name, stack, seat } })

def remove (b : SeatBook) (id : PlayerId) : SeatAnswer × SeatBook :=
  match b.guests.get? id with
  | none => (.refused (.notSeated id), b)
  | some x =>
      let b := { b with guests := b.guests.erase id }
      (.removed x, { b with places := b.places.set x.seat none })

def change (b : SeatBook) : SeatChange → SeatAnswer × SeatBook
  | .add id name stack wanted => b.add id name stack wanted
  | .remove id => b.remove id
  | .setStack id stack =>
      (.written (b.guests.contains id),
        { b with guests := b.guests.modify id fun x => { x with stack } })

def changed (b : SeatBook) (changes : List SeatChange) : SeatBook :=
  changes.foldl (fun b c => (b.change c).2) b

/-- From the lowest seat up, everybody who is found among the guests. -/
def inSeatOrder (b : SeatBook) : List Player := (b.places.filterMap id).filterMap b.guests.get?

def funded (b : SeatBook) : List PlayerId := (b.inSeatOrder.filter (0 < ·.stack)).map (·.id)

/-- The numbers in the seats after `seat`, around the table up to `seat` itself. -/
def following (b : SeatBook) (seat : SeatIndex) : List PlayerId :=
  (List.range' 1 b.places.length).filterMap fun k => b.places[(seat + k) % b.places.length]?.join

def fundedAfter (b : SeatBook) (seat : SeatIndex) : Option PlayerId :=
  (b.following seat).find? fun id => (b.guests.get? id).any (0 < ·.stack)

/-- The books of a table of some seats are in order. Everybody who is known is in one seat, which is
the one noted with them, and nobody else is in any. -/
structure Orderly (capacity : Nat) (b : SeatBook) : Prop where
  length : b.places.length = capacity
  seated : ∀ id x, b.guests.get? id = some x →
    x.id = id ∧ ∀ i, b.places[i]? = some (some id) ↔ i = x.seat
  occupied : ∀ i id, b.places[i]? = some (some id) → ∃ x, b.guests.get? id = some x ∧ x.seat = i
  size : b.guests.size = b.places.countP Option.isSome
  inSeatOrder : b.inSeatOrder.Pairwise (·.seat < ·.seat) ∧
    ∀ x, x ∈ b.inSeatOrder ↔ b.guests.get? x.id = some x
  funded : b.funded.Sublist (b.inSeatOrder.map (·.id)) ∧
    ∀ id, id ∈ b.funded ↔ ∃ x, b.guests.get? id = some x ∧ 0 < x.stack
  fundedAfter : ∀ seat id, b.fundedAfter seat = some id ↔
    ∃ k, 1 ≤ k ∧ k ≤ capacity ∧ b.places[(seat + k) % capacity]? = some (some id) ∧
      id ∈ b.funded ∧ ∀ j, 1 ≤ j → j < k → ∀ q,
        b.places[(seat + j) % capacity]? = some (some q) → q ∉ b.funded
  nobody : ∀ seat, b.fundedAfter seat = none ↔ b.funded = []
  refused : ∀ c e, (b.change c).1 = .refused e → (b.change c).2 = b

/-- The books say the same as a roster, whatever is looked up and whatever is asked next. -/
structure Mirrors (b : SeatBook) (r : Roster) : Prop where
  places : b.places = r.places
  guests : ∀ id, b.guests.get? id = r.get? id
  size : b.guests.size = r.size
  totalChips : b.totalChips = r.totalChips
  inSeatOrder : b.inSeatOrder = r.players
  funded : b.funded = r.funded
  fundedAfter : ∀ seat, b.fundedAfter seat = r.fundedAfter seat
  answers : ∀ c, (b.change c).1 = (r.change c).1

/-- The books are those of a roster in order. This is what every operation keeps. -/
structure Copies (b : SeatBook) (r : Roster) : Prop where
  valid : r.Valid
  places : b.places = r.places
  guests : ∀ id, b.guests.get? id = r.get? id

section Reading
variable {b : SeatBook} {r : Roster}

theorem Copies.contains (h : b.Copies r) (id : PlayerId) :
    b.guests.contains id = r.contains id := by
  rw [NatMap.contains, h.guests, Roster.contains]

/-- The guests are the players, in the order of their numbers. -/
theorem Copies.values_perm (h : b.Copies r) : b.guests.values.Perm r.players := by
  have hids : b.guests.values.map (·.id) = b.guests.keys := by
    rw [NatMap.values, NatMap.keys, List.map_map]
    refine List.map_congr_left fun e he => ?_
    have hget : r.get? e.1 = some e.2 := h.guests _ ▸ NatMap.mem_entries_iff.mp he
    exact ((Roster.get?_eq_some_iff h.valid).mp hget).2
  have hkeys : b.guests.keys.Nodup := b.guests.ascending.map _ fun _ _ hlt => Nat.ne_of_lt hlt
  refine (List.perm_ext_iff_of_nodup (.of_map _ (hids ▸ hkeys)) h.valid.distinct.of_map).mpr
    fun x => ?_
  simp only [NatMap.mem_values_iff, h.guests, Roster.get?_eq_some_iff h.valid]
  constructor
  · rintro ⟨id, hx, -⟩
    exact hx
  · intro hx
    exact ⟨x.id, hx, rfl⟩

theorem Copies.totalChips (h : b.Copies r) : b.totalChips = r.totalChips :=
  (h.values_perm.map _).sum_eq

theorem Copies.countedChips (h : b.Copies r) : b.countedChips = r.countedChips :=
  congrArg wrapped h.totalChips

theorem Copies.size (h : b.Copies r) : b.guests.size = r.size := by
  rw [Roster.size, ← h.values_perm.length_eq, NatMap.values, List.length_map, NatMap.size]

theorem Copies.openSeat (h : b.Copies r) (wanted : Option SeatIndex) :
    b.openSeat wanted = r.openSeat wanted := by
  cases wanted with
  | some seat =>
      simp only [SeatBook.openSeat, Roster.openSeat, h.places, Roster.places, List.getElem?_map]
      rcases r.seats[seat]? with _ | _ | x <;> rfl
  | none =>
      have hopen : (Option.isNone ∘ Option.map Player.id) = Option.isNone :=
        funext fun o => by cases o <;> rfl
      have hfind : b.places.findIdx? Option.isNone = r.seats.findIdx? Option.isNone := by
        rw [h.places, Roster.places, List.findIdx?_map, hopen]
      cases hfound : r.seats.findIdx? Option.isNone <;>
        simp only [SeatBook.openSeat, Roster.openSeat, hfind, hfound]

theorem Copies.inSeatOrder (h : b.Copies r) : b.inSeatOrder = r.players := by
  have hlook : ∀ x ∈ r.players, (b.guests.get? ∘ Player.id) x = some x := fun x hx =>
    (h.guests _).trans ((Roster.get?_eq_some_iff h.valid).mpr ⟨hx, rfl⟩)
  rw [SeatBook.inSeatOrder, h.places, Roster.places_filterMap, Roster.ids, List.filterMap_map,
    List.filterMap_congr hlook, List.filterMap_some]

theorem Copies.funded (h : b.Copies r) : b.funded = r.funded := by
  rw [SeatBook.funded, h.inSeatOrder, Roster.funded]

theorem Copies.following (h : b.Copies r) (seat : SeatIndex) :
    b.following seat = r.clockwise seat := by
  have hround : r.places.rotate (seat + 1) =
      (List.range' 1 r.places.length).map
        fun k => r.places[(seat + k) % r.places.length]?.join := by
    refine List.ext_getElem (by simp) fun i hi _ => ?_
    have hlt : i < r.places.length := by simpa using hi
    have hplace : (seat + (i + 1)) % r.places.length < r.places.length :=
      Nat.mod_lt _ (Nat.zero_lt_of_lt hlt)
    rw [List.getElem_rotate, List.getElem_map, List.getElem_range', Nat.one_mul, Nat.add_comm 1 i,
      Nat.add_left_comm, List.getElem?_eq_getElem hplace]
    rfl
  rw [SeatBook.following, Roster.clockwise, h.places, hround, List.filterMap_map]
  rfl

theorem Copies.any_pos (h : b.Copies r) (id : PlayerId) :
    (b.guests.get? id).any (0 < ·.stack) = decide (id ∈ r.funded) := by
  rw [h.guests, Bool.eq_iff_iff, decide_eq_true_iff, Roster.mem_funded_iff h.valid,
    Roster.stack?]
  cases r.get? id <;> simp

theorem Copies.fundedAfter (h : b.Copies r) (seat : SeatIndex) :
    b.fundedAfter seat = r.fundedAfter seat := by
  rw [SeatBook.fundedAfter, Roster.fundedAfter_eq h.valid, h.following]
  exact List.find?_congr fun id _ => h.any_pos id

end Reading

/-! ## What is asked of the seats -/

section Change
variable {b : SeatBook} {r : Roster} {id : PlayerId} {name : String} {stack : Chips}
  {wanted : Option SeatIndex}

theorem copies_empty (capacity : Nat) :
    (SeatBook.empty capacity).Copies (Roster.empty capacity) where
  valid := Roster.valid_empty capacity
  places := by rw [Roster.places, Roster.empty, List.map_replicate]; rfl
  guests id := by rw [Roster.get?, Roster.players_empty]; rfl

theorem refused_unchanged (c : SeatChange) (e : TableError) (h : (b.change c).1 = .refused e) :
    (b.change c).2 = b := by
  cases c with
  | add id name stack wanted =>
      simp only [change, add] at h ⊢
      split
      · rfl
      · next hnew =>
          rw [if_neg hnew] at h
          split
          · rfl
          · next hfit =>
              rw [if_neg hfit] at h
              cases hs : b.openSeat wanted with
              | error e' => rfl
              | ok seat =>
                  rw [hs] at h
                  cases h
  | remove id =>
      simp only [change, remove] at h ⊢
      cases hx : b.guests.get? id with
      | none => rfl
      | some x =>
          rw [hx] at h
          cases h
  | setStack id stack => cases h

/-- Whoever is refused a seat is told the same reason by both. -/
theorem Copies.add_of_error {e : TableError} (h : b.Copies r)
    (hadd : r.add id name stack wanted = .error e) :
    b.add id name stack wanted = (.refused e, b) := by
  rw [SeatBook.add, h.contains, h.countedChips, h.openSeat]
  unfold Roster.add at hadd
  split at hadd
  · next hin =>
      cases hadd
      rw [if_pos hin]
  · next hnew =>
      rw [if_neg hnew]
      split at hadd
      · next hmany =>
          cases hadd
          rw [if_pos hmany]
      · next hfit =>
          rw [if_neg hfit]
          cases hs : r.openSeat wanted with
          | error e' =>
              rw [hs] at hadd
              cases hadd
              rfl
          | ok seat =>
              rw [hs] at hadd
              cases hadd

/-- Whoever gets a seat is written into both books. -/
theorem Copies.add_of_ok {seat : SeatIndex} {r' : Roster} (h : b.Copies r)
    (hadd : r.add id name stack wanted = .ok (seat, r')) :
    b.add id name stack wanted = (.added seat,
      { places := b.places.set seat (some id)
        guests := b.guests.insert id ⟨id, name, stack, seat⟩ }) := by
  obtain ⟨hnew, hfit, hseat, -⟩ := Roster.add_ok hadd
  rw [SeatBook.add, h.contains, h.countedChips, h.openSeat, hnew, hseat,
    if_neg Bool.false_ne_true, if_neg (Nat.not_lt.mpr hfit)]

theorem Copies.added {seat : SeatIndex} {r' : Roster} (h : b.Copies r)
    (hadd : r.add id name stack wanted = .ok (seat, r')) :
    Copies { places := b.places.set seat (some id)
             guests := b.guests.insert id ⟨id, name, stack, seat⟩ } r' := by
  obtain ⟨-, -, hv, -, -, hperm⟩ := Roster.add_spec h.valid hadd
  obtain ⟨-, -, -, hset⟩ := Roster.add_ok hadd
  refine ⟨hv, ?_, fun q => ?_⟩
  · rw [hset, h.places, Roster.places, Roster.places, List.map_set]
    rfl
  · rw [NatMap.get?_insert]
    split
    · next hq =>
        have hin := hperm.mem_iff.mpr List.mem_cons_self
        exact ((Roster.get?_eq_some_iff hv).mpr ⟨hin, hq.symm⟩).symm
    · next hq => rw [h.guests, Roster.get?_of_perm_cons h.valid hv hperm hq]

/-- Whoever stands up is struck out of both books. -/
theorem Copies.removed {x : Player} {r' : Roster} (h : b.Copies r)
    (hremove : r.remove id = .ok (x, r')) :
    Copies { places := b.places.set x.seat none, guests := b.guests.erase id } r' := by
  obtain ⟨hget, hv, -, -, hperm⟩ := Roster.remove_spec h.valid hremove
  have hid : x.id = id := ((Roster.get?_eq_some_iff h.valid).mp hget).2
  refine ⟨hv, ?_, fun q => ?_⟩
  · simp only [Roster.remove, hget, Except.ok.injEq, Prod.mk.injEq, true_and] at hremove
    rw [← hremove, h.places, Roster.places, Roster.places, List.map_set]
    rfl
  · rw [NatMap.get?_erase]
    split
    · next hq =>
        have hgone := Roster.not_mem_ids_remove h.valid hremove
        rw [Roster.mem_ids_iff, Roster.contains, ← hq] at hgone
        exact (Option.not_isSome_iff_eq_none.mp hgone).symm
    · next hq => rw [h.guests, Roster.get?_of_perm_cons hv h.valid hperm (hid ▸ hq)]

/-- Every change is answered alike and keeps the books a copy. -/
theorem Copies.change (h : b.Copies r) (c : SeatChange) :
    (b.change c).1 = (r.change c).1 ∧ (b.change c).2.Copies (r.change c).2 := by
  cases c with
  | add id name stack wanted =>
      rw [SeatBook.change, Roster.change]
      cases hadd : r.add id name stack wanted with
      | error e =>
          rw [h.add_of_error hadd]
          exact ⟨rfl, h⟩
      | ok s =>
          rw [h.add_of_ok hadd]
          exact ⟨rfl, h.added hadd⟩
  | remove id =>
      rw [SeatBook.change, Roster.change, SeatBook.remove, h.guests]
      cases hget : r.get? id with
      | none =>
          rw [Roster.remove, hget]
          exact ⟨rfl, h⟩
      | some x =>
          have hremove : r.remove id = .ok (x, { r with seats := r.seats.set x.seat none }) := by
            rw [Roster.remove, hget]
          rw [hremove]
          exact ⟨rfl, h.removed hremove⟩
  | setStack id stack =>
      refine ⟨congrArg SeatAnswer.written (h.contains id), h.valid.setStack, ?_, fun q => ?_⟩
      · exact h.places.trans Roster.places_setStack.symm
      · exact NatMap.get?_modify.trans (by rw [h.guests, Roster.change, Roster.get?_setStack])

theorem Copies.changed (h : b.Copies r) (changes : List SeatChange) :
    (b.changed changes).Copies (r.changed changes) := by
  induction changes generalizing b r with
  | nil => exact h
  | cons c rest ih => exact ih (h.change c).2

/-- No seat is put up or taken away. -/
theorem length_places_change (b : SeatBook) (c : SeatChange) :
    (b.change c).2.places.length = b.places.length := by
  cases c with
  | add id name stack wanted =>
      rw [change, add]
      split
      · rfl
      · split
        · rfl
        · split
          · rfl
          · exact List.length_set
  | remove id =>
      rw [change, remove]
      split
      · rfl
      · exact List.length_set
  | setStack id stack => rfl

theorem length_places_changed (b : SeatBook) (changes : List SeatChange) :
    (b.changed changes).places.length = b.places.length := by
  induction changes generalizing b with
  | nil => rfl
  | cons c rest ih => exact (ih _).trans (length_places_change b c)

end Change

/-! ## Books in order -/

section Order
variable {b : SeatBook} {r : Roster} {id : PlayerId}

theorem find?_filterMap_range' {α : Type} {f : Nat → Option α} {found : α → Bool} {n : Nat}
    {a : α} : ((List.range' 1 n).filterMap f).find? found = some a ↔
      ∃ k, 1 ≤ k ∧ k ≤ n ∧ f k = some a ∧ found a = true ∧
        ∀ j, 1 ≤ j → j < k → ∀ x, f j = some x → found x = false := by
  rw [List.find?_filterMap, Option.bind_eq_some_iff]
  refine exists_congr fun k => ?_
  rw [List.find?_range'_eq_some, List.mem_range'_1]
  constructor
  · rintro ⟨⟨hk, ⟨hle, hlt⟩, hbefore⟩, ha⟩
    refine ⟨hle, by omega, ha, by simpa [ha] using hk, fun j hj hjk x hx => ?_⟩
    simpa [hx] using hbefore j hj hjk
  · rintro ⟨hle, hlt, ha, hk, hbefore⟩
    refine ⟨⟨by simpa [ha] using hk, ⟨hle, by omega⟩, fun j hj hjk => ?_⟩, ha⟩
    cases hx : f j with
    | none => rfl
    | some x => simpa using hbefore j hj hjk x hx

theorem Copies.fundedAfter_iff (h : b.Copies r) (seat : SeatIndex) :
    b.fundedAfter seat = some id ↔ ∃ k, 1 ≤ k ∧ k ≤ b.places.length ∧
      b.places[(seat + k) % b.places.length]? = some (some id) ∧ id ∈ b.funded ∧
        ∀ j, 1 ≤ j → j < k → ∀ q,
          b.places[(seat + j) % b.places.length]? = some (some q) → q ∉ b.funded := by
  rw [SeatBook.fundedAfter, SeatBook.following, find?_filterMap_range']
  simp only [h.any_pos, h.funded, Option.join_eq_some_iff, decide_eq_true_eq,
    decide_eq_false_iff_not]

theorem Copies.fundedAfter_eq_none_iff (h : b.Copies r) (seat : SeatIndex) :
    b.fundedAfter seat = none ↔ b.funded = [] := by
  rw [h.fundedAfter, h.funded]
  constructor
  · intro hnone
    by_contra hsome
    obtain ⟨p, -, hp⟩ : ∃ p ∈ r.funded, r.fundedAfter seat = some p :=
      Roster.fundedAfter_spec h.valid hsome
    rw [hnone] at hp
    cases hp
  · intro hnil
    rw [Roster.fundedAfter_eq h.valid, hnil]
    exact List.find?_eq_none.mpr fun p _ => by simp

theorem Copies.mirrors (h : b.Copies r) : b.Mirrors r where
  places := h.places
  guests := h.guests
  size := h.size
  totalChips := h.totalChips
  inSeatOrder := h.inSeatOrder
  funded := h.funded
  fundedAfter := h.fundedAfter
  answers c := (h.change c).1

theorem Copies.orderly {capacity : Nat} (h : b.Copies r) (hlength : b.places.length = capacity) :
    b.Orderly capacity where
  length := hlength
  seated id x hx := by
    rw [h.guests] at hx
    refine ⟨((Roster.get?_eq_some_iff h.valid).mp hx).2, fun i => ?_⟩
    rw [h.places, Roster.getElem?_places_iff h.valid, hx]
    exact ⟨fun ⟨y, hy, hseat⟩ => by cases hy; exact hseat.symm, fun hi => ⟨x, rfl, hi.symm⟩⟩
  occupied i id hi := by
    rw [h.places, Roster.getElem?_places_iff h.valid] at hi
    simpa only [h.guests] using hi
  size := by
    rw [h.size, h.places, Roster.size, Roster.players, List.length_filterMap_eq_countP,
      Roster.places, List.countP_map]
    exact List.countP_congr fun o _ => by cases o <;> simp
  inSeatOrder := by
    rw [h.inSeatOrder]
    refine ⟨h.valid.players_ascending, fun x => ?_⟩
    rw [h.guests, Roster.get?_eq_some_iff h.valid]
    exact (and_iff_left rfl).symm
  funded := by
    refine ⟨List.filter_sublist.map _, fun id => ?_⟩
    rw [h.funded, Roster.mem_funded_iff h.valid, h.guests, Roster.stack?]
    cases r.get? id <;> simp
  fundedAfter seat id := hlength ▸ h.fundedAfter_iff seat
  nobody := h.fundedAfter_eq_none_iff
  refused := refused_unchanged

/-- Whatever was asked of a table with so many seats, its books are in order and say the same as
the roster. -/
theorem seats_and_guests_agree (capacity : Nat) (changes : List SeatChange) :
    ((SeatBook.empty capacity).changed changes).Orderly capacity ∧
      ((SeatBook.empty capacity).changed changes).Mirrors
        ((Roster.empty capacity).changed changes) := by
  have hcopies := (copies_empty capacity).changed changes
  have hlength := (length_places_changed (SeatBook.empty capacity) changes).trans
    List.length_replicate
  exact ⟨hcopies.orderly hlength, hcopies.mirrors⟩

example :
    let b := (SeatBook.empty 4).changed [.add 1 "a" 100 (some 3), .add 2 "b" 0 none,
      .add 3 "c" 40 none, .add 3 "d" 5 none, .remove 3, .setStack 3 7]
    b.places = [some 2, none, none, some 1] ∧ b.funded = [1] ∧ b.fundedAfter 3 = some 1 := by
  decide

end Order
end SeatBook
end Holdem

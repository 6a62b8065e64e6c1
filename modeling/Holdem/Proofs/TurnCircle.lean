import Holdem.Proofs.Clockwise

/-!
# Turns go round

A turn order is a circle with one place marked. Passing the turn on or back turns the circle by one
place, giving the turn to somebody turns it to them, and taking somebody out closes the gap. Nothing
else moves. This holds whatever was done to the order before, since the mark always is on a place
of the circle as long as there is any.
-/
namespace Holdem

/-- What changes a turn order. -/
inductive Turning where
  | next
  | previous
  | setCurrent (player : PlayerId)
  | remove (player : PlayerId)
deriving Repr, DecidableEq

namespace TurnOrder

def turn (t : TurnOrder) : Turning → Except TurnError TurnOrder
  | .next => t.next.map Prod.snd
  | .previous => t.previous.map Prod.snd
  | .setCurrent p => t.setCurrent p
  | .remove p => t.remove p

/-- An order after some changes, made one after another. One that is refused leaves it as it is. -/
def turned (t : TurnOrder) (turnings : List Turning) : TurnOrder :=
  turnings.foldl (fun t turning => (t.turn turning).toOption.getD t) t

/-- Passes the turn on some times, and lists who got it. -/
def pass (t : TurnOrder) : Nat → Except TurnError (List PlayerId × TurnOrder)
  | 0 => .ok ([], t)
  | n + 1 => do
      let (met, t) ← t.pass n
      let (p, t) ← t.next
      return (met ++ [p], t)

/-- An order of different players whose pointer is on one of them, if there are any. -/
structure Pointed (t : TurnOrder) : Prop where
  nodup : t.order.Nodup
  pointer : t.order ≠ [] → t.current < t.order.length

/-- What the operations come to, seen from the player on turn. The round is the list of all players
as they come up, beginning with that player. -/
structure Circular (t : TurnOrder) : Prop where
  pointer : t.order ≠ [] → t.current < t.order.length
  once : t.lap.Nodup ∧ ∀ p, p ∈ t.lap ↔ p ∈ t.order
  next : ∀ p rest, t.lap = p :: rest → ∃ q t', t.next = .ok (q, t') ∧ t'.lap = rest ++ [p] ∧
    t'.now = .ok q ∧ t'.previous = .ok (p, t)
  previous : ∀ front p, t.lap = front ++ [p] → ∃ q t', t.previous = .ok (p, t') ∧
    t'.lap = p :: front ∧ t'.now = .ok p ∧ t.now = .ok q ∧ t'.next = .ok (q, t)
  round : t.pass t.size = .ok (t.lap.rotate 1, t)
  setCurrent : ∀ before p after, t.lap = before ++ p :: after →
    ∃ t', t.setCurrent p = .ok t' ∧ t'.lap = p :: (after ++ before)
  remove : ∀ before p after, t.lap = before ++ p :: after →
    ∃ t', t.remove p = .ok t' ∧ t'.lap = before ++ after ∧ t'.order = t.order.erase p ∧
      ∀ q rest, before ++ after = q :: rest → t'.now = .ok q
  nextTo : ∀ before p after, t.order = before ++ p :: after → ∀ i, ∃ q rest,
    after ++ (before ++ [p]) = q :: rest ∧ ({ t with current := i } : TurnOrder).nextTo p = .ok q
  empty : t.order = [] → t.next = .error .empty ∧ t.previous = .error .empty
  unknown : ∀ p ∉ t.order, t.setCurrent p = .error (.notFound p) ∧
    t.remove p = .error (.notFound p) ∧ t.nextTo p = .error (.notFound p)
  refused : ∀ turning e, t.turn turning = .error e → t.turned [turning] = t

section Places
variable {t t' : TurnOrder} {p q : PlayerId} {rest front before after : List PlayerId} {i : Nat}

/-! ## Passing the turn -/

theorem after_lt (h : i < t.order.length) : t.after i < t.order.length :=
  Nat.mod_lt _ (Nat.zero_lt_of_lt h)

theorem before_lt (h : i < t.order.length) : t.before i < t.order.length :=
  Nat.mod_lt _ (Nat.zero_lt_of_lt h)

theorem before_after (h : i < t.order.length) : t.before (t.after i) = i := by
  unfold TurnOrder.before TurnOrder.after
  rcases Nat.lt_or_ge (i + 1) t.order.length with hlt | hge
  · rw [Nat.mod_eq_of_lt hlt, show i + 1 + t.order.length - 1 = i + t.order.length by omega,
      Nat.add_mod_right, Nat.mod_eq_of_lt h]
  · rw [show i + 1 = t.order.length by omega, Nat.mod_self, Nat.mod_eq_of_lt] <;> omega

theorem after_before (h : i < t.order.length) : t.after (t.before i) = i := by
  unfold TurnOrder.before TurnOrder.after
  rw [Nat.mod_add_mod, show i + t.order.length - 1 + 1 = i + t.order.length by omega,
    Nat.add_mod_right, Nat.mod_eq_of_lt h]

/-- The turn can be moved to anybody. -/
theorem moveTo_of_lt (h : i < t.order.length) :
    ∃ p, t.moveTo i = .ok (p, { t with current := i }) ∧
      ({ t with current := i } : TurnOrder).now = .ok p := by
  obtain ⟨p, -, hok, -⟩ := player_of_lt h
  exact ⟨p, by rw [moveTo, hok]; rfl, hok⟩

/-- The round begins with the player on turn. -/
theorem now_eq_ok_iff_lap (h : t.current < t.order.length) :
    t.now = .ok p ↔ ∃ rest, t.lap = p :: rest := by
  rw [now_eq_ok_iff, lap_eq_rotate, ← List.head?_rotate h, List.head?_eq_some_iff]

/-- From one place to the next the round turns by one. -/
theorem lap_after (t : TurnOrder) (i : Nat) :
    ({ t with current := t.after i } : TurnOrder).lap =
      ({ t with current := i } : TurnOrder).lap.rotate 1 := by
  rw [lap_eq_rotate, lap_eq_rotate, List.rotate_rotate]
  exact List.rotate_mod _ _

/-- Passing the turn on puts whoever had it last in the round, and passing it back undoes that. -/
theorem next_of_lap (hi : t.current < t.order.length) (hlap : t.lap = p :: rest) :
    ∃ q t', t.next = .ok (q, t') ∧ t'.lap = rest ++ [p] ∧ t'.now = .ok q ∧
      t'.previous = .ok (p, t) := by
  obtain ⟨q, hmove, hnow⟩ := moveTo_of_lt (after_lt hi)
  obtain ⟨p', hback, hnow'⟩ := moveTo_of_lt hi
  obtain rfl : p' = p := by
    obtain ⟨l, hl⟩ := (now_eq_ok_iff_lap hi).mp hnow'
    rw [hlap] at hl
    exact (List.cons.inj hl).1.symm
  refine ⟨q, _, hmove, ?_, hnow, ?_⟩
  · rw [lap_after, hlap, List.rotate_cons_succ, List.rotate_zero]
  · show moveTo t (t.before (t.after t.current)) = _
    rw [before_after hi]
    exact hback

/-- Passing the turn back brings the last of the round to its front, and passing it on undoes
that. -/
theorem previous_of_lap (hi : t.current < t.order.length) (hlap : t.lap = front ++ [p]) :
    ∃ q t', t.previous = .ok (p, t') ∧ t'.lap = p :: front ∧ t'.now = .ok p ∧ t.now = .ok q ∧
      t'.next = .ok (q, t) := by
  have hi' := before_lt hi
  obtain ⟨p', hmove, hnow⟩ := moveTo_of_lt hi'
  obtain ⟨q, hon, hnow'⟩ := moveTo_of_lt hi
  obtain ⟨l, hl⟩ := (now_eq_ok_iff_lap (t := { t with current := t.before t.current }) hi').mp hnow
  have hround : l ++ [p'] = front ++ [p] := by
    have hturn := lap_after t (t.before t.current)
    rw [after_before hi, hl, List.rotate_cons_succ, List.rotate_zero] at hturn
    exact hturn.symm.trans hlap
  obtain ⟨rfl, hp⟩ := List.append_inj' hround rfl
  obtain rfl := List.singleton_inj.mp hp
  refine ⟨q, _, hmove, hl, hnow, hnow', ?_⟩
  show moveTo t (t.after (t.before t.current)) = _
  rw [after_before hi]
  exact hon

/-- The turn is passed on to one after another of the round. -/
theorem pass_of_le (hi : t.current < t.order.length) {n : Nat} (hn : n ≤ t.order.length) :
    t.pass n = .ok ((t.lap.rotate 1).take n,
      { t with current := (t.current + n) % t.order.length }) := by
  induction n with
  | zero =>
      rw [pass, List.take_zero, Nat.add_zero, Nat.mod_eq_of_lt hi]
  | succ n ih =>
      let mid : TurnOrder := { t with current := (t.current + n) % t.order.length }
      have hmid : mid.current < mid.order.length := Nat.mod_lt _ (Nat.zero_lt_of_lt hi)
      obtain ⟨q, hmove, hnow⟩ := moveTo_of_lt (after_lt hmid)
      have hplace : mid.after mid.current = (t.current + (n + 1)) % t.order.length :=
        Nat.mod_add_mod _ _ _
      have hround : (t.lap.rotate 1)[n]? = some q := by
        rw [lap_eq_rotate, List.rotate_rotate, List.getElem?_rotate hn,
          ← now_eq_ok_iff.mp hnow, hplace, Nat.add_comm n, Nat.add_assoc, Nat.add_comm 1]
      have hnext : mid.next =
          .ok (q, { t with current := (t.current + (n + 1)) % t.order.length }) :=
        hmove.trans (by rw [hplace])
      rw [pass, ih (Nat.le_of_succ_le hn), List.take_add_one, hround]
      simp only [bind, Except.bind, pure, Except.pure]
      rw [show ({ t with current := (t.current + n) % t.order.length } : TurnOrder) = mid from rfl,
        hnext]
      rfl

/-- After a full round everybody has had the turn once, and it is where it was. -/
theorem pass_size (hi : t.order ≠ [] → t.current < t.order.length) :
    t.pass t.size = .ok (t.lap.rotate 1, t) := by
  have hlen : (t.lap.rotate 1).length = t.size := (List.length_rotate _ _).trans length_lap
  by_cases hnil : t.order = []
  · have hsize : t.size = 0 := congrArg List.length hnil
    rw [hsize, pass, List.length_eq_zero_iff.mp (hlen.trans hsize)]
  · rw [pass_of_le (hi hnil) (n := t.size) (Nat.le_refl _), ← hlen, List.take_length, hlen, size,
      Nat.add_mod_right, Nat.mod_eq_of_lt (hi hnil)]

/-! ## Giving the turn to somebody -/

/-- The round then begins with them and goes on as it did. -/
theorem setCurrent_of_lap (hn : t.order.Nodup) (hlap : t.lap = before ++ p :: after) :
    ∃ t', t.setCurrent p = .ok t' ∧ t'.lap = p :: (after ++ before) := by
  have hp : p ∈ t.order := mem_lap.mp (by rw [hlap]; simp)
  obtain ⟨i, hset, -⟩ := setCurrent_of_mem hp
  refine ⟨_, hset, lap_setCurrent hn (i := t.current + before.length) ?_ hset⟩
  rw [← List.rotate_rotate, ← lap_eq_rotate, hlap, List.rotate_append_length_eq]
  rfl

/-! ## Taking somebody out -/

/-- The round is cut where the turn is. -/
theorem lap_of_split (l m : List PlayerId) :
    ({ order := l ++ m, current := l.length } : TurnOrder).lap = m ++ l := by
  rw [lap_eq_rotate, List.rotate_append_length_eq]

theorem remove_eq (hp : p ∈ t.order) (current : Nat)
    (hcurrent : (if t.order.idxOf p < t.current then t.current - 1 else t.current) = current) :
    t.remove p = .ok
      { order := t.order.erase p
        current := if (t.order.erase p).length ≤ current then 0 else current } := by
  rw [remove, place_eq_idxOf hp]
  simp only [Except.map, List.eraseIdx_idxOf_eq_erase, hcurrent]

/-- Somebody who had the turn before whoever has it now is taken out. -/
theorem remove_of_mem_left {l m : List PlayerId} (hm : m ≠ []) (hp : p ∈ l) :
    ({ order := l ++ m, current := l.length } : TurnOrder).remove p =
      .ok { order := l.erase p ++ m, current := (l.erase p).length } := by
  have hplace : (l ++ m).idxOf p < l.length := by
    rw [List.idxOf_append_of_mem hp]
    exact List.idxOf_lt_length_iff.mpr hp
  have hmany : ¬ (l.erase p ++ m).length ≤ l.length - 1 := by
    have hpos := List.length_pos_iff.mpr hm
    rw [List.length_append, List.length_erase_of_mem hp]
    omega
  rw [remove_eq (List.mem_append_left m hp) (l.length - 1) (if_pos hplace),
    List.erase_append_left m hp, if_neg hmany, List.length_erase_of_mem hp]

/-- Whoever has the turn or gets it later is taken out. -/
theorem remove_of_mem_right {l m : List PlayerId} (hl : p ∉ l) (hp : p ∈ m) :
    ({ order := l ++ m, current := l.length } : TurnOrder).remove p =
      .ok { order := l ++ m.erase p, current := if m.erase p = [] then 0 else l.length } := by
  have hplace : ¬ (l ++ m).idxOf p < l.length := by
    rw [List.idxOf_append_of_notMem hl]
    exact Nat.not_lt.mpr (Nat.le_add_right _ _)
  have hlast : (l ++ m.erase p).length ≤ l.length ↔ m.erase p = [] := by
    rw [List.length_append, ← List.length_eq_zero_iff]
    omega
  rw [remove_eq (List.mem_append_right l hp) l.length (if_neg hplace), List.erase_append_right m hl]
  simp only [hlast]

/-- Nobody else moves in the round when somebody is taken out. -/
theorem remove_of_lap (hn : t.order.Nodup) (hi : t.current < t.order.length) (hp : p ∈ t.order) :
    ∃ t', t.remove p = .ok t' ∧ t'.lap = t.lap.erase p ∧ t'.order = t.order.erase p := by
  obtain ⟨order, current⟩ := t
  obtain ⟨l, m, rfl, rfl⟩ : ∃ l m, order = l ++ m ∧ current = l.length :=
    ⟨order.take current, order.drop current, (List.take_append_drop ..).symm,
      (List.length_take_of_le (Nat.le_of_lt hi)).symm⟩
  have hm : m ≠ [] := by
    rintro rfl
    simp at hi
  rw [lap_of_split]
  by_cases hl : p ∈ l
  · have hout : p ∉ m := fun hin => (List.nodup_append.mp hn).2.2 p hl p hin rfl
    refine ⟨_, remove_of_mem_left hm hl, ?_, (List.erase_append_left m hl).symm⟩
    rw [lap_of_split, List.erase_append_right l hout]
  · have hin := (List.mem_append.mp hp).resolve_left hl
    refine ⟨_, remove_of_mem_right hl hin, ?_, (List.erase_append_right m hl).symm⟩
    rw [List.erase_append_left l hin]
    split
    · next hnone =>
        rw [hnone, lap_eq_rotate, List.append_nil, List.rotate_zero]
        rfl
    · exact lap_of_split l (m.erase p)

/-! ## Whatever was done before -/

theorem pointed_of_moveTo (ht : t.Pointed) (h : (t.moveTo i).map Prod.snd = .ok t') :
    t'.Pointed := by
  cases hplayer : t.player i with
  | error e =>
      rw [moveTo, hplayer] at h
      cases h
  | ok p =>
      rw [moveTo, hplayer] at h
      cases h
      have hat := now_eq_ok_iff (t := { t with current := i }).mp hplayer
      exact ⟨ht.nodup, fun _ => (List.getElem?_eq_some_iff.mp hat).1⟩

/-- After every operation that is not refused the pointer is on a player, if there are any. -/
theorem pointed_of_turn {turning : Turning} (ht : t.Pointed) (h : t.turn turning = .ok t') :
    t'.Pointed := by
  cases turning with
  | next => exact pointed_of_moveTo ht h
  | previous => exact pointed_of_moveTo ht h
  | setCurrent p =>
      by_cases hp : p ∈ t.order
      · obtain ⟨i, hset, hi, -⟩ := setCurrent_of_mem hp
        cases hset.symm.trans h
        exact ⟨ht.nodup, fun _ => hi⟩
      · rw [turn, setCurrent, place_of_not_mem hp] at h
        cases h
  | remove p =>
      by_cases hp : p ∈ t.order
      · obtain ⟨current, hcurrent⟩ : ∃ c,
            (if t.order.idxOf p < t.current then t.current - 1 else t.current) = c := ⟨_, rfl⟩
        cases (remove_eq hp current hcurrent).symm.trans h
        refine ⟨ht.nodup.erase p, fun hsome => ?_⟩
        have hpos := List.length_pos_iff.mpr hsome
        dsimp only at hpos ⊢
        split <;> omega
      · rw [turn, remove, place_of_not_mem hp] at h
        cases h

theorem Pointed.turned (ht : t.Pointed) (turnings : List Turning) :
    (t.turned turnings).Pointed := by
  induction turnings generalizing t with
  | nil => exact ht
  | cons turning rest ih =>
      refine ih (t := (t.turn turning).toOption.getD t) ?_
      cases h : t.turn turning with
      | error e => exact ht
      | ok t' => exact pointed_of_turn ht h

theorem Pointed.nodup_lap (ht : t.Pointed) : t.lap.Nodup := by
  rw [lap_eq_rotate]
  exact List.nodup_rotate.mpr ht.nodup

theorem Pointed.lt (ht : t.Pointed) (hp : p ∈ t.lap) : t.current < t.order.length :=
  ht.pointer (List.ne_nil_of_mem (mem_lap.mp hp))

theorem Pointed.circular (ht : t.Pointed) : t.Circular where
  pointer := ht.pointer
  once := ⟨ht.nodup_lap, fun _ => mem_lap⟩
  next p rest hlap := next_of_lap (ht.lt (p := p) (by rw [hlap]; simp)) hlap
  previous front p hlap := previous_of_lap (ht.lt (p := p) (by rw [hlap]; simp)) hlap
  round := pass_size ht.pointer
  setCurrent before p after hlap := setCurrent_of_lap ht.nodup hlap
  remove before p after hlap := by
    have hp : p ∈ t.lap := by rw [hlap]; simp
    have hbefore : p ∉ before := fun hin =>
      (List.nodup_append.mp (hlap ▸ ht.nodup_lap)).2.2 p hin p List.mem_cons_self rfl
    obtain ⟨t', hremove, hlap', horder⟩ := remove_of_lap ht.nodup (ht.lt hp) (mem_lap.mp hp)
    have hround : t'.lap = before ++ after := by
      rw [hlap', hlap, List.erase_append_right _ hbefore, List.erase_cons_head]
    refine ⟨t', hremove, hround, horder, fun q rest hrest => ?_⟩
    have hturn : t.turn (.remove p) = .ok t' := hremove
    have hpointed : t'.Pointed := pointed_of_turn ht hturn
    have hq := hround.trans hrest
    exact (now_eq_ok_iff_lap (hpointed.lt (p := q) (by rw [hq]; simp))).mpr ⟨rest, hq⟩
  nextTo before p after horder i := by
    have hp : p ∈ t.order := by rw [horder]; simp
    have hbefore : p ∉ before := fun hin =>
      (List.nodup_append.mp (horder ▸ ht.nodup)).2.2 p hin p List.mem_cons_self rfl
    obtain ⟨q, -, hnext⟩ := nextTo_of_mem (t := { t with current := i }) hp
    obtain ⟨rest, hleft⟩ := leftOf_of_nextTo (t := { t with current := i }) hp hnext
    refine ⟨q, rest, ?_, hnext⟩
    rw [← hleft, ← leftOf_append_cons hbefore, ← horder]
  empty hnone := by
    obtain ⟨order, current⟩ := t
    obtain rfl : order = [] := hnone
    exact ⟨rfl, rfl⟩
  unknown p hp := by
    rw [TurnOrder.setCurrent, TurnOrder.remove, TurnOrder.nextTo, place_of_not_mem hp]
    exact ⟨rfl, rfl, rfl⟩
  refused turning e h := by
    rw [TurnOrder.turned, List.foldl_cons, h]
    rfl

/-- Whatever was done to a turn order of different players, turns go round in it. -/
theorem turns_go_round (players : List PlayerId) (hn : players.Nodup) (turnings : List Turning) :
    (({ order := players } : TurnOrder).turned turnings).Circular :=
  Pointed.circular (Pointed.turned ⟨hn, fun h => List.length_pos_iff.mpr h⟩ turnings)

theorem turns_go_round_closing_gaps :
    [1, 2, 3, 4].Nodup ∧
      ({ order := [1, 2, 3, 4] } : TurnOrder).turned
        [.next, .next, .remove 3, .previous, .setCurrent 9, .setCurrent 4, .remove 4] =
          ⟨[1, 2], 0⟩ ∧
      (({ order := [1, 2, 3, 4] } : TurnOrder).turned
        [.next, .next, .remove 3, .previous, .setCurrent 9, .setCurrent 4, .remove 4]).Circular :=
  ⟨by decide, by decide, turns_go_round [1, 2, 3, 4] (by decide) _⟩

end Places
end TurnOrder
end Holdem

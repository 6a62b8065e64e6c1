import Holdem.TurnOrder
import Mathlib.Data.List.Nodup

/-!
# Whose turn it is

Turns pass among the players of the order and nobody else. Taking a player out leaves the others
in their order, and the turn with whoever had it unless that was the player taken out.
-/
namespace Holdem.TurnOrder
variable {t : TurnOrder} {p q : PlayerId}

theorem now_eq_ok_iff : t.now = .ok p ↔ t.order[t.current]? = some p := by
  unfold now player
  split
  · next h => simp [h]
  · next h => simp [h]

theorem mem_lap : p ∈ t.lap ↔ p ∈ t.order := by
  have h : t.order.take (t.current % t.order.length) ++ t.order.drop (t.current % t.order.length) =
      t.order := List.take_append_drop _ _
  rw [lap, List.mem_append, or_comm, ← List.mem_append, h]

theorem length_lap : t.lap.length = t.order.length := by
  rw [lap, List.length_append, List.length_drop, List.length_take]
  omega

/-- The turn can be passed on when there is anybody to pass it to. -/
theorem next_of_pos (h : 0 < t.order.length) :
    ∃ q i, t.next = .ok (q, { t with current := i }) ∧ i < t.order.length := by
  obtain ⟨q, _, hok, _⟩ := player_of_lt (t := t) (Nat.mod_lt (t.current + 1) h)
  exact ⟨q, t.after t.current, by rw [next, moveTo, after, hok]; rfl, Nat.mod_lt _ h⟩

theorem order_next {t' : TurnOrder} (h : t.next = .ok (q, t')) :
    t'.order = t.order := by
  unfold next moveTo at h
  cases hplayer : t.player (t.after t.current) with
  | error e => rw [hplayer] at h; cases h
  | ok q => rw [hplayer] at h; cases h; rfl

theorem eraseIdx_eq_filter {l : List PlayerId} {i : Nat} (hn : l.Nodup) (hi : l[i]? = some p) :
    l.eraseIdx i = l.filter (· ≠ p) := by
  obtain ⟨hlt, hip⟩ := List.getElem?_eq_some_iff.mp hi
  have he : l.erase p = l.eraseIdx i := by
    rw [← hip]
    exact hn.erase_getElem i hlt
  rw [← he, hn.erase_eq_filter]
  exact List.filter_congr fun x _ => by simp [bne, beq_eq_decide]

/-- Taking a player out of the order. -/
theorem remove_of_mem (hn : t.order.Nodup) (hp : p ∈ t.order) :
    ∃ i, t.remove p = .ok ⟨t.order.filter (· ≠ p), i⟩ ∧
      (1 < t.order.length → i < (t.order.filter (· ≠ p)).length) ∧
      ∀ q, t.now = .ok q → q ≠ p → (⟨t.order.filter (· ≠ p), i⟩ : TurnOrder).now = .ok q := by
  obtain ⟨i, hi, hlt, hip⟩ := place_of_mem hp
  have he := eraseIdx_eq_filter hn hip
  have hlen : (t.order.filter (· ≠ p)).length = t.order.length - 1 := by
    rw [← he, List.length_eraseIdx_of_lt hlt]
  obtain ⟨current, hcurrent⟩ : ∃ c, (if i < t.current then t.current - 1 else t.current) = c :=
    ⟨_, rfl⟩
  have hok : t.remove p =
      .ok ⟨t.order.filter (· ≠ p), if t.order.length - 1 ≤ current then 0 else current⟩ := by
    rw [remove, hi]
    simp only [Except.map, he, hlen, hcurrent]
  refine ⟨_, hok, fun hone => ?_, fun q hq hne => ?_⟩
  · rw [hlen]
    split <;> omega
  · rw [now_eq_ok_iff] at hq ⊢
    have hcur : t.current < t.order.length := (List.getElem?_eq_some_iff.mp hq).1
    have hic : i ≠ t.current := fun h => hne (Option.some.inj (by rw [← hq, ← h, hip]))
    -- Places before the one vacated keep their number, those after it move up by one.
    have hplace : ¬ t.order.length - 1 ≤ current := by
      rw [← hcurrent]
      split <;> omega
    have hkept : (t.order.eraseIdx i)[current]? = t.order[t.current]? := by
      rw [List.getElem?_eraseIdx, ← hcurrent]
      by_cases hci : i < t.current
      · simp only [if_pos hci]
        rw [if_neg (by omega), Nat.sub_add_cancel (by omega)]
      · simp only [if_neg hci]
        rw [if_pos (by omega)]
    rw [if_neg hplace]
    simp only
    rw [← he, hkept, hq]

end Holdem.TurnOrder

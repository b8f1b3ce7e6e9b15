import ScrabbleMagyar.Engine.Bounds
import ScrabbleMagyar.Foundations.Best

/-!
# The settlement

What the end of a game makes of the scores, seat by seat (`score_settle`), and who wins: the
players with the best final score (`endGame_winners`).
-/

namespace ScrabbleMagyar

namespace Game

/-! ## The scores -/

theorem handValue_settle (players : List Player) (finisher : Option ℕ) :
    (settle players finisher).map Player.handValue = players.map Player.handValue :=
  settle_map (h := Player.handValue) (fun _ _ => rfl) players finisher

/-- A player whose tiles in hand have been taken off the score. -/
def docked (p : Player) : Player := { p with score := p.score - p.handValue }

theorem settle_none (players : List Player) : settle players none = players.map docked := rfl

theorem settle_some (players : List Player) (i : ℕ) :
    settle players (some i) = (players.map docked).modify i fun p =>
      { p with score := p.score + (players.map Player.handValue).sum } := rfl

/-- The score of a seat after the settlement: its own tiles are taken off, and the finisher gets
the value of all of them. -/
theorem score_settle {players : List Player} (finisher : Option ℕ) {j : ℕ}
    (hj : j < players.length) :
    ((settle players finisher).getD j default).score =
      (players.getD j default).score - (players.getD j default).handValue +
        if finisher = some j then (players.map Player.handValue).sum else 0 := by
  have hmap : ((players.map docked).getD j default) = docked (players.getD j default) := by
    simp [List.getD_eq_getElem?_getD, hj]
  cases finisher with
  | none =>
    rw [settle_none, hmap]
    simp [docked]
  | some i =>
    by_cases hij : i = j
    · subst hij
      rw [settle_some, Lists.getD_modify_self (by simpa using hj), hmap]
      simp [docked]
    · rw [settle_some, Lists.getD_modify_of_ne hij, hmap]
      simp [docked, hij]

/-! ## The winners -/

/-- A filter for the top score of the players finds the best. -/
theorem filter_topScore (players : List Player) :
    (players.filter fun p => p.score = (players.map Player.score).max?.getD 0) =
      Best.best Player.score players := by
  cases hmax : (players.map Player.score).max? with
  | none =>
    have hnil : players = [] := by simpa using hmax
    simp [hnil]
  | some best =>
    obtain ⟨hmem, hle⟩ := List.max?_eq_some_iff.mp hmax
    exact Best.filter_eq_best hmem fun p hp => hle _ (List.mem_map_of_mem hp)

theorem endGame_winners (g : Game) (finisher : Option ℕ) :
    (g.endGame finisher).winners = Best.best Player.score (g.endGame finisher).players := by
  rw [endGame_players, ← filter_topScore]
  rw [endGame_rest]

end Game

end ScrabbleMagyar

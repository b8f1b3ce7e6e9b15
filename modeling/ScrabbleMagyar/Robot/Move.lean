import ScrabbleMagyar.Engine.Board

/-!
# The moves of a robot

The results of the search and of the decision of a robot (`robot/ai.rs`).
-/

namespace ScrabbleMagyar

namespace Robot

/-- A placement with the words it forms and its full score. -/
structure Move where
  tiles : List Placed
  words : List Word
  score : ℤ
  deriving DecidableEq

/-- What a robot does with its turn. -/
inductive Action
  | place (tiles : List Placed) (words : List Word) (score : ℤ)
  | exchange (indices : List ℕ)
  | pass
  deriving DecidableEq

end Robot

end ScrabbleMagyar

import Mathlib.Data.List.FinRange
import Mathlib.Data.Fintype.Basic
import Mathlib.Tactic.Common

/-!
# Tiles and the bag

The Hungarian tile set, the digraph rule and the bag (`engine/tiles.rs`). A tile is its index
in `tileDistribution`, as in the source; the bound of the index is part of the type, so the
table lookups are total. Words and tile texts are lists of characters.

Shuffling is an input of the model: a `Shuffle` is any rearrangement of lists.
-/

namespace ScrabbleMagyar

/-- The text of a word or of a tile. -/
abbrev Word := List Char

/-- `(letter, value, count)`; entry 0 is the blank tile. -/
def tileDistribution : List (Word × ℕ × ℕ) :=
  [([], 0, 2),
   (['A'], 1, 6),
   (['E'], 1, 6),
   (['K'], 1, 6),
   (['T'], 1, 5),
   (['Á'], 1, 4),
   (['L'], 1, 4),
   (['N'], 1, 4),
   (['R'], 1, 4),
   (['I'], 1, 3),
   (['M'], 1, 3),
   (['O'], 1, 3),
   (['S'], 1, 3),
   (['B'], 2, 3),
   (['D'], 2, 3),
   (['G'], 2, 3),
   (['Ó'], 2, 3),
   (['É'], 3, 3),
   (['H'], 3, 2),
   (['S', 'Z'], 3, 2),
   (['V'], 3, 2),
   (['F'], 4, 2),
   (['G', 'Y'], 4, 2),
   (['J'], 4, 2),
   (['Ö'], 4, 2),
   (['P'], 4, 2),
   (['U'], 4, 2),
   (['Ü'], 4, 2),
   (['Z'], 4, 2),
   (['C'], 5, 1),
   (['Í'], 5, 1),
   (['N', 'Y'], 5, 1),
   (['C', 'S'], 7, 1),
   (['Ő'], 7, 1),
   (['Ú'], 7, 1),
   (['Ű'], 7, 1),
   (['L', 'Y'], 8, 1),
   (['Z', 'S'], 8, 1),
   (['T', 'Y'], 10, 1)]

/-- A tile: its index in `tileDistribution` (0 is the blank). -/
abbrev Tile := Fin 39

namespace Tile

def blank : Tile := 0

/-- The row of the table that describes the tile. -/
def entry (t : Tile) : Word × ℕ × ℕ := tileDistribution.getD t.val ([], 0, 0)

def asStr (t : Tile) : Word := t.entry.1

def value (t : Tile) : ℕ := t.entry.2.1

/-- How many of the tile the full set holds. -/
def count (t : Tile) : ℕ := t.entry.2.2

def isBlank (t : Tile) : Bool := t == blank

/-- The tile with the given text. -/
def fromStr (text : Word) : Option Tile := (List.finRange 39).find? fun t => t.asStr == text

theorem fromStr_asStr (t : Tile) : fromStr t.asStr = some t := by
  revert t
  decide +kernel

theorem asStr_injective : Function.Injective asStr := fun s t h => by
  have := congrArg fromStr h
  simpa only [fromStr_asStr, Option.some.injEq] using this

theorem asStr_of_fromStr {text : Word} {t : Tile} (h : fromStr text = some t) :
    t.asStr = text := by
  simpa using List.find?_some h

/-- Only the blank has an empty text. -/
theorem asStr_ne_nil {t : Tile} (h : t ≠ blank) : t.asStr ≠ [] := by
  revert t
  decide +kernel

theorem value_le (t : Tile) : t.value ≤ 10 := by
  revert t
  decide +kernel

end Tile

/-- The letters that can stand on the board: every tile but the blank. -/
def letters : List Tile := (List.finRange 39).filter fun t => t ≠ Tile.blank

/-- Whether two single letters side by side spell a tile of two letters, which only its own
tile may do. -/
def formsDigraph (first second : Word) : Bool :=
  first.length == 1 && second.length == 1 &&
    tileDistribution.any fun e => e.1 == first ++ second && e.1.length == 2

/-! ## The bag -/

/-- A shuffle: any rearrangement of the list it is given. -/
structure Shuffle where
  apply : List Tile → List Tile
  perm : ∀ l, (apply l).Perm l

/-- The shuffle that leaves the order as it is. -/
def Shuffle.id : Shuffle := ⟨fun l => l, fun l => List.Perm.refl l⟩

structure TileBag where
  tiles : List Tile
  deriving DecidableEq

namespace TileBag

/-- The full set in table order. -/
def allTiles : List Tile := (List.finRange 39).flatMap fun t => List.replicate t.count t

def new (shuffle : Shuffle) : TileBag := ⟨shuffle.apply allTiles⟩

/-- Draw `count` tiles from the end of the bag, or all of them when it holds fewer. -/
def draw (bag : TileBag) (count : ℕ) : TileBag × List Tile :=
  let n := min count bag.tiles.length
  if n = 0 then (bag, [])
  else
    let at_ := bag.tiles.length - n
    (⟨bag.tiles.take at_⟩, bag.tiles.drop at_)

/-- Put tiles back and shuffle. -/
def putBack (shuffle : Shuffle) (bag : TileBag) (tiles : List Tile) : TileBag :=
  ⟨shuffle.apply (bag.tiles ++ tiles)⟩

def remaining (bag : TileBag) : ℕ := bag.tiles.length

def isEmpty (bag : TileBag) : Bool := bag.tiles.isEmpty

/-- A draw splits the bag: what stays, then what is drawn. -/
theorem draw_append (bag : TileBag) (count : ℕ) :
    (bag.draw count).1.tiles ++ (bag.draw count).2 = bag.tiles := by
  simp only [draw]
  split
  · simp
  · exact List.take_append_drop _ _

theorem length_draw (bag : TileBag) (count : ℕ) :
    (bag.draw count).2.length = min count bag.tiles.length := by
  simp only [draw]
  split
  · rename_i h
    rw [h, List.length_nil]
  · simp only [List.length_drop]
    omega

theorem putBack_perm (shuffle : Shuffle) (bag : TileBag) (tiles : List Tile) :
    (bag.putBack shuffle tiles).tiles.Perm (bag.tiles ++ tiles) :=
  shuffle.perm _

theorem new_perm (shuffle : Shuffle) : (new shuffle).tiles.Perm allTiles :=
  shuffle.perm _

/-- The set has a hundred tiles. -/
example : allTiles.length = 100 := by decide +kernel

end TileBag

end ScrabbleMagyar

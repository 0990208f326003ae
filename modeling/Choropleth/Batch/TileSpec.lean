import Choropleth.Batch.Basic
import Choropleth.Exchange
import Choropleth.Json.Reader

/-!
# Lists of tiles

A list of tiles is a JSON object: for every area type the tiles of its map, each a name and a box.

* `Tile`, `TileSpec`: tiles, and the tiles of area types;
* `TileSpec.parse`: reads a list.
-/

namespace Choropleth

/-- A box as it is written for a tile. The sides may be the wrong way round. -/
structure TileBox where
  east : Float
  north : Float
  west : Float
  south : Float
deriving DecidableEq

/-- A tile of a map. -/
structure Tile where
  name : String
  bounds : TileBox
deriving DecidableEq

/-- The tiles of area types, from the coarsest type to the finest. -/
abbrev TileSpec := Keyed AreaType (List Tile)

namespace TileBox

/-- The box of a tile with its sides the right way round. -/
def toBox (b : TileBox) : Box := Box.ofCorners ⟨b.east, b.south⟩ ⟨b.west, b.north⟩

/-- Reads the box of a tile. -/
def ofJson? (v : Json) : Option TileBox := do
  match ← v.record? ["east", "north", "west", "south"] with
  | [east, north, west, south] =>
    pure ⟨← east.number?, ← north.number?, ← west.number?, ← south.number?⟩
  | _ => none

end TileBox

namespace Tile

/-- Reads a tile. -/
def ofJson? (v : Json) : Option Tile := do
  match ← v.record? ["tilename", "bbox"] with
  | [name, bounds] => pure ⟨← name.text?, ← TileBox.ofJson? bounds⟩
  | _ => none

end Tile

namespace TileSpec

/-- The order of area types. -/
def coarser (t u : AreaType) : Bool := t.index < u.index

/-- Adds the tiles of named area types. Names that stand for one area type in different cases take
each other's place. -/
def ofNames (spec : TileSpec) : List (String × List Tile) → Except BatchError TileSpec
  | [] => .ok spec
  | (name, tiles) :: rest =>
    match AreaType.parse? name with
    | none => .error (.unknownAreaType name)
    | some t => ofNames (spec.putSorted coarser t tiles) rest

/-- Reads a list of tiles. -/
def parse (text : String) : Except BatchError TileSpec :=
  match (Json.parse? text).bind (Json.tableOf? (Json.listOf? Tile.ofJson?)) with
  | none => .error .json
  | some entries => ofNames [] (sortedTable entries)

end TileSpec
end Choropleth

import Choropleth.Condition.Basic

/-!
# Conditions as query texts

* `Condition.sql`: the text of a condition, with `?` in the place of every value;
* `Condition.select`: the query that a store runs for it.
-/

namespace Choropleth

/-- The mean radius of the earth in metres, as the query text writes it. -/
def earthRadiusText : String := "6371008.8"

namespace Test

/-- As many places as there are values, with commas between them. -/
def places (n : Nat) : String := Text.joinStrings ", " (List.replicate n "?")

/-- The text of a test. -/
def sql : Test → String
  | holds c => c.sql
  | same c d => c.sql ++ " = " ++ d.sql
  | equals c => c.sql ++ " = ?"
  | oneOf c n => c.sql ++ " IN (" ++ places n ++ ")"
  | between c => c.sql ++ " BETWEEN ? AND ?"
  | startsWith c => "starts_with(" ++ c.sql ++ ", ?)"
  | atLeast c => c.sql ++ " >= ?"
  | atMost c => c.sql ++ " <= ?"
  | withinDistance =>
    "2 * " ++ earthRadiusText ++ " * asin(least(1.0, sqrt(\n" ++
      "                            pow(sin(radians(geo.centroid_lat - ?) / 2), 2)\n" ++
      "                            + cos(radians(?)) * cos(radians(geo.centroid_lat))\n" ++
      "                            * pow(sin(radians(geo.centroid_lon - ?) / 2), 2)\n" ++
      "                        ))) <= ?"
  | meetsRing =>
    "geo.wkb_geometry IS NOT NULL\n" ++
      "                         AND ST_Intersects(ST_GeomFromWKB(geo.wkb_geometry), " ++
      "ST_GeomFromText(?))"

end Test

namespace Clause

/-- The text of a clause; alternatives stand in brackets. -/
def sql : Clause → String
  | all ts => Text.joinStrings " AND " (ts.map Test.sql)
  | any ts => "(" ++ Text.joinStrings " OR " (ts.map Test.sql) ++ ")"

end Clause

namespace Condition

/-- The text of a condition. -/
def sql (q : Condition) : String := Text.joinStrings "\nAND " (q.clauses.map Clause.sql)

/-- The part of every query that joins the observations with what they refer to. -/
def joined : String :=
  Text.joinStrings "\n"
    ["SELECT",
      "    geo.code AS geography_code,",
      "    nomis_category.long_nomis_code AS category_code,",
      "    geo_metric.metric AS value",
      "FROM geo_metric",
      "JOIN geo ON geo.id = geo_metric.geo_id",
      "JOIN geo_type ON geo_type.id = geo.type_id",
      "JOIN nomis_category ON nomis_category.id = geo_metric.category_id",
      "JOIN data_ver ON data_ver.id = geo_metric.data_ver_id"]

/-- The query for a condition. -/
def select (q : Condition) : String := joined ++ "\nWHERE " ++ q.sql

end Condition
end Choropleth

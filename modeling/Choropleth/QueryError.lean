import Choropleth.Text.Quoted

/-!
# Why queries fail

* `ClusterError`: why values cannot be divided into classes;
* `QueryError`: why a query is refused or fails;
* `QueryError.message`: the wording;
* `QueryError.isRefusal`: the failures that the request itself is to blame for.
-/

namespace Choropleth

/-- Why values cannot be divided into classes. -/
inductive ClusterError
  | noValues
  | noClusters
  | tooMany (clusters distinct : Nat)
  | notFinite
deriving DecidableEq

namespace ClusterError

/-- The wording of the error. -/
def message : ClusterError → String
  | noValues => "cannot cluster an empty set of values"
  | noClusters => "number of clusters must be at least 1"
  | tooMany clusters distinct =>
    "cannot form " ++ toString clusters ++ " clusters from " ++ toString distinct ++
      " distinct values"
  | notFinite => "values must be finite"

end ClusterError

/-- Why a query is refused or fails. -/
inductive QueryError
  /-- A token with an ellipsis is not a range of two codes. -/
  | malformedRange (token : String)
  /-- A parameter that takes single codes only has a range. -/
  | unsupportedRange (param : String)
  /-- A parameter is missing, or no number of classes. -/
  | missingParams (reason : String)
  /-- There is no area type of this name. -/
  | unknownAreaType (name : String)
  /-- The spatial filter is malformed or not available. -/
  | invalidZone (reason : String)
  /-- More observations match than the ceiling allows. -/
  | tooLarge (limit : Nat)
  /-- Areas have a value in one of two categories only. -/
  | partialContent (areaType category : String) (area : Option String)
  /-- A ratio has a zero denominator. -/
  | zeroDenominator (areaType category area : String)
  /-- The values of a category cannot be divided into classes. -/
  | clustering (areaType category : String) (cause : ClusterError)
  /-- The time for the query is up. -/
  | deadlineExceeded
  /-- The store failed. -/
  | store (reason : String)
  /-- The result could not be written down. -/
  | render (reason : String)
deriving DecidableEq

namespace QueryError

/-- The wording of the error. -/
def message : QueryError → String
  | malformedRange token => "Malformed range " ++ Text.quoted token ++ ": expected START...END"
  | unsupportedRange param => "Ranges are not accepted for " ++ param
  | missingParams reason => "Missing parameters: " ++ reason
  | unknownAreaType name => "Invalid geotype " ++ Text.quoted name
  | invalidZone reason => "Invalid spatial filter: " ++ reason
  | tooLarge limit => "Too many metrics: result exceeds " ++ toString limit
  | partialContent areaType category area =>
    "Partial content for " ++ areaType ++ " " ++ category ++
      (match area with
        | some a => " " ++ a
        | none => "")
  | zeroDenominator areaType category area =>
    "Invalid ratio for " ++ areaType ++ " " ++ category ++ ": " ++ area ++ " denominator is 0"
  | clustering areaType category cause =>
    "Clustering " ++ areaType ++ " " ++ category ++ ": " ++ cause.message
  | deadlineExceeded => "Request deadline exceeded"
  | store reason => "Store error: " ++ reason
  | render reason => "Render error: " ++ reason

/-- The request itself is to blame: asking again as the store stands would fail again. -/
def isRefusal : QueryError → Bool
  | malformedRange _ => true
  | unsupportedRange _ => true
  | missingParams _ => true
  | unknownAreaType _ => true
  | invalidZone _ => true
  | tooLarge _ => true
  | zeroDenominator .. => true
  | clustering .. => true
  | partialContent .. => false
  | deadlineExceeded => false
  | store _ => false
  | render _ => false

end QueryError
end Choropleth

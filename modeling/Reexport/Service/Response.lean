import Reexport.Batch
import Reexport.Validation

/-!
# Responses of the service

What the service answers: a status and a JSON body.
-/

namespace Reexport.Service

/-- An answer of the service. -/
structure Response where
  /-- 200 if all went well. -/
  status : Nat
  /-- What is told. -/
  body : Json

namespace Response

/-- The answer to a request that was carried out. -/
def ok (members : List (String × Json)) : Response :=
  ⟨200, .object members⟩

/-- The answer to a request that was not, with the reason. -/
def refused (status : Nat) (reason : Json) : Response :=
  ⟨status, .object [("detail", reason)]⟩

/-- The answer to a request for something that is not there. -/
def notFound (reason : String) : Response :=
  refused 404 (.string reason)

/-- The answer to a request by a method that is not the route's. -/
def wrongMethod : Response :=
  refused 405 (.string "Method Not Allowed")

/-- A complaint about a body. -/
def complaintJson (c : Complaint) : Json :=
  .object [("type", .string c.mismatch.label),
    ("loc", .array (c.place.map fun step => .string step.word)),
    ("msg", .string c.mismatch.message)]

/-- The answer to a request with a body that does not fit. -/
def invalid (complaints : List Complaint) : Response :=
  refused 422 (.array (complaints.map complaintJson))

/-- An entry. -/
def entryJson (e : Entry) : Json :=
  .object [("specifier", .string e.specifier), ("source", .string e.source),
    ("kind", .string e.kind.label), ("alias", .ofString? e.asName),
    ("exported_name", .string e.exportedName), ("is_type_only", .bool e.isTypeOnly),
    ("origin_line", .ofNat e.originLine)]

/-- The new text of a barrel and its entries. -/
def transformed (r : Transformed) : Response :=
  ok [("content", .string r.text), ("changed", .bool r.changed),
    ("exports", .array (r.entries.map entryJson))]

/-- The entries of a barrel. -/
def listed (entries : List Entry) : Response :=
  ok [("exports", .array (entries.map entryJson)), ("total", .ofNat entries.length)]

/-- What became of one barrel of a directory. -/
def resultJson (r : FileResult) : Json :=
  .object [("relative_path", .string r.relativePath), ("changed", .bool r.changed),
    ("export_count", .ofNat r.exportCount), ("error", .ofString? r.error)]

/-- What became of the barrels of a directory. -/
def processed (results : List FileResult) : Response :=
  ok [("files", .array (results.map resultJson)), ("total_files", .ofNat results.length),
    ("changed_files", .ofNat (results.countP (·.changed)))]

/-- The state of the service. -/
def healthy (version : String) : Response :=
  ok [("status", .string "healthy"), ("version", .string version)]

/-- A sign of life. -/
def alive : Response :=
  ok [("alive", .bool true)]

end Response

end Reexport.Service

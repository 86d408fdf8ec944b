import WorkflowAudit.Json.Decode

namespace WorkflowAudit.Audit

inductive Kind
  | repositoryListing
  | runHistory
  | fileListing
  | fileContent
  | parse
  | rule
  deriving DecidableEq, Repr

structure Diagnostic where
  repository : String
  file : Option String
  kind : Kind
  message : String
  deriving DecidableEq, Repr

namespace Kind

def name : Kind → String
  | .repositoryListing => "repository_listing"
  | .runHistory => "run_history"
  | .fileListing => "file_listing"
  | .fileContent => "file_content"
  | .parse => "parse"
  | .rule => "rule"

def all : List Kind := [.repositoryListing, .runHistory, .fileListing, .fileContent, .parse, .rule]

def toJson (k : Kind) : Json := .str k.name

def ofJson? (j : Json) : Option Kind := j.plainChoice?.bind fun name => all.find? (·.name = name)

end Kind

namespace Diagnostic

def toJson (d : Diagnostic) : Json :=
  .obj [("repository", .str d.repository), ("file", .ofOption .str d.file), ("kind", d.kind.toJson),
    ("message", .str d.message)]

def ofJson? (j : Json) : Option Diagnostic := do
  let fields ← j.record? ["repository", "file", "kind", "message"] 0
  return ⟨← Json.field? fields "repository" Json.string?,
    ← Json.nullableField? fields "file" Json.string?, ← Json.field? fields "kind" Kind.ofJson?,
    ← Json.field? fields "message" Json.string?⟩

end Diagnostic

end WorkflowAudit.Audit

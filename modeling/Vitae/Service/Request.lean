/-
Module: Vitae.Service.Request
Layer: Service
Purpose: Requests to the service: the path that a target names, and the content of a request for a
  document.
Imports: Vitae.Resume.Codec, Vitae.Service.MediaType, Vitae.Style.Codec, Vitae.Text.Search
Main exports: Request, pathOf, Request.isJson, DocumentRequest, DocumentRequest.codec
-/
import Vitae.Resume.Codec
import Vitae.Service.MediaType
import Vitae.Style.Codec
import Vitae.Text.Search

namespace Vitae.Service

open Json (Codec Field Record)

/-- A request. -/
structure Request where
  method : String
  target : String
  contentType : Option String
  body : String
deriving Repr, DecidableEq

/-- Does a character end the path of a target? -/
def endsPath (c : Char) : Bool :=
  c == '?' || c == '#'

/-- What follows the host in a target that begins with a scheme. A target that begins with a slash has
no host. -/
def afterHost (target : List Char) : List Char :=
  match target with
  | '/' :: _ => target
  | _ => match Text.after? "://".toList target with
      | some rest => rest.dropWhile fun c => c != '/' && !endsPath c
      | none => target

/-- The path that a target names. -/
def pathOf (target : String) : String :=
  let path := (afterHost target.toList).takeWhile fun c => !endsPath c
  if path.isEmpty then "/" else String.ofList path

/-- Does the header say that the body is JSON? -/
def Request.isJson (q : Request) : Bool :=
  (q.contentType.bind MediaType.read?).any MediaType.isJson

/-- What a request for a document holds. -/
structure DocumentRequest where
  data : Resume := {}
  template : Option String := none
  options : Option StyleOptions := none
deriving Repr, DecidableEq

/-- The fields of a request for a document. The resume has to be there. -/
def DocumentRequest.record : Record DocumentRequest where
  blank := {}
  fields :=
    [(Field.of "data" Resume.codec (·.data) fun x q => { q with data := x }).needed,
     .of "template" (.optional .text) (·.template) fun x q => { q with template := x },
     .of "options" (.optional StyleOptions.codec) (·.options) fun x q => { q with options := x }]

/-- Requests for documents in JSON. -/
def DocumentRequest.codec : Codec DocumentRequest :=
  DocumentRequest.record.codec

end Vitae.Service

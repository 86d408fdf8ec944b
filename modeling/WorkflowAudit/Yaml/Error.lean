namespace WorkflowAudit.Yaml

inductive Error
  | forbiddenCharacter (c : Char)
  | tabInIndentation
  | keyWithoutColon
  | entryNotAllowed
  | keyNotAllowed
  | valueNotAllowed
  | noTokenStartsWith (c : Char)
  | badDirective
  | badAnchor
  | badTag
  | badEscape
  | badBlockHeader
  | markerInQuotes
  | unexpectedColon
  | unexpectedEnd
  | expectedNode
  | expectedEntry
  | expectedKey
  | expectedDocumentStart
  | undefinedHandle (handle : String)
  | duplicateDirective
  | incompatibleVersion
  | unknownAlias (name : String)
  | tooManyAliases
  | tooDeep
  | duplicateKey
  | wrongTag (tag : String)
  | integerTooLarge
  | severalDocuments
  deriving DecidableEq, Repr

end WorkflowAudit.Yaml

import WorkflowAudit.Yaml.Error
import WorkflowAudit.Yaml.Node
import WorkflowAudit.Yaml.Token

namespace WorkflowAudit.Yaml.Node

abbrev Handles := List (String × String)

def standardHandles : Handles := [("!", "!"), ("!!", "tag:yaml.org,2002:")]

def directives (version : Bool) (handles : Handles) :
    List Token → Except Error (Handles × List Token)
  | .versionDirective major minor :: rest =>
    if version then .error .duplicateDirective
    else if major ≠ 1 || (minor ≠ 1 && minor ≠ 2) then .error .incompatibleVersion
    else directives true handles rest
  | .tagDirective handle leading :: rest =>
    if (handles.lookup handle).isSome then .error .duplicateDirective
    else directives version (handles ++ [(handle, leading)]) rest
  | rest => .ok (handles ++ standardHandles, rest)

def fullTag (handles : Handles) (handle suffix : String) : Except Error String :=
  if handle.isEmpty then .ok suffix
  else match handles.lookup handle with
    | some leading => .ok (leading ++ suffix)
    | none => .error (.undefinedHandle handle)

def props (handles : Handles) :
    List Token → Except Error (Props String × List Token)
  | .anchor a :: .tag h s :: rest => do return (⟨some a, some (← fullTag handles h s)⟩, rest)
  | .tag h s :: .anchor a :: rest => do return (⟨some a, some (← fullTag handles h s)⟩, rest)
  | .anchor a :: rest => .ok (⟨some a, none⟩, rest)
  | .tag h s :: rest => do return (⟨none, some (← fullTag handles h s)⟩, rest)
  | rest => .ok (Props.none, rest)

def endsEntry : List Token → Bool
  | .blockEntry :: _ => true
  | .blockEnd :: _ => true
  | _ => false

def endsMappingPart : List Token → Bool
  | .key :: _ => true
  | .value :: _ => true
  | .blockEnd :: _ => true
  | _ => false

def endsUnindentedEntry (ts : List Token) : Bool :=
  endsMappingPart ts || ts.head? = some .blockEntry

def endsFlowItem : List Token → Bool
  | .flowEntry :: _ => true
  | .flowSequenceEnd :: _ => true
  | _ => false

def endsFlowMember : List Token → Bool
  | .flowEntry :: _ => true
  | .flowMappingEnd :: _ => true
  | _ => false

mutual

/-- A node. `block` allows block collections; `unindented` also a sequence whose entries are not
indented, as a mapping value. `fuel` bounds the steps. -/
def node (fuel : Nat) (handles : Handles) (block unindented : Bool) (ts : List Token) :
    Except Error (Node String × List Token) :=
  match fuel with
  | 0 => .error .expectedNode
  | fuel + 1 =>
    match ts with
    | .alias name :: rest => .ok (.alias name, rest)
    | ts => do
      let (p, ts) ← props handles ts
      match ts with
      | .scalar text plain :: rest => return (.scalar p text plain, rest)
      | .flowSequenceStart :: rest =>
        let (items, rest) ← flowItems fuel handles true rest
        return (.sequence p items, rest)
      | .flowMappingStart :: rest =>
        let (entries, rest) ← flowMembers fuel handles true rest
        return (.mapping p entries, rest)
      | t :: rest =>
        if unindented && t = .blockEntry then
          let (items, rest) ← unindentedEntries fuel handles (t :: rest)
          return (.sequence p items, rest)
        else if block && t = .blockSequenceStart then
          let (items, rest) ← blockEntries fuel handles rest
          return (.sequence p items, rest)
        else if block && t = .blockMappingStart then
          let (entries, rest) ← blockMembers fuel handles rest
          return (.mapping p entries, rest)
        else if p.anchor.isSome || p.tag.isSome then return (Node.empty p, t :: rest)
        else throw .expectedNode
      | [] =>
        if p.anchor.isSome || p.tag.isSome then return (Node.empty p, []) else throw .expectedNode

def blockEntries (fuel : Nat) (handles : Handles) (ts : List Token) :
    Except Error (List (Node String) × List Token) :=
  match fuel with
  | 0 => .error .expectedEntry
  | fuel + 1 =>
    match ts with
    | .blockEntry :: ts => do
      let (item, ts) ←
        if endsEntry ts then pure (Node.empty Props.none, ts)
        else node fuel handles true false ts
      let (items, ts) ← blockEntries fuel handles ts
      return (item :: items, ts)
    | .blockEnd :: ts => .ok ([], ts)
    | _ => .error .expectedEntry

def unindentedEntries (fuel : Nat) (handles : Handles) (ts : List Token) :
    Except Error (List (Node String) × List Token) :=
  match fuel with
  | 0 => .error .expectedEntry
  | fuel + 1 =>
    match ts with
    | .blockEntry :: ts => do
      let (item, ts) ←
        if endsUnindentedEntry ts then pure (Node.empty Props.none, ts)
        else node fuel handles true false ts
      let (items, ts) ← unindentedEntries fuel handles ts
      return (item :: items, ts)
    | ts => .ok ([], ts)

def blockMembers (fuel : Nat) (handles : Handles) (ts : List Token) :
    Except Error (List (Node String × Node String) × List Token) :=
  match fuel with
  | 0 => .error .expectedKey
  | fuel + 1 =>
    match ts with
    | .key :: ts => do
      let (key, ts) ←
        if endsMappingPart ts then pure (Node.empty Props.none, ts)
        else node fuel handles true true ts
      let (value, ts) ← match ts with
        | .value :: ts =>
          if endsMappingPart ts then pure (Node.empty Props.none, ts)
          else node fuel handles true true ts
        | ts => pure (Node.empty Props.none, ts)
      let (entries, ts) ← blockMembers fuel handles ts
      return ((key, value) :: entries, ts)
    | .blockEnd :: ts => .ok ([], ts)
    | _ => .error .expectedKey

def flowItems (fuel : Nat) (handles : Handles) (first : Bool) (ts : List Token) :
    Except Error (List (Node String) × List Token) :=
  match fuel with
  | 0 => .error .expectedEntry
  | fuel + 1 =>
    match ts with
    | .flowSequenceEnd :: ts => .ok ([], ts)
    | ts => do
      let ts ← if first then pure ts else match ts with
        | .flowEntry :: ts => pure ts
        | _ => throw .expectedEntry
      match ts with
      | .flowSequenceEnd :: ts => return ([], ts)
      | .key :: ts =>
        -- Without a key the colon is passed over, so that the value is missing too.
        let (key, ts) ←
          if endsFlowItem ts || ts.head? = some .value then pure (Node.empty Props.none, ts.drop 1)
          else node fuel handles false false ts
        let (value, ts) ← match ts with
          | .value :: ts =>
            if endsFlowItem ts then pure (Node.empty Props.none, ts)
            else node fuel handles false false ts
          | ts => pure (Node.empty Props.none, ts)
        let (items, ts) ← flowItems fuel handles false ts
        return (.mapping Props.none [(key, value)] :: items, ts)
      | ts =>
        let (item, ts) ← node fuel handles false false ts
        let (items, ts) ← flowItems fuel handles false ts
        return (item :: items, ts)

def flowMembers (fuel : Nat) (handles : Handles) (first : Bool) (ts : List Token) :
    Except Error (List (Node String × Node String) × List Token) :=
  match fuel with
  | 0 => .error .expectedEntry
  | fuel + 1 =>
    match ts with
    | .flowMappingEnd :: ts => .ok ([], ts)
    | ts => do
      let ts ← if first then pure ts else match ts with
        | .flowEntry :: ts => pure ts
        | _ => throw .expectedEntry
      match ts with
      | .flowMappingEnd :: ts => return ([], ts)
      | .key :: ts =>
        let (key, ts) ←
          if endsFlowMember ts || ts.head? = some .value then pure (Node.empty Props.none, ts)
          else node fuel handles false false ts
        let (value, ts) ← match ts with
          | .value :: ts =>
            if endsFlowMember ts then pure (Node.empty Props.none, ts)
            else node fuel handles false false ts
          | ts => pure (Node.empty Props.none, ts)
        let (entries, ts) ← flowMembers fuel handles false ts
        return ((key, value) :: entries, ts)
      | ts =>
        let (key, ts) ← node fuel handles false false ts
        let (entries, ts) ← flowMembers fuel handles false ts
        return ((key, Node.empty Props.none) :: entries, ts)

end

def endsDocument : List Token → Bool
  | [] => true
  | .versionDirective .. :: _ => true
  | .tagDirective .. :: _ => true
  | .documentStart :: _ => true
  | .documentEnd :: _ => true
  | _ => false

def ofTokens (ts : List Token) : Except Error (Option (Node String)) :=
  match ts with
  | [] => .ok none
  | _ => do
    let explicit := match ts with
      | .versionDirective .. :: _ => true
      | .tagDirective .. :: _ => true
      | .documentStart :: _ => true
      | _ => false
    let (handles, ts) ← directives false [] ts
    let fuel := 2 * ts.length + 2
    let (root, ts) ←
      if explicit then
        match ts with
        | .documentStart :: ts =>
          if endsDocument ts then pure (Node.empty Props.none, ts)
          else node fuel handles true false ts
        | _ => throw .expectedDocumentStart
      else node fuel handles true false ts
    match ts with
    | [] => return some root
    | .documentEnd :: _ =>
      if ts.all (· = .documentEnd) then return some root else throw .severalDocuments
    | .documentStart :: _ => throw .severalDocuments
    | _ => throw .expectedDocumentStart

end WorkflowAudit.Yaml.Node

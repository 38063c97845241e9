import AgentOS.Chunking.Messages
import AgentOS.Lib.Links
import AgentOS.Python.Scanner

/-!
# The ChatGPT export adapter

`load_export` parses an export and makes a document of each conversation: `_linearize` follows the parents from the
current node, or else the last children from the first root, the messages on the way that have a text are chunked, and
their text is hashed.  Every field may hold a value of any type.
-/

namespace AgentOS.ChatGpt

open Py Links

/-- The items of a dict. -/
abbrev Fields := List (Str × Value)

/-- What the adapter relies on. -/
structure Host where
  limit : Nat
  float : Str → PyFloat
  table : WordTable
  /-- `str(value)` of a value that is no `str`. -/
  repr : Value → Except Error Str
  /-- `datetime.fromtimestamp(float(value), tz=timezone.utc).isoformat()`, or `None` for the exceptions that are
  caught. -/
  isoformat : Value → Option Str
  sha1 : List UInt8 → Str
  sha256 : List UInt8 → Str

/-! ### Messages -/

/-- A part that `_extract_text` keeps. -/
def textPart : Value → Option Str
  | .str part => if Py.strip part = [] then none else some part
  | _ => none

/-- `_extract_text`. -/
def extractText (message : Fields) : Str :=
  match Value.get message (lit "content") with
  | .dict content => match Value.get content (lit "parts") with
    | .list parts => Py.strip ((lit "\n").intercalate (parts.filterMap textPart))
    | _ => match Value.get content (lit "text") with
      | .str text => Py.strip text
      | _ => []
  | _ => []

/-- `value or {}`, where `get` can be called on it. -/
def fieldsOf : Value → Except Error Fields
  | .dict fields => .ok fields
  | value => if value.truthy then .error .attributeError else .ok []

/-- `(value or other).strip()`. -/
def stripped (other : Str) : Value → Except Error Str
  | .str text => .ok (Py.strip (if text = [] then other else text))
  | value => if value.truthy then .error .attributeError else .ok (Py.strip other)

/-- `_KEEP_ROLES`. -/
def keepRoles : List Str := [lit "user", lit "assistant", lit "tool"]

/-- An item of `messages`. -/
structure Turn where
  role : Str
  text : Str
  id : Str

section

variable (host : Host)

/-- `str(value)`. -/
def strOf : Value → Except Error Str
  | .str text => .ok text
  | value => host.repr value

/-- The loop of `_conversation_to_document` on one node; `none` is a node that is left out. -/
def turnOf (node : Fields) : Except Error (Option Turn) :=
  match Value.get node (lit "message") with
  | .dict message => do
    let author ← fieldsOf (Value.get message (lit "author"))
    let role ← stripped [] (Value.get author (lit "role"))
    let text := extractText message
    if role ∉ keepRoles ∨ text = [] then return none
    let id ← strOf host ((Value.get message (lit "id")).or ((Value.get node (lit "id")).or (.str [])))
    return some ⟨role, text, id⟩
  | _ => .ok none

end

private theorem ite_falsy {α : Type} (truthy : Bool) (x y : α) :
    (if truthy then x else y) = if false = true ∨ truthy = false then y else x := by
  cases truthy with
  | false => rfl
  | true => rfl

theorem fieldsOf_eq (value : Value) :
    fieldsOf value = if value.isDict ∨ value.truthy = false then .ok value.items else .error .attributeError := by
  cases value with
  | none | dict => rfl
  | bool | int | float | str | list => exact ite_falsy _ _ _

theorem stripped_eq (other : Str) (value : Value) : stripped other value =
    if value.isStr ∨ value.truthy = false then .ok (Py.strip (if value.text = [] then other else value.text))
    else .error .attributeError := by
  cases value with
  | none | str => rfl
  | bool | int | float | list | dict => exact ite_falsy _ _ _

/-- The author of a message, where there is one. -/
def authorOf (message : Fields) : Fields := (Value.get message (lit "author")).items

/-- The role of a message, where there is one. -/
def roleOf (message : Fields) : Str := Py.strip (Value.get (authorOf message) (lit "role")).text

/-- The author and the role of a message can be read. -/
structure Legible (message : Fields) : Prop where
  author : (Value.get message (lit "author")).isDict ∨ (Value.get message (lit "author")).truthy = false
  role : (Value.get (authorOf message) (lit "role")).isStr ∨ (Value.get (authorOf message) (lit "role")).truthy = false

/-- The message of a node that is kept. -/
def keptMessage (node : Fields) : Option Fields :=
  match Value.get node (lit "message") with
  | .dict message => if roleOf message ∈ keepRoles ∧ extractText message ≠ [] then some message else none
  | _ => none

/-- The id of a message, or else of its node. -/
def idOf (node message : Fields) : Value :=
  (Value.get message (lit "id")).or ((Value.get node (lit "id")).or (.str []))

/-- The loop of `_conversation_to_document` on a node whose message can be read, and on another. -/
theorem turnOf_eq (host : Host) {node message : Fields} (h : Value.get node (lit "message") = .dict message) :
    (Legible message ∧ turnOf host node = if roleOf message ∈ keepRoles ∧ extractText message ≠ [] then
      (strOf host (idOf node message)).map fun id => some ⟨roleOf message, extractText message, id⟩ else .ok none) ∨
    ¬ Legible message ∧ turnOf host node = .error .attributeError := by
  have hrole : (if (Value.get (authorOf message) (lit "role")).text = [] then []
      else (Value.get (authorOf message) (lit "role")).text) = (Value.get (authorOf message) (lit "role")).text := by
    split
    · rename_i hnil
      exact hnil.symm
    · rfl
  rw [turnOf, h]
  dsimp only
  rw [fieldsOf_eq]
  by_cases hauthor : (Value.get message (lit "author")).isDict ∨ (Value.get message (lit "author")).truthy = false
  · rw [if_pos hauthor]
    show _ ∧ (stripped [] (Value.get (authorOf message) (lit "role")) >>= _) = _ ∨
      _ ∧ (stripped [] (Value.get (authorOf message) (lit "role")) >>= _) = _
    rw [stripped_eq, hrole]
    by_cases hrole : (Value.get (authorOf message) (lit "role")).isStr ∨
        (Value.get (authorOf message) (lit "role")).truthy = false
    · rw [if_pos hrole]
      refine Or.inl ⟨⟨hauthor, hrole⟩, ?_⟩
      show (if roleOf message ∉ keepRoles ∨ extractText message = [] then _ else _) = _
      by_cases hkept : roleOf message ∈ keepRoles ∧ extractText message ≠ []
      · rw [if_pos hkept, if_neg (by simpa using hkept)]
        show (strOf host (idOf node message) >>= _) = _
        cases strOf host (idOf node message) with
        | error error => rfl
        | ok id => rfl
      · rw [if_neg hkept, if_pos (by simpa [or_iff_not_imp_left] using hkept)]
        rfl
    · refine Or.inr ⟨fun hlegible => hrole hlegible.role, ?_⟩
      rw [if_neg hrole]
      rfl
  · refine Or.inr ⟨fun hlegible => hauthor hlegible.author, ?_⟩
    rw [if_neg hauthor]
    rfl

theorem strip_extractText (message : Fields) : Py.strip (extractText message) = extractText message := by
  unfold extractText
  split
  · split
    · exact strip_strip _
    · split
      · exact strip_strip _
      · rfl
  · rfl

/-! ### The thread -/

section

variable (mapping : Fields)

/-- `node_id and node_id in mapping`: the node that is named; a list or a dict cannot be looked up. -/
def named : Value → Except Error (Option Str)
  | .str id => .ok (if id ≠ [] ∧ (mapping.lookup id).isSome then some id else none)
  | .list items => if items.isEmpty then .ok none else .error .typeError
  | .dict items => if items.isEmpty then .ok none else .error .typeError
  | _ => .ok none

/-- A node that is a dict. -/
def nodeOf (id : Str) : Option Fields :=
  match mapping.lookup id with
  | some (.dict node) => some node
  | _ => none

/-- The node that comes next in a loop that reads `reference` from each node. -/
def link (reference : Fields → Except Error Value) (id : Str) : Except Error (Option Str) :=
  match nodeOf mapping id with
  | some node => reference node >>= named mapping
  | none => .ok none

/-- A loop of `_linearize` from `start`, with a bound on its rounds. -/
def thread (rounds : Nat) (reference : Fields → Except Error Value) (start : Option Str) : Except Error (List Fields) :=
  (follow (link mapping reference) rounds [] start).map (List.filterMap (nodeOf mapping))

/-- `node.get("parent")`. -/
def parent (node : Fields) : Except Error Value := .ok (Value.get node (lit "parent"))

/-- `children[-1] if children else None`. -/
def lastChild (node : Fields) : Except Error Value :=
  match Value.get node (lit "children") with
  | .str text => .ok (text.getLast?.elim .none fun c => .str [c])
  | .list items => .ok (items.getLast?.getD .none)
  | .dict items => if items.isEmpty then .ok .none else .error .keyError
  | value => if value.truthy then .error .typeError else .ok .none

/-- A node without a parent. -/
def isRoot : Value → Bool
  | .dict node => !(Value.get node (lit "parent")).truthy
  | _ => false

/-- `roots[0]`; the mapping is not empty. -/
def firstRoot : Str :=
  let roots := (mapping.filter fun item => isRoot item.2).map Prod.fst
  ((if roots.isEmpty then mapping.map Prod.fst else roots).head?).getD []

end

/-- `_linearize` of a dict, with a bound on the rounds of its loops. -/
def linearizeWithin (rounds : Nat) (mapping : Fields) (current : Value) : Except Error (List Fields) :=
  if mapping.isEmpty then .ok []
  else do
    match ← named mapping current with
    | some id => return (← thread mapping rounds parent (some id)).reverse
    | none => thread mapping rounds lastChild (← named mapping (.str (firstRoot mapping)))

/-- `_linearize`: no loop needs more rounds than there are nodes. -/
def linearize (mapping : Value) (current : Value) : Except Error (List Fields) :=
  match mapping with
  | .dict mapping => linearizeWithin mapping.length mapping current
  | _ => .ok []

/-! ### Documents -/

/-- A chunk holds its place, its text, its roles and the ids of its messages. -/
structure SourceDocument where
  docId : Str
  title : Str
  sourceType : Str
  sourcePath : Str
  contentHash : Str
  provenance : Str
  publishedAt : Option Str
  chunks : List (Nat × MessageChunk)

/-- The text that is hashed, from the roles and texts of the messages. -/
def hashedText (messages : List (Str × Str)) : Str :=
  (lit "\n\n").intercalate (messages.map fun message => message.1 ++ lit ": " ++ message.2)

/-- `DEFAULT_TARGET_TOKENS`. -/
def defaultTargetTokens : Nat := 450

/-- `int(DEFAULT_TARGET_TOKENS * DEFAULT_OVERLAP_RATIO)`. -/
def defaultOverlap : Nat := 67

section

variable (host : Host)

/-- `sha256_text`. -/
def sha256Text (text : Str) : Except Error Str := (encodeStr text).map host.sha256

/-- `_doc_id`. -/
def docId (kind key : Str) : Except Error Str :=
  (encodeStr key).map fun data => kind ++ lit "_" ++ (host.sha1 data).take 16

/-- `_iso_from_create_time`. -/
def isoFromCreateTime (value : Value) : Option Str :=
  match value with
  | .bool _ | .int _ | .float _ => host.isoformat value
  | _ => none

/-- `conv_id`. -/
def convId (conversation : Fields) (sourcePath : Str) (index : Nat) : Except Error Str :=
  strOf host ((Value.get conversation (lit "conversation_id")).or
    ((Value.get conversation (lit "id")).or (.str (sourcePath ++ lit "#" ++ lit (toString index)))))

/-- The document of a conversation with the messages `turns`. -/
def documentOf (conversation : Fields) (sourcePath : Str) (index : Nat) (turns : List Turn) :
    Except Error (Option SourceDocument) :=
  let chunks := chunkMessages host.table defaultTargetTokens defaultOverlap
    (turns.map fun turn => ⟨some turn.role, some turn.text, some turn.id⟩)
  if turns.isEmpty ∨ chunks.isEmpty then .ok none
  else do
    let key ← convId host conversation sourcePath index
    let title ← stripped (lit "Untitled conversation") (Value.get conversation (lit "title"))
    let contentHash ← sha256Text host (hashedText (turns.map fun turn => (turn.role, turn.text)))
    let docId ← docId host (lit "cg") key
    return some {
      docId := docId
      title := if title = [] then lit "Untitled conversation" else title
      sourceType := lit "chatgpt_conversation"
      sourcePath := sourcePath
      contentHash := contentHash
      provenance := lit "uploaded"
      publishedAt := isoFromCreateTime host (Value.get conversation (lit "create_time"))
      chunks := chunks.zipIdx.map Prod.swap }

/-- `_conversation_to_document`. -/
def conversationToDocument (conversation : Fields) (sourcePath : Str) (index : Nat) :
    Except Error (Option SourceDocument) :=
  match Value.get conversation (lit "mapping") with
  | .dict mapping => do
    let nodes ← linearize (.dict mapping) (Value.get conversation (lit "current_node"))
    documentOf host conversation sourcePath index (← nodes.filterMapM (turnOf host))
  | _ => .ok none

/-- The conversations of an export. -/
def conversations : Value → List Fields
  | .dict conversation => [conversation]
  | .list items => items.filterMap fun item => match item with
    | .dict conversation => some conversation
    | _ => none
  | _ => []

/-- `load_export`. -/
def loadExport (text sourcePath : Str) : Except Error (List SourceDocument) := do
  let data ← Py.loads host.limit host.float text
  (conversations data).zipIdx.filterMapM fun item => conversationToDocument host item.1 sourcePath item.2

end

end AgentOS.ChatGpt

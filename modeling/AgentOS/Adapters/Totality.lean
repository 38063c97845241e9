import AgentOS.Adapters.ContentHash
import AgentOS.Adapters.Thread

/-!
# Exports of any content

`load_export` reads fields of any type.  It raises where a reference on the thread is a list or a dict, where an author,
a role or a title is neither empty nor what is called on it, where an id has no text, and where a text or an id cannot
be encoded; `load_export_iff` says that there is nothing else, and that one such conversation costs all documents.
-/

namespace AgentOS.ChatGpt

open Py Links

variable {host : Host}

/-! ### Messages -/

variable (host) in
/-- The message of a node can be read, and the id of one that is kept has a text. -/
def NodeLegible (node : Fields) : Prop :=
  ∀ message, Value.get node (lit "message") = .dict message → Legible message ∧
    (keptMessage node = some message → ∃ id, strOf host (idOf node message) = .ok id)

private theorem keptMessage_eq {node message : Fields} (h : Value.get node (lit "message") = .dict message) :
    keptMessage node = if roleOf message ∈ keepRoles ∧ extractText message ≠ [] then some message else none := by
  rw [keptMessage, h]

variable (host) in
private theorem turnOf_of_no_message {node : Fields} (h : ∀ message, Value.get node (lit "message") ≠ .dict message) :
    turnOf host node = .ok none ∧ keptMessage node = none := by
  unfold turnOf keptMessage
  split
  · rename_i message hmessage
    exact absurd hmessage (h message)
  · exact ⟨rfl, rfl⟩

/-- A node that can be read gives a turn just in case its message is kept, with its role and its text. -/
private theorem turnOf_spec (node : Fields) :
    ((∃ r, turnOf host node = .ok r) ↔ NodeLegible host node) ∧ ∀ r, turnOf host node = .ok r →
      r.map (fun turn => (turn.role, turn.text)) = (keptMessage node).map fun m => (roleOf m, extractText m) := by
  by_cases hmessage : ∃ message, Value.get node (lit "message") = .dict message
  · obtain ⟨message, hmessage⟩ := hmessage
    have hlegible : NodeLegible host node ↔ Legible message ∧
        (keptMessage node = some message → ∃ id, strOf host (idOf node message) = .ok id) := by
      constructor
      · exact fun h => h message hmessage
      · rintro h message' hmessage'
        cases hmessage.symm.trans hmessage'
        exact h
    rw [hlegible, keptMessage_eq hmessage]
    rcases turnOf_eq host hmessage with ⟨hread, hturn⟩ | ⟨hread, hturn⟩
    · rw [hturn]
      split
      · cases strOf host (idOf node message) with
        | error error => exact ⟨iff_of_false (by simp [Except.map]) (by simp), by simp [Except.map]⟩
        | ok id =>
          refine ⟨iff_of_true ⟨_, rfl⟩ ⟨hread, fun _ => ⟨id, rfl⟩⟩, fun r hr => ?_⟩
          obtain rfl := Except.ok.inj hr
          rfl
      · refine ⟨iff_of_true ⟨_, rfl⟩ ⟨hread, by simp⟩, fun r hr => ?_⟩
        obtain rfl := Except.ok.inj hr
        rfl
    · rw [hturn]
      exact ⟨iff_of_false (by simp) fun h => hread h.1, by simp⟩
  · obtain ⟨hturn, hkept⟩ := turnOf_of_no_message host (not_exists.1 hmessage)
    rw [hturn, hkept]
    refine ⟨iff_of_true ⟨_, rfl⟩ fun message h => absurd ⟨message, h⟩ hmessage, fun r hr => ?_⟩
    obtain rfl := Except.ok.inj hr
    rfl

/-! ### Documents -/

variable (host) in
/-- The title of a conversation is a text or empty, and its key has a text that can be encoded. -/
structure Citable (conversation : Fields) (sourcePath : Str) (index : Nat) : Prop where
  title : (Value.get conversation (lit "title")).isStr ∨ (Value.get conversation (lit "title")).truthy = false
  key : ∃ key, convId host conversation sourcePath index = .ok key ∧ Py.Encodable key

private theorem encodable_hashedText {messages : List (Str × Str)} (h : ∀ message ∈ messages, Kept message) :
    Py.Encodable (hashedText messages) ↔ ∀ message ∈ messages, Py.Encodable message.2 := by
  have hroles : keepRoles.all (fun role => (role ++ lit ": ").all fun c => !isSurrogate c) = true := by decide
  have hsep : ∀ c ∈ lit "\n\n", isSurrogate c = false := by
    intro c hc
    have hall : (lit "\n\n").all (fun c => !isSurrogate c) = true := by decide
    simpa using List.all_eq_true.1 hall c hc
  induction messages with
  | nil => exact iff_of_true (fun c hc => absurd hc List.not_mem_nil) fun m hm => absurd hm List.not_mem_nil
  | cons message messages ih =>
    obtain ⟨hfirst, hrest⟩ := List.forall_mem_cons.1 h
    have hrole : ∀ c ∈ message.1 ++ lit ": ", isSurrogate c = false := fun c hc => by
      simpa using List.all_eq_true.1 (List.all_eq_true.1 hroles _ hfirst.role) c hc
    have hmessage : Py.Encodable (message.1 ++ lit ": " ++ message.2) ↔ Py.Encodable message.2 := by
      rw [Py.Encodable, List.forall_mem_append]
      exact and_iff_right hrole
    cases messages with
    | nil =>
      rw [List.forall_mem_singleton, ← hmessage, hashedText, List.map_singleton, List.intercalate_singleton]
    | cons next messages =>
      have hcons : hashedText (message :: next :: messages) =
          message.1 ++ lit ": " ++ message.2 ++ (lit "\n\n" ++ hashedText (next :: messages)) := rfl
      have htail : Py.Encodable (lit "\n\n" ++ hashedText (next :: messages)) ↔
          Py.Encodable (hashedText (next :: messages)) := by
        rw [Py.Encodable, List.forall_mem_append]
        exact and_iff_right hsep
      rw [hcons, List.forall_mem_cons]
      exact List.forall_mem_append.trans (and_congr hmessage (htail.trans (ih hrest)))

private theorem stripped_ok_iff (other : Str) (value : Value) :
    (∃ text, stripped other value = .ok text) ↔ value.isStr ∨ value.truthy = false := by
  rw [stripped_eq]
  split
  · rename_i hread
    exact iff_of_true ⟨_, rfl⟩ hread
  · rename_i hread
    exact iff_of_false (by simp) hread

private theorem map_ok_iff {ε α β : Type} {x : Except ε α} {f : α → β} : (∃ b, x.map f = .ok b) ↔ ∃ a, x = .ok a := by
  cases x with
  | error error => simp [Except.map]
  | ok a => exact iff_of_true ⟨_, rfl⟩ ⟨_, rfl⟩

variable (host) in
/-- The chunks of messages that are kept. -/
private theorem chunks_ne_nil {turns : List Turn} (hne : turns ≠ [])
    (hkept : ∀ turn ∈ turns, Kept (turn.role, turn.text)) : chunkMessages host.table defaultTargetTokens defaultOverlap
      (turns.map fun turn => ⟨some turn.role, some turn.text, some turn.id⟩) ≠ [] := by
  obtain ⟨turn, hturn⟩ := List.exists_mem_of_ne_nil turns hne
  refine chunkMessages_ne_nil host.table defaultOverlap (by decide) (List.mem_map_of_mem hturn) ?_
  show Py.strip turn.text ≠ []
  rw [(hkept turn hturn).stripped]
  exact (hkept turn hturn).text

/-- A conversation with messages has a document just in case what is hashed and what is cited have texts. -/
private theorem documentOf_ok_iff {conversation : Fields} {sourcePath : Str} {index : Nat} {turns : List Turn}
    (hkept : ∀ turn ∈ turns, Kept (turn.role, turn.text)) :
    (∃ doc, documentOf host conversation sourcePath index turns = .ok doc) ↔
      ∀ turn ∈ turns, Py.Encodable turn.text ∧ Citable host conversation sourcePath index := by
  by_cases hne : turns = []
  · subst hne
    exact iff_of_true ⟨none, rfl⟩ fun turn hturn => absurd hturn List.not_mem_nil
  · have hchunks := chunks_ne_nil host hne hkept
    have htexts : Py.Encodable (hashedText (turns.map fun turn => (turn.role, turn.text))) ↔
        ∀ turn ∈ turns, Py.Encodable turn.text := by
      rw [encodable_hashedText (by rwa [List.forall_mem_map]), List.forall_mem_map]
    rw [documentOf, if_neg (by simpa using ⟨hne, hchunks⟩)]
    constructor
    · rintro ⟨doc, h⟩
      obtain ⟨key, hkey, h⟩ := Except.bind_eq_ok.1 h
      obtain ⟨title, htitle, h⟩ := Except.bind_eq_ok.1 h
      obtain ⟨contentHash, hhash, h⟩ := Except.bind_eq_ok.1 h
      obtain ⟨id, hid, -⟩ := Except.bind_eq_ok.1 h
      have hcited : Citable host conversation sourcePath index :=
        ⟨(stripped_ok_iff _ _).1 ⟨title, htitle⟩, key, hkey, encodeStr_ok_iff.1 (map_ok_iff.1 ⟨id, hid⟩)⟩
      intro turn hturn
      exact ⟨htexts.1 (encodeStr_ok_iff.1 (map_ok_iff.1 ⟨contentHash, hhash⟩)) turn hturn, hcited⟩
    · intro h
      obtain ⟨turn, hturn⟩ := List.exists_mem_of_ne_nil turns hne
      obtain ⟨htitle, key, hkey, hencodable⟩ := (h turn hturn).2
      obtain ⟨title, htitle⟩ := (stripped_ok_iff (lit "Untitled conversation") _).2 htitle
      obtain ⟨contentHash, hhash⟩ := map_ok_iff.2 (encodeStr_ok_iff.2 (htexts.2 fun turn hturn => (h turn hturn).1))
      obtain ⟨id, hid⟩ := map_ok_iff.2 (encodeStr_ok_iff.2 hencodable)
      exact ⟨_, Except.bind_eq_ok.2 ⟨key, hkey, Except.bind_eq_ok.2 ⟨title, htitle,
        Except.bind_eq_ok.2 ⟨contentHash, hhash, Except.bind_eq_ok.2 ⟨id, hid, rfl⟩⟩⟩⟩⟩

/-! ### Conversations -/

variable (host) in
/-- What the adapter needs of a conversation: that its thread can be walked, that the messages on it can be read, and
that those which are kept can be hashed and cited. -/
structure Tolerable (conversation : Fields) (sourcePath : Str) (index : Nat) (mapping : Fields) : Prop where
  walkable : Walkable mapping (Value.get conversation (lit "current_node"))
  legible : ∀ id, OnThread mapping (Value.get conversation (lit "current_node")) id → ∀ node,
    nodeOf mapping id = some node → NodeLegible host node
  kept : ∀ id, OnThread mapping (Value.get conversation (lit "current_node")) id → ∀ node, nodeOf mapping id =
    some node → ∀ message, keptMessage node = some message →
      Py.Encodable (extractText message) ∧ Citable host conversation sourcePath index

variable (host) in
/-- A conversation without a dict of nodes is left out, whatever else it holds. -/
def Readable (conversation : Fields) (sourcePath : Str) (index : Nat) : Prop :=
  ∀ mapping, Value.get conversation (lit "mapping") = .dict mapping →
    Tolerable host conversation sourcePath index mapping

/-- The turns are the messages that are kept. -/
private theorem turns_spec {nodes : List Fields} {turns : List Turn} (h : nodes.filterMapM (turnOf host) = .ok turns) :
    turns.map (fun turn => (turn.role, turn.text)) =
      (nodes.filterMap keptMessage).map fun message => (roleOf message, extractText message) := by
  rw [List.map_filterMap]
  exact Except.filterMapM_map h fun node _ r hr => (turnOf_spec node).2 r hr

private theorem kept_of_keptMessage {node message : Fields} (h : keptMessage node = some message) :
    Kept (roleOf message, extractText message) := by
  unfold keptMessage at h
  split at h
  · split at h
    · rename_i hkept
      obtain rfl := Option.some.inj h
      exact ⟨hkept.1, hkept.2, strip_extractText _⟩
    · cases h
  · cases h

private theorem document_of_nodes_ok_iff {conversation : Fields} {sourcePath : Str} {index : Nat}
    (nodes : List Fields) :
    (∃ doc, (nodes.filterMapM (turnOf host) >>= documentOf host conversation sourcePath index) = .ok doc) ↔
      (∀ node ∈ nodes, NodeLegible host node) ∧ ∀ node ∈ nodes, ∀ message, keptMessage node = some message →
        Py.Encodable (extractText message) ∧ Citable host conversation sourcePath index := by
  have hread : (∃ turns, nodes.filterMapM (turnOf host) = .ok turns) ↔ ∀ node ∈ nodes, NodeLegible host node :=
    Except.filterMapM_ok_iff.trans (forall₂_congr fun node _ => (turnOf_spec node).1)
  have hdocument : ∀ turns, nodes.filterMapM (turnOf host) = .ok turns →
      ((∃ doc, documentOf host conversation sourcePath index turns = .ok doc) ↔ ∀ node ∈ nodes, ∀ message,
        keptMessage node = some message → Py.Encodable (extractText message) ∧
        Citable host conversation sourcePath index) := by
    intro turns hturns
    have hspec := turns_spec hturns
    have hkept : ∀ turn ∈ turns, Kept (turn.role, turn.text) := by
      intro turn hturn
      have hmem := List.mem_map_of_mem (f := fun turn : Turn => (turn.role, turn.text)) hturn
      rw [hspec, List.mem_map] at hmem
      obtain ⟨message, hmessage, heq⟩ := hmem
      obtain ⟨node, -, hnode⟩ := List.mem_filterMap.1 hmessage
      exact heq ▸ kept_of_keptMessage hnode
    have htexts : turns.map Turn.text = (nodes.filterMap keptMessage).map extractText := by
      have htexts := congrArg (List.map Prod.snd) hspec
      rwa [List.map_map, List.map_map] at htexts
    rw [documentOf_ok_iff hkept]
    calc (∀ turn ∈ turns, Py.Encodable turn.text ∧ Citable host conversation sourcePath index)
      _ ↔ ∀ text ∈ turns.map Turn.text, Py.Encodable text ∧ Citable host conversation sourcePath index :=
        by rw [List.forall_mem_map]
      _ ↔ ∀ message ∈ nodes.filterMap keptMessage, Py.Encodable (extractText message) ∧
          Citable host conversation sourcePath index := by rw [htexts, List.forall_mem_map]
      _ ↔ _ := by
        simp only [List.mem_filterMap, forall_exists_index, and_imp]
        exact ⟨fun h node hnode message hmessage => h message node hnode hmessage,
          fun h message node hnode hmessage => h node hnode message hmessage⟩
  rw [← hread]
  constructor
  · rintro ⟨doc, h⟩
    obtain ⟨turns, hturns, h⟩ := Except.bind_eq_ok.1 h
    exact ⟨⟨turns, hturns⟩, (hdocument turns hturns).1 ⟨doc, h⟩⟩
  · rintro ⟨⟨turns, hturns⟩, h⟩
    obtain ⟨doc, hdoc⟩ := (hdocument turns hturns).2 h
    exact ⟨doc, Except.bind_eq_ok.2 ⟨turns, hturns, hdoc⟩⟩

/-- The nodes that the walk returns are those of the thread. -/
private theorem forall_thread {mapping : Fields} {current : Value} {nodes : List Fields}
    (h : linearize (.dict mapping) current = .ok nodes) (p : Fields → Prop) :
    (∀ node ∈ nodes, p node) ↔ ∀ id, OnThread mapping current id → ∀ node, nodeOf mapping id = some node → p node := by
  obtain ⟨ids, -, hmem, rfl⟩ := linearizeWithin_nodes le_rfl h
  simp only [List.mem_filterMap, forall_exists_index, and_imp, hmem]
  exact ⟨fun h id hid node hnode => h node id hid hnode, fun h node id hid hnode => h id hid node hnode⟩

theorem conversationToDocument_ok_iff {conversation : Fields} {sourcePath : Str} {index : Nat} :
    (∃ doc, conversationToDocument host conversation sourcePath index = .ok doc) ↔
      Readable host conversation sourcePath index := by
  by_cases hmapping : ∃ mapping, Value.get conversation (lit "mapping") = .dict mapping
  · obtain ⟨mapping, hmapping⟩ := hmapping
    have hreadable : Readable host conversation sourcePath index ↔
        Tolerable host conversation sourcePath index mapping := by
      constructor
      · exact fun h => h mapping hmapping
      · rintro h mapping' hmapping'
        cases hmapping.symm.trans hmapping'
        exact h
    have hwalk : (∃ nodes, linearize (.dict mapping) (Value.get conversation (lit "current_node")) = .ok nodes) ↔
        Walkable mapping (Value.get conversation (lit "current_node")) := linearizeWithin_ok_iff le_rfl _
    rw [hreadable, conversationToDocument, hmapping]
    dsimp only
    constructor
    · rintro ⟨doc, h⟩
      obtain ⟨nodes, hnodes, h⟩ := Except.bind_eq_ok.1 h
      obtain ⟨hlegible, hkept⟩ := (document_of_nodes_ok_iff nodes).1 ⟨doc, h⟩
      exact ⟨hwalk.1 ⟨nodes, hnodes⟩, (forall_thread hnodes _).1 hlegible, (forall_thread hnodes _).1 hkept⟩
    · rintro ⟨hwalkable, hlegible, hkept⟩
      obtain ⟨nodes, hnodes⟩ := hwalk.2 hwalkable
      obtain ⟨doc, hdoc⟩ := (document_of_nodes_ok_iff nodes).2
        ⟨(forall_thread hnodes _).2 hlegible, (forall_thread hnodes _).2 hkept⟩
      exact ⟨doc, Except.bind_eq_ok.2 ⟨nodes, hnodes, hdoc⟩⟩
  · refine iff_of_true ⟨none, ?_⟩ fun mapping h => absurd ⟨mapping, h⟩ hmapping
    unfold conversationToDocument
    split
    · rename_i mapping h
      exact absurd ⟨mapping, h⟩ hmapping
    · rfl

/-! ### The export -/

variable (host) in
/-- The export gives documents, among them that of every conversation that has one of its own. -/
def Isolating (text sourcePath : Str) : Prop :=
  ∃ docs, loadExport host text sourcePath = .ok docs ∧ ∀ data, Py.loads host.limit host.float text = .ok data →
    ∀ item ∈ (conversations data).zipIdx, ∀ doc,
      conversationToDocument host item.1 sourcePath item.2 = .ok (some doc) → doc ∈ docs

private theorem isolating_iff (text sourcePath : Str) : Isolating host text sourcePath ↔
    ∃ data, Py.loads host.limit host.float text = .ok data ∧
      ∀ item ∈ (conversations data).zipIdx, Readable host item.1 sourcePath item.2 := by
  constructor
  · rintro ⟨docs, h, -⟩
    obtain ⟨data, hdata, h⟩ := Except.bind_eq_ok.1 h
    have hall := Except.filterMapM_ok_iff.1 ⟨docs, h⟩
    exact ⟨data, hdata, fun item hitem => conversationToDocument_ok_iff.1 (hall item hitem)⟩
  · rintro ⟨data, hdata, h⟩
    obtain ⟨docs, hdocs⟩ := Except.filterMapM_ok_iff.2
      fun item hitem => conversationToDocument_ok_iff.2 (h item hitem)
    refine ⟨docs, Except.bind_eq_ok.2 ⟨data, hdata, hdocs⟩, fun data' hdata' item hitem doc hdoc => ?_⟩
    obtain rfl := Except.ok.inj (hdata.symm.trans hdata')
    have hcollected : docs.map id = (conversations data).zipIdx.filterMap fun item =>
        (conversationToDocument host item.1 sourcePath item.2).toOption.join := by
      refine Except.filterMapM_map hdocs fun item _ b hb => ?_
      rw [hb, Option.map_id]
      rfl
    rw [List.map_id] at hcollected
    rw [hcollected]
    exact List.mem_filterMap.2 ⟨item, hitem, by rw [hdoc]; rfl⟩

/-- An export that the parser reads gives its documents just in case every conversation is readable; the walk of a
thread ends, fails just in case it comes to a reference that cannot be looked up, repeats no node, and returns a chain
of parents with the root first. -/
theorem load_export_iff (host : Host) (text sourcePath : Str) :
    (Isolating host text sourcePath ↔ ∃ data, Py.loads host.limit host.float text = .ok data ∧
      ∀ item ∈ (conversations data).zipIdx, Readable host item.1 sourcePath item.2) ∧
    ∀ (mapping : Fields) (current : Value),
      (∀ more, linearizeWithin (mapping.length + more) mapping current = linearize (.dict mapping) current) ∧
      ((∃ nodes, linearize (.dict mapping) current = .ok nodes) ↔ Walkable mapping current) ∧
      (∀ nodes, linearize (.dict mapping) current = .ok nodes → ∃ ids : List Str, ids.Nodup ∧
        (∀ id, id ∈ ids ↔ OnThread mapping current id) ∧ nodes = ids.filterMap (nodeOf mapping)) ∧
      ∀ id nodes, current = .str id → id ≠ [] → ParentChain mapping id nodes →
        linearize (.dict mapping) current = .ok nodes := by
  refine ⟨isolating_iff text sourcePath, fun mapping current => ?_⟩
  refine ⟨linearizeWithin_rounds mapping current, linearizeWithin_ok_iff le_rfl current,
    fun nodes => linearizeWithin_nodes le_rfl, ?_⟩
  rintro id nodes rfl hid hchain
  exact linearize_parentChain hid hchain

/-- A host for small exports. -/
def asciiHost : Host where
  limit := 1000
  float _ := .nan
  table := asciiWords
  repr _ := .ok []
  isoformat _ := none
  sha1 _ := []
  sha256 _ := []

/-- A conversation of one message. -/
def greeting : Str :=
  lit "\x7b\"mapping\": \x7b\"a\": \x7b\"message\": \x7b\"author\": \x7b\"role\": \"user\"\x7d, " ++
    lit "\"content\": \x7b\"parts\": [\"hi\"]\x7d\x7d\x7d\x7d\x7d"

/-- A conversation whose message has an author that is no object. -/
def anonymous : Str := lit "\x7b\"mapping\": \x7b\"b\": \x7b\"message\": \x7b\"author\": \"x\"\x7d\x7d\x7d\x7d"

/-- The second conversation removes the document of the first. -/
theorem load_export_loses : (loadExport asciiHost (lit "[" ++ greeting ++ lit "]") (lit "e")).toOption.map List.length =
      some 1 ∧
    (Py.loads asciiHost.limit asciiHost.float
      (lit "[" ++ greeting ++ lit ", " ++ anonymous ++ lit "]")).toOption.isSome ∧
    ¬ Isolating asciiHost (lit "[" ++ greeting ++ lit ", " ++ anonymous ++ lit "]") (lit "e") := by
  refine ⟨by decide +kernel, by decide +kernel, ?_⟩
  rintro ⟨docs, h, -⟩
  have hnone :
      (loadExport asciiHost (lit "[" ++ greeting ++ lit ", " ++ anonymous ++ lit "]") (lit "e")).toOption.isNone =
        true := by decide +kernel
  rw [h] at hnone
  cases hnone

end AgentOS.ChatGpt

import AgentOS.Adapters.ChatGpt
import AgentOS.Lib.Fold

/-!
# The thread of a conversation

The walk of `_linearize` along the parents, or along the last children, of arbitrary nodes.

* `linearizeWithin_ok_iff`: it fails just in case it comes to a reference that cannot be looked up.
* `linearizeWithin_nodes`: otherwise it returns the nodes of the thread, each once.
* `linearizeWithin_rounds`: it ends.
* `linearize_parentChain`: a chain of parents is returned with the root first.
-/

namespace AgentOS.ChatGpt

open Py Links

variable {mapping : Fields}

/-! ### References -/

/-- A reference that can be looked up, or is not looked up because it is empty. -/
def usable : Value → Bool
  | .list items => items.isEmpty
  | .dict items => items.isEmpty
  | _ => true

/-- Children of which the last can be read and looked up. -/
def usableChildren : Value → Bool
  | .str _ => true
  | .list items => items.getLast?.all usable
  | children => !children.truthy

/-- The node that a reference names. -/
def namedId (mapping : Fields) : Value → Option Str
  | .str id => if id ≠ [] ∧ (mapping.lookup id).isSome then some id else none
  | _ => none

theorem named_eq (mapping : Fields) (value : Value) :
    named mapping value = if usable value then .ok (namedId mapping value) else .error .typeError := by
  cases value with
  | none | bool | int | float | str => rfl
  | list items | dict items => rfl

theorem mem_keys_of_namedId {value : Value} {id : Str} (h : namedId mapping value = some id) :
    id ∈ mapping.map Prod.fst := by
  cases value with
  | str text =>
    rw [namedId] at h
    split at h
    · rename_i hnamed
      obtain rfl := Option.some.inj h
      obtain ⟨node, hnode, hkey⟩ := List.lookup_isSome_iff.1 hnamed.2
      exact List.mem_map.2 ⟨node, hnode, (eq_of_beq hkey).symm⟩
    · cases h
  | none | bool | int | float | list | dict => cases h

private theorem scalar_ok_iff (truthy : Bool) : (∃ value, (if truthy then Except.error Error.typeError
    else Except.ok Value.none) = Except.ok value ∧ usable value = true) ↔ (!truthy) = true := by
  cases truthy with
  | false => exact iff_of_true ⟨_, rfl, rfl⟩ rfl
  | true => simp

theorem lastChild_ok_iff (node : Fields) : (∃ value, lastChild node = .ok value ∧ usable value = true) ↔
    usableChildren (Value.get node (lit "children")) = true := by
  unfold lastChild
  cases Value.get node (lit "children") with
  | str text =>
    refine iff_of_true ⟨_, rfl, ?_⟩ rfl
    cases text.getLast? with
    | none => rfl
    | some c => rfl
  | list items =>
    rw [usableChildren]
    cases hlast : items.getLast? with
    | none => exact iff_of_true ⟨_, rfl, by rw [hlast]; rfl⟩ rfl
    | some child => simp [hlast]
  | dict items =>
    cases items with
    | nil => exact iff_of_true ⟨_, rfl, rfl⟩ rfl
    | cons item items => exact iff_of_false (by simp) (by simp [usableChildren, Value.truthy])
  | none => exact iff_of_true ⟨_, rfl, rfl⟩ rfl
  | bool | int | float => exact scalar_ok_iff _

/-- The reference that a loop reads. -/
def reference (parents : Bool) : Fields → Except Error Value := if parents then parent else lastChild

/-- The reference of a node can be looked up. -/
def usableReference (parents : Bool) (node : Fields) : Bool :=
  if parents then usable (Value.get node (lit "parent")) else usableChildren (Value.get node (lit "children"))

private theorem reference_ok_iff (parents : Bool) (node : Fields) :
    (∃ value, reference parents node = .ok value ∧ usable value = true) ↔ usableReference parents node = true := by
  cases parents with
  | false => exact lastChild_ok_iff node
  | true =>
    constructor
    · rintro ⟨value, hvalue, husable⟩
      obtain rfl := Except.ok.inj hvalue
      exact husable
    · exact fun husable => ⟨_, rfl, husable⟩

theorem link_ok_iff (parents : Bool) (id : Str) : (∃ r, link mapping (reference parents) id = .ok r) ↔
    ∀ node, nodeOf mapping id = some node → usableReference parents node = true := by
  rw [link]
  cases nodeOf mapping id with
  | none =>
    refine iff_of_true ⟨_, rfl⟩ ?_
    rintro node ⟨⟩
  | some node =>
    simp only [Option.some.injEq, forall_eq', ← reference_ok_iff]
    constructor
    · rintro ⟨r, hr⟩
      obtain ⟨value, hvalue, hnamed⟩ := Except.bind_eq_ok.1 hr
      rw [named_eq] at hnamed
      split at hnamed
      · rename_i husable
        exact ⟨value, hvalue, husable⟩
      · cases hnamed
    · rintro ⟨value, hvalue, husable⟩
      exact ⟨namedId mapping value, Except.bind_eq_ok.2 ⟨value, hvalue,
        (named_eq mapping value).trans (if_pos husable)⟩⟩

variable (mapping) in
theorem link_inside (parents : Bool) : Inside (link mapping (reference parents)) (mapping.map Prod.fst) := by
  intro a b hab
  rw [link] at hab
  split at hab
  · obtain ⟨value, -, hnamed⟩ := Except.bind_eq_ok.1 hab
    rw [named_eq] at hnamed
    split at hnamed
    · exact mem_keys_of_namedId (Except.ok.inj hnamed)
    · cases hnamed
  · cases hab

/-! ### The walk -/

/-- Whether the loop follows the parents: the current node names a node. -/
def followsParents (mapping : Fields) (current : Value) : Bool := (namedId mapping current).isSome

/-- Where the loop starts: at the current node, or else at the first root. -/
def threadStart (mapping : Fields) (current : Value) : Option Str :=
  (namedId mapping current).or (namedId mapping (.str (firstRoot mapping)))

/-- The references lead to the node of `id`. -/
def OnThread (mapping : Fields) (current : Value) (id : Str) : Prop :=
  ∃ start, threadStart mapping current = some start ∧
    Reaches (link mapping (reference (followsParents mapping current))) start id

/-- The current node can be looked up, and so can the references of the nodes of the thread. -/
structure Walkable (mapping : Fields) (current : Value) : Prop where
  start : mapping ≠ [] → usable current = true
  next : ∀ id, OnThread mapping current id → ∀ node, nodeOf mapping id = some node →
    usableReference (followsParents mapping current) node = true

private theorem firstRoot_usable : usable (.str (firstRoot mapping)) = true := rfl

/-- Both loops as one. -/
private theorem linearizeWithin_eq (rounds : Nat) {mapping : Fields} (hne : mapping ≠ []) {current : Value}
    (husable : usable current = true) : linearizeWithin rounds mapping current =
      (thread mapping rounds (reference (followsParents mapping current)) (threadStart mapping current)).map
        (if followsParents mapping current then List.reverse else id) := by
  have hempty : ¬ mapping.isEmpty = true := by simpa using hne
  have hcurrent : named mapping current = .ok (namedId mapping current) :=
    (named_eq mapping current).trans (if_pos husable)
  have hroot : named mapping (.str (firstRoot mapping)) = .ok (namedId mapping (.str (firstRoot mapping))) :=
    (named_eq mapping _).trans (if_pos firstRoot_usable)
  rw [linearizeWithin, if_neg hempty, hcurrent, followsParents, threadStart]
  cases namedId mapping current with
  | some start =>
    show (thread mapping rounds parent (some start) >>= _) =
      (thread mapping rounds parent (some start)).map List.reverse
    cases thread mapping rounds parent (some start) with
    | error error => rfl
    | ok nodes => rfl
  | none =>
    dsimp only [bind, Except.bind]
    rw [hroot]
    exact (congrFun Except.map_id _).symm

private theorem linearizeWithin_unusable (rounds : Nat) {mapping : Fields} (hne : mapping ≠ []) {current : Value}
    (hunusable : ¬ usable current = true) : linearizeWithin rounds mapping current = .error .typeError := by
  rw [linearizeWithin, if_neg (by simpa using hne), named_eq, if_neg hunusable]
  rfl

private theorem threadStart_mem {current : Value} {start : Str} (h : threadStart mapping current = some start) :
    start ∈ mapping.map Prod.fst := by
  rcases Option.or_eq_some_iff.1 h with h | ⟨-, h⟩
  · exact mem_keys_of_namedId h
  · exact mem_keys_of_namedId h

private theorem thread_ok {rounds : Nat} {parents : Bool} {start : Option Str} {nodes : List Fields} :
    thread mapping rounds (reference parents) start = .ok nodes ↔
      ∃ ids, follow (link mapping (reference parents)) rounds [] start = .ok ids ∧
      nodes = ids.filterMap (nodeOf mapping) := by
  rw [thread]
  cases follow (link mapping (reference parents)) rounds [] start with
  | error error => exact iff_of_false (fun h => by cases h) (by simp)
  | ok ids =>
    constructor
    · exact fun h => ⟨ids, rfl, (Except.ok.inj h).symm⟩
    · rintro ⟨ids', hids, rfl⟩
      rw [Except.ok.inj hids]
      rfl

/-- A walk of a thread with enough rounds. -/
private theorem thread_spec {rounds : Nat} (hrounds : mapping.length ≤ rounds) (current : Value) :
    ((∃ nodes, thread mapping rounds (reference (followsParents mapping current)) (threadStart mapping current) =
        .ok nodes) ↔ ∀ id, OnThread mapping current id → ∀ node, nodeOf mapping id = some node →
          usableReference (followsParents mapping current) node = true) ∧
      ∀ nodes, thread mapping rounds (reference (followsParents mapping current)) (threadStart mapping current) =
        .ok nodes → ∃ ids : List Str, ids.Nodup ∧ (∀ id, id ∈ ids ↔ OnThread mapping current id) ∧
          nodes = ids.filterMap (nodeOf mapping) := by
  have hkeys : (mapping.map Prod.fst).length ≤ rounds := by rwa [List.length_map]
  have hinside := link_inside mapping (followsParents mapping current)
  cases hstart : threadStart mapping current with
  | none =>
    have hoff : ∀ id, ¬ OnThread mapping current id := by
      rintro id ⟨start, hsome, -⟩
      cases hstart.symm.trans hsome
    have hthread : thread mapping rounds (reference (followsParents mapping current)) none = .ok [] := by
      rw [thread, follow_none]
      rfl
    refine ⟨iff_of_true ⟨[], hthread⟩ fun id hid => absurd hid (hoff id), fun nodes hnodes => ?_⟩
    obtain rfl := Except.ok.inj (hthread.symm.trans hnodes)
    exact ⟨[], List.nodup_nil, fun id => iff_of_false List.not_mem_nil (hoff id), rfl⟩
  | some start =>
    have hmem := threadStart_mem hstart
    have honThread : ∀ id, OnThread mapping current id ↔
        Reaches (link mapping (reference (followsParents mapping current))) start id := by
      intro id
      constructor
      · rintro ⟨start', hsome, hreaches⟩
        obtain rfl := Option.some.inj (hstart.symm.trans hsome)
        exact hreaches
      · exact fun hreaches => ⟨start, hstart, hreaches⟩
    constructor
    · calc (∃ nodes, thread mapping rounds (reference (followsParents mapping current)) (some start) = .ok nodes)
        _ ↔ ∃ ids, follow (link mapping (reference (followsParents mapping current))) rounds [] (some start) =
            .ok ids := by
          constructor
          · rintro ⟨nodes, hnodes⟩
            obtain ⟨ids, hids, -⟩ := thread_ok.1 hnodes
            exact ⟨ids, hids⟩
          · rintro ⟨ids, hids⟩
            exact ⟨_, thread_ok.2 ⟨ids, hids, rfl⟩⟩
        _ ↔ _ := by
          rw [follow_ok_iff hinside hmem hkeys]
          exact forall_congr' fun id => imp_congr (honThread id).symm (link_ok_iff _ id)
    · intro nodes hnodes
      obtain ⟨ids, hids, rfl⟩ := thread_ok.1 hnodes
      exact ⟨ids, (follow_nodup hids).1,
        fun id => (mem_follow_iff hinside hmem hkeys hids).trans (honThread id).symm, rfl⟩

theorem linearizeWithin_ok_iff {rounds : Nat} (hrounds : mapping.length ≤ rounds) (current : Value) :
    (∃ nodes, linearizeWithin rounds mapping current = .ok nodes) ↔ Walkable mapping current := by
  by_cases hne : mapping = []
  · subst hne
    refine iff_of_true ⟨[], rfl⟩ ⟨fun h => absurd rfl h, fun id _ node hnode => ?_⟩
    cases hnode
  · by_cases husable : usable current = true
    · have hmap : ∀ x : Except Error (List Fields), (∃ nodes, x.map (if followsParents mapping current then List.reverse
          else id) = .ok nodes) ↔ ∃ nodes, x = .ok nodes := by
        intro x
        cases x with
        | error error => simp [Except.map]
        | ok nodes => exact iff_of_true ⟨_, rfl⟩ ⟨_, rfl⟩
      rw [linearizeWithin_eq rounds hne husable, hmap, (thread_spec hrounds current).1]
      exact ⟨fun h => ⟨fun _ => husable, h⟩, fun h => h.next⟩
    · rw [linearizeWithin_unusable rounds hne husable]
      exact iff_of_false (by simp) fun h => husable (h.start hne)

/-- Each node of the thread is returned once. -/
theorem linearizeWithin_nodes {rounds : Nat} (hrounds : mapping.length ≤ rounds) {current : Value}
    {nodes : List Fields} (h : linearizeWithin rounds mapping current = .ok nodes) : ∃ ids : List Str,
      ids.Nodup ∧ (∀ id, id ∈ ids ↔ OnThread mapping current id) ∧ nodes = ids.filterMap (nodeOf mapping) := by
  by_cases hne : mapping = []
  · subst hne
    obtain rfl := Except.ok.inj h
    refine ⟨[], List.nodup_nil, fun id => iff_of_false List.not_mem_nil ?_, rfl⟩
    rintro ⟨start, hstart, -⟩
    exact absurd (threadStart_mem hstart) List.not_mem_nil
  · have husable : usable current = true := ((linearizeWithin_ok_iff hrounds current).1 ⟨nodes, h⟩).start hne
    rw [linearizeWithin_eq rounds hne husable] at h
    cases hthread : thread mapping rounds (reference (followsParents mapping current)) (threadStart mapping current) with
    | error error =>
      rw [hthread] at h
      cases h
    | ok found =>
      rw [hthread] at h
      obtain rfl := Except.ok.inj h
      obtain ⟨ids, hnodup, hmem, rfl⟩ := (thread_spec hrounds current).2 found hthread
      by_cases hparents : followsParents mapping current = true
      · rw [if_pos hparents]
        refine ⟨ids.reverse, List.nodup_reverse.2 hnodup, fun id => List.mem_reverse.trans (hmem id), ?_⟩
        exact List.filterMap_reverse.symm
      · rw [if_neg hparents]
        exact ⟨ids, hnodup, hmem, rfl⟩

/-- The loops end: more rounds change nothing. -/
theorem linearizeWithin_rounds (mapping : Fields) (current : Value) (more : Nat) :
    linearizeWithin (mapping.length + more) mapping current = linearizeWithin mapping.length mapping current := by
  by_cases hne : mapping = []
  · subst hne
    rfl
  · by_cases husable : usable current = true
    · have hkeys : (mapping.map Prod.fst).length ≤ mapping.length := by rw [List.length_map]
      have hstart : ∀ start ∈ threadStart mapping current, start ∈ mapping.map Prod.fst :=
        fun start hstart => threadStart_mem hstart
      have hfollow :=
        follow_rounds (link_inside mapping (followsParents mapping current)) hstart (Enough.init hkeys) more
      rw [linearizeWithin_eq _ hne husable, linearizeWithin_eq _ hne husable, thread, hfollow]
      rfl
    · rw [linearizeWithin_unusable _ hne husable, linearizeWithin_unusable _ hne husable]

/-! ### Chains of parents -/

/-- The nodes from a root, which has no parent, to the node of an id. -/
inductive ParentChain (mapping : Fields) : Str → List Fields → Prop where
  | root {id : Str} {node : Fields} : nodeOf mapping id = some node →
      (Value.get node (lit "parent")).truthy = false → ParentChain mapping id [node]
  | child {id parent : Str} {node : Fields} {nodes : List Fields} : nodeOf mapping id = some node →
      Value.get node (lit "parent") = .str parent → parent ≠ [] → ParentChain mapping parent nodes →
      ParentChain mapping id (nodes ++ [node])

theorem ParentChain.nodeOf_eq {id : Str} {nodes : List Fields} (h : ParentChain mapping id nodes) :
    ∃ node, nodeOf mapping id = some node := by
  cases h with
  | root hnode _ => exact ⟨_, hnode⟩
  | child hnode _ _ _ => exact ⟨_, hnode⟩

private theorem isSome_lookup {id : Str} {node : Fields} (h : nodeOf mapping id = some node) :
    (mapping.lookup id).isSome = true := by
  unfold nodeOf at h
  split at h
  · rename_i hlookup
    rw [hlookup]
    rfl
  · cases h

private theorem named_falsy {value : Value} (h : value.truthy = false) : named mapping value = .ok none := by
  cases value with
  | str id =>
    have hnil : id = [] := by simpa [Value.truthy] using h
    rw [named, if_neg (by simp [hnil])]
  | list items | dict items =>
    have hnil : items.isEmpty = true := by simpa [Value.truthy] using h
    rw [named, if_pos hnil]
  | none | bool | int | float => rfl

private theorem ParentChain.path {id : Str} {nodes : List Fields} (h : ParentChain mapping id nodes) :
    ∃ ids, Links.Path (link mapping parent) id ids ∧ nodes = (ids.filterMap (nodeOf mapping)).reverse := by
  induction h with
  | @root id node hnode hparent =>
    refine ⟨[id], Path.last ?_, ?_⟩
    · rw [link, hnode]
      exact named_falsy hparent
    · rw [List.filterMap_cons_some hnode]
      rfl
  | @child id parent node nodes hnode hparent hne hchain ih =>
    obtain ⟨ids, hpath, rfl⟩ := ih
    obtain ⟨next, hnext⟩ := hchain.nodeOf_eq
    refine ⟨id :: ids, Path.cons ?_ hpath, ?_⟩
    · rw [link, hnode]
      show named mapping (Value.get node (lit "parent")) = _
      rw [hparent, named, if_pos ⟨hne, isSome_lookup hnext⟩]
    · rw [List.filterMap_cons_some hnode, List.reverse_cons]

/-- A chain of parents that ends in the current node is returned with the root first. -/
theorem linearize_parentChain {id : Str} (hid : id ≠ []) {nodes : List Fields} (h : ParentChain mapping id nodes) :
    linearize (.dict mapping) (.str id) = .ok nodes := by
  obtain ⟨node, hnode⟩ := h.nodeOf_eq
  obtain ⟨ids, hpath, rfl⟩ := h.path
  have hnamed : namedId mapping (.str id) = some id := if_pos ⟨hid, isSome_lookup hnode⟩
  have hne : mapping ≠ [] := by
    rintro rfl
    cases hnode
  have hfollow := follow_path (link_inside mapping true) (mem_keys_of_namedId hnamed)
    (by rw [List.length_map]) hpath
  have hparents : followsParents mapping (.str id) = true := by rw [followsParents, hnamed]; rfl
  rw [linearize, linearizeWithin_eq _ hne rfl, hparents, threadStart, hnamed]
  show (thread mapping mapping.length (reference true) (some id)).map List.reverse = _
  rw [thread_ok.2 ⟨ids, hfollow, rfl⟩]
  rfl

end AgentOS.ChatGpt
